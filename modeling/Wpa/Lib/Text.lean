import Mathlib.Data.List.TakeWhile

/-! Strings, and searches in them as `strchr` and `strstr` make them. What is found is given by the
rest of the string from there on. -/

namespace Lib.Text
variable {α : Type*} {p : α → Bool} {c : α} {a b s t rest pat : List α}

theorem takeWhile_cut (hc : p c = false) : (t ++ c :: rest).takeWhile p = t.takeWhile p := by
  induction t with
  | nil => exact List.takeWhile_cons_of_neg (by rw [hc]; exact Bool.false_ne_true)
  | cons x t ih => rw [List.cons_append, List.takeWhile_cons, List.takeWhile_cons, ih]

theorem dropWhile_cut (hc : p c = false) :
    (t ++ c :: rest).dropWhile p = t.dropWhile p ++ c :: rest := by
  induction t with
  | nil => exact List.dropWhile_cons_of_neg (by rw [hc]; exact Bool.false_ne_true)
  | cons x t ih =>
    rw [List.cons_append, List.dropWhile_cons, List.dropWhile_cons, ih]
    split <;> rfl

section Search
variable [DecidableEq α]

/-- `strchr`. -/
def strchr (c : α) (s : List α) : Option (List α) :=
  match s.dropWhile (· ≠ c) with
  | [] => none
  | t => some t

/-- `strstr`. -/
def strstr (pat : List α) : List α → Option (List α)
  | [] => if pat.isPrefixOf [] then some [] else none
  | x :: s => if pat.isPrefixOf (x :: s) then some (x :: s) else strstr pat s

theorem takeWhile_ne (ha : c ∉ a) : (a ++ c :: b).takeWhile (· ≠ c) = a := by
  rw [takeWhile_cut (by simp), List.takeWhile_eq_self_iff]
  intro x hx
  have hne : x ≠ c := fun heq => ha (heq ▸ hx)
  exact decide_eq_true hne

theorem dropWhile_ne (ha : c ∉ a) : (a ++ c :: b).dropWhile (· ≠ c) = c :: b := by
  have hsplit := List.takeWhile_append_dropWhile (p := (· ≠ c)) (l := a ++ c :: b)
  rw [takeWhile_ne ha] at hsplit
  exact List.append_cancel_left hsplit

/-- A string is cut at the first `c` in one way. -/
theorem cut_inj {a' b' : List α} (ha : c ∉ a) (ha' : c ∉ a') (h : a ++ c :: b = a' ++ c :: b') :
    a = a' ∧ b = b' := by
  have htake := congrArg (List.takeWhile (· ≠ c)) h
  rw [takeWhile_ne ha, takeWhile_ne ha'] at htake
  subst htake
  exact ⟨rfl, (List.cons.inj (List.append_cancel_left h)).2⟩

theorem strchr_cut (ha : c ∉ a) : strchr c (a ++ c :: b) = some (c :: b) := by
  rw [strchr, dropWhile_ne ha]

theorem strchr_cases (c : α) (s : List α) :
    (strchr c s = none ∧ c ∉ s) ∨ ∃ a b, c ∉ a ∧ s = a ++ c :: b ∧ strchr c s = some (c :: b) := by
  by_cases hc : c ∈ s
  · obtain ⟨a, b, hs, ha⟩ := List.eq_append_cons_of_mem hc
    exact .inr ⟨a, b, ha, hs, hs ▸ strchr_cut ha⟩
  · have hnil : s.dropWhile (· ≠ c) = [] := by
      rw [List.dropWhile_eq_nil_iff]
      intro x hx
      have hne : x ≠ c := fun heq => hc (heq ▸ hx)
      exact decide_eq_true hne
    exact .inl ⟨by rw [strchr, hnil], hc⟩

theorem strchr_skip (ha : c ∉ a) : strchr c (a ++ s) = strchr c s := by
  have hdrop : (a ++ s).dropWhile (· ≠ c) = s.dropWhile (· ≠ c) := by
    refine List.dropWhile_append_of_pos ?_
    intro x hx
    have hne : x ≠ c := fun heq => ha (heq ▸ hx)
    exact decide_eq_true hne
  rw [strchr, strchr, hdrop]

/-- The character that is found first has neither in front of it. -/
theorem strchr_before {d : α} (hc : strchr c s = some t)
    (hd : ∀ u, strchr d s = some u → u.length < t.length) :
    ∃ a b, c ∉ a ∧ d ∉ a ∧ s = a ++ c :: b ∧ t = c :: b := by
  obtain ⟨hnone, -⟩ | ⟨a, b, ha, hs, hsome⟩ := strchr_cases c s
  · rw [hnone] at hc
    cases hc
  · rw [hsome] at hc
    cases hc
    refine ⟨a, b, ha, ?_, hs, rfl⟩
    intro hmem
    obtain ⟨a₁, a₂, rfl, ha₁⟩ := List.eq_append_cons_of_mem hmem
    rw [List.append_assoc, List.cons_append] at hs
    have hlt := hd _ (hs ▸ strchr_cut ha₁)
    simp only [List.length_cons, List.length_append] at hlt
    omega

theorem strstr_of_isPrefixOf (h : pat <+: s) : strstr pat s = some s := by
  have hpre := List.isPrefixOf_iff_prefix.mpr h
  cases s with
  | nil => rw [strstr, if_pos hpre]
  | cons x s => rw [strstr, if_pos hpre]

theorem strstr_some (h : strstr pat s = some t) : pat <+: t ∧ t <:+ s := by
  induction s with
  | nil =>
    rw [strstr] at h
    split at h
    · rename_i hpre
      cases h
      exact ⟨List.isPrefixOf_iff_prefix.mp hpre, List.suffix_rfl⟩
    · cases h
  | cons x s ih =>
    rw [strstr] at h
    split at h
    · rename_i hpre
      cases h
      exact ⟨List.isPrefixOf_iff_prefix.mp hpre, List.suffix_rfl⟩
    · exact ⟨(ih h).1, (ih h).2.trans (List.suffix_cons x s)⟩

/-- What does not hold the first character of the pattern is passed. -/
theorem strstr_skip (ha : c ∉ a) : strstr (c :: pat) (a ++ s) = strstr (c :: pat) s := by
  induction a with
  | nil => rfl
  | cons x a ih =>
    have hne : ¬ (c :: pat).isPrefixOf (x :: (a ++ s)) := by
      rw [List.isPrefixOf_iff_prefix, List.cons_prefix_cons]
      intro h
      exact ha (h.1 ▸ List.mem_cons_self)
    rw [List.cons_append, strstr, if_neg hne]
    exact ih fun hmem => ha (List.mem_cons_of_mem x hmem)

end Search

end Lib.Text
