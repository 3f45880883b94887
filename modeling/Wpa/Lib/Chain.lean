import Mathlib.Order.Lattice
import Wpa.Lib.Heap

/-! Chains of objects that point to one another, each to the next one, and a list in strictly
decreasing order. -/

namespace Lib

section Chain
variable {next next' : Ptr → Option Ptr} {p q : Ptr} {l : List Ptr}

/-- Each member points to the one behind it, and the last one to nothing. -/
def Linked (next : Ptr → Option Ptr) : List Ptr → Prop
  | [] => True
  | [p] => next p = none
  | p :: q :: rest => next p = some q ∧ Linked next (q :: rest)

/-- The last object behind `p`, after at most so many steps. -/
def chainEnd (next : Ptr → Option Ptr) : ℕ → Ptr → Ptr
  | 0, p => p
  | fuel + 1, p =>
    match next p with
    | none => p
    | some q => chainEnd next fuel q

theorem Linked.congr (h : Linked next l) (heq : ∀ p ∈ l, next' p = next p) : Linked next' l := by
  induction l with
  | nil => trivial
  | cons p l ih =>
    obtain ⟨hp, hl⟩ := List.forall_mem_cons.mp heq
    cases l with
    | nil => exact hp.trans h
    | cons q l => exact ⟨hp.trans h.1, ih h.2 hl⟩

/-- The walk ends at the last member. -/
theorem Linked.chainEnd_eq (h : Linked next (p :: l)) {fuel : ℕ} (hfuel : l.length ≤ fuel) :
    some (chainEnd next fuel p) = (p :: l).getLast? := by
  induction l generalizing p fuel with
  | nil =>
    have hnone : next p = none := h
    cases fuel with
    | zero => rfl
    | succ fuel => rw [chainEnd, hnone, List.getLast?_singleton]
  | cons q l ih =>
    obtain ⟨hp, hrest⟩ := h
    cases fuel with
    | zero => exact absurd hfuel (Nat.not_succ_le_zero _)
    | succ fuel =>
      rw [chainEnd, hp, List.getLast?_cons_cons]
      exact ih hrest (Nat.le_of_succ_le_succ hfuel)

/-- A new object behind the last one. -/
theorem Linked.concat (h : Linked next l) (hq : next' q = none)
    (hlast : ∀ p ∈ l.getLast?, next' p = some q)
    (hother : ∀ p ∈ l, p ∉ l.getLast? → next' p = next p) (hl : l.Nodup) :
    Linked next' (l ++ [q]) := by
  induction l with
  | nil => exact hq
  | cons p l ih =>
    obtain ⟨hp, hl⟩ := List.nodup_cons.mp hl
    cases l with
    | nil => exact ⟨hlast p rfl, hq⟩
    | cons r l =>
      rw [List.getLast?_cons_cons] at hlast hother
      have hpr : next' p = some r := by
        rw [hother p (List.mem_cons_self ..) fun hmem => hp (List.mem_of_getLast? hmem)]
        exact h.1
      exact ⟨hpr, ih h.2 hlast (fun s hs => hother s (List.mem_cons_of_mem p hs)) hl⟩

end Chain

section Decreasing
variable {α : Type*} [LinearOrder α] {a : α} {ks : List α}

/-- A new member goes in front of the first smaller one. -/
def insertDecreasing (a : α) (ks : List α) : List α :=
  let i := ks.findIdx (· < a)
  ks.take i ++ a :: ks.drop i

theorem mem_insertDecreasing {k : α} : k ∈ insertDecreasing a ks ↔ k = a ∨ k ∈ ks := by
  rw [insertDecreasing, List.mem_append, List.mem_cons, or_left_comm, ← List.mem_append,
    List.take_append_drop]

theorem insertDecreasing_pairwise (h : ks.Pairwise (· > ·)) (ha : a ∉ ks) :
    (insertDecreasing a ks).Pairwise (· > ·) := by
  induction ks with
  | nil => exact List.pairwise_singleton _ _
  | cons k ks ih =>
    obtain ⟨hk, hks⟩ := List.pairwise_cons.mp h
    obtain ⟨hne, hrest⟩ := not_or.mp (mt List.mem_cons.mpr ha)
    by_cases hlt : k < a
    · have hfirst : insertDecreasing a (k :: ks) = a :: k :: ks := by
        simp [insertDecreasing, List.findIdx_cons, hlt]
      rw [hfirst]
      refine List.pairwise_cons.mpr ⟨fun m hm => ?_, h⟩
      rcases List.mem_cons.mp hm with rfl | hm
      · exact hlt
      · exact gt_trans hlt (hk m hm)
    · have hlater : insertDecreasing a (k :: ks) = k :: insertDecreasing a ks := by
        simp [insertDecreasing, List.findIdx_cons, hlt]
      rw [hlater]
      refine List.pairwise_cons.mpr ⟨fun m hm => ?_, ih hks hrest⟩
      rcases mem_insertDecreasing.mp hm with rfl | hm
      · exact lt_of_le_of_ne (not_lt.mp hlt) hne
      · exact hk m hm

end Decreasing
end Lib
