import Mathlib.Data.List.TakeWhile
import Wpa.Bss.Structure

/-! What `wpa_bss_flush_by_age` leaves in the table: its loop ends at the first entry that is in
time, and its cut-off time is a difference of 64-bit words. -/

namespace Wpa.BssTable
open Lib

section TakeWhile
variable {α : Type*} {P : α → Bool} {l : List α}

/-- A scan that ends where `P` first fails misses nothing exactly if `P` never holds again. -/
theorem takeWhile_exact_iff (h : l.Nodup) :
    (∀ x ∈ l, x ∈ l.takeWhile P ↔ P x = true) ↔ l.Pairwise fun a b => P b = true → P a = true := by
  induction l with
  | nil => exact iff_of_true (fun x hx => by cases hx) .nil
  | cons a l ih =>
    obtain ⟨ha, hl⟩ := List.nodup_cons.mp h
    rw [List.pairwise_cons, List.takeWhile_cons, ← ih hl]
    cases hPa : P a with
    | true =>
      simp only [if_true, implies_true, true_and]
      constructor
      · intro hall x hx
        have hne : x ≠ a := ne_of_mem_of_not_mem hx ha
        rw [← hall x (List.mem_cons_of_mem a hx), List.mem_cons, or_iff_right hne]
      · intro hall x hx
        rcases List.mem_cons.mp hx with rfl | hx
        · exact iff_of_true (List.mem_cons_self ..) hPa
        · have hne : x ≠ a := ne_of_mem_of_not_mem hx ha
          rw [← hall x hx, List.mem_cons, or_iff_right hne]
    | false =>
      simp only [Bool.false_eq_true, if_false, List.not_mem_nil, false_iff, imp_false]
      constructor
      · intro hall
        have hnone := fun x hx => hall x (List.mem_cons_of_mem a hx)
        exact ⟨hnone, fun x hx => iff_of_false
          (fun hmem => hnone x hx (List.mem_takeWhile_imp hmem)) (hnone x hx)⟩
      · rintro ⟨hnone, -⟩ x hx
        rcases List.mem_cons.mp hx with rfl | hx
        · simp [hPa]
        · exact hnone x hx

end TakeWhile

/-- The time from which on an entry is in time for the code. -/
def cutOff (age : ℤ) (now : Reltime) : Reltime := ⟨now.sec - UInt64.ofInt age, now.usec⟩

/-- The entry was updated more than `age` seconds before `now`. -/
def stale (s : St) (age : ℤ) (now : Reltime) (p : Ptr) : Bool :=
  let t := (s.entry p).lastUpdate
  (t.sec.toNat : ℤ) < now.sec.toNat - age ∨
    ((t.sec.toNat : ℤ) = now.sec.toNat - age ∧ t.usec.toNat < now.usec.toNat)

/-- The entries that may be removed, in the order of the list. -/
def removable (s : St) : List Ptr := s.bss.filter fun p => !bssInUse s p

/-- Exactly the entries that are in use or not stale are left. -/
def FlushesExactly (s : St) (age : ℤ) (now : Reltime) : Prop :=
  ∀ p, p ∈ (flushByAge s age now).bss ↔
    p ∈ s.bss ∧ (bssInUse s p = true ∨ stale s age now p = false)

/-- If the clock has run for at least `age`, no stale entry is behind one that is not; else the first
entry is in time for the cut-off time, which has wrapped around. Entries in use do not count. -/
def InOrder (s : St) (age : ℤ) (now : Reltime) : Prop :=
  if age ≤ now.sec.toNat then
    (removable s).Pairwise fun p q => stale s age now q = true → stale s age now p = true
  else ∀ p ∈ (removable s).head?, (s.entry p).lastUpdate.before (cutOff age now) = false

section Flush
variable {s : St} {p q : Ptr}

theorem bssInUse_bssRemove (huse : ¬ bssInUse s p = true) (hne : q ≠ p) :
    bssInUse (bssRemove s p) q = bssInUse s q := by
  have hcurrent : ∀ c ∈ s.currentBss, (bssRemove s p).entry c = s.entry c :=
    fun c hc => entry_bssRemove s p c (ne_of_not_inUse huse hc)
  have hentry := entry_bssRemove s p q hne
  unfold bssInUse
  rw [hentry, show (bssRemove s p).currentBss = s.currentBss from rfl]
  cases hcur : s.currentBss with
  | none => rfl
  | some c =>
    simp only [Option.any_some, hcurrent c hcur]
    rfl

/-- The loop removes what `old` marks up to the first entry that it does not mark. -/
theorem mem_flushByAgeFrom (t : Reltime) (use old : Ptr → Bool) (l : List Ptr) (h : Inv s)
    (hl : l.Nodup) (hmem : l ⊆ s.bss) (huse : ∀ p ∈ l, bssInUse s p = use p)
    (hold : ∀ p ∈ l, (s.entry p).lastUpdate.before t = old p) :
    q ∈ (flushByAgeFrom t l s).bss ↔
      q ∈ s.bss ∧ q ∉ (l.filter fun p => !use p).takeWhile old := by
  induction l generalizing s with
  | nil => simp [flushByAgeFrom]
  | cons p l ih =>
    obtain ⟨hp, hl⟩ := List.nodup_cons.mp hl
    obtain ⟨hpmem, hrest⟩ := List.cons_subset.mp hmem
    obtain ⟨hpuse, huse⟩ := List.forall_mem_cons.mp huse
    obtain ⟨hpold, hold⟩ := List.forall_mem_cons.mp hold
    rw [flushByAgeFrom, hpuse, hpold]
    cases hu : use p with
    | true =>
      rw [if_pos rfl, ih h hl hrest huse hold, List.filter_cons_of_neg (by simp [hu])]
    | false =>
      rw [if_neg Bool.false_ne_true, List.filter_cons_of_pos (by simp [hu]), List.takeWhile_cons]
      cases hold' : old p with
      | false => simp
      | true =>
        have hnot : ¬ bssInUse s p = true := by rw [hpuse, hu]; exact Bool.false_ne_true
        have hne : ∀ r ∈ l, r ≠ p := fun r hr heq => hp (heq ▸ hr)
        obtain ⟨hshrinks, -⟩ := removed_of_not_inUse h hnot hpmem
        rw [if_pos rfl, if_pos rfl, ih hshrinks.inv hl
          (fun r hr => (mem_bssRemove h).mpr ⟨hne r hr, hrest hr⟩)
          (fun r hr => (bssInUse_bssRemove hnot (hne r hr)).trans (huse r hr))
          (fun r hr => by rw [entry_bssRemove s p r (hne r hr), hold r hr]),
          mem_bssRemove h, List.mem_cons, not_or]
        tauto

/-- The cut-off time is right if the clock has run for long enough. -/
theorem before_cutOff {age : ℤ} {now : Reltime} (hpos : 0 ≤ age) (hage : age ≤ now.sec.toNat) :
    (s.entry p).lastUpdate.before (cutOff age now) = stale s age now p := by
  have hlt := now.sec.toNat_lt
  have hofInt : (UInt64.ofInt age).toNat = age.toNat := by
    rw [UInt64.ofInt, UInt64.toNat_ofNat']
    omega
  have hsec : ((now.sec - UInt64.ofInt age).toNat : ℤ) = now.sec.toNat - age := by
    rw [UInt64.toNat_sub, hofInt]
    omega
  rw [Bool.eq_iff_iff, Reltime.before_eq_true, stale, decide_eq_true_eq, ← hsec]
  simp only [cutOff]
  omega

/-- Before the clock has run for `age` seconds nothing is stale. -/
theorem stale_eq_false {age : ℤ} {now : Reltime} (hage : ¬ age ≤ now.sec.toNat) :
    stale s age now p = false := by
  rw [stale, decide_eq_false_iff_not]
  omega

theorem flushesExactly_iff (h : Inv s) {age : ℤ} (hpos : 0 ≤ age) (now : Reltime) :
    FlushesExactly s age now ↔ InOrder s age now := by
  have hleft (q : Ptr) := mem_flushByAgeFrom (q := q) (cutOff age now) (bssInUse s)
    (fun p => (s.entry p).lastUpdate.before (cutOff age now)) s.bss h h.nodup (fun _ hp => hp)
    (fun _ _ => rfl) fun _ _ => rfl
  have hnodup : (removable s).Nodup := h.nodup.filter _
  have hexact : FlushesExactly s age now ↔ ∀ p ∈ removable s,
      p ∈ (removable s).takeWhile (fun p => (s.entry p).lastUpdate.before (cutOff age now)) ↔
        stale s age now p = true := by
    constructor
    · intro hall p hp
      obtain ⟨hmem, huse⟩ := List.mem_filter.mp hp
      have hiff := (hleft p).symm.trans (hall p)
      rw [and_iff_right hmem, and_iff_right hmem, or_iff_right (by simpa using huse)] at hiff
      rw [← not_iff_not, Bool.not_eq_true]
      exact hiff
    · intro hall p
      refine (hleft p).trans (and_congr_right fun hmem => ?_)
      cases huse : bssInUse s p with
      | true =>
        refine iff_of_true (fun hp => ?_) (.inl rfl)
        have hnot := (List.mem_filter.mp (List.takeWhile_subset _ hp)).2
        simp [huse] at hnot
      | false =>
        have hp : p ∈ removable s := List.mem_filter.mpr ⟨hmem, by rw [huse]; rfl⟩
        rw [or_iff_right Bool.false_ne_true, ← Bool.not_eq_true, not_iff_not]
        exact hall p hp
  rw [hexact, InOrder]
  split
  · rename_i hage
    simp only [before_cutOff hpos hage]
    exact takeWhile_exact_iff hnodup
  · rename_i hage
    simp only [stale_eq_false hage, Bool.false_eq_true, iff_false]
    -- nothing may be removed, so the scan has to end at its first entry
    cases removable s with
    | nil => simp
    | cons a l =>
      simp only [List.head?_cons, Option.mem_def, Option.some.injEq, forall_eq']
      constructor
      · intro hnone
        by_contra hbefore
        refine hnone a (List.mem_cons_self ..) ?_
        rw [List.takeWhile_cons, if_pos (by simpa using hbefore)]
        exact List.mem_cons_self ..
      · intro hbefore p _
        rw [List.takeWhile_cons, hbefore]
        exact List.not_mem_nil

end Flush

theorem run_inv (attrs : Attrs) (env : Env) (inputs : List Input) :
    Inv (Runs.final (step attrs) (init env) inputs) := by
  refine Runs.history_induction (I := fun _ s => Inv s) (p := fun _ _ => True) (init_inv env) ?_
    inputs fun _ _ => trivial
  intro past s i h _
  exact (step_grows attrs h i).inv

/-- In a table that any run leads to, exactly the stale entries are removed if and only if the list
is in the order that the loop relies on. -/
theorem flushByAge_exact_iff (attrs : Attrs) (env : Env) (inputs : List Input) (age : ℤ)
    (hage : 0 ≤ age) (now : Reltime) :
    FlushesExactly (Runs.final (step attrs) (init env) inputs) age now ↔
      InOrder (Runs.final (step attrs) (init env) inputs) age now :=
  flushesExactly_iff (run_inv attrs env inputs) hage now

/-- An access point that is found so many seconds after the start, and was heard so many
milliseconds before. -/
def agedScan (i : UInt8) (sec : UInt64) (ageMs : ℕ) : Input :=
  .scanRes { exampleRes i with age := ageMs } ⟨sec, 0⟩ exampleMemory

/-- The one that was heard long ago is found first. -/
def staleFirst : List Input := [agedScan 1 200 100000, agedScan 2 200 0]

theorem staleFirst_flushed :
    FlushesExactly (Runs.final (step exampleAttrs) (init exampleEnv) staleFirst) 10 ⟨200, 0⟩ := by
  refine (flushByAge_exact_iff exampleAttrs exampleEnv staleFirst 10 (by decide) ⟨200, 0⟩).mpr ?_
  rw [InOrder]
  decide

/-- The entry that was heard long ago is kept behind one that was just heard; and five seconds after
the start an entry is removed for being older than ten seconds. -/
theorem staleLast_kept :
    ¬ FlushesExactly (Runs.final (step exampleAttrs) (init exampleEnv)
        [agedScan 1 200 0, agedScan 2 200 100000]) 10 ⟨200, 0⟩ ∧
      ¬ FlushesExactly (Runs.final (step exampleAttrs) (init exampleEnv) [agedScan 1 5 0])
        10 ⟨5, 0⟩ := by
  constructor
  · intro h
    exact absurd (h 1) (by decide)
  · intro h
    exact absurd (h 0) (by decide)

end Wpa.BssTable
