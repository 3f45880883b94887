import Mathlib.Algebra.Order.Ring.Int
import Mathlib.Data.List.Sort
import Mathlib.Data.List.Perm.Basic
import Mathlib.Data.List.Perm.Subperm

/-! Lists of entries that expire, kept in the order in which they expire, and the one timer that
is armed from the first of them. The remaining time is computed in seconds and truncated to a
32-bit `int` before the timer is armed. -/

namespace Lib.Expiry

def secondsLeft (expiration now : ℕ) : ℕ :=
  (Int.bmod ((expiration : ℤ) - now) (2 ^ 32)).toNat

def deadline (expiration now : ℕ) : ℕ := now + (secondsLeft expiration now + 1)

/-- The truncation never makes the timer late, an entry that is already past always does. -/
theorem deadline_le_iff {expiration now : ℕ} :
    deadline expiration now ≤ expiration + 1 ↔ now ≤ expiration := by
  constructor
  · intro h
    unfold deadline at h
    omega
  · intro h
    have hb : Int.bmod ((expiration : ℤ) - now) (2 ^ 32) ≤ (expiration : ℤ) - now := by
      rw [Int.bmod_def]
      split <;> omega
    unfold deadline secondsLeft
    omega

variable {α : Type} (exp : α → ℕ)

/-- Earlier entries expire no later. -/
def Ordered (l : List α) : Prop := l.Pairwise fun a b => exp a ≤ exp b

/-- A timer is pending and fires within a second of every expiration. -/
def Timely (l : List α) (timer : Option ℕ) : Prop :=
  l ≠ [] → ∃ t, timer = some t ∧ ∀ e ∈ l, t ≤ exp e + 1

/-- The timer armed from the first entry, replacing the one that was pending. -/
def arm (now : ℕ) (l : List α) : Option ℕ := l.head?.map fun e => deadline (exp e) now

/-- Insertion in front of the first entry that expires strictly later. -/
def insertBefore (a : α) (l : List α) : List α := l.orderedInsert (fun a b => exp a < exp b) a

theorem insertBefore_perm (a : α) (l : List α) : (insertBefore exp a l).Perm (a :: l) :=
  List.perm_orderedInsert _ a l

variable {exp}

theorem Ordered.sublist {l l' : List α} (h : Ordered exp l) (hs : l'.Sublist l) :
    Ordered exp l' :=
  List.Pairwise.sublist hs h

theorem Ordered.cons_iff {a : α} {l : List α} :
    Ordered exp (a :: l) ↔ (∀ e ∈ l, exp a ≤ exp e) ∧ Ordered exp l :=
  List.pairwise_cons

@[simp] theorem timely_nil (timer : Option ℕ) : Timely exp [] timer := fun h => absurd rfl h

theorem Timely.subset {l l' : List α} {timer : Option ℕ} (h : Timely exp l timer)
    (hs : l' ⊆ l) : Timely exp l' timer := by
  intro hne
  obtain ⟨e, he⟩ := List.exists_mem_of_ne_nil l' hne
  obtain ⟨t, ht, hle⟩ := h (List.ne_nil_of_mem (hs he))
  exact ⟨t, ht, fun e he => hle e (hs he)⟩

theorem timely_arm_iff {l : List α} (ho : Ordered exp l) {now : ℕ} :
    Timely exp l (arm exp now l) ↔ ∀ e ∈ l, now ≤ exp e := by
  cases l with
  | nil => simp
  | cons a l =>
    have hle : ∀ e ∈ a :: l, exp a ≤ exp e := by
      intro e he
      rcases List.mem_cons.mp he with rfl | he
      · exact le_rfl
      · exact (Ordered.cons_iff.mp ho).1 e he
    constructor
    · intro h e he
      obtain ⟨t, ht, hbound⟩ := h (List.cons_ne_nil a l)
      obtain rfl : deadline (exp a) now = t := Option.some.inj ht
      have hfirst := deadline_le_iff.mp (hbound a (List.mem_cons_self ..))
      exact hfirst.trans (hle e he)
    · intro h _
      refine ⟨_, rfl, fun e he => ?_⟩
      have hfirst := deadline_le_iff.mpr (h a (List.mem_cons_self ..))
      exact hfirst.trans (Nat.succ_le_succ (hle e he))

theorem mem_insertBefore {a b : α} {l : List α} : b ∈ insertBefore exp a l ↔ b = a ∨ b ∈ l := by
  rw [(insertBefore_perm exp a l).mem_iff, List.mem_cons]

@[simp] theorem length_insertBefore (a : α) (l : List α) :
    (insertBefore exp a l).length = l.length + 1 :=
  (insertBefore_perm exp a l).length_eq

theorem Ordered.insertBefore {l : List α} (ho : Ordered exp l) (a : α) :
    Ordered exp (insertBefore exp a l) := by
  induction l with
  | nil => exact List.pairwise_singleton _ a
  | cons b l ih =>
    obtain ⟨hb, hl⟩ := Ordered.cons_iff.mp ho
    unfold Expiry.insertBefore
    rw [List.orderedInsert_cons]
    split
    · rename_i hlt
      refine Ordered.cons_iff.mpr ⟨fun e he => ?_, ho⟩
      rcases List.mem_cons.mp he with rfl | he
      · exact hlt.le
      · exact hlt.le.trans (hb e he)
    · rename_i hnlt
      refine Ordered.cons_iff.mpr ⟨fun e he => ?_, ih hl⟩
      rcases mem_insertBefore.mp he with rfl | he
      · exact not_lt.mp hnlt
      · exact hb e he

/-- What fits between two parts of an ordered list. -/
theorem ordered_insert_iff {l₁ l₂ : List α} (ho : Ordered exp (l₁ ++ l₂)) (a : α) :
    Ordered exp (l₁ ++ a :: l₂) ↔ (∀ e ∈ l₁, exp e ≤ exp a) ∧ ∀ e ∈ l₂, exp a ≤ exp e := by
  obtain ⟨h₁, h₂, h₁₂⟩ := List.pairwise_append.mp ho
  constructor
  · intro h
    obtain ⟨-, ha, hcross⟩ := List.pairwise_append.mp h
    exact ⟨fun e he => hcross e he a (List.mem_cons_self ..), (List.pairwise_cons.mp ha).1⟩
  · rintro ⟨hbefore, hafter⟩
    refine List.pairwise_append.mpr ⟨h₁, List.pairwise_cons.mpr ⟨hafter, h₂⟩, ?_⟩
    intro e he b hb
    rcases List.mem_cons.mp hb with rfl | hb
    · exact hbefore e he
    · exact h₁₂ e he b hb

/-- Where the insertion puts the new entry. -/
theorem insertBefore_split {l : List α} (ho : Ordered exp l) (a : α) :
    ∃ l₁ l₂, l = l₁ ++ l₂ ∧ insertBefore exp a l = l₁ ++ a :: l₂ ∧
      (∀ e ∈ l₁, exp e ≤ exp a) ∧ ∀ e ∈ l₂, exp a < exp e := by
  induction l with
  | nil => exact ⟨[], [], rfl, rfl, by simp, by simp⟩
  | cons b l ih =>
    obtain ⟨hb, hl⟩ := Ordered.cons_iff.mp ho
    unfold Expiry.insertBefore
    rw [List.orderedInsert_cons]
    split
    · rename_i hlt
      refine ⟨[], b :: l, rfl, rfl, by simp, fun e he => ?_⟩
      rcases List.mem_cons.mp he with rfl | he
      · exact hlt
      · exact hlt.trans_le (hb e he)
    · rename_i hnlt
      obtain ⟨l₁, l₂, rfl, hins, hle, hgt⟩ := ih hl
      refine ⟨b :: l₁, l₂, rfl, ?_, fun e he => ?_, hgt⟩
      · rw [List.cons_append, ← hins]
        rfl
      · rcases List.mem_cons.mp he with rfl | he
        · exact not_lt.mp hnlt
        · exact hle e he

end Lib.Expiry
