import Mathlib.Algebra.Order.Ring.Int
import Mathlib.Data.Nat.Find
import Mathlib.Logic.Function.Basic

/-! Bits in memory, addressed by their distance from the first word of a bitmap: also before it and
behind it, as pointer arithmetic allows. -/

namespace Lib

/-- The 32-bit words around a bitmap, whose first word is at zero. -/
abbrev Words := ℤ → BitVec 32

namespace Words

/-- The word that holds a bit, and the place of the bit in it. -/
def wordOf (i : ℤ) : ℤ := i / 32

def placeOf (i : ℤ) : ℕ := (i % 32).toNat

def maskOf (i : ℤ) : BitVec 32 := 1#32 <<< placeOf i

def get (m : Words) (i : ℤ) : Bool := m (wordOf i) &&& maskOf i ≠ 0#32

def set (m : Words) (i : ℤ) : Words :=
  Function.update m (wordOf i) (m (wordOf i) ||| maskOf i)

def reset (m : Words) (i : ℤ) : Words :=
  Function.update m (wordOf i) (m (wordOf i) &&& ~~~maskOf i)

variable {m : Words} {i j : ℤ}

theorem placeOf_lt (i : ℤ) : placeOf i < 32 := by
  unfold placeOf
  omega

theorem eq_of_word_place (hword : wordOf i = wordOf j) (hplace : placeOf i = placeOf j) : i = j := by
  unfold wordOf placeOf at *
  omega

theorem getLsbD_maskOf (i : ℤ) (k : ℕ) : (maskOf i).getLsbD k = decide (k = placeOf i) := by
  have hlt := placeOf_lt i
  rw [maskOf, BitVec.getLsbD_shiftLeft, BitVec.getLsbD_one]
  by_cases hk : k = placeOf i
  · simp [hk, hlt]
  · simp [hk]
    omega

/-- Masking a word tests one bit. -/
theorem get_eq (m : Words) (i : ℤ) : m.get i = (m (wordOf i)).getLsbD (placeOf i) := by
  unfold get
  cases hbit : (m (wordOf i)).getLsbD (placeOf i) with
  | false =>
    rw [decide_eq_false_iff_not, not_not]
    apply BitVec.eq_of_getLsbD_eq
    intro k _
    rw [BitVec.getLsbD_and, getLsbD_maskOf, BitVec.getLsbD_zero]
    by_cases hk : k = placeOf i
    · rw [hk, hbit, Bool.false_and]
    · rw [decide_eq_false hk, Bool.and_false]
  | true =>
    rw [decide_eq_true_eq]
    intro hzero
    have hmasked := congrArg (BitVec.getLsbD · (placeOf i)) hzero
    simp only [BitVec.getLsbD_and, getLsbD_maskOf, hbit, BitVec.getLsbD_zero, decide_true,
      Bool.and_true] at hmasked
    cases hmasked

theorem get_set (m : Words) (i j : ℤ) : (m.set i).get j = (decide (j = i) || m.get j) := by
  rw [get_eq, get_eq, set]
  by_cases hword : wordOf j = wordOf i
  · rw [hword, Function.update_self, BitVec.getLsbD_or, getLsbD_maskOf, Bool.or_comm]
    congr 1
    apply decide_eq_decide.mpr
    exact ⟨fun h => eq_of_word_place hword h, fun h => congrArg placeOf h⟩
  · rw [Function.update_of_ne hword]
    have hne : j ≠ i := fun h => hword (congrArg wordOf h)
    rw [decide_eq_false hne, Bool.false_or]

theorem get_reset (m : Words) (i j : ℤ) : (m.reset i).get j = (!decide (j = i) && m.get j) := by
  rw [get_eq, get_eq, reset]
  by_cases hword : wordOf j = wordOf i
  · rw [hword, Function.update_self, BitVec.getLsbD_and, BitVec.getLsbD_not, getLsbD_maskOf,
      Bool.and_comm, decide_eq_true (placeOf_lt j), Bool.true_and]
    congr 2
    apply decide_eq_decide.mpr
    exact ⟨fun h => eq_of_word_place hword h, fun h => congrArg placeOf h⟩
  · rw [Function.update_of_ne hword]
    have hne : j ≠ i := fun h => hword (congrArg wordOf h)
    rw [decide_eq_false hne, Bool.not_false, Bool.true_and]

/-- A bit of a word, by the number of the word and the place. -/
theorem get_word (m : Words) (w : ℤ) {k : ℕ} (hk : k < 32) :
    m.get (32 * w + k) = (m w).getLsbD k := by
  have hword : wordOf (32 * w + k) = w := by
    unfold wordOf
    omega
  have hplace : placeOf (32 * w + k) = k := by
    unfold placeOf
    omega
  rw [get_eq, hword, hplace]

end Words

section FindFirst

/-- The shifting loop that looks for the lowest bit, with a bound on the number of shifts. -/
def ffsFrom : ℕ → BitVec 32 → ℕ → ℕ
  | 0, _, bit => bit
  | shifts + 1, mask, bit =>
    if mask &&& 1#32 ≠ 0#32 then bit else ffsFrom shifts (mask.sshiftRight 1) (bit + 1)

/-- One more than the place of the lowest bit, or zero. -/
def ffs (mask : BitVec 32) : ℕ := if mask = 0#32 then 0 else ffsFrom 32 mask 1

theorem and_one_ne_zero (mask : BitVec 32) : mask &&& 1#32 ≠ 0#32 ↔ mask.getLsbD 0 = true := by
  have hget : Words.get (fun _ => mask) 0 = mask.getLsbD 0 := Words.get_eq (fun _ => mask) 0
  rw [← hget, Words.get, decide_eq_true_eq]
  rfl

theorem ffsFrom_eq {k shifts : ℕ} (hk : k < 32) (hshifts : k < shifts) {mask : BitVec 32} (bit : ℕ)
    (hset : mask.getLsbD k = true) (hlower : ∀ j < k, mask.getLsbD j = false) :
    ffsFrom shifts mask bit = bit + k := by
  induction k generalizing shifts mask bit with
  | zero =>
    obtain ⟨shifts, rfl⟩ := Nat.exists_eq_succ_of_ne_zero hshifts.ne'
    rw [ffsFrom, if_pos ((and_one_ne_zero mask).mpr hset), Nat.add_zero]
  | succ k ih =>
    obtain ⟨shifts, rfl⟩ := Nat.exists_eq_succ_of_ne_zero (Nat.zero_lt_of_lt hshifts).ne'
    have hclear : ¬mask &&& 1#32 ≠ 0#32 := by
      rw [and_one_ne_zero, hlower 0 (Nat.succ_pos k)]
      exact Bool.false_ne_true
    have hshift (j : ℕ) (hj : j + 1 < 32) :
        (mask.sshiftRight 1).getLsbD j = mask.getLsbD (j + 1) := by
      have hplace : ¬32 ≤ j := by omega
      rw [BitVec.getLsbD_sshiftRight, decide_eq_false hplace, if_pos (by omega), Nat.add_comm]
      rfl
    rw [ffsFrom, if_neg hclear, ih (by omega) (by omega)]
    · omega
    · rw [hshift k hk]
      exact hset
    · intro j hj
      rw [hshift j (by omega)]
      exact hlower (j + 1) (by omega)

theorem ffs_zero : ffs 0#32 = 0 := rfl

/-- The loop finds the lowest bit that is set. -/
theorem ffs_spec {mask : BitVec 32} (h : mask ≠ 0#32) :
    ∃ k < 32, ffs mask = k + 1 ∧ mask.getLsbD k = true ∧ ∀ j < k, mask.getLsbD j = false := by
  have hsome : ∃ k, mask.getLsbD k = true := by
    by_contra hnone
    apply h
    apply BitVec.eq_of_getLsbD_eq
    intro k _
    rw [BitVec.getLsbD_zero]
    exact eq_false_of_ne_true fun hk => hnone ⟨k, hk⟩
  have hset := Nat.find_spec hsome
  have hlt : Nat.find hsome < 32 := BitVec.lt_of_getLsbD hset
  have hlower : ∀ j < Nat.find hsome, mask.getLsbD j = false := fun j hj =>
    eq_false_of_ne_true (Nat.find_min hsome hj)
  refine ⟨Nat.find hsome, hlt, ?_, hset, hlower⟩
  rw [ffs, if_neg h, ffsFrom_eq hlt hlt 1 hset hlower, Nat.add_comm]

end FindFirst
end Lib
