import Mathlib.Algebra.Field.ZMod
import Mathlib.Algebra.Module.ZMod
import Mathlib.Data.Nat.Bitwise
import Mathlib.RingTheory.AdjoinRoot
import Mathlib.Tactic.ComputeDegree
import Mathlib.Tactic.LinearCombination
import Wpa.Lib.Cmac

/-! Polynomials over GF(2) whose coefficients are the bits of octet strings, the first bit in
front, and the product of blocks modulo a polynomial of degree 128. -/

namespace Lib
open Bytes Finset Polynomial

section Value
variable {R : Type*} [CommRing R] [Algebra (ZMod 2) R] {r : R} {w m n : ℕ}

/-- The first of `w` bits of `n` is the coefficient of 1, the last one that of the highest power. -/
def bitValue (r : R) (w n : ℕ) : R := ∑ i ∈ range w, if n.testBit (w - 1 - i) then r ^ i else 0

omit [Algebra (ZMod 2) R] in
theorem bitValue_zero (r : R) (w : ℕ) : bitValue r w 0 = 0 := by
  refine sum_eq_zero fun i _ => ?_
  rw [Nat.zero_testBit]
  rfl

theorem bitValue_xor (r : R) (w m n : ℕ) :
    bitValue r w (m ^^^ n) = bitValue r w m + bitValue r w n := by
  rw [bitValue, bitValue, bitValue, ← sum_add_distrib]
  refine sum_congr rfl fun i _ => ?_
  rw [Nat.testBit_xor]
  cases m.testBit (w - 1 - i) with
  | false => simp
  | true =>
    cases n.testBit (w - 1 - i) with
    | false => simp
    | true => exact (ZModModule.add_self (r ^ i)).symm

omit [Algebra (ZMod 2) R] in
theorem bitValue_append (r : R) (h : n < 2 ^ w) (m v : ℕ) :
    bitValue r (v + w) (2 ^ w * m + n) = bitValue r v m + r ^ v * bitValue r w n := by
  rw [bitValue, sum_range_add, bitValue, bitValue, mul_sum]
  congr 1
  · refine sum_congr rfl fun i hi => ?_
    have hlow : ¬ v + w - 1 - i < w := by
      rw [mem_range] at hi
      omega
    have hindex : v + w - 1 - i - w = v - 1 - i := by omega
    rw [Nat.testBit_two_pow_mul_add _ h, if_neg hlow, hindex]
  · refine sum_congr rfl fun i hi => ?_
    have hlow : v + w - 1 - (v + i) < w := by
      rw [mem_range] at hi
      omega
    have hindex : v + w - 1 - (v + i) = w - 1 - i := by omega
    rw [Nat.testBit_two_pow_mul_add _ h, if_pos hlow, hindex, mul_ite, mul_zero, pow_add]

omit [Algebra (ZMod 2) R] in
theorem bitValue_bit (r : R) (n : ℕ) : bitValue r 1 (n % 2) = if n % 2 = 1 then 1 else 0 := by
  rw [bitValue, sum_range_one, pow_zero]
  obtain hn | hn := Nat.mod_two_eq_zero_or_one n
  · rw [hn]
    rfl
  · rw [hn]
    rfl

omit [Algebra (ZMod 2) R] in
/-- A shift by one bit, up to the bit that is lost. -/
theorem mul_bitValue (r : R) (h : n < 2 ^ w) :
    r * bitValue r w n = bitValue r w (n / 2) + if n % 2 = 1 then r ^ w else 0 := by
  obtain _ | w := w
  · obtain rfl := Nat.lt_one_iff.mp h
    simp [bitValue]
  · rw [pow_succ] at h
    have hlast := bitValue_append (w := 1) r (Nat.mod_lt n (by decide)) (n / 2) w
    have hfirst := bitValue_append (w := w) (n := n / 2) r (by omega) 0 1
    rw [pow_one, Nat.div_add_mod, bitValue_bit] at hlast
    rw [Nat.mul_zero, Nat.zero_add, bitValue_zero, zero_add, pow_one, Nat.add_comm] at hfirst
    rw [hlast, hfirst, mul_add, ← mul_assoc, ← pow_succ', mul_ite, mul_one, mul_zero]

end Value

/-- The polynomial that the products of blocks are reduced by. -/
@[irreducible] noncomputable def blockModulus : (ZMod 2)[X] := X ^ 128 + (X ^ 7 + X ^ 2 + X + 1)

theorem blockModulus_monic : blockModulus.Monic := by
  unfold blockModulus
  apply monic_X_pow_add
  compute_degree!

theorem degree_blockModulus : blockModulus.degree = 128 := by
  unfold blockModulus
  compute_degree!

/-- A bit that is lost comes back as four. -/
theorem root_pow : AdjoinRoot.root blockModulus ^ 128 =
    AdjoinRoot.root blockModulus ^ 7 + AdjoinRoot.root blockModulus ^ 2 +
      AdjoinRoot.root blockModulus + 1 := by
  have hmodulus : blockModulus = X ^ 128 + (X ^ 7 + X ^ 2 + X + 1) := by
    unfold blockModulus
    with_reducible rfl
  have hzero := congrArg (AdjoinRoot.mk blockModulus) hmodulus
  rw [AdjoinRoot.mk_self] at hzero
  simp only [map_add, map_pow, map_one, AdjoinRoot.mk_X] at hzero
  rw [← sub_eq_zero, ZModModule.sub_eq_add]
  exact hzero.symm

/-- The polynomial of an octet string. -/
noncomputable def bitPoly (b : Bytes) : (ZMod 2)[X] := bitValue X (8 * b.length) (beNat b)

section BitPoly
variable {a b : Bytes} {w n : ℕ}

theorem coeff_bitValue (w n i : ℕ) : (bitValue (X : (ZMod 2)[X]) w n).coeff i =
    if i < w ∧ n.testBit (w - 1 - i) then 1 else 0 := by
  have hterm (j : ℕ) : (if n.testBit (w - 1 - j) then X ^ j else (0 : (ZMod 2)[X])).coeff i =
      if i = j then if n.testBit (w - 1 - j) then 1 else 0 else 0 := by
    rw [apply_ite (coeff · i), coeff_X_pow, coeff_zero]
    by_cases hij : i = j
    · rw [if_pos hij, if_pos hij]
    · rw [if_neg hij, if_neg hij, ite_self]
  rw [bitValue, finsetSum_coeff, sum_congr rfl fun j _ => hterm j, sum_ite_eq, ite_and]
  simp only [mem_range]

theorem bitPoly_injective (hlen : a.length = b.length) (h : bitPoly a = bitPoly b) : a = b := by
  apply beNat_injective hlen
  apply Nat.eq_of_testBit_eq
  intro i
  by_cases hi : i < 8 * b.length
  · have hlow : 8 * b.length - 1 - i < 8 * b.length := by omega
    have hindex : 8 * b.length - 1 - (8 * b.length - 1 - i) = i := by omega
    have hcoeff := congrArg (coeff · (8 * b.length - 1 - i)) h
    rw [bitPoly, bitPoly, hlen, coeff_bitValue, coeff_bitValue, hindex] at hcoeff
    simp only [hlow, true_and] at hcoeff
    by_cases ha : (beNat a).testBit i
    · by_contra hne
      rw [if_pos ha, if_neg fun hb => hne (ha.trans hb.symm)] at hcoeff
      exact one_ne_zero hcoeff
    · by_contra hne
      have hb : (beNat b).testBit i := by
        by_contra hb
        exact hne ((Bool.eq_false_of_not_eq_true ha).trans (Bool.eq_false_of_not_eq_true hb).symm)
      rw [if_neg ha, if_pos hb] at hcoeff
      exact zero_ne_one hcoeff
  · have hpow : 2 ^ (8 * b.length) ≤ 2 ^ i := Nat.pow_le_pow_right (by decide) (Nat.not_lt.mp hi)
    have ha := beNat_lt_two_pow a
    rw [hlen] at ha
    rw [Nat.testBit_lt_two_pow (ha.trans_le hpow),
      Nat.testBit_lt_two_pow ((beNat_lt_two_pow b).trans_le hpow)]

theorem degree_bitPoly (b : Bytes) : (bitPoly b).degree < ((8 * b.length : ℕ) : WithBot ℕ) := by
  rw [degree_lt_iff_coeff_zero]
  intro i hi
  rw [bitPoly, coeff_bitValue, if_neg fun h => absurd h.1 (Nat.not_lt.mpr hi)]

theorem bitPoly_xor (h : a.length = b.length) : bitPoly (xor a b) = bitPoly a + bitPoly b := by
  rw [bitPoly, bitPoly, bitPoly, beNat_xor h, bitValue_xor, length_xor h, h]

/-- The value in the quotient. -/
theorem mk_bitPoly (b : Bytes) : AdjoinRoot.mk blockModulus (bitPoly b) =
    bitValue (AdjoinRoot.root blockModulus) (8 * b.length) (beNat b) := by
  rw [bitPoly, bitValue, map_sum, bitValue]
  refine sum_congr rfl fun i _ => ?_
  rw [apply_ite (AdjoinRoot.mk blockModulus), map_pow, AdjoinRoot.mk_X, map_zero]

/-- The block of a polynomial of degree below 128. -/
noncomputable def blockOf (p : (ZMod 2)[X]) : Bytes :=
  ofBeNat (Nat.ofBits fun i : Fin 128 => decide (p.coeff (127 - i) = 1)) 16

theorem length_blockOf (p : (ZMod 2)[X]) : (blockOf p).length = 16 := ofBeNat_length _ _

theorem bitPoly_blockOf {p : (ZMod 2)[X]} (h : p.degree < 128) : bitPoly (blockOf p) = p := by
  have hlt := Nat.ofBits_lt_two_pow fun i : Fin 128 => decide (p.coeff (127 - i) = 1)
  have hbit : ∀ c : ZMod 2, (if decide (c = 1) = true then 1 else 0) = c := by decide
  ext i
  rw [bitPoly, coeff_bitValue, length_blockOf, blockOf, beNat_ofBeNat hlt]
  by_cases hi : i < 128
  · have hsmall : 8 * 16 - 1 - i < 128 := by omega
    have hindex : 127 - (8 * 16 - 1 - i) = i := by omega
    rw [Nat.testBit_ofBits_lt _ _ hsmall, hindex]
    simp only [hi, true_and, hbit]
  · have hdegree : p.degree < i := h.trans_le (by exact_mod_cast Nat.not_lt.mp hi)
    rw [if_neg fun h => hi h.1, coeff_eq_zero_of_degree_lt hdegree]

/-- The product of blocks. -/
noncomputable def blockMul (x y : Bytes) : Bytes := blockOf (bitPoly x * bitPoly y %ₘ blockModulus)

theorem length_blockMul (x y : Bytes) : (blockMul x y).length = 16 := length_blockOf _

theorem bitPoly_blockMul (x y : Bytes) :
    bitPoly (blockMul x y) = bitPoly x * bitPoly y %ₘ blockModulus :=
  bitPoly_blockOf (degree_blockModulus ▸ degree_modByMonic_lt _ blockModulus_monic)

/-- The block that stands for the product, and no other one. -/
theorem eq_blockMul_iff {x y z : Bytes} (hz : z.length = 16) :
    z = blockMul x y ↔ AdjoinRoot.mk blockModulus (bitPoly z) =
      AdjoinRoot.mk blockModulus (bitPoly x) * AdjoinRoot.mk blockModulus (bitPoly y) := by
  constructor
  · rintro rfl
    rw [bitPoly_blockMul, ← map_mul, AdjoinRoot.mk_eq_mk,
      modByMonic_eq_sub_mul_div (bitPoly x * bitPoly y) blockModulus, sub_sub_cancel_left, dvd_neg]
    exact dvd_mul_right _ _
  · intro h
    apply bitPoly_injective (hz.trans (length_blockMul x y).symm)
    rw [← map_mul, AdjoinRoot.mk_eq_mk] at h
    have hdegree := degree_bitPoly z
    rw [hz] at hdegree
    rw [bitPoly_blockMul, ← modByMonic_eq_of_dvd_sub blockModulus_monic h]
    exact ((modByMonic_eq_self_iff blockModulus_monic).mpr
      (degree_blockModulus ▸ hdegree)).symm

theorem blockMul_comm (x y : Bytes) : blockMul x y = blockMul y x := by
  rw [blockMul, blockMul, mul_comm]

theorem blockMul_xor {x x' : Bytes} (h : x.length = x'.length) (y : Bytes) :
    blockMul (xor x x') y = xor (blockMul x y) (blockMul x' y) := by
  have hlen : (blockMul x y).length = (blockMul x' y).length :=
    (length_blockMul x y).trans (length_blockMul x' y).symm
  symm
  rw [eq_blockMul_iff ((length_xor hlen).trans (length_blockMul x' y)), bitPoly_xor hlen,
    bitPoly_xor h, map_add, map_add, (eq_blockMul_iff (length_blockMul x y)).mp rfl,
    (eq_blockMul_iff (length_blockMul x' y)).mp rfl, add_mul]

end BitPoly
end Lib
