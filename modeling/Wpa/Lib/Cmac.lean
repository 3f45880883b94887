import Mathlib.Tactic.NormNum
import Wpa.Lib.BlockCipher
import Wpa.Lib.Chaining

/-! The doubling in GF(2^128) and the message authentication code CMAC over a block function. -/

namespace Lib
namespace Bytes
variable {a b c : Bytes}

theorem xor_assoc (a b c : Bytes) : xor (xor a b) c = xor a (xor b c) := by
  induction a generalizing b c with
  | nil => rfl
  | cons x a ih =>
    cases b with
    | nil => rfl
    | cons y b =>
      cases c with
      | nil => rfl
      | cons z c =>
        show (x ^^^ y ^^^ z) :: xor (xor a b) c = (x ^^^ (y ^^^ z)) :: xor a (xor b c)
        rw [ih, UInt8.xor_assoc]

theorem two_pow_mul_add_xor {i p q : ℕ} (u v : ℕ) (hp : p < 2 ^ i) (hq : q < 2 ^ i) :
    (2 ^ i * u + p) ^^^ (2 ^ i * v + q) = 2 ^ i * (u ^^^ v) + (p ^^^ q) := by
  apply Nat.eq_of_testBit_eq
  intro j
  rw [Nat.testBit_xor, Nat.testBit_two_pow_mul_add _ hp, Nat.testBit_two_pow_mul_add _ hq,
    Nat.testBit_two_pow_mul_add _ (Nat.xor_lt_two_pow hp hq)]
  split
  · rw [Nat.testBit_xor]
  · rw [Nat.testBit_xor]

theorem beNat_cons (x : UInt8) (a : Bytes) : beNat (x :: a) = 2 ^ (8 * a.length) * x.toNat + beNat a := by
  rw [beNat, pow_mul, Nat.mul_comm]
  rfl

theorem beNat_lt_two_pow (a : Bytes) : beNat a < 2 ^ (8 * a.length) := by
  rw [pow_mul]
  exact beNat_lt a

theorem beNat_xor (h : a.length = b.length) : beNat (xor a b) = beNat a ^^^ beNat b := by
  induction a generalizing b with
  | nil =>
    obtain rfl := List.length_eq_zero_iff.mp h.symm
    rfl
  | cons x a ih =>
    cases b with
    | nil => cases h
    | cons y b =>
      have hlen : a.length = b.length := Nat.succ.inj h
      have hb := beNat_lt_two_pow b
      rw [← hlen] at hb
      show beNat ((x ^^^ y) :: xor a b) = _
      rw [beNat_cons, beNat_cons, beNat_cons, ih hlen, length_xor hlen, ← hlen,
        two_pow_mul_add_xor _ _ (beNat_lt_two_pow a) hb, UInt8.toNat_xor]

/-- A shift by one bit to the left, octet by octet. -/
def shiftLeft : Bytes → Bytes
  | [] => []
  | [x] => [x <<< 1]
  | x :: y :: b => ((x <<< 1) ||| (y >>> 7)) :: shiftLeft (y :: b)

theorem length_shiftLeft (b : Bytes) : (shiftLeft b).length = b.length := by
  fun_induction shiftLeft b with
  | case1 => rfl
  | case2 => rfl
  | case3 x y b ih =>
    rw [List.length_cons, ih]
    rfl

theorem toNat_shl_or_shr (x y : UInt8) :
    ((x <<< 1) ||| (y >>> 7)).toNat = 2 * x.toNat % 256 + y.toNat / 128 := by
  have hx : (x <<< 1).toNat = (x.toNat % 128) <<< 1 := by
    show x.toNat <<< 1 % 256 = _
    rw [Nat.shiftLeft_eq, Nat.shiftLeft_eq]
    omega
  have hy : (y >>> 7).toNat = y.toNat / 128 := Nat.shiftRight_eq_div_pow y.toNat 7
  have hlt := y.toNat_lt
  rw [UInt8.toNat_or, hx, hy, ← Nat.shiftLeft_add_eq_or_of_lt (by omega), Nat.shiftLeft_eq]
  omega

/-- A bit goes over from the lower digits `y * M + B` to the digit `x`. -/
theorem double_digits {x y M B : ℕ} (hx : x < 256) (hy : y < 256) (hB : B < M) :
    (2 * x % 256 + y / 128) * (M * 256) + 2 * (y * M + B) % (M * 256) =
      2 * (x * (M * 256) + (y * M + B)) % (M * 256 * 256) := by
  obtain ⟨u, v, rfl, hu, hv⟩ : ∃ u v, x = 128 * u + v ∧ u < 2 ∧ v < 128 :=
    ⟨x / 128, x % 128, (Nat.div_add_mod x 128).symm, by omega, Nat.mod_lt _ (by decide)⟩
  obtain ⟨h, l, rfl, hh, hl⟩ : ∃ h l, y = 128 * h + l ∧ h < 2 ∧ l < 128 :=
    ⟨y / 128, y % 128, (Nat.div_add_mod y 128).symm, by omega, Nat.mod_lt _ (by decide)⟩
  have hlow : 2 * l * M + 2 * B < M * 256 := by
    have hmul := Nat.mul_le_mul_right M (show 2 * l + 2 ≤ 256 by omega)
    rw [Nat.add_mul] at hmul
    omega
  have hhigh : (2 * v + h) * (M * 256) + (2 * l * M + 2 * B) < M * 256 * 256 := by
    have hmul := Nat.mul_le_mul_right (M * 256) (show 2 * v + h + 1 ≤ 256 by omega)
    rw [Nat.add_mul] at hmul
    omega
  have hleft : 2 * ((128 * h + l) * M + B) = M * 256 * h + (2 * l * M + 2 * B) := by ring
  have hright : 2 * ((128 * u + v) * (M * 256) + ((128 * h + l) * M + B)) =
      M * 256 * 256 * u + ((2 * v + h) * (M * 256) + (2 * l * M + 2 * B)) := by ring
  have hdigit : 2 * (128 * u + v) % 256 + (128 * h + l) / 128 = 2 * v + h := by omega
  rw [hleft, hright, hdigit, Nat.mul_add_mod, Nat.mul_add_mod, Nat.mod_eq_of_lt hlow,
    Nat.mod_eq_of_lt hhigh]

/-- The bits move by one; the first one is lost. -/
theorem beNat_shiftLeft (b : Bytes) : beNat (shiftLeft b) = 2 * beNat b % 256 ^ b.length := by
  fun_induction shiftLeft b with
  | case1 => rfl
  | case2 x =>
    show (x <<< 1).toNat * 1 + 0 = 2 * (x.toNat * 1 + 0) % 256
    have hx : (x <<< 1).toNat = x.toNat <<< 1 % 256 := rfl
    rw [hx, Nat.shiftLeft_eq]
    omega
  | case3 x y b ih =>
    rw [List.length_cons, pow_succ] at ih
    show ((x <<< 1) ||| (y >>> 7)).toNat * 256 ^ (shiftLeft (y :: b)).length +
      beNat (shiftLeft (y :: b)) = 2 * (x.toNat * 256 ^ (y :: b).length + beNat (y :: b)) %
        256 ^ (b.length + 1 + 1)
    rw [toNat_shl_or_shr, ih, length_shiftLeft, List.length_cons, pow_succ, pow_succ, beNat]
    exact double_digits x.toNat_lt y.toNat_lt (beNat_lt b)

end Bytes

open Bytes

/-- The product with `x` in GF(2^128): a shift, and the polynomial is added where a bit is lost. -/
def doubled (b : Bytes) : Bytes :=
  ofBeNat (2 * beNat b % 2 ^ 128 ^^^ if beNat b < 2 ^ 127 then 0 else 0x87) 16

theorem length_doubled (b : Bytes) : (doubled b).length = 16 := ofBeNat_length _ _

theorem beNat_doubled (b : Bytes) :
    beNat (doubled b) = 2 * beNat b % 2 ^ 128 ^^^ if beNat b < 2 ^ 127 then 0 else 0x87 := by
  refine beNat_ofBeNat (Nat.xor_lt_two_pow (n := 128) (Nat.mod_lt _ (by positivity)) ?_)
  split <;> norm_num

namespace Cmac
variable (E : BlockFunction 16)

def subkey1 : Bytes := doubled (E.run (zeros 16))

def subkey2 : Bytes := doubled (subkey1 E)

/-- The last block: complete, or padded with a bit. -/
def lastBlock (m : Bytes) : Bytes :=
  if m.length = 16 then xor m (subkey1 E)
  else xor (m ++ 0x80 :: zeros (15 - m.length)) (subkey2 E)

/-- The chain over `n` blocks and the last one. -/
def chain : ℕ → Bytes → Bytes → Bytes
  | 0, c, m => E.run (xor c (lastBlock E m))
  | n + 1, c, m => chain n (E.run (xor c (m.take 16))) (m.drop 16)

/-- CMAC. -/
def cmac (m : Bytes) : Bytes := chain E ((m.length - 1) / 16) (zeros 16) m

/-- What the chain has come to in front of the last block. -/
def state : ℕ → Bytes → Bytes → Bytes
  | 0, c, _ => c
  | n + 1, c, m => state n (E.run (xor c (m.take 16))) (m.drop 16)

variable {E}

theorem chain_eq (n : ℕ) (c m : Bytes) :
    chain E n c m = E.run (xor (state E n c m) (lastBlock E (m.drop (16 * n)))) := by
  induction n generalizing c m with
  | zero => rfl
  | succ n ih =>
    rw [chain, ih, List.drop_drop, Nat.add_comm 16, Nat.mul_succ]
    rfl

theorem length_cmac (m : Bytes) : (cmac E m).length = 16 := by
  rw [cmac, chain_eq]
  exact E.length_run _

theorem cmac_eq {m : Bytes} {n : ℕ} (h : (m.length - 1) / 16 = n) :
    cmac E m = E.run (xor (state E n (zeros 16) m) (lastBlock E (m.drop (16 * n)))) := by
  rw [cmac, h, chain_eq]

end Cmac
end Lib
