import Mathlib.Data.Nat.Bitwise
import Wpa.Lib.Bytes

/-! Three octets as four sextets. -/

namespace Lib.Sextets
open Lib

/-- The sextets of three octets, as the shifts and masks of an encoder compute them. -/
def first (a : ℕ) : ℕ := (a >>> 2) &&& 0x3f

def second (a b : ℕ) : ℕ := (((a &&& 0x03) <<< 4) ||| (b >>> 4)) &&& 0x3f

def third (b c : ℕ) : ℕ := (((b &&& 0x0f) <<< 2) ||| (c >>> 6)) &&& 0x3f

def fourth (c : ℕ) : ℕ := c &&& 0x3f

/-- The octets of four sextets, each cut to eight bits. -/
def octets (s t u v : ℕ) : Bytes :=
  [UInt8.ofNat ((s <<< 2) ||| (t >>> 4)), UInt8.ofNat ((t <<< 4) ||| (u >>> 2)),
    UInt8.ofNat ((u <<< 6) ||| v)]

variable {a b c : ℕ}

theorem first_eq (ha : a < 256) : first a = a / 4 := by
  rw [first, Nat.and_two_pow_sub_one_eq_mod _ 6, Nat.shiftRight_eq_div_pow]
  omega

theorem second_eq (hb : b < 256) : second a b = a % 4 * 16 + b / 16 := by
  have hlow : b >>> 4 < 2 ^ 4 := by
    rw [Nat.shiftRight_eq_div_pow]
    omega
  rw [second, Nat.and_two_pow_sub_one_eq_mod _ 6, Nat.and_two_pow_sub_one_eq_mod _ 2,
    ← Nat.shiftLeft_add_eq_or_of_lt hlow, Nat.shiftLeft_eq, Nat.shiftRight_eq_div_pow]
  omega

theorem third_eq (hc : c < 256) : third b c = b % 16 * 4 + c / 64 := by
  have hlow : c >>> 6 < 2 ^ 2 := by
    rw [Nat.shiftRight_eq_div_pow]
    omega
  rw [third, Nat.and_two_pow_sub_one_eq_mod _ 6, Nat.and_two_pow_sub_one_eq_mod _ 4,
    ← Nat.shiftLeft_add_eq_or_of_lt hlow, Nat.shiftLeft_eq, Nat.shiftRight_eq_div_pow]
  omega

theorem fourth_eq : fourth c = c % 64 := Nat.and_two_pow_sub_one_eq_mod _ 6

theorem octets_eq {s t u v : ℕ} (ht : t < 64) (hu : u < 64) (hv : v < 64) :
    octets s t u v = [UInt8.ofNat (s * 4 + t / 16), UInt8.ofNat (t * 16 + u / 4),
      UInt8.ofNat (u * 64 + v)] := by
  have htop : t >>> 4 < 2 ^ 2 := by
    rw [Nat.shiftRight_eq_div_pow]
    omega
  have hmiddle : u >>> 2 < 2 ^ 4 := by
    rw [Nat.shiftRight_eq_div_pow]
    omega
  rw [octets, ← Nat.shiftLeft_add_eq_or_of_lt htop, ← Nat.shiftLeft_add_eq_or_of_lt hmiddle,
    ← Nat.shiftLeft_add_eq_or_of_lt (show v < 2 ^ 6 from hv)]
  simp only [Nat.shiftLeft_eq, Nat.shiftRight_eq_div_pow, Nat.reducePow]

theorem ofNat_eq_of_mod {n : ℕ} {x : UInt8} (h : n % 256 = x.toNat) : UInt8.ofNat n = x := by
  apply UInt8.toNat_inj.mp
  rw [UInt8.toNat_ofNat']
  exact h

/-- The sextets of three octets give the octets back. -/
theorem octets_sextets (x y z : UInt8) :
    octets (first x.toNat) (second x.toNat y.toNat) (third y.toNat z.toNat) (fourth z.toNat) =
      [x, y, z] := by
  have hx := x.toNat_lt
  have hy := y.toNat_lt
  have hz := z.toNat_lt
  rw [first_eq hx, second_eq hy, third_eq hz, fourth_eq,
    octets_eq (by omega) (by omega) (by omega)]
  rw [ofNat_eq_of_mod (x := x) (by omega), ofNat_eq_of_mod (x := y) (by omega),
    ofNat_eq_of_mod (x := z) (by omega)]

end Lib.Sextets
