import Mathlib.Algebra.Order.Ring.Int

/-! Numbers of 32 bits that wrap around, placed on the integers as seen from one of them. -/

namespace Lib.Serial

/-- Where `x` lies, seen from `first`: at most half of all numbers lie before it. -/
def place (first x : UInt32) : ℤ :=
  if (x - first).toNat < 2147483648 then (x - first).toNat else (x - first).toNat - 4294967296

variable {first x y : UInt32}

/-- A difference is that of the places, up to the wrap. -/
theorem toNat_sub (first x y : UInt32) :
    ((x - y).toNat : ℤ) = (place first x - place first y) % 4294967296 := by
  have hx := x.toNat_lt
  have hy := y.toNat_lt
  have hfirst := first.toNat_lt
  unfold place
  simp only [UInt32.toNat_sub]
  split <;> split <;> omega

/-- Seen from a number at most half of all numbers away. -/
theorem toNat_sub_of_le (hle : place first y ≤ place first x)
    (hnear : place first x - place first y < 4294967296) :
    ((x - y).toNat : ℤ) = place first x - place first y := by
  rw [toNat_sub first]
  exact Int.emod_eq_of_lt (by omega) hnear

theorem toNat_sub_of_lt (hlt : place first x < place first y)
    (hnear : place first y - place first x ≤ 4294967296) :
    ((x - y).toNat : ℤ) = place first x - place first y + 4294967296 := by
  rw [toNat_sub first, ← Int.add_emod_right]
  exact Int.emod_eq_of_lt (by omega) (by omega)

theorem place_injective (first : UInt32) (h : place first x = place first y) : x = y := by
  have hsub := toNat_sub first x y
  rw [h, sub_self, Int.zero_emod] at hsub
  have hx := x.toNat_lt
  have hy := y.toNat_lt
  rw [UInt32.toNat_sub] at hsub
  apply UInt32.toNat_inj.mp
  omega

theorem place_of_lt (h : (x - first).toNat < 2147483648) : place first x = (x - first).toNat :=
  if_pos h

/-- A number a little before another. -/
theorem place_sub {n : UInt32} (h : n.toNat < 1073741824) (hx : 0 ≤ place first x)
    (hlt : place first x < 1073741824) : place first (x - n) = place first x - n.toNat := by
  have hfirst := first.toNat_lt
  have hxlt := x.toNat_lt
  unfold place at *
  simp only [UInt32.toNat_sub] at *
  split at hx <;> split at hlt <;> split <;> omega

/-- In the order that wraps around, `x` is `m` or comes after it. -/
def AtOrAfter (m x : UInt32) : Prop := (x - m).toNat < 2147483648

instance (m x : UInt32) : Decidable (AtOrAfter m x) := inferInstanceAs (Decidable (_ < _))

theorem atOrAfter_refl (m : UInt32) : AtOrAfter m m := by
  unfold AtOrAfter
  rw [UInt32.sub_self]
  decide

theorem AtOrAfter.antisymm (h : AtOrAfter x y) (h' : AtOrAfter y x) : x = y := by
  have hx := x.toNat_lt
  have hy := y.toNat_lt
  unfold AtOrAfter at h h'
  rw [UInt32.toNat_sub] at h h'
  apply UInt32.toNat_inj.mp
  omega

end Lib.Serial
