import Mathlib.Algebra.Group.Fin.Basic
import Mathlib.Data.Fin.Tuple.Basic
import Wpa.Lib.Bytes

/-! Octet strings of a fixed length as functions, with the exclusive or, the rotation by octets and
the order of the big-endian numbers they spell. -/

namespace Lib

abbrev Octets (n : ℕ) := Fin n → UInt8

namespace Octets
variable {n m : ℕ}

def xor (a b : Octets n) : Octets n := fun i => a i ^^^ b i

/-- The octet at `i` moves to `i + r`, modulo the length. -/
def rotate (r : Fin n) (a : Octets n) : Octets n := fun i => a (i - r)

def bytes (a : Octets n) : Bytes := List.ofFn a

/-- The big-endian number. -/
def value (a : Octets n) : ℕ := a.bytes.beNat

def memcmp (a b : Octets n) : ℤ := Bytes.memcmp a.bytes b.bytes

@[simp] theorem xor_xor_cancel (a b : Octets n) : (a.xor b).xor b = a := by
  funext i
  change a i ^^^ b i ^^^ b i = a i
  rw [UInt8.xor_assoc, UInt8.xor_self, UInt8.xor_zero]

theorem length_bytes (a b : Octets n) : a.bytes.length = b.bytes.length := by
  rw [bytes, bytes, List.length_ofFn, List.length_ofFn]

/-- `memcmp` compares the numbers. -/
theorem memcmp_nonpos_iff (a b : Octets n) : memcmp a b ≤ 0 ↔ a.value ≤ b.value := by
  rw [← not_lt, ← not_lt]
  exact not_congr (Bytes.memcmp_pos_iff (length_bytes a b))

/-- The first and the last part of a string. -/
def left (a : Octets (n + m)) : Octets n := fun i => a (Fin.castAdd m i)

def right (a : Octets (n + m)) : Octets m := fun i => a (Fin.natAdd n i)

@[simp] theorem left_append (a : Octets n) (b : Octets m) : left (Fin.append a b) = a := by
  funext i
  exact Fin.append_left a b i

@[simp] theorem right_append (a : Octets n) (b : Octets m) : right (Fin.append a b) = b := by
  funext i
  exact Fin.append_right a b i

end Octets
end Lib
