import Wpa.Lib.BitPoly

/-! GCM over a block function: the hash of padded strings in the ring of blocks, and the counter
mode. -/

namespace Lib
open Bytes

namespace Galois
variable (E : BlockFunction 16)

/-- Zeros up to a whole number of blocks. -/
def pad (a : Bytes) : Bytes := a ++ zeros ((16 - a.length % 16) % 16)

/-- The hash of `n` blocks from `y` on. -/
noncomputable def hashFrom (h : Bytes) : ℕ → Bytes → Bytes → Bytes
  | 0, y, _ => y
  | n + 1, y, x => hashFrom h n (blockMul (xor y (x.take 16)) h) (x.drop 16)

noncomputable def ghash (h x : Bytes) : Bytes := hashFrom h (x.length / 16) (zeros 16) x

/-- The last 32 bits count. -/
def inc (b : Bytes) : Bytes := b.take 12 ++ ofBeNat ((beNat (b.drop 12) + 1) % 2 ^ 32) 4

def gctr (icb x : Bytes) : Bytes := xor x (stream 16 (fun i => E.run (inc^[i] icb)) x.length)

def subkey : Bytes := E.run (zeros 16)

/-- A length in bits, of 64 bits. -/
def bitLength (a : Bytes) : Bytes := ofBeNat (8 * a.length) 8

noncomputable def j0 (iv : Bytes) : Bytes :=
  if iv.length = 12 then iv ++ [0, 0, 0, 1]
  else ghash (subkey E) (pad iv ++ (zeros 8 ++ bitLength iv))

noncomputable def authTag (iv aad crypt : Bytes) : Bytes :=
  gctr E (j0 E iv) (ghash (subkey E) (pad aad ++ (pad crypt ++ (bitLength aad ++ bitLength crypt))))

/-- The ciphertext and the tag. -/
noncomputable def encrypt (iv plain aad : Bytes) : Bytes × Bytes :=
  (gctr E (inc (j0 E iv)) plain, authTag E iv aad (gctr E (inc (j0 E iv)) plain))

end Galois

section Hash
variable {h y a b : Bytes} {n : ℕ}

theorem length_pad (a : Bytes) : (Galois.pad a).length = 16 * ((a.length + 15) / 16) := by
  rw [Galois.pad, List.length_append, zeros_length]
  omega

/-- Blocks in front of others are hashed first. -/
theorem hashFrom_append (ha : a.length = 16 * n) (m : ℕ) :
    Galois.hashFrom h (n + m) y (a ++ b) = Galois.hashFrom h m (Galois.hashFrom h n y a) b := by
  induction n generalizing y a with
  | zero =>
    obtain rfl := List.length_eq_zero_iff.mp ha
    rw [Nat.zero_add]
    rfl
  | succ n ih =>
    have hdrop : (a.drop 16).length = 16 * n := by
      rw [List.length_drop]
      omega
    rw [Nat.add_right_comm, Galois.hashFrom, Galois.hashFrom, List.take_append_of_le_length (by omega),
      List.drop_append_of_le_length (by omega), ih hdrop]

end Hash
end Lib
