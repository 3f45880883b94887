import Wpa.Lib.Bytes

/-! Octet strings under a mask: one that is made anew for each block from the block of the cipher in
front of it, and the first octets of a stream of blocks. -/

namespace Lib
namespace Bytes

def xor (a b : Bytes) : Bytes := List.zipWith (· ^^^ ·) a b

section Xor
variable {a b : Bytes}

@[simp] theorem length_xor (h : a.length = b.length) : (xor a b).length = b.length := by
  rw [xor, List.length_zipWith, h, Nat.min_self]

/-- A mask may be longer than what is under it. -/
theorem xor_xor_cancel_of_le (h : a.length ≤ b.length) : xor (xor a b) b = a := by
  induction a generalizing b with
  | nil => rfl
  | cons x a ih =>
    cases b with
    | nil => exact absurd h (Nat.not_succ_le_zero _)
    | cons y b =>
      have hxy : x ^^^ y ^^^ y = x := by rw [UInt8.xor_assoc, UInt8.xor_self, UInt8.xor_zero]
      show (x ^^^ y ^^^ y) :: xor (xor a b) b = x :: a
      rw [hxy, ih (Nat.le_of_succ_le_succ h)]

theorem xor_xor_cancel (h : a.length = b.length) : xor (xor a b) b = a := xor_xor_cancel_of_le h.le

end Xor

/-- `n` blocks of `k` octets; `f` makes the mask of a block from the one in front of it. -/
def encipher (k : ℕ) (f : Bytes → Bytes) : ℕ → Bytes → Bytes → Bytes
  | 0, _, _ => []
  | n + 1, mask, plain =>
    let c := xor (plain.take k) mask
    c ++ encipher k f n (f c) (plain.drop k)

def decipher (k : ℕ) (f : Bytes → Bytes) : ℕ → Bytes → Bytes → Bytes
  | 0, _, _ => []
  | n + 1, mask, cipher =>
    xor (cipher.take k) mask ++ decipher k f n (f (cipher.take k)) (cipher.drop k)

section Cipher
variable {k n : ℕ} {f : Bytes → Bytes} {mask plain : Bytes}

theorem length_take_block (h : plain.length = k * (n + 1)) : (plain.take k).length = k := by
  rw [List.length_take, h, Nat.mul_succ]
  omega

theorem length_drop_block (h : plain.length = k * (n + 1)) : (plain.drop k).length = k * n := by
  rw [List.length_drop, h, Nat.mul_succ, Nat.add_sub_cancel]

theorem length_encipher (hf : ∀ c, (f c).length = k) (hmask : mask.length = k)
    (h : plain.length = k * n) : (encipher k f n mask plain).length = k * n := by
  induction n generalizing mask plain with
  | zero => rfl
  | succ n ih =>
    have hblock : (plain.take k).length = mask.length := by rw [hmask, length_take_block h]
    rw [encipher, List.length_append, length_xor hblock, hmask, ih (hf _) (length_drop_block h),
      Nat.mul_succ, Nat.add_comm]

theorem decipher_encipher (hf : ∀ c, (f c).length = k) (hmask : mask.length = k)
    (h : plain.length = k * n) :
    decipher k f n mask (encipher k f n mask plain) = plain := by
  induction n generalizing mask plain with
  | zero => exact (List.length_eq_zero_iff.mp h).symm
  | succ n ih =>
    have hblock : (plain.take k).length = mask.length := by rw [hmask, length_take_block h]
    have hlen : (xor (plain.take k) mask).length = k := by rw [length_xor hblock, hmask]
    rw [encipher, decipher, List.take_left' hlen, List.drop_left' hlen, xor_xor_cancel hblock,
      ih (hf _) (length_drop_block h), List.take_append_drop]

end Cipher

section Xor
variable {a b c d : Bytes}

theorem xor_comm (a b : Bytes) : xor a b = xor b a := by
  rw [xor, xor, List.zipWith_comm]
  congr 1
  funext x y
  exact UInt8.xor_comm y x

theorem xor_append (h : a.length = c.length) : xor (a ++ b) (c ++ d) = xor a c ++ xor b d :=
  List.zipWith_append h

theorem take_xor (n : ℕ) : (xor a b).take n = xor (a.take n) (b.take n) := List.take_zipWith

theorem xor_zeros {n : ℕ} (h : a.length ≤ n) : xor a (zeros n) = a := by
  induction a generalizing n with
  | nil => rfl
  | cons x a ih =>
    obtain _ | n := n
    · exact absurd h (Nat.not_succ_le_zero _)
    · show (x ^^^ 0) :: xor a (zeros n) = x :: a
      rw [UInt8.xor_zero, ih (Nat.le_of_succ_le_succ h)]

theorem length_xor_min (a b : Bytes) : (xor a b).length = min a.length b.length :=
  List.length_zipWith

end Xor

/-- The first `q` blocks of the stream `f`. -/
def blocks (f : ℕ → Bytes) (q : ℕ) : Bytes := (List.range q).flatMap f

/-- The first `n` octets of a stream of blocks of `k` octets. -/
def stream (k : ℕ) (f : ℕ → Bytes) (n : ℕ) : Bytes := (blocks f ((n + k - 1) / k)).take n

section Stream
variable {k q r n : ℕ} {f : ℕ → Bytes}

theorem blocks_succ (f : ℕ → Bytes) (q : ℕ) : blocks f (q + 1) = blocks f q ++ f q := by
  rw [blocks, List.range_succ, List.flatMap_append, List.flatMap_singleton]
  rfl

theorem blocks_front (f : ℕ → Bytes) (q : ℕ) : blocks f (q + 1) = f 0 ++ blocks (fun i => f (i + 1)) q := by
  rw [blocks, List.range_succ_eq_map, List.flatMap_cons, List.flatMap_map]
  rfl

theorem length_blocks (hf : ∀ i, (f i).length = k) (q : ℕ) : (blocks f q).length = k * q := by
  induction q with
  | zero => rfl
  | succ q ih => rw [blocks_succ, List.length_append, ih, hf, Nat.mul_succ]

/-- Whole blocks, and what is left of the last one. -/
theorem stream_split (hf : ∀ i, (f i).length = k) (hr : r < k) :
    stream k f (k * q + r) = blocks f q ++ (f q).take r := by
  have hlen := length_blocks hf q
  have hk : 0 < k := Nat.zero_lt_of_lt hr
  rw [stream]
  by_cases hzero : r = 0
  · have hq : (k * q + r + k - 1) / k = q := by
      rw [hzero, Nat.add_zero, Nat.add_sub_assoc hk, Nat.mul_add_div hk,
        Nat.div_eq_of_lt (Nat.sub_lt hk Nat.one_pos), Nat.add_zero]
    rw [hq, hzero, List.take_zero, List.append_nil, Nat.add_zero, ← hlen, List.take_length]
  · have hq : (k * q + r + k - 1) / k = q + 1 := by
      have hshift : k * q + r + k - 1 = k * (q + 1) + (r - 1) := by
        rw [Nat.mul_succ]
        omega
      rw [hshift, Nat.mul_add_div hk, Nat.div_eq_of_lt (by omega), Nat.add_zero]
    rw [hq, blocks_succ, ← hlen, List.take_length_add_append]

theorem length_stream (hf : ∀ i, (f i).length = k) (hk : 0 < k) (n : ℕ) :
    (stream k f n).length = n := by
  rw [← Nat.div_add_mod n k, stream_split hf (Nat.mod_lt n hk), List.length_append,
    length_blocks hf, List.length_take, hf, Nat.min_eq_left (Nat.mod_lt n hk).le]

end Stream
end Bytes
end Lib
