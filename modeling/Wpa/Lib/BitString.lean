import Wpa.Lib.Bytes

/-! Numbers and octet strings as strings of bits, the most significant bit first. -/

namespace Lib

/-- The low `w` bits of `n`. -/
def toBits : ℕ → ℕ → List Bool
  | 0, _ => []
  | w + 1, n => n.testBit w :: toBits w n

def octetBits (b : Bytes) : List Bool := b.flatMap fun x => toBits 8 x.toNat

section ToBits
variable {w k n m : ℕ}

@[simp] theorem toBits_length (w n : ℕ) : (toBits w n).length = w := by
  induction w with
  | zero => rfl
  | succ w ih => rw [toBits, List.length_cons, ih]

theorem toBits_congr (h : ∀ i < w, n.testBit i = m.testBit i) : toBits w n = toBits w m := by
  induction w with
  | zero => rfl
  | succ w ih =>
    rw [toBits, toBits, h w (Nat.lt_succ_self w), ih fun i hi => h i (Nat.lt_succ_of_lt hi)]

/-- The upper bits and the lower ones. -/
theorem toBits_add (w k n : ℕ) : toBits (w + k) n = toBits w (n / 2 ^ k) ++ toBits k n := by
  induction w with
  | zero => rw [Nat.zero_add]; rfl
  | succ w ih =>
    rw [Nat.succ_add, toBits, ih, toBits, Nat.testBit_div_two_pow, Nat.add_comm w k]
    rfl

theorem toBits_mod (h : w ≤ k) : toBits w (n % 2 ^ k) = toBits w n := by
  apply toBits_congr
  intro i hi
  rw [Nat.testBit_mod_two_pow, decide_eq_true (lt_of_lt_of_le hi h), Bool.true_and]

/-- A number behind another one. -/
theorem toBits_mul_add (w : ℕ) (hm : m < 2 ^ k) :
    toBits (w + k) (n * 2 ^ k + m) = toBits w n ++ toBits k m := by
  have hpos : 0 < 2 ^ k := Nat.two_pow_pos k
  have hhigh : (n * 2 ^ k + m) / 2 ^ k = n := by
    rw [Nat.mul_comm, Nat.mul_add_div hpos, Nat.div_eq_of_lt hm, Nat.add_zero]
  have hlow : toBits k (n * 2 ^ k + m) = toBits k m := by
    rw [← toBits_mod le_rfl, Nat.mul_comm, Nat.mul_add_mod, Nat.mod_eq_of_lt hm]
  rw [toBits_add, hhigh, hlow]

theorem toBits_shiftLeft_or (w : ℕ) (hm : m < 2 ^ k) :
    toBits (w + k) (n <<< k ||| m) = toBits w n ++ toBits k m := by
  rw [← Nat.shiftLeft_add_eq_or_of_lt hm, Nat.shiftLeft_eq, toBits_mul_add w hm]

theorem toBits_zero (w : ℕ) : toBits w 0 = List.replicate w false := by
  induction w with
  | zero => rfl
  | succ w ih => rw [toBits, ih, Nat.zero_testBit]; rfl

end ToBits

section Octets

@[simp] theorem octetBits_nil : octetBits [] = [] := rfl

@[simp] theorem octetBits_append (a b : Bytes) : octetBits (a ++ b) = octetBits a ++ octetBits b :=
  List.flatMap_append

theorem octetBits_cons (x : UInt8) (b : Bytes) :
    octetBits (x :: b) = toBits 8 x.toNat ++ octetBits b :=
  List.flatMap_cons

@[simp] theorem octetBits_length (b : Bytes) : (octetBits b).length = 8 * b.length := by
  induction b with
  | nil => rfl
  | cons x b ih =>
    rw [octetBits_cons, List.length_append, toBits_length, ih, List.length_cons]
    omega

/-- An octet is cut to eight bits when it is stored. -/
theorem octetBits_ofNat (n : ℕ) : octetBits [UInt8.ofNat n] = toBits 8 n := by
  rw [octetBits_cons, octetBits_nil, List.append_nil, UInt8.toNat_ofNat']
  exact toBits_mod le_rfl

theorem octetBits_take (b : Bytes) (n : ℕ) : octetBits (b.take n) = (octetBits b).take (8 * n) := by
  have hsplit : octetBits b = octetBits (b.take n) ++ octetBits (b.drop n) := by
    rw [← octetBits_append, List.take_append_drop]
  rcases Nat.le_total n b.length with hn | hn
  · rw [hsplit]
    refine (List.take_left' ?_).symm
    rw [octetBits_length, List.length_take, Nat.min_eq_left hn]
  · rw [List.take_of_length_le hn, List.take_of_length_le]
    rw [octetBits_length]
    omega

theorem octetBits_zeros (n : ℕ) : octetBits (Bytes.zeros n) = List.replicate (8 * n) false := by
  induction n with
  | zero => rfl
  | succ n ih =>
    have hcons : Bytes.zeros (n + 1) = 0 :: Bytes.zeros n := rfl
    rw [hcons, octetBits_cons, ih, UInt8.toNat_zero, toBits_zero, List.replicate_append_replicate]
    congr 1
    omega

end Octets
end Lib
