import Wpa.Lib.Cmac

/-! S2V: the code of a vector of strings over a message authentication code, and that the doubling
it rests on is linear. -/

namespace Lib
open Bytes

namespace S2v

/-- The exclusive or with the last octets. -/
def xorend (a b : Bytes) : Bytes :=
  a.take (a.length - b.length) ++ xor (a.drop (a.length - b.length)) b

def pad (s : Bytes) : Bytes := s ++ 0x80 :: zeros (15 - s.length)

/-- The chain from `d` on, and the end with the last string. -/
def chain (mac : Bytes → Bytes) : Bytes → List Bytes → Bytes
  | d, [] => d
  | d, [s] => if 16 ≤ s.length then mac (xorend s d) else mac (xor (doubled d) (pad s))
  | d, s :: t :: rest => chain mac (xor (doubled d) (mac s)) (t :: rest)

def s2v (mac : Bytes → Bytes) : List Bytes → Bytes
  | [] => mac (zeros 15 ++ [1])
  | s :: rest => chain mac (mac (zeros 16)) (s :: rest)

end S2v

section Linear
variable {a b : Bytes}

theorem double_mod_xor (m n : ℕ) :
    2 * (m ^^^ n) % 2 ^ 128 = (2 * m % 2 ^ 128) ^^^ (2 * n % 2 ^ 128) := by
  have hshift (k : ℕ) : 2 * k = k <<< 1 := by rw [Nat.shiftLeft_eq, Nat.mul_comm, pow_one]
  rw [hshift, hshift m, hshift n, Nat.shiftLeft_xor_distrib, Nat.xor_mod_two_pow]

/-- The first bit of an exclusive or. -/
theorem xor_lt_iff {m n : ℕ} (hm : m < 2 ^ 128) (hn : n < 2 ^ 128) :
    m ^^^ n < 2 ^ 127 ↔ (m < 2 ^ 127 ↔ n < 2 ^ 127) := by
  have htop (k : ℕ) : k < 2 ^ 127 ↔ k / 2 ^ 127 = 0 := (Nat.div_eq_zero_iff_lt (by positivity)).symm
  have hbits : ∀ u < 2, ∀ v < 2, (u ^^^ v = 0 ↔ (u = 0 ↔ v = 0)) := by decide
  rw [htop, htop m, htop n, Nat.xor_div_two_pow]
  exact hbits _ (by omega) _ (by omega)

theorem doubled_xor (ha : a.length = 16) (hb : b.length = 16) :
    doubled (xor a b) = xor (doubled a) (doubled b) := by
  have hm := beNat_lt a
  have hn := beNat_lt b
  rw [ha] at hm
  rw [hb] at hn
  have hlen : a.length = b.length := ha.trans hb.symm
  have hlen' : (doubled a).length = (doubled b).length :=
    (length_doubled a).trans (length_doubled b).symm
  have hout : (xor (doubled a) (doubled b)).length = 16 :=
    (length_xor hlen').trans (length_doubled b)
  have hpoly : (if beNat a ^^^ beNat b < 2 ^ 127 then 0 else 0x87) =
      (if beNat a < 2 ^ 127 then 0 else 0x87) ^^^ (if beNat b < 2 ^ 127 then 0 else 0x87) := by
    have hiff := xor_lt_iff hm hn
    by_cases hfirst : beNat a < 2 ^ 127
    · by_cases hsecond : beNat b < 2 ^ 127
      · rw [if_pos (hiff.mpr (iff_of_true hfirst hsecond)), if_pos hfirst, if_pos hsecond]
        rfl
      · rw [if_neg fun h => hsecond ((hiff.mp h).mp hfirst), if_pos hfirst, if_neg hsecond]
        rfl
    · by_cases hsecond : beNat b < 2 ^ 127
      · rw [if_neg fun h => hfirst ((hiff.mp h).mpr hsecond), if_neg hfirst, if_pos hsecond]
        rfl
      · rw [if_pos (hiff.mpr (iff_of_false hfirst hsecond)), if_neg hfirst, if_neg hsecond]
        rfl
  apply beNat_injective ((length_doubled _).trans hout.symm)
  rw [beNat_doubled, beNat_xor hlen, beNat_xor hlen', beNat_doubled, beNat_doubled, double_mod_xor,
    hpoly]
  generalize 2 * beNat a % 2 ^ 128 = u
  generalize 2 * beNat b % 2 ^ 128 = v
  ac_rfl

end Linear

namespace S2v
variable {f g : Bytes → Bytes} {d e s v : Bytes} {elems : List Bytes}

/-- The chain in front of the last string. -/
def state (mac : Bytes → Bytes) (d : Bytes) (elems : List Bytes) : Bytes :=
  elems.foldl (fun d s => xor (doubled d) (mac s)) d

theorem length_state (hmac : ∀ s, (f s).length = 16) (hd : d.length = 16) :
    (state f d elems).length = 16 := by
  induction elems generalizing d with
  | nil => exact hd
  | cons s elems ih => exact ih ((length_xor ((length_doubled d).trans (hmac s).symm)).trans (hmac s))

theorem chain_append (mac : Bytes → Bytes) (d s : Bytes) (elems : List Bytes) :
    chain mac d (elems ++ [s]) = chain mac (state mac d elems) [s] := by
  induction elems generalizing d with
  | nil => rfl
  | cons t elems ih =>
    obtain ⟨u, rest, hrest⟩ : ∃ u rest, elems ++ [s] = u :: rest :=
      List.exists_cons_of_ne_nil (List.append_ne_nil_of_right_ne_nil _ (List.cons_ne_nil _ _))
    have hnext : chain mac d (t :: u :: rest) = chain mac (xor (doubled d) (mac t)) (u :: rest) := rfl
    rw [List.cons_append, hrest, hnext, ← hrest, ih]
    rfl

theorem s2v_append (mac : Bytes → Bytes) (s : Bytes) (elems : List Bytes) :
    s2v mac (elems ++ [s]) = chain mac (state mac (mac (zeros 16)) elems) [s] := by
  rw [← chain_append]
  cases elems with
  | nil => rfl
  | cons t elems => rfl

/-- The value one. -/
def one : Bytes := ofBeNat 1 16

/-- What the values one add up to over `n` doublings. -/
def ones (n : ℕ) : Bytes := (fun e => xor (doubled e) one)^[n] one

theorem length_ones (n : ℕ) : (ones n).length = 16 := by
  cases n with
  | zero => rfl
  | succ n =>
    rw [ones, Function.iterate_succ_apply']
    exact length_xor (length_doubled _)

/-- No polynomial of degree below 128 vanishes. -/
theorem beNat_ones {n : ℕ} (h : n < 128) : beNat (ones n) + 1 = 2 ^ (n + 1) := by
  induction n with
  | zero => rfl
  | succ n ih =>
    have hprev := ih (by omega)
    have hpow : 2 ^ (n + 1) ≤ 2 ^ 127 := Nat.pow_le_pow_right (by decide) (by omega)
    have hlen : (doubled (ones n)).length = one.length := length_doubled _
    have hone : beNat one = 1 := rfl
    have hodd := @two_pow_mul_add_xor 1 0 1 (beNat (ones n)) 0 (by decide) (by decide)
    rw [Nat.xor_zero, Nat.zero_xor, Nat.mul_zero, Nat.zero_add, Nat.add_zero, pow_one] at hodd
    have hstep : ones (n + 1) = xor (doubled (ones n)) one := Function.iterate_succ_apply' _ n one
    rw [hstep, beNat_xor hlen, beNat_doubled, if_pos (by omega), Nat.xor_zero,
      Nat.mod_eq_of_lt (by omega), hone, hodd, pow_succ, ← hprev]
    omega

/-- A summand of every value of the code adds up along the chain. -/
theorem state_shift (hmac : ∀ s, (f s).length = 16) (hd : d.length = 16) {n : ℕ} :
    state (fun s => xor (f s) one) (xor d (ones n)) elems =
      xor (state f d elems) (ones (n + elems.length)) := by
  induction elems generalizing d n with
  | nil => rfl
  | cons s elems ih =>
    have hstep : ones (n + 1) = xor (doubled (ones n)) one := Function.iterate_succ_apply' _ n one
    have hnext : xor (doubled (xor d (ones n))) (xor (f s) one) =
        xor (xor (doubled d) (f s)) (ones (n + 1)) := by
      rw [doubled_xor hd (length_ones n), hstep, xor_assoc, xor_assoc, ← xor_assoc (f s),
        ← xor_assoc _ (f s), Bytes.xor_comm (f s) (doubled (ones n))]
    have hlen : (xor (doubled d) (f s)).length = 16 :=
      (length_xor ((length_doubled d).trans (hmac s).symm)).trans (hmac s)
    show state _ (xor (doubled (xor d (ones n))) (xor (f s) one)) elems = _
    rw [hnext, ih hlen, List.length_cons, Nat.add_right_comm, Nat.add_assoc]
    rfl

/-- With one more in every value of the code the chain has another end. -/
theorem state_ne (hmac : ∀ s, (f s).length = 16) (hcount : elems.length < 128) :
    state (fun s => xor (f s) one) (xor (f (zeros 16)) one) elems ≠ state f (f (zeros 16)) elems := by
  have hshift := @state_shift f (f (zeros 16)) elems hmac (hmac _) 0
  have hstart : ones 0 = one := rfl
  rw [Nat.zero_add, hstart] at hshift
  have hlen : (state f (f (zeros 16)) elems).length = (ones elems.length).length :=
    (length_state hmac (hmac _)).trans (length_ones _).symm
  have hvalue := beNat_ones hcount
  have hpow : 2 ≤ 2 ^ (elems.length + 1) := Nat.le_self_pow (Nat.succ_ne_zero _) 2
  intro heq
  have hnat := beNat_xor hlen
  rw [← hshift, heq] at hnat
  have hzero : beNat (ones elems.length) = 0 := by
    have hcancel := congrArg (beNat (state f (f (zeros 16)) elems) ^^^ ·) hnat
    rw [← Nat.xor_assoc, Nat.xor_self, Nat.zero_xor] at hcancel
    exact hcancel.symm
  omega

end S2v
end Lib
