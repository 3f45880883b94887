import Mathlib.Data.List.Basic
import Mathlib.Tactic.Ring
import Mathlib.Tactic.Positivity

/-! Octet strings as lists, with the slices, in-place writes and big-endian readings that
packet formats are described by. Reads past the end give zero octets. -/

namespace Lib

abbrev Bytes := List UInt8

namespace Bytes
variable {a b c : Bytes}

def slice (b : Bytes) (off len : ℕ) : Bytes := (b.drop off).take len

def byteAt (b : Bytes) (i : ℕ) : ℕ := (b.getD i 0).toNat

/-- Overwrite the octets from `off` on with `src`, keeping the length of the buffer. -/
def writeAt (b : Bytes) (off : ℕ) (src : Bytes) : Bytes :=
  (b.take off ++ src ++ b.drop (off + src.length)).take b.length

def zeros (n : ℕ) : Bytes := List.replicate n 0

/-- The big-endian number an octet string spells. -/
def beNat : Bytes → ℕ
  | [] => 0
  | x :: xs => x.toNat * 256 ^ xs.length + beNat xs

/-- The big-endian spelling of `n` in exactly `w` octets. -/
def ofBeNat (n : ℕ) : ℕ → Bytes
  | 0 => []
  | w + 1 => UInt8.ofNat (n / 256 ^ w) :: ofBeNat (n % 256 ^ w) w

def be16 (b : Bytes) (off : ℕ) : ℕ := b.byteAt off * 256 + b.byteAt (off + 1)

def le16 (b : Bytes) (off : ℕ) : ℕ := b.byteAt (off + 1) * 256 + b.byteAt off

def be24 (b : Bytes) (off : ℕ) : ℕ := b.be16 off * 256 + b.byteAt (off + 2)

def be32 (b : Bytes) (off : ℕ) : ℕ := b.be16 off * 65536 + b.be16 (off + 2)

/-- Lexicographic comparison of the common part, as `memcmp` reports it by sign. -/
def memcmp : Bytes → Bytes → ℤ
  | x :: xs, y :: ys =>
    if x.toNat < y.toNat then -1 else if y.toNat < x.toNat then 1 else memcmp xs ys
  | _, _ => 0

@[simp] theorem slice_length (b : Bytes) (off len : ℕ) :
    (b.slice off len).length = min len (b.length - off) := by
  simp [slice]

@[simp] theorem zeros_length (n : ℕ) : (zeros n).length = n := by
  simp [zeros]

@[simp] theorem writeAt_length (b : Bytes) (off : ℕ) (src : Bytes) :
    (b.writeAt off src).length = b.length := by
  simp only [writeAt, List.length_take, List.length_append, List.length_drop]
  omega

@[simp] theorem writeAt_nil (b : Bytes) (off : ℕ) : b.writeAt off [] = b := by
  simp [writeAt]

@[simp] theorem ofBeNat_length (n w : ℕ) : (ofBeNat n w).length = w := by
  induction w generalizing n with
  | zero => rfl
  | succ w ih => simp [ofBeNat, ih]

theorem slice_append_left (a b : Bytes) {off len : ℕ} (h : off + len ≤ a.length) :
    slice (a ++ b) off len = a.slice off len := by
  have hoff : off ≤ a.length := by omega
  rw [slice, slice, List.drop_append_of_le_length hoff, List.take_append_of_le_length]
  rw [List.length_drop]
  omega

theorem slice_append_right (a b : Bytes) {off len : ℕ} (h : a.length ≤ off) :
    slice (a ++ b) off len = b.slice (off - a.length) len := by
  rw [slice, slice, List.drop_append]
  simp [List.drop_eq_nil_of_le h]

theorem writeAt_eq {b : Bytes} {off : ℕ} {src : Bytes} (h : off + src.length ≤ b.length) :
    b.writeAt off src = b.take off ++ src ++ b.drop (off + src.length) := by
  apply List.take_of_length_le
  simp only [List.length_append, List.length_take, List.length_drop]
  omega

theorem writeAt_append_left {a : Bytes} (b : Bytes) {off : ℕ} {src : Bytes}
    (h : off + src.length ≤ a.length) : writeAt (a ++ b) off src = a.writeAt off src ++ b := by
  have hoff : off ≤ a.length := by omega
  have hlen : off + src.length ≤ (a ++ b).length := by
    rw [List.length_append]
    omega
  rw [writeAt_eq h, writeAt_eq hlen, List.take_append_of_le_length hoff,
    List.drop_append_of_le_length h]
  simp only [List.append_assoc]

theorem writeAt_append_right (a : Bytes) {b : Bytes} (off : ℕ) (src : Bytes)
    (h : off + src.length ≤ b.length) :
    writeAt (a ++ b) (a.length + off) src = a ++ b.writeAt off src := by
  have hlen : a.length + off + src.length ≤ (a ++ b).length := by
    rw [List.length_append]
    omega
  rw [writeAt_eq h, writeAt_eq hlen, List.take_length_add_append, Nat.add_assoc,
    List.drop_length_add_append, List.append_assoc, List.append_assoc, List.append_assoc]

/-- A write to the front of what is still to be filled. -/
theorem writeAt_fill (a : Bytes) {z : Bytes} (src : Bytes) (h : src.length ≤ z.length) :
    writeAt (a ++ z) a.length src = a ++ src ++ z.drop src.length := by
  have hwrite := writeAt_append_right a (b := z) 0 src (by omega)
  rw [Nat.add_zero] at hwrite
  rw [hwrite, writeAt_eq (by omega), List.take_zero, List.nil_append, Nat.zero_add,
    List.append_assoc]

theorem getElem?_writeAt {b : Bytes} {off : ℕ} {src : Bytes} (h : off + src.length ≤ b.length)
    (i : ℕ) :
    (b.writeAt off src)[i]? =
      if off ≤ i ∧ i < off + src.length then src[i - off]? else b[i]? := by
  have hoff : (b.take off).length = off := by
    rw [List.length_take]
    omega
  rw [writeAt_eq h, List.append_assoc]
  by_cases hbefore : i < off
  · rw [List.getElem?_append_left (by omega), List.getElem?_take_of_lt hbefore,
      if_neg (by omega)]
  · rw [List.getElem?_append_right (by omega), hoff]
    by_cases hin : i < off + src.length
    · rw [List.getElem?_append_left (by omega), if_pos (by omega)]
    · rw [List.getElem?_append_right (by omega), if_neg (by omega), List.getElem?_drop]
      congr 1
      omega

/-- Writes to places apart may change places. -/
theorem writeAt_comm {b : Bytes} {i j : ℕ} {s t : Bytes} (hs : i + s.length ≤ j)
    (ht : j + t.length ≤ b.length) :
    (b.writeAt i s).writeAt j t = (b.writeAt j t).writeAt i s := by
  apply List.ext_getElem?
  intro k
  rw [getElem?_writeAt (by rw [writeAt_length]; exact ht), getElem?_writeAt (by omega),
    getElem?_writeAt (by rw [writeAt_length]; omega), getElem?_writeAt ht]
  split_ifs <;> first | rfl | omega

theorem slice_writeAt_of_le {b : Bytes} {off len j : ℕ} {t : Bytes} (hlen : off + len ≤ j)
    (ht : j + t.length ≤ b.length) : (b.writeAt j t).slice off len = b.slice off len := by
  apply List.ext_getElem?
  intro k
  by_cases hk : k < len
  · rw [slice, slice, List.getElem?_take_of_lt hk, List.getElem?_take_of_lt hk, List.getElem?_drop,
      List.getElem?_drop, getElem?_writeAt ht, if_neg (by omega)]
  · rw [List.getElem?_eq_none (by rw [slice_length]; omega),
      List.getElem?_eq_none (by rw [slice_length]; omega)]

/-- What was written is read back. -/
theorem slice_writeAt {b : Bytes} {off n : ℕ} {src : Bytes} (hn : src.length = n)
    (h : off + n ≤ b.length) : (b.writeAt off src).slice off n = src := by
  have hoff : (b.take off).length = off := by
    rw [List.length_take]
    omega
  rw [writeAt_eq (by omega), slice, List.append_assoc, List.drop_left' hoff, List.take_left' hn]

/-- What was read before a write undoes it. -/
theorem writeAt_undo {b : Bytes} {off n : ℕ} {src : Bytes} (hn : src.length = n)
    (h : off + n ≤ b.length) : (b.writeAt off src).writeAt off (b.slice off n) = b := by
  subst hn
  have hlen : (b.slice off src.length).length = src.length := by
    rw [slice_length]
    omega
  have hoff : (b.take off).length = off := by
    rw [List.length_take]
    omega
  have h' : off + (b.slice off src.length).length ≤ (b.writeAt off src).length := by
    rw [hlen, writeAt_length]
    exact h
  have htake : (b.writeAt off src).take off = b.take off := by
    rw [writeAt_eq h, List.append_assoc, List.take_left' hoff]
  have hdrop : (b.writeAt off src).drop (off + src.length) = b.drop (off + src.length) := by
    rw [writeAt_eq h, List.drop_left']
    rw [List.length_append, hoff]
  rw [writeAt_eq h', hlen, htake, hdrop, slice, ← List.drop_drop, List.append_assoc,
    List.take_append_drop, List.take_append_drop]

theorem byteAt_append_left (a b : Bytes) {i : ℕ} (h : i < a.length) :
    byteAt (a ++ b) i = a.byteAt i := by
  simp [byteAt, List.getElem?_append_left h]

theorem byteAt_append_right (a b : Bytes) {i : ℕ} (h : a.length ≤ i) :
    byteAt (a ++ b) i = b.byteAt (i - a.length) := by
  simp [byteAt, List.getElem?_append_right h]

theorem byteAt_slice (b : Bytes) {off len i : ℕ} (h : i < len) :
    (b.slice off len).byteAt i = b.byteAt (off + i) := by
  simp only [byteAt, slice, List.getD_eq_getElem?_getD, List.getElem?_take_of_lt h,
    List.getElem?_drop]

/-- A write does not reach what is in front of it. -/
theorem byteAt_writeAt_of_lt (b t : Bytes) {off i : ℕ} (h : i < off) :
    (b.writeAt off t).byteAt i = b.byteAt i := by
  by_cases hlen : i < b.length
  · have htake : i < (b.take off).length := by
      rw [List.length_take]
      omega
    simp only [byteAt, writeAt, List.getD_eq_getElem?_getD, List.getElem?_take_of_lt hlen,
      List.append_assoc, List.getElem?_append_left htake, List.getElem?_take_of_lt h]
  · simp only [byteAt, List.getD_eq_getElem?_getD]
    rw [List.getElem?_eq_none (by rw [writeAt_length]; omega), List.getElem?_eq_none (by omega)]

theorem byteAt_lt (b : Bytes) (i : ℕ) : b.byteAt i < 256 := (b.getD i 0).toNat_lt

theorem be16_append_left (a b : Bytes) {off : ℕ} (h : off + 1 < a.length) :
    be16 (a ++ b) off = a.be16 off := by
  have h' : off < a.length := by omega
  rw [be16, be16, byteAt_append_left a b h, byteAt_append_left a b h']

theorem be16_append_right (a b : Bytes) {off : ℕ} (h : a.length ≤ off) :
    be16 (a ++ b) off = b.be16 (off - a.length) := by
  have h' : a.length ≤ off + 1 := by omega
  rw [be16, be16, byteAt_append_right a b h, byteAt_append_right a b h']
  rw [show off + 1 - a.length = off - a.length + 1 by omega]

theorem be16_writeAt_of_lt (b t : Bytes) {off i : ℕ} (h : i + 1 < off) :
    (b.writeAt off t).be16 i = b.be16 i := by
  rw [be16, be16, byteAt_writeAt_of_lt b t h, byteAt_writeAt_of_lt b t (by omega)]

theorem be16_ofBeNat {n : ℕ} (h : n < 65536) (rest : Bytes) : be16 (ofBeNat n 2 ++ rest) 0 = n := by
  simp only [ofBeNat, be16, byteAt, List.cons_append, List.nil_append, List.getD_cons_zero,
    List.getD_cons_succ, pow_one, pow_zero, UInt8.toNat_ofNat']
  omega

theorem be16_lt (b : Bytes) (off : ℕ) : b.be16 off < 65536 := by
  have h₀ := b.byteAt_lt off
  have h₁ := b.byteAt_lt (off + 1)
  unfold be16
  omega

theorem beNat_lt (b : Bytes) : b.beNat < 256 ^ b.length := by
  induction b with
  | nil => simp [beNat]
  | cons x xs ih =>
    have hx : x.toNat + 1 ≤ 256 := x.toNat_lt
    calc x.toNat * 256 ^ xs.length + beNat xs
        < x.toNat * 256 ^ xs.length + 256 ^ xs.length := by omega
      _ = (x.toNat + 1) * 256 ^ xs.length := by ring
      _ ≤ 256 * 256 ^ xs.length := Nat.mul_le_mul_right _ hx
      _ = 256 ^ (x :: xs).length := by rw [List.length_cons, pow_succ, mul_comm]

/-- The last octet of a number. -/
theorem byteAt_last (b : Bytes) : b.byteAt (b.length - 1) = b.beNat % 256 := by
  induction b with
  | nil => rfl
  | cons x b ih =>
    cases b with
    | nil =>
      rw [beNat, beNat, List.length_nil, pow_zero, mul_one, add_zero]
      exact (Nat.mod_eq_of_lt x.toNat_lt).symm
    | cons y b =>
      have hpow : x.toNat * 256 ^ (y :: b).length = 256 * (x.toNat * 256 ^ b.length) := by
        rw [List.length_cons, pow_succ]
        ring
      rw [beNat, hpow, Nat.mul_add_mod, ← ih]
      rfl

theorem beNat_ofBeNat {n w : ℕ} (h : n < 256 ^ w) : beNat (ofBeNat n w) = n := by
  induction w generalizing n with
  | zero =>
    rw [pow_zero, Nat.lt_one_iff] at h
    rw [h]
    rfl
  | succ w ih =>
    have hpos : 0 < 256 ^ w := by positivity
    have hdiv : n / 256 ^ w < 256 := by
      rw [Nat.div_lt_iff_lt_mul hpos, mul_comm, ← pow_succ]
      exact h
    have hbyte : (UInt8.ofNat (n / 256 ^ w)).toNat = n / 256 ^ w := by
      rw [UInt8.toNat_ofNat']
      exact Nat.mod_eq_of_lt hdiv
    rw [ofBeNat, beNat, ofBeNat_length, hbyte, ih (Nat.mod_lt _ hpos), mul_comm]
    exact Nat.div_add_mod n (256 ^ w)

theorem beNat_injective {a b : Bytes} (hlen : a.length = b.length) (h : a.beNat = b.beNat) :
    a = b := by
  induction a generalizing b with
  | nil => exact (List.length_eq_zero_iff.mp hlen.symm).symm
  | cons x xs ih =>
    obtain _ | ⟨y, ys⟩ := b
    · simp at hlen
    · have hl : xs.length = ys.length := by simpa using hlen
      have hxs := beNat_lt xs
      have hys := beNat_lt ys
      simp only [beNat, hl] at h hxs
      have hxy : x.toNat = y.toNat := by
        have hpos : 0 < 256 ^ ys.length := by positivity
        have hdx := Nat.add_mul_div_right (beNat xs) x.toNat hpos
        have hdy := Nat.add_mul_div_right (beNat ys) y.toNat hpos
        rw [Nat.div_eq_of_lt hxs, zero_add, add_comm, h, add_comm] at hdx
        rw [Nat.div_eq_of_lt hys, zero_add] at hdy
        exact hdx.symm.trans hdy
      rw [UInt8.toNat_inj] at hxy
      subst hxy
      rw [ih hl (by omega)]

/-- For strings of equal length the sign of `memcmp` is the order of the numbers spelled. -/
theorem memcmp_neg_iff {a b : Bytes} (hlen : a.length = b.length) :
    memcmp a b < 0 ↔ a.beNat < b.beNat := by
  induction a generalizing b with
  | nil =>
    rw [List.length_nil, eq_comm, List.length_eq_zero_iff] at hlen
    simp [hlen, memcmp]
  | cons x xs ih =>
    obtain _ | ⟨y, ys⟩ := b
    · simp at hlen
    · have hl : xs.length = ys.length := by simpa using hlen
      have hxs := beNat_lt xs
      have hys := beNat_lt ys
      simp only [memcmp, beNat, hl] at hxs ⊢
      rcases lt_trichotomy x.toNat y.toNat with hlt | heq | hgt
      · have hstep : (x.toNat + 1) * 256 ^ ys.length ≤ y.toNat * 256 ^ ys.length :=
          Nat.mul_le_mul_right _ hlt
        rw [if_pos hlt]
        rw [add_mul, one_mul] at hstep
        omega
      · rw [heq, if_neg (lt_irrefl _), if_neg (lt_irrefl _), ih hl]
        omega
      · have hstep : (y.toNat + 1) * 256 ^ ys.length ≤ x.toNat * 256 ^ ys.length :=
          Nat.mul_le_mul_right _ hgt
        rw [if_neg (lt_asymm hgt), if_pos hgt]
        rw [add_mul, one_mul] at hstep
        omega

theorem memcmp_eq_zero_iff {a b : Bytes} (hlen : a.length = b.length) :
    memcmp a b = 0 ↔ a = b := by
  induction a generalizing b with
  | nil =>
    rw [List.length_nil, eq_comm, List.length_eq_zero_iff] at hlen
    simp [hlen, memcmp]
  | cons x xs ih =>
    obtain _ | ⟨y, ys⟩ := b
    · simp at hlen
    · have hl : xs.length = ys.length := by simpa using hlen
      simp only [memcmp, List.cons.injEq, ← UInt8.toNat_inj]
      rcases lt_trichotomy x.toNat y.toNat with hlt | heq | hgt
      · simp [hlt, hlt.ne]
      · simp [heq, ih hl]
      · simp [hgt, lt_asymm hgt, hgt.ne']

theorem memcmp_pos_iff {a b : Bytes} (hlen : a.length = b.length) :
    0 < memcmp a b ↔ b.beNat < a.beNat := by
  have hneg := memcmp_neg_iff hlen
  have hzero := memcmp_eq_zero_iff hlen
  constructor
  · intro hpos
    have hne : a.beNat ≠ b.beNat := fun h => by
      rw [hzero.mpr (beNat_injective hlen h)] at hpos
      exact lt_irrefl _ hpos
    have hnlt : ¬a.beNat < b.beNat := fun h => by
      have := hneg.mpr h
      omega
    omega
  · intro hlt
    have hne : memcmp a b ≠ 0 := fun h => by
      rw [hzero.mp h] at hlt
      exact lt_irrefl _ hlt
    have hnn : ¬memcmp a b < 0 := fun h => by
      have := hneg.mp h
      omega
    omega

end Bytes
end Lib
