import Wpa.Lib.Bytes

/-! `utils/const_time.h`: selection without branches. A mask has every bit set, or none. -/

namespace Wpa
open Lib Bytes

def constTimeFillMsb (val : BitVec 32) : BitVec 32 := (val >>> 31) * ~~~(0 : BitVec 32)

def constTimeIsZero (val : BitVec 32) : BitVec 32 := constTimeFillMsb (~~~val &&& (val - 1))

def constTimeEq (a b : BitVec 32) : BitVec 32 := constTimeIsZero (a ^^^ b)

def constTimeSelect (mask trueVal falseVal : BitVec 32) : BitVec 32 :=
  (mask &&& trueVal) ||| (~~~mask &&& falseVal)

def constTimeSelectInt (mask : BitVec 32) (trueVal falseVal : ℤ) : ℤ :=
  (constTimeSelect mask (BitVec.ofInt 32 trueVal) (BitVec.ofInt 32 falseVal)).toInt

def constTimeSelectU8 (mask trueVal falseVal : UInt8) : UInt8 :=
  ⟨(constTimeSelect (mask.toBitVec.setWidth 32) (trueVal.toBitVec.setWidth 32)
    (falseVal.toBitVec.setWidth 32)).setWidth 8⟩

def constTimeSelectBin (mask : UInt8) (trueVal falseVal : Bytes) : Bytes :=
  List.zipWith (constTimeSelectU8 mask) trueVal falseVal

/-- `const_time_eq_bin`: the loop collects the bits that differ. -/
def constTimeEqBin (a b : Bytes) : BitVec 32 :=
  let res := (List.zipWith (· ^^^ ·) a b).foldl (· ||| ·) (0 : UInt8)
  constTimeIsZero (res.toBitVec.setWidth 32)

/-- The loop goes from the last octets to the first. -/
def constTimeMemcmp : Bytes → Bytes → ℤ
  | x :: xs, y :: ys =>
    let res := constTimeMemcmp xs ys
    let diff := (x.toNat : ℤ) - y.toNat
    constTimeSelectInt (constTimeIsZero (BitVec.ofInt 32 diff)) res diff
  | _, _ => 0

/-- The value of a mask as `unsigned int`. -/
def maskOf (b : Bool) : BitVec 32 := if b then BitVec.allOnes 32 else 0

/-- The value of a mask as `u8`. -/
def byteMask (b : Bool) : UInt8 := if b then 0xff else 0

theorem constTimeFillMsb_eq (val : BitVec 32) : constTimeFillMsb val = maskOf val.msb := by
  have hshift : (val >>> 31).toNat = val.toNat / 2 ^ 31 := by
    rw [BitVec.toNat_ushiftRight, Nat.shiftRight_eq_div_pow]
  have hval := val.isLt
  rw [BitVec.msb_eq_decide]
  unfold constTimeFillMsb
  by_cases hmsb : 2 ^ 31 ≤ val.toNat
  · have hone : val >>> 31 = 1 := by
      apply BitVec.eq_of_toNat_eq
      rw [hshift]
      show val.toNat / 2 ^ 31 = 1
      omega
    rw [hone, decide_eq_true hmsb]
    rfl
  · have hzero : val >>> 31 = 0 := by
      apply BitVec.eq_of_toNat_eq
      rw [hshift]
      show val.toNat / 2 ^ 31 = 0
      omega
    rw [hzero, decide_eq_false hmsb]
    rfl

theorem constTimeIsZero_eq (val : BitVec 32) : constTimeIsZero val = maskOf (decide (val = 0)) := by
  rw [constTimeIsZero, constTimeFillMsb_eq]
  by_cases hzero : val = 0
  · subst hzero
    rfl
  · rw [decide_eq_false hzero, BitVec.msb_and, BitVec.msb_not]
    congr 1
    by_cases hmsb : val.msb = true
    · rw [hmsb]
      rfl
    · -- a positive number stays one
      have hsmall : val.toNat < 2 ^ 31 := by
        rw [BitVec.msb_eq_decide, decide_eq_true_eq, not_le] at hmsb
        exact hmsb
      have hpos : val.toNat ≠ 0 := fun h => hzero (BitVec.eq_of_toNat_eq h)
      have hpred : (val - 1).toNat < 2 ^ 31 := by
        have hone : (1 : BitVec 32).toNat = 1 := rfl
        rw [BitVec.toNat_sub, hone]
        omega
      rw [BitVec.msb_eq_decide (val - 1), decide_eq_false (not_le.mpr hpred), Bool.and_false]

theorem constTimeEq_eq (a b : BitVec 32) : constTimeEq a b = maskOf (decide (a = b)) := by
  rw [constTimeEq, constTimeIsZero_eq]
  congr 1
  rw [decide_eq_decide]
  exact BitVec.xor_eq_zero_iff

theorem select_bits {w : ℕ} (b : Bool) (t f : BitVec w) :
    ((if b then BitVec.allOnes w else 0#w) &&& t) |||
      (~~~(if b then BitVec.allOnes w else 0#w) &&& f) = if b then t else f := by
  cases b with
  | false =>
    simp only [Bool.false_eq_true, if_false]
    rw [BitVec.zero_and, BitVec.not_zero, BitVec.allOnes_and, BitVec.zero_or]
  | true =>
    simp only [if_true]
    rw [BitVec.not_allOnes, BitVec.allOnes_and, BitVec.zero_and, BitVec.or_zero]

theorem constTimeSelect_maskOf (b : Bool) (t f : BitVec 32) :
    constTimeSelect (maskOf b) t f = if b then t else f := select_bits b t f

/-- Values of `int`. -/
def IsInt (n : ℤ) : Prop := -2 ^ 31 ≤ n ∧ n < 2 ^ 31

theorem isInt_one : IsInt 1 := ⟨by decide, by decide⟩

theorem isInt_zero : IsInt 0 := ⟨by decide, by decide⟩

theorem isInt_neg_one : IsInt (-1) := ⟨by decide, by decide⟩

theorem constTimeSelectInt_maskOf {b : Bool} {t f : ℤ} (ht : IsInt t) (hf : IsInt f) :
    constTimeSelectInt (maskOf b) t f = if b then t else f := by
  have hint : ∀ n, IsInt n → (BitVec.ofInt 32 n).toInt = n := by
    intro n hn
    apply BitVec.toInt_ofInt_eq_self (by decide) hn.1 hn.2
  rw [constTimeSelectInt, constTimeSelect_maskOf]
  cases b with
  | false => exact hint f hf
  | true => exact hint t ht

theorem setWidth_maskOf (b : Bool) : UInt8.ofBitVec ((maskOf b).setWidth 8) = byteMask b := by
  cases b <;> rfl

theorem constTimeSelectU8_byteMask (b : Bool) (t f : UInt8) :
    constTimeSelectU8 (byteMask b) t f = if b then t else f := by
  have hback : ∀ x : UInt8, (x.toBitVec.setWidth 32).setWidth 8 = x.toBitVec := by
    intro x
    rw [BitVec.setWidth_setWidth_of_le x.toBitVec (by decide), BitVec.setWidth_eq]
  have hwidth : ∀ m : BitVec 32, (constTimeSelect m (t.toBitVec.setWidth 32)
      (f.toBitVec.setWidth 32)).setWidth 8 =
        (m.setWidth 8 &&& t.toBitVec) ||| (~~~(m.setWidth 8) &&& f.toBitVec) := by
    intro m
    rw [constTimeSelect, BitVec.setWidth_or, BitVec.setWidth_and, BitVec.setWidth_and,
      BitVec.setWidth_not (by decide), hback, hback]
  apply UInt8.toBitVec_inj.mp
  show (constTimeSelect _ _ _).setWidth 8 = _
  rw [hwidth, hback]
  have hmask : (byteMask b).toBitVec = if b then BitVec.allOnes 8 else 0#8 := by
    cases b <;> rfl
  rw [hmask, select_bits]
  cases b <;> rfl

theorem constTimeSelectBin_byteMask {b : Bool} {t f : Bytes} (h : t.length = f.length) :
    constTimeSelectBin (byteMask b) t f = if b then t else f := by
  unfold constTimeSelectBin
  have hselect : constTimeSelectU8 (byteMask b) = fun x y => if b then x else y := by
    funext x y
    exact constTimeSelectU8_byteMask b x y
  rw [hselect]
  induction t generalizing f with
  | nil =>
    rw [List.length_eq_zero_iff.mp h.symm]
    cases b <;> rfl
  | cons x t ih =>
    cases f with
    | nil => cases h
    | cons y f =>
      rw [List.zipWith_cons_cons, ih (Nat.succ.inj h)]
      cases b <;> rfl

theorem constTimeMemcmp_isInt {a b : Bytes} :
    -255 ≤ constTimeMemcmp a b ∧ constTimeMemcmp a b ≤ 255 := by
  induction a generalizing b with
  | nil => simp [constTimeMemcmp]
  | cons x a ih =>
    cases b with
    | nil => simp [constTimeMemcmp]
    | cons y b =>
      have hx := x.toNat_lt
      have hy := y.toNat_lt
      have hrest := @ih b
      rw [constTimeMemcmp, constTimeIsZero_eq,
        constTimeSelectInt_maskOf ⟨by omega, by omega⟩ ⟨by omega, by omega⟩]
      split <;> omega

/-- The turn of the loop: the result for the octets behind stays where the octets are equal. -/
theorem constTimeMemcmp_cons (x y : UInt8) (a b : Bytes) :
    constTimeMemcmp (x :: a) (y :: b) =
      if x = y then constTimeMemcmp a b else (x.toNat : ℤ) - y.toNat := by
  have hx := x.toNat_lt
  have hy := y.toNat_lt
  have hrest := @constTimeMemcmp_isInt a b
  have hzero : BitVec.ofInt 32 ((x.toNat : ℤ) - y.toNat) = 0 ↔ x = y := by
    constructor
    · intro h
      have hint := congrArg BitVec.toInt h
      rw [BitVec.toInt_ofInt_eq_self (by decide) (by omega) (by omega)] at hint
      have hnone : (0 : BitVec 32).toInt = 0 := rfl
      exact UInt8.toNat_inj.mp (by omega)
    · rintro rfl
      rw [Int.sub_self]
      rfl
  rw [constTimeMemcmp, constTimeIsZero_eq,
    constTimeSelectInt_maskOf ⟨by omega, by omega⟩ ⟨by omega, by omega⟩]
  simp only [hzero, decide_eq_true_eq]

theorem constTimeMemcmp_self (a : Bytes) : constTimeMemcmp a a = 0 := by
  induction a with
  | nil => rfl
  | cons x a ih => rw [constTimeMemcmp_cons, if_pos rfl, ih]

/-- The octets behind the first ones that differ do not count. -/
theorem constTimeMemcmp_append {p a b : Bytes} {x y : UInt8} (hne : x ≠ y) :
    constTimeMemcmp (p ++ x :: a) (p ++ y :: b) = (x.toNat : ℤ) - y.toNat := by
  induction p with
  | nil => rw [List.nil_append, List.nil_append, constTimeMemcmp_cons, if_neg hne]
  | cons z p ih => rw [List.cons_append, List.cons_append, constTimeMemcmp_cons, if_pos rfl, ih]

/-- The sign is that of a comparison of the numbers. -/
theorem constTimeMemcmp_neg {a b : Bytes} (h : a.length = b.length) :
    constTimeMemcmp a b < 0 ↔ a.beNat < b.beNat := by
  induction a generalizing b with
  | nil =>
    rw [List.length_eq_zero_iff.mp h.symm]
    decide
  | cons x a ih =>
    cases b with
    | nil => cases h
    | cons y b =>
      have hlen : a.length = b.length := Nat.succ.inj h
      have hx := x.toNat_lt
      have hy := y.toNat_lt
      have hrest := @constTimeMemcmp_isInt a b
      have ha := beNat_lt a
      have hb := beNat_lt b
      rw [hlen] at ha
      rw [constTimeMemcmp_cons]
      simp only [beNat, hlen]
      by_cases hsame : x = y
      · subst hsame
        rw [if_pos rfl, ih hlen]
        exact (Nat.add_lt_add_iff_left).symm
      · -- the first octets that differ decide
        have hne : x.toNat ≠ y.toNat := fun heq => hsame (UInt8.toNat_inj.mp heq)
        rw [if_neg hsame]
        generalize 256 ^ b.length = w at ha hb
        constructor
        · intro hlt
          have hsucc : (x.toNat + 1) * w ≤ y.toNat * w := Nat.mul_le_mul_right w (by omega)
          rw [Nat.add_mul, Nat.one_mul] at hsucc
          omega
        · intro hlt
          by_contra hge
          have hsucc : (y.toNat + 1) * w ≤ x.toNat * w := Nat.mul_le_mul_right w (by omega)
          rw [Nat.add_mul, Nat.one_mul] at hsucc
          omega

theorem foldl_or_eq_zero {l : Bytes} {res : UInt8} :
    l.foldl (· ||| ·) res = 0 ↔ res = 0 ∧ ∀ x ∈ l, x = 0 := by
  induction l generalizing res with
  | nil => simp
  | cons x l ih => rw [List.foldl_cons, ih, UInt8.or_eq_zero_iff, List.forall_mem_cons, and_assoc]

theorem zipWith_xor_eq_zero {a b : Bytes} (h : a.length = b.length) :
    (∀ x ∈ List.zipWith (· ^^^ ·) a b, x = 0) ↔ a = b := by
  induction a generalizing b with
  | nil => simp [List.length_eq_zero_iff.mp h.symm]
  | cons x a ih =>
    cases b with
    | nil => cases h
    | cons y b =>
      rw [List.zipWith_cons_cons, List.forall_mem_cons, ih (Nat.succ.inj h), UInt8.xor_eq_zero_iff,
        List.cons.injEq]

theorem constTimeEqBin_eq {a b : Bytes} (h : a.length = b.length) :
    constTimeEqBin a b = maskOf (decide (a = b)) := by
  have hwidth (x : UInt8) : x.toBitVec.setWidth 32 = 0 ↔ x = 0 := by
    constructor
    · intro hzero
      have hnat := congrArg BitVec.toNat hzero
      have hlt : x.toBitVec.toNat < 2 ^ 32 := x.toNat_lt.trans (by decide)
      rw [BitVec.toNat_setWidth, Nat.mod_eq_of_lt hlt] at hnat
      exact UInt8.toNat_inj.mp hnat
    · rintro rfl
      rfl
  rw [constTimeEqBin, constTimeIsZero_eq]
  congr 1
  rw [decide_eq_decide, hwidth, foldl_or_eq_zero, zipWith_xor_eq_zero h]
  exact and_iff_right rfl

/-- The comparison is that of the octets, the mask of equality has every bit set exactly for equal
strings, and the selection takes the string that the mask stands for. -/
theorem constTime_spec {a b : Bytes} (h : a.length = b.length) :
    (a = b → constTimeMemcmp a b = 0) ∧
    (∀ i x y, a.take i = b.take i → a[i]? = some x → b[i]? = some y → x ≠ y →
      constTimeMemcmp a b = (x.toNat : ℤ) - y.toNat) ∧
    (constTimeEqBin a b = BitVec.allOnes 32 ↔ a = b) ∧ (constTimeEqBin a b = 0 ↔ a ≠ b) ∧
    constTimeSelectBin 0xff a b = a ∧ constTimeSelectBin 0 a b = b := by
  have hmask (p : Bool) : (maskOf p = BitVec.allOnes 32 ↔ p = true) ∧ (maskOf p = 0 ↔ p = false) := by
    cases p <;> decide
  refine ⟨?_, ?_, ?_, ?_, constTimeSelectBin_byteMask (b := true) h,
    constTimeSelectBin_byteMask (b := false) h⟩
  · rintro rfl
    exact constTimeMemcmp_self a
  · intro i x y hfront hx hy hne
    have hsplit {s : Bytes} {z : UInt8} (hz : s[i]? = some z) : s = s.take i ++ z :: s.drop (i + 1) := by
      obtain ⟨hi, rfl⟩ := List.getElem?_eq_some_iff.mp hz
      rw [← List.drop_eq_getElem_cons hi, List.take_append_drop]
    rw [hsplit hx, hsplit hy, hfront, constTimeMemcmp_append hne]
  · rw [constTimeEqBin_eq h, (hmask _).1, decide_eq_true_eq]
  · rw [constTimeEqBin_eq h, (hmask _).2, decide_eq_false_iff_not]

/-- "accde" and "abcde". -/
theorem constTimeMemcmp_second : constTimeMemcmp [97, 99, 99, 100, 101] [97, 98, 99, 100, 101] = 1 :=
  (@constTime_spec [97, 99, 99, 100, 101] [97, 98, 99, 100, 101] rfl).2.1 1 99 98 rfl rfl rfl (by decide)

end Wpa
