import Wpa.Lib.Bytes
import Wpa.Lib.CheckDigit
import Mathlib.GroupTheory.SpecificGroups.Dihedral
import Mathlib.Data.Fintype.Pi

/-! SAE-PK passwords: `sae_pk_valid_password` and its check character. `d_mult_table` is the
dihedral group of order 32. -/

namespace Wpa.SaePk
open Lib Bytes

/-- A digit of the base 32 alphabet. -/
abbrev Digit := Fin 32

scoped instance neZero_digits : NeZero 32 := ⟨by decide⟩

def hyphen : UInt8 := 45

/-- `abcdefghijklmnopqrstuvwxyz234567` -/
def saePkBase32Table : Bytes :=
  [97, 98, 99, 100, 101, 102, 103, 104, 105, 106, 107, 108, 109, 110, 111, 112, 113, 114, 115, 116,
    117, 118, 119, 120, 121, 122, 50, 51, 52, 53, 54, 55]

def base32Char (d : Digit) : UInt8 := saePkBase32Table.getD d.val 0

/-- The loop that fills `dtable`; `none` is 0x80. -/
def dtable : UInt8 → Option Digit :=
  (List.finRange 32).foldl (fun table i => Function.update table (base32Char i) (some i))
    fun _ => none

def dMultTable : List Digit :=
  [0, 1, 2, 3, 4, 5, 6, 7, 8, 9, 10, 11, 12, 13, 14, 15, 16, 17, 18, 19, 20, 21, 22, 23, 24, 25, 26,
    27, 28, 29, 30, 31, 1, 2, 3, 4, 5, 6, 7, 8, 9, 10, 11, 12, 13, 14, 15, 0, 17, 18, 19, 20, 21,
    22, 23, 24, 25, 26, 27, 28, 29, 30, 31, 16, 2, 3, 4, 5, 6, 7, 8, 9, 10, 11, 12, 13, 14, 15, 0,
    1, 18, 19, 20, 21, 22, 23, 24, 25, 26, 27, 28, 29, 30, 31, 16, 17, 3, 4, 5, 6, 7, 8, 9, 10, 11,
    12, 13, 14, 15, 0, 1, 2, 19, 20, 21, 22, 23, 24, 25, 26, 27, 28, 29, 30, 31, 16, 17, 18, 4, 5,
    6, 7, 8, 9, 10, 11, 12, 13, 14, 15, 0, 1, 2, 3, 20, 21, 22, 23, 24, 25, 26, 27, 28, 29, 30, 31,
    16, 17, 18, 19, 5, 6, 7, 8, 9, 10, 11, 12, 13, 14, 15, 0, 1, 2, 3, 4, 21, 22, 23, 24, 25, 26,
    27, 28, 29, 30, 31, 16, 17, 18, 19, 20, 6, 7, 8, 9, 10, 11, 12, 13, 14, 15, 0, 1, 2, 3, 4, 5,
    22, 23, 24, 25, 26, 27, 28, 29, 30, 31, 16, 17, 18, 19, 20, 21, 7, 8, 9, 10, 11, 12, 13, 14, 15,
    0, 1, 2, 3, 4, 5, 6, 23, 24, 25, 26, 27, 28, 29, 30, 31, 16, 17, 18, 19, 20, 21, 22, 8, 9, 10,
    11, 12, 13, 14, 15, 0, 1, 2, 3, 4, 5, 6, 7, 24, 25, 26, 27, 28, 29, 30, 31, 16, 17, 18, 19, 20,
    21, 22, 23, 9, 10, 11, 12, 13, 14, 15, 0, 1, 2, 3, 4, 5, 6, 7, 8, 25, 26, 27, 28, 29, 30, 31,
    16, 17, 18, 19, 20, 21, 22, 23, 24, 10, 11, 12, 13, 14, 15, 0, 1, 2, 3, 4, 5, 6, 7, 8, 9, 26,
    27, 28, 29, 30, 31, 16, 17, 18, 19, 20, 21, 22, 23, 24, 25, 11, 12, 13, 14, 15, 0, 1, 2, 3, 4,
    5, 6, 7, 8, 9, 10, 27, 28, 29, 30, 31, 16, 17, 18, 19, 20, 21, 22, 23, 24, 25, 26, 12, 13, 14,
    15, 0, 1, 2, 3, 4, 5, 6, 7, 8, 9, 10, 11, 28, 29, 30, 31, 16, 17, 18, 19, 20, 21, 22, 23, 24,
    25, 26, 27, 13, 14, 15, 0, 1, 2, 3, 4, 5, 6, 7, 8, 9, 10, 11, 12, 29, 30, 31, 16, 17, 18, 19,
    20, 21, 22, 23, 24, 25, 26, 27, 28, 14, 15, 0, 1, 2, 3, 4, 5, 6, 7, 8, 9, 10, 11, 12, 13, 30,
    31, 16, 17, 18, 19, 20, 21, 22, 23, 24, 25, 26, 27, 28, 29, 15, 0, 1, 2, 3, 4, 5, 6, 7, 8, 9,
    10, 11, 12, 13, 14, 31, 16, 17, 18, 19, 20, 21, 22, 23, 24, 25, 26, 27, 28, 29, 30, 16, 31, 30,
    29, 28, 27, 26, 25, 24, 23, 22, 21, 20, 19, 18, 17, 0, 15, 14, 13, 12, 11, 10, 9, 8, 7, 6, 5, 4,
    3, 2, 1, 17, 16, 31, 30, 29, 28, 27, 26, 25, 24, 23, 22, 21, 20, 19, 18, 1, 0, 15, 14, 13, 12,
    11, 10, 9, 8, 7, 6, 5, 4, 3, 2, 18, 17, 16, 31, 30, 29, 28, 27, 26, 25, 24, 23, 22, 21, 20, 19,
    2, 1, 0, 15, 14, 13, 12, 11, 10, 9, 8, 7, 6, 5, 4, 3, 19, 18, 17, 16, 31, 30, 29, 28, 27, 26,
    25, 24, 23, 22, 21, 20, 3, 2, 1, 0, 15, 14, 13, 12, 11, 10, 9, 8, 7, 6, 5, 4, 20, 19, 18, 17,
    16, 31, 30, 29, 28, 27, 26, 25, 24, 23, 22, 21, 4, 3, 2, 1, 0, 15, 14, 13, 12, 11, 10, 9, 8, 7,
    6, 5, 21, 20, 19, 18, 17, 16, 31, 30, 29, 28, 27, 26, 25, 24, 23, 22, 5, 4, 3, 2, 1, 0, 15, 14,
    13, 12, 11, 10, 9, 8, 7, 6, 22, 21, 20, 19, 18, 17, 16, 31, 30, 29, 28, 27, 26, 25, 24, 23, 6,
    5, 4, 3, 2, 1, 0, 15, 14, 13, 12, 11, 10, 9, 8, 7, 23, 22, 21, 20, 19, 18, 17, 16, 31, 30, 29,
    28, 27, 26, 25, 24, 7, 6, 5, 4, 3, 2, 1, 0, 15, 14, 13, 12, 11, 10, 9, 8, 24, 23, 22, 21, 20,
    19, 18, 17, 16, 31, 30, 29, 28, 27, 26, 25, 8, 7, 6, 5, 4, 3, 2, 1, 0, 15, 14, 13, 12, 11, 10,
    9, 25, 24, 23, 22, 21, 20, 19, 18, 17, 16, 31, 30, 29, 28, 27, 26, 9, 8, 7, 6, 5, 4, 3, 2, 1, 0,
    15, 14, 13, 12, 11, 10, 26, 25, 24, 23, 22, 21, 20, 19, 18, 17, 16, 31, 30, 29, 28, 27, 10, 9,
    8, 7, 6, 5, 4, 3, 2, 1, 0, 15, 14, 13, 12, 11, 27, 26, 25, 24, 23, 22, 21, 20, 19, 18, 17, 16,
    31, 30, 29, 28, 11, 10, 9, 8, 7, 6, 5, 4, 3, 2, 1, 0, 15, 14, 13, 12, 28, 27, 26, 25, 24, 23,
    22, 21, 20, 19, 18, 17, 16, 31, 30, 29, 12, 11, 10, 9, 8, 7, 6, 5, 4, 3, 2, 1, 0, 15, 14, 13,
    29, 28, 27, 26, 25, 24, 23, 22, 21, 20, 19, 18, 17, 16, 31, 30, 13, 12, 11, 10, 9, 8, 7, 6, 5,
    4, 3, 2, 1, 0, 15, 14, 30, 29, 28, 27, 26, 25, 24, 23, 22, 21, 20, 19, 18, 17, 16, 31, 14, 13,
    12, 11, 10, 9, 8, 7, 6, 5, 4, 3, 2, 1, 0, 15, 31, 30, 29, 28, 27, 26, 25, 24, 23, 22, 21, 20,
    19, 18, 17, 16, 15, 14, 13, 12, 11, 10, 9, 8, 7, 6, 5, 4, 3, 2, 1, 0]

def dPermTable : List Digit :=
  [7, 2, 1, 30, 16, 20, 27, 11, 31, 6, 8, 13, 29, 5, 10, 21, 22, 3, 24, 0,
    23, 25, 12, 9, 28, 14, 4, 15, 17, 18, 19, 26]

def dMult (val p : Digit) : Digit := dMultTable.getD (val.val * 32 + p.val) 0

def dPerm (val : Digit) : Digit := dPermTable.getD val.val 0

def dPermute : Digit → ℕ → Digit
  | val, 0 => val
  | val, iter + 1 => dPermute (dPerm val) iter

def dInvert (val : Digit) : Digit := if 0 < val ∧ val < 16 then 16 - val else val

/-- The loop of `d_check_char` over the characters that are left, the last of the string first. -/
def checkLoop : Bytes → ℕ → Digit → Digit
  | [], _, val => val
  | c :: cs, iter, val =>
    match dtable c with
    | none => checkLoop cs iter val
    | some d => checkLoop cs (iter + 1) (dMult val (dPermute d iter))

/-- `j` is an `int`. -/
def dCheckChar (str : Bytes) : UInt8 :=
  let j := ((str.length : ℤ) - 1).bmod (2 ^ 32)
  base32Char (dInvert (checkLoop (str.take (j + 1).toNat).reverse 1 0))

def charOk (pos : ℕ) (c : UInt8) : Bool :=
  if pos ≠ 0 ∧ pos % 5 = 4 then c == hyphen else (dtable c).isSome

def intMax : ℕ := 2 ^ 31 - 1

/-- The loop over the characters. `pos` is an `int`: `none` is its overflow. -/
def checkChars : Bytes → ℕ → Option Bool
  | [], _ => some true
  | c :: cs, pos =>
    if charOk pos c then
      if pos = intMax then none else checkChars cs (pos + 1)
    else some false

def sec1b (c : UInt8) : ℕ := (dtable c).elim 0x80 Fin.val &&& 16

def saePkValidPassword (pw : Bytes) : Option Bool :=
  if pw.length < 14 ∨ pw.length % 5 ≠ 4 then some false
  else
    (checkChars pw 0).map fun ok =>
      ok && pw.getD (pw.length - 1) 0 == dCheckChar (pw.take (pw.length - 1)) &&
        (List.range' 5 ((pw.length - 1) / 5) 5).all fun i =>
          sec1b (pw.getD 0 0) == sec1b (pw.getD i 0)

section Group

/-- The table numbers the rotations first. -/
def dihedral (d : Digit) : DihedralGroup 16 :=
  if d.val < 16 then .r (d.val : ZMod 16) else .sr (-(d.val : ZMod 16))

/-- The number of a product. -/
def productIndex (i j : ℕ) : ℕ :=
  if i < 16 then if j < 16 then (i + j) % 16 else 16 + (i + j) % 16
  else if j < 16 then 16 + (i + 16 - j) % 16 else (i + 16 - j) % 16

theorem dMultTable_eq :
    dMultTable = (List.range 1024).map fun n => Fin.ofNat 32 (productIndex (n / 32) (n % 32)) := by
  decide +kernel

theorem dMult_eq (val p : Digit) : dMult val p = Fin.ofNat 32 (productIndex val.val p.val) := by
  have hindex : val.val * 32 + p.val < 1024 := by omega
  have hdiv : (val.val * 32 + p.val) / 32 = val.val := by omega
  have hmod : (val.val * 32 + p.val) % 32 = p.val := by omega
  rw [dMult, dMultTable_eq, List.getD_eq_getElem?_getD, List.getElem?_map,
    List.getElem?_range hindex, Option.map_some, Option.getD_some, hdiv, hmod]

theorem dihedral_productIndex : ∀ val p : Digit,
    dihedral (Fin.ofNat 32 (productIndex val.val p.val)) = dihedral val * dihedral p := by
  decide +kernel

theorem dihedral_dMult (val p : Digit) : dihedral (dMult val p) = dihedral val * dihedral p := by
  rw [dMult_eq, dihedral_productIndex]

theorem dihedral_injective : Function.Injective dihedral := by
  decide

theorem dihedral_dInvert : ∀ val : Digit, dihedral (dInvert val) = (dihedral val)⁻¹ := by
  decide

theorem dPerm_injective : Function.Injective dPerm := by
  decide

theorem dihedral_dPerm_ne : ∀ x y : Digit, x ≠ y →
    dihedral x * dihedral (dPerm y) ≠ dihedral y * dihedral (dPerm x) := by
  decide +kernel

theorem dtable_base32Char : ∀ d : Digit, dtable (base32Char d) = some d := by
  decide

theorem base32Char_of_dtable {c : UInt8} {d : Digit} (h : dtable c = some d) : base32Char d = c := by
  have hfill : ∀ (l : List Digit) (table : UInt8 → Option Digit),
      (∀ c d, table c = some d → base32Char d = c) → ∀ c d,
        l.foldl (fun table i => Function.update table (base32Char i) (some i)) table c = some d →
          base32Char d = c := by
    intro l
    induction l with
    | nil => exact fun _ htable => htable
    | cons i l ih =>
      intro table htable
      refine ih _ fun c d hc => ?_
      change Function.update table (base32Char i) (some i) c = some d at hc
      by_cases heq : c = base32Char i
      · rw [heq, Function.update_self, Option.some_inj] at hc
        rw [heq, hc]
      · rw [Function.update_of_ne heq] at hc
        exact htable c d hc
  refine hfill _ _ (fun _ _ hnone => ?_) c d h
  cases hnone

end Group

section CheckCharacter
variable {pw : Bytes}

/-- The base 32 digits of a string, the last first. -/
def digits (str : Bytes) : List Digit := (str.filterMap dtable).reverse

theorem digits_append (a b : Bytes) : digits (a ++ b) = digits b ++ digits a := by
  rw [digits, List.filterMap_append, List.reverse_append]
  rfl

theorem digits_cons {c : UInt8} {d : Digit} (h : dtable c = some d) (cs : Bytes) :
    digits (c :: cs) = digits cs ++ [d] := by
  rw [digits, List.filterMap_cons_some h, List.reverse_cons]
  rfl

theorem digits_eq_nil {str : Bytes} (h : ∀ c ∈ str, dtable c = none) : digits str = [] := by
  rw [digits, List.filterMap_eq_nil_iff.mpr h]
  rfl

theorem dPermute_eq (val : Digit) (iter : ℕ) : dPermute val iter = dPerm^[iter] val := by
  induction iter generalizing val with
  | zero => rfl
  | succ iter ih => exact ih (dPerm val)

abbrev weigh (n : ℕ) (ds : List Digit) : DihedralGroup 16 :=
  CheckDigit.weighted dihedral dPerm n ds

/-- The loop multiplies the permuted digits up. -/
theorem dihedral_checkLoop (str : Bytes) (iter : ℕ) (val : Digit) :
    dihedral (checkLoop str iter val) = dihedral val * weigh iter (str.filterMap dtable) := by
  induction str generalizing iter val with
  | nil => exact (mul_one _).symm
  | cons c cs ih =>
    rw [checkLoop]
    cases hc : dtable c with
    | none => rw [List.filterMap_cons_none hc, ih]
    | some d =>
      rw [List.filterMap_cons_some hc, ih, dihedral_dMult, dPermute_eq, mul_assoc]
      rfl

/-- A string that an `int` can count is read whole. -/
theorem dCheckChar_eq {str : Bytes} (h : str.length ≤ intMax) :
    dCheckChar str = base32Char (dInvert (checkLoop str.reverse 1 0)) := by
  unfold intMax at h
  have hj : ((str.length : ℤ) - 1).bmod (2 ^ 32) = str.length - 1 :=
    Int.bmod_eq_of_le_mul_two (by omega) (by omega)
  have htake : ((str.length : ℤ) - 1 + 1).toNat = str.length := by omega
  rw [dCheckChar, hj, htake, List.take_length]

/-- A string in front of its check character weighs nothing. -/
theorem weigh_of_checkChar {str : Bytes} (h : str.length ≤ intMax) :
    weigh 0 (digits (str ++ [dCheckChar str])) = 1 := by
  have hlast : dtable (dCheckChar str) = some (dInvert (checkLoop str.reverse 1 0)) := by
    rw [dCheckChar_eq h]
    exact dtable_base32Char _
  have hone : dihedral 0 = 1 := by decide
  rw [digits_append, digits_cons hlast]
  show dihedral (dInvert _) * weigh 1 (digits str) = 1
  rw [dihedral_dInvert, dihedral_checkLoop, hone, one_mul, digits, List.filterMap_reverse]
  exact inv_mul_cancel _

/-- `none` is met by strings that an `int` cannot count. -/
theorem intMax_le_of_checkChars {pos : ℕ} {str : Bytes} (hpos : pos ≤ intMax)
    (h : checkChars str pos = none) : intMax < pos + str.length := by
  induction str generalizing pos with
  | nil => cases h
  | cons c cs ih =>
    rw [checkChars] at h
    split at h
    · split at h
      · rename_i hmax
        rw [hmax, List.length_cons]
        omega
      · have hlt := ih (by omega) h
        rw [List.length_cons]
        omega
    · cases h

theorem length_of_checkChars {pos : ℕ} {str : Bytes} (h : checkChars str pos = some true)
    (hpos : pos ≤ intMax) : pos + str.length ≤ intMax := by
  induction str generalizing pos with
  | nil => exact hpos
  | cons c cs ih =>
    rw [checkChars] at h
    split at h
    · split at h
      · cases h
      · have hle := ih h (by omega)
        rw [List.length_cons]
        omega
    · cases h

theorem weigh_of_valid (h : saePkValidPassword pw = some true) : weigh 0 (digits pw) = 1 := by
  unfold saePkValidPassword at h
  split at h
  · cases h
  rename_i hlen
  rw [not_or, not_lt] at hlen
  obtain ⟨ok, hchars, hok⟩ := Option.map_eq_some_iff.mp h
  simp only [Bool.and_eq_true, beq_iff_eq] at hok
  rw [hok.1.1] at hchars
  have hcount := length_of_checkChars hchars (Nat.zero_le _)
  have hsplit : pw = pw.take (pw.length - 1) ++ [pw.getD (pw.length - 1) 0] := by
    have hlast : pw.length - 1 < pw.length := by omega
    conv_lhs => rw [← List.take_append_drop (pw.length - 1) pw]
    rw [List.drop_eq_getElem_cons hlast, List.getD_eq_getElem?_getD,
      List.getElem?_eq_getElem hlast, Option.getD_some, List.drop_eq_nil_of_le (by omega)]
  rw [hsplit, hok.1.2]
  apply weigh_of_checkChar
  rw [List.length_take]
  omega

/-- The result depends on the length alone. -/
theorem valid_ne_none {pw' : Bytes} (h : saePkValidPassword pw = some true)
    (hlen : pw'.length = pw.length) : saePkValidPassword pw' ≠ none := by
  intro hnone
  unfold saePkValidPassword at h hnone
  split at h
  · cases h
  split at hnone
  · cases hnone
  obtain ⟨ok, hchars, hok⟩ := Option.map_eq_some_iff.mp h
  simp only [Bool.and_eq_true] at hok
  rw [hok.1.1] at hchars
  have hle := length_of_checkChars hchars (Nat.zero_le _)
  have hlt := intMax_le_of_checkChars (Nat.zero_le _) (Option.map_eq_none_iff.mp hnone)
  omega

def IsBase32 (c : UInt8) : Prop := (dtable c).isSome = true

instance (c : UInt8) : Decidable (IsBase32 c) := inferInstanceAs (Decidable (_ = true))

/-- One base 32 character is another one. -/
def Replaced (pw pw' : Bytes) : Prop :=
  ∃ before a b after, IsBase32 a ∧ IsBase32 b ∧ a ≠ b ∧
    pw = before ++ a :: after ∧ pw' = before ++ b :: after

/-- Two base 32 characters with nothing but hyphens between them have changed places. -/
def Swapped (pw pw' : Bytes) : Prop :=
  ∃ before a between b after, IsBase32 a ∧ IsBase32 b ∧ a ≠ b ∧
    (∀ c ∈ between, c = hyphen) ∧
    pw = before ++ a :: (between ++ b :: after) ∧ pw' = before ++ b :: (between ++ a :: after)

theorem dtable_ne {a b : UInt8} {da db : Digit} (ha : dtable a = some da) (hb : dtable b = some db)
    (hne : a ≠ b) : da ≠ db := by
  intro heq
  rw [← base32Char_of_dtable ha, ← base32Char_of_dtable hb, heq] at hne
  exact hne rfl

theorem weigh_ne_of_replaced {pw' : Bytes} (h : Replaced pw pw') :
    weigh 0 (digits pw) ≠ weigh 0 (digits pw') := by
  obtain ⟨before, a, b, after, ha, hb, hne, rfl, rfl⟩ := h
  obtain ⟨da, hda⟩ := Option.isSome_iff_exists.mp ha
  obtain ⟨db, hdb⟩ := Option.isSome_iff_exists.mp hb
  rw [digits_append, digits_append, digits_cons hda, digits_cons hdb, List.append_assoc,
    List.append_assoc]
  exact CheckDigit.weighted_replace_ne dihedral_injective dPerm_injective _ _
    (dtable_ne hda hdb hne)

theorem weigh_ne_of_swapped {pw' : Bytes} (h : Swapped pw pw') :
    weigh 0 (digits pw) ≠ weigh 0 (digits pw') := by
  obtain ⟨before, a, between, b, after, ha, hb, hne, hbetween, rfl, rfl⟩ := h
  obtain ⟨da, hda⟩ := Option.isSome_iff_exists.mp ha
  obtain ⟨db, hdb⟩ := Option.isSome_iff_exists.mp hb
  have hnil : digits between = [] := by
    apply digits_eq_nil
    intro c hc
    rw [hbetween c hc]
    decide
  have hsplit : ∀ {x y : UInt8} {dx dy : Digit}, dtable x = some dx → dtable y = some dy →
      digits (before ++ x :: (between ++ y :: after)) =
        digits after ++ dy :: dx :: digits before := by
    intro x y dx dy hx hy
    rw [digits_append, digits_cons hx, digits_append, digits_cons hy, hnil]
    simp
  rw [hsplit hda hdb, hsplit hdb hda]
  exact CheckDigit.weighted_swap_ne dPerm_injective dihedral_dPerm_ne _ _
    (dtable_ne hda hdb hne).symm

theorem length_eq_of_changed {pw' : Bytes} (h : Replaced pw pw' ∨ Swapped pw pw') :
    pw'.length = pw.length := by
  rcases h with h | h
  · obtain ⟨before, a, b, after, _, _, _, rfl, rfl⟩ := h
    rw [List.length_append, List.length_append]
    rfl
  · obtain ⟨before, a, between, b, after, _, _, _, _, rfl, rfl⟩ := h
    simp only [List.length_append, List.length_cons]

/-- The check character detects a replaced character and swapped neighbours. -/
theorem saePkValidPassword_detects {pw pw' : Bytes} (hvalid : saePkValidPassword pw = some true)
    (hchanged : Replaced pw pw' ∨ Swapped pw pw') : saePkValidPassword pw' = some false := by
  have hweigh : weigh 0 (digits pw) ≠ weigh 0 (digits pw') :=
    hchanged.elim weigh_ne_of_replaced weigh_ne_of_swapped
  obtain ⟨valid, hresult⟩ :=
    Option.ne_none_iff_exists'.mp (valid_ne_none hvalid (length_eq_of_changed hchanged))
  cases valid with
  | false => exact hresult
  | true => exact absurd ((weigh_of_valid hvalid).trans (weigh_of_valid hresult).symm) hweigh

/-- `a2bc-de3f-ghim` -/
def samplePassword : Bytes := [97, 50, 98, 99, 45, 100, 101, 51, 102, 45, 103, 104, 105, 109]

/-- The neighbours around the first hyphen change places. -/
theorem samplePassword_swapped : saePkValidPassword samplePassword = some true ∧
    saePkValidPassword [97, 50, 98, 100, 45, 99, 101, 51, 102, 45, 103, 104, 105, 109] =
      some false :=
  ⟨by decide +kernel, @saePkValidPassword_detects samplePassword _ (by decide +kernel)
    (.inr ⟨[97, 50, 98], 99, [45], 100, [101, 51, 102, 45, 103, 104, 105, 109], by decide,
      by decide, by decide, fun _ => List.mem_singleton.mp, rfl, rfl⟩)⟩

end CheckCharacter
end Wpa.SaePk
