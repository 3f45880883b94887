import Mathlib.Tactic.Common
import Wpa.Lib.Text
import Wpa.Utils.JsonString

/-! Numbers and hexadecimal octets in texts: `strtol` and `atoi` of the C library with a `long` of
`w` bits, and `hwaddr_aton` and `hexstr2bin` of `utils/common.c`. -/

namespace Wpa.Numerals
open Lib Text Json

/-- `isspace`. -/
def isspace (x : UInt8) : Bool := x = 32 ∨ (9 ≤ x ∧ x ≤ 13)

/-- What a character counts as a digit. -/
def digit (x : UInt8) : ℕ :=
  if '0'.toUInt8 ≤ x ∧ x ≤ '9'.toUInt8 then (x - '0'.toUInt8).toNat
  else if 'a'.toUInt8 ≤ x ∧ x ≤ 'z'.toUInt8 then (x - 'a'.toUInt8).toNat + 10
  else if 'A'.toUInt8 ≤ x ∧ x ≤ 'Z'.toUInt8 then (x - 'A'.toUInt8).toNat + 10
  else 36

def isDigit (base : ℕ) (x : UInt8) : Bool := digit x < base

/-- Whether there is a minus, and what stands behind a sign. -/
def sign : Bytes → Bool × Bytes
  | [] => (false, [])
  | x :: s =>
    if x = '-'.toUInt8 then (true, s)
    else if x = '+'.toUInt8 then (false, s)
    else (false, x :: s)

/-- The base that a number has where it is not given, and what stands behind its mark. -/
def radix (base : ℕ) (s : Bytes) : ℕ × Bytes :=
  if base ≠ 0 then (base, s)
  else if s.head? = some '0'.toUInt8 then
    if (s[1]? = some 'x'.toUInt8 ∨ s[1]? = some 'X'.toUInt8) ∧ s[2]?.any (isDigit 16) then
      (16, s.drop 2)
    else (8, s)
  else (10, s)

/-- A number that a `long` of `w` bits has no room for becomes the closest one. -/
def clampLong (w : ℕ) (val : ℤ) : ℤ := max (-2 ^ (w - 1)) (min val (2 ^ (w - 1) - 1))

/-- `strtol`: the number, and the rest of the text behind it. -/
def strtol (w base : ℕ) (s : Bytes) : ℤ × Bytes :=
  let (neg, t) := sign (s.dropWhile isspace)
  let (base, t) := radix base t
  let digits := t.takeWhile (isDigit base)
  if digits = [] then (0, s)
  else
    let val : ℤ := digits.foldl (fun n x => base * n + digit x) 0
    (clampLong w (if neg then -val else val), t.dropWhile (isDigit base))

/-- `atoi`, stored into an octet. -/
def atoi (w : ℕ) (s : Bytes) : UInt8 := UInt8.ofInt (strtol w 10 s).1

/-- `hwaddr_parse` for the last `n` octets: what has been stored, and where it stops. -/
def hwaddrParse : ℕ → Bytes → Bytes × Option Bytes
  | 0, txt => ([], some txt)
  | n + 1, txt =>
    match txt with
    | a :: b :: txt =>
      match hex2byte a b with
      | none => ([], none)
      | some x =>
        if n = 0 then ([x], some txt)
        else if txt.head? ≠ some ':'.toUInt8 then ([x], none)
        else
          let (addr, rest) := hwaddrParse n txt.tail
          (x :: addr, rest)
    | _ => ([], none)

def ethAlen : ℕ := 6

/-- `hwaddr_aton`: what has been stored, and whether it is an address. -/
def hwaddrAton (txt : Bytes) : Bytes × Bool :=
  let (addr, rest) := hwaddrParse ethAlen txt
  (addr, rest.isSome)

/-- What `hexstr2bin` has stored when it is done or comes to something else than digits. -/
def hexStored (hex : Bytes) : ℕ → Bytes
  | 0 => []
  | len + 1 =>
    match hex with
    | a :: b :: hex =>
      match hex2byte a b with
      | some x => x :: hexStored hex len
      | none => []
    | _ => []

def comma : UInt8 := ','.toUInt8

section Cut
variable {w base : ℕ} {s t rest : Bytes}

theorem isDigit_comma (hbase : base ≤ 36) : isDigit base comma = false := by
  have hdigit : digit comma = 36 := by decide
  rw [isDigit, hdigit, decide_eq_false_iff_not, Nat.not_lt]
  exact hbase

theorem sign_cut : sign (t ++ comma :: rest) = ((sign t).1, (sign t).2 ++ comma :: rest) := by
  cases t with
  | nil => rfl
  | cons x t =>
    rw [List.cons_append, sign, sign]
    split
    · rfl
    · split <;> rfl

theorem radix_cut : radix base (t ++ comma :: rest) =
    ((radix base t).1, (radix base t).2 ++ comma :: rest) := by
  unfold radix
  split
  · rfl
  · obtain _ | ⟨x, _ | ⟨y, _ | ⟨z, t⟩⟩⟩ := t
    · rfl
    · have hx : ¬ (comma = 'x'.toUInt8 ∨ comma = 'X'.toUInt8) := by decide
      simp [hx]
      split <;> rfl
    · have hdigit : isDigit 16 comma = false := isDigit_comma (by decide)
      simp [hdigit]
      split <;> rfl
    · simp only [List.cons_append, List.head?_cons, List.getElem?_cons_succ, List.getElem?_cons_zero,
        List.drop_succ_cons, List.drop_zero]
      split
      · split <;> rfl
      · rfl

theorem radix_le (hbase : base ≤ 36) : (radix base s).1 ≤ 36 := by
  unfold radix
  split
  · exact hbase
  · split
    · split
      · exact show 16 ≤ 36 by decide
      · exact show 8 ≤ 36 by decide
    · exact show 10 ≤ 36 by decide

/-- A comma ends every number. -/
theorem strtol_cut (hbase : base ≤ 36) : strtol w base (t ++ comma :: rest) =
    ((strtol w base t).1, (strtol w base t).2 ++ comma :: rest) := by
  have hspace : isspace comma = false := by decide
  have hdigit : isDigit (radix base (sign (t.dropWhile isspace)).2).1 comma = false :=
    isDigit_comma (radix_le hbase)
  simp only [strtol, dropWhile_cut hspace, sign_cut, radix_cut, takeWhile_cut hdigit,
    dropWhile_cut hdigit]
  split <;> rfl

theorem atoi_cut : atoi w (t ++ comma :: rest) = atoi w t := by
  rw [atoi, strtol_cut (by decide)]
  rfl

theorem sign_suffix : (sign s).2 <:+ s := by
  cases s with
  | nil => exact List.suffix_rfl
  | cons x s =>
    rw [sign]
    split
    · exact List.suffix_cons x s
    · split
      · exact List.suffix_cons x s
      · exact List.suffix_rfl

theorem radix_suffix : (radix base s).2 <:+ s := by
  unfold radix
  split
  · exact List.suffix_rfl
  · split
    · split
      · exact List.drop_suffix 2 s
      · exact List.suffix_rfl
    · exact List.suffix_rfl

theorem strtol_suffix : (strtol w base s).2 <:+ s := by
  unfold strtol
  simp only
  split
  · exact List.suffix_rfl
  · exact (List.dropWhile_suffix _).trans
      (radix_suffix.trans (sign_suffix.trans (List.dropWhile_suffix _)))

/-- A number in front of a comma is a text of its own. -/
theorem strtol_comma (hbase : base ≤ 36) (h : (strtol w base s).2.head? = some comma) :
    ∃ t rest, comma ∉ t ∧ s = t ++ comma :: rest ∧ (strtol w base t).2 = [] := by
  have hmem : comma ∈ s := strtol_suffix.mem (List.mem_of_mem_head? h)
  obtain ⟨t, rest, hs, ht⟩ := List.eq_append_cons_of_mem hmem
  refine ⟨t, rest, ht, hs, ?_⟩
  rw [hs, strtol_cut hbase] at h
  cases hleft : (strtol w base t).2 with
  | nil => rfl
  | cons x u =>
    rw [hleft] at h
    have hx : x = comma := Option.some.inj h
    have hin : x ∈ t := strtol_suffix.mem (hleft ▸ List.mem_cons_self)
    exact absurd (hx ▸ hin) ht

end Cut

section Hex
variable {n : ℕ} {txt rest addr hex : Bytes}

theorem hwaddrParse_length (n : ℕ) (txt : Bytes) : (hwaddrParse n txt).1.length ≤ n := by
  induction n generalizing txt with
  | zero => exact le_rfl
  | succ n ih =>
    unfold hwaddrParse
    split
    · split
      · exact Nat.zero_le _
      · split
        · exact Nat.succ_le_succ (Nat.zero_le n)
        · split
          · exact Nat.succ_le_succ (Nat.zero_le n)
          · exact Nat.succ_le_succ (ih _)
    · exact Nat.zero_le _

theorem hexStored_length (hex : Bytes) (n : ℕ) : (hexStored hex n).length ≤ n := by
  induction n generalizing hex with
  | zero =>
    rw [hexStored]
    exact Nat.le_refl 0
  | succ n ih =>
    unfold hexStored
    split
    · split
      · exact Nat.succ_le_succ (ih _)
      · exact Nat.zero_le _
    · exact Nat.zero_le _

theorem hexStored_eq {bin : Bytes} (h : hexstr2bin hex n = some bin) :
    hexStored hex n = bin ∧ bin.length = n := by
  induction n generalizing hex bin with
  | zero =>
    rw [hexstr2bin] at h
    cases h
    exact ⟨by rw [hexStored], rfl⟩
  | succ n ih =>
    unfold hexstr2bin at h
    unfold hexStored
    split at h
    · split at h
      · rename_i x buf hx hbuf
        cases h
        obtain ⟨hstored, hlen⟩ := ih hbuf
        simp only [hx]
        exact ⟨congrArg (x :: ·) hstored, congrArg Nat.succ hlen⟩
      · cases h
    · cases h

theorem hexstr2bin_append (h : 2 * n ≤ hex.length) (rest : Bytes) :
    hexstr2bin (hex ++ rest) n = hexstr2bin hex n := by
  induction n generalizing hex with
  | zero => rw [hexstr2bin, hexstr2bin]
  | succ n ih =>
    obtain _ | ⟨a, _ | ⟨b, hex⟩⟩ := hex
    · rw [List.length_nil] at h
      omega
    · rw [List.length_singleton] at h
      omega
    · simp only [List.length_cons] at h
      simp only [List.cons_append, hexstr2bin, ih (show 2 * n ≤ hex.length by omega)]

theorem hex2byte_chars {a b x : UInt8} (h : hex2byte a b = some x) : a ≠ 32 ∧ b ≠ 32 := by
  have hspace : hex2num 32 = none := by decide
  constructor
  · rintro rfl
    simp [hex2byte, hspace] at h
  · rintro rfl
    unfold hex2byte at h
    split at h
    · rename_i hb
      rw [hspace] at hb
      cases hb
    · cases h

/-- An address is a text of its own, without a space, and any text may follow it. -/
theorem hwaddrParse_some (h : hwaddrParse (n + 1) txt = (addr, some rest)) :
    ∃ t, txt = t ++ rest ∧ t.length = 3 * n + 2 ∧ 32 ∉ t ∧ addr.length = n + 1 ∧
      ∀ rest', hwaddrParse (n + 1) (t ++ rest') = (addr, some rest') := by
  induction n generalizing txt addr with
  | zero =>
    unfold hwaddrParse at h
    split at h
    · rename_i a b txt
      split at h
      · cases h
      · rename_i x hx
        cases h
        obtain ⟨ha, hb⟩ := hex2byte_chars hx
        refine ⟨[a, b], rfl, rfl, ?_, rfl, ?_⟩
        · simp [ha.symm, hb.symm]
        · intro rest'
          simp [hwaddrParse, hx]
    · cases h
  | succ n ih =>
    unfold hwaddrParse at h
    split at h
    · rename_i a b txt
      split at h
      · cases h
      · rename_i x hx
        rw [if_neg (Nat.succ_ne_zero n)] at h
        split at h
        · cases h
        · rename_i hcolon
          obtain ⟨ha, hb⟩ := hex2byte_chars hx
          obtain ⟨txt', rfl⟩ : ∃ txt', txt = ':'.toUInt8 :: txt' := by
            rw [not_not] at hcolon
            exact ⟨txt.tail, (List.cons_head?_tail hcolon).symm⟩
          rw [List.tail_cons] at h
          obtain ⟨addr', read, hparse⟩ : ∃ addr' read, hwaddrParse (n + 1) txt' = (addr', read) :=
            ⟨_, _, rfl⟩
          rw [hparse] at h
          cases h
          obtain ⟨t, htxt, hlen, hspace, haddr, hrest⟩ := ih hparse
          refine ⟨a :: b :: ':'.toUInt8 :: t, by rw [htxt]; rfl, ?_, ?_, ?_, ?_⟩
          · simp only [List.length_cons, hlen]
            omega
          · have hne : (32 : UInt8) ≠ ':'.toUInt8 := by decide
            simp [ha.symm, hb.symm, hne, hspace]
          · rw [List.length_cons, haddr]
          · intro rest'
            rw [List.cons_append, List.cons_append, List.cons_append, hwaddrParse]
            simp only [hx, if_neg (Nat.succ_ne_zero n), List.head?_cons, ne_eq, not_true_eq_false,
              if_false, List.tail_cons, hrest rest']
    · cases h

end Hex

end Wpa.Numerals
