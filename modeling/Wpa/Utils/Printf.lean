import Wpa.Utils.Escape

/-! The reading of escaped text (`printf_decode` and `wpa_config_parse_string` of
`utils/common.c`), and the round trip with `printf_encode`. -/

namespace Wpa.Escape
open Lib Bytes Json

def isOctal (d : UInt8) : Prop := '0'.toUInt8 ≤ d ∧ d ≤ '7'.toUInt8

instance (d : UInt8) : Decidable (isOctal d) := inferInstanceAs (Decidable (_ ∧ _))

/-- Up to `n` more octal digits: the value and what stands behind them. -/
def octalDigits : ℕ → ℕ → Bytes → ℕ × Bytes
  | n + 1, val, d :: str =>
    if isOctal d then octalDigits n (val * 8 + (d - '0'.toUInt8).toNat) str else (val, d :: str)
  | _, val, str => (val, str)

/-- Behind `\x`: two digits, or else one. -/
def decodeHex : Bytes → Option UInt8 × Bytes
  | [] => (none, [])
  | [a] => (hex2num a, if (hex2num a).isSome then [] else [a])
  | a :: b :: str =>
    match hex2byte a b with
    | some x => (some x, str)
    | none => (hex2num a, if (hex2num a).isSome then b :: str else a :: b :: str)

/-- Behind a backslash: the octet that is stored, if any, and what stands behind the escape. -/
def decodeEscape : Bytes → Option UInt8 × Bytes
  | [] => (none, [])
  | e :: str =>
    if e = backslash then (some backslash, str)
    else if e = quote then (some quote, str)
    else if e = 'n'.toUInt8 then (some lineFeed, str)
    else if e = 'r'.toUInt8 then (some carriageReturn, str)
    else if e = 't'.toUInt8 then (some tab, str)
    else if e = 'e'.toUInt8 then (some escapeCode, str)
    else if e = 'x'.toUInt8 then decodeHex str
    else if isOctal e then
      let (val, str) := octalDigits 2 (e - '0'.toUInt8).toNat str
      -- an `int` stored into an octet
      (some (UInt8.ofNat val), str)
    else (none, e :: str)

/-- A turn of the loop of `printf_decode` at the character `x`. -/
def decodeTurn (x : UInt8) (str : Bytes) : Option UInt8 × Bytes :=
  if x = backslash then decodeEscape str else (some x, str)

/-- The loop: the octets stored behind `len` others, and the text that is left. A text of `n`
characters takes at most `n` turns. -/
def decodeFrom (maxlen : ℕ) : ℕ → Bytes → ℕ → Bytes × Bytes
  | turns + 1, x :: str, len =>
    if maxlen ≤ len + 1 then ([], x :: str)
    else
      match decodeTurn x str with
      | (some y, str) =>
        let (buf, rest) := decodeFrom maxlen turns str (len + 1)
        (y :: buf, rest)
      | (none, str) => decodeFrom maxlen turns str len
  | _, str, _ => ([], str)

/-- `printf_decode` of a text up to its NUL. -/
def printfDecode (maxlen : ℕ) (str : Bytes) : Bytes × Bytes := decodeFrom maxlen str.length str 0

/-- `os_strrchr`: what stands in front of the last `c`, and behind it. -/
def strrchr (c : UInt8) (s : Bytes) : Option (Bytes × Bytes) :=
  match s.reverse.dropWhile (· ≠ c) with
  | [] => none
  | _ :: front => some (front.reverse, (s.reverse.takeWhile (· ≠ c)).reverse)

/-- The text in front of the quote that ends a value. -/
def quoted (value : Bytes) : Option Bytes :=
  match strrchr quote value with
  | some (str, []) => some str
  | _ => none

/-- `wpa_config_parse_string`, with the outcome of its allocations. -/
def wpaConfigParseString (memory : Bool) (value : Bytes) : Option Bytes :=
  match value with
  | x :: value =>
    if x = quote then (quoted value).filter fun _ => memory
    else if x = 'P'.toUInt8 ∧ value.head? = some quote then
      ((quoted value.tail).filter fun _ => memory).map fun tstr =>
        (printfDecode (tstr.length + 1) tstr).1
    else if (x :: value).length % 2 = 1 ∨ memory = false then none
    else hexstr2bin (x :: value) ((x :: value).length / 2)
  | [] => if memory then some [] else none

/-- The text spells the octets, from its first to its last character. -/
inductive Decodes : Bytes → Bytes → Prop
  | nil : Decodes [] []
  | stored {x y : UInt8} {str rest buf : Bytes} (hturn : decodeTurn x str = (some y, rest))
    (h : Decodes rest buf) : Decodes (x :: str) (y :: buf)
  | skipped {x : UInt8} {str rest buf : Bytes} (hturn : decodeTurn x str = (none, rest))
    (h : Decodes rest buf) : Decodes (x :: str) buf

section Decode
variable {x y : UInt8} {str rest buf buf' : Bytes} {maxlen turns len n val : ℕ}

theorem octalDigits_le : (octalDigits n val str).2.length ≤ str.length := by
  induction n generalizing val str with
  | zero => exact Nat.le_refl _
  | succ n ih =>
    cases str with
    | nil => exact Nat.le_refl _
    | cons d str =>
      rw [octalDigits]
      split
      · exact ih.trans (Nat.le_succ _)
      · exact Nat.le_refl _

theorem decodeHex_le : (decodeHex str).2.length ≤ str.length := by
  obtain _ | ⟨a, _ | ⟨b, str⟩⟩ := str
  · exact Nat.le_refl _
  · rw [decodeHex]
    split
    · exact Nat.zero_le _
    · exact Nat.le_refl _
  · rw [decodeHex]
    split
    · exact (Nat.le_succ _).trans (Nat.le_succ _)
    · dsimp only
      split
      · exact Nat.le_succ _
      · exact Nat.le_refl _

/-- A turn never gives back characters. -/
theorem decodeTurn_le : (decodeTurn x str).2.length ≤ str.length := by
  unfold decodeTurn
  split
  · cases str with
    | nil => exact Nat.le_refl _
    | cons e str =>
      unfold decodeEscape
      dsimp only
      split_ifs
      all_goals first
        | exact Nat.le_succ _
        | exact Nat.le_refl _
        | exact decodeHex_le.trans (Nat.le_succ _)
        | exact octalDigits_le.trans (Nat.le_succ _)
  · exact Nat.le_refl _

theorem Decodes.unique (h : Decodes str buf) (h' : Decodes str buf') : buf = buf' := by
  induction h generalizing buf' with
  | nil =>
    cases h'
    rfl
  | stored hturn _ ih =>
    cases h' with
    | stored hturn' h' =>
      rw [hturn] at hturn'
      cases hturn'
      rw [ih h']
    | skipped hturn' h' =>
      rw [hturn] at hturn'
      cases hturn'
  | skipped hturn _ ih =>
    cases h' with
    | stored hturn' h' =>
      rw [hturn] at hturn'
      cases hturn'
    | skipped hturn' h' =>
      rw [hturn] at hturn'
      cases hturn'
      exact ih h'

/-- Where there is room for an octet for each character, and for the NUL, all of the text is read. -/
theorem decodeFrom_room (hroom : len + str.length < maxlen) (hturns : str.length ≤ turns) :
    ∃ buf, Decodes str buf ∧ decodeFrom maxlen turns str len = (buf, []) := by
  induction turns generalizing str len with
  | zero =>
    obtain rfl := List.length_eq_zero_iff.mp (Nat.le_zero.mp hturns)
    exact ⟨[], .nil, rfl⟩
  | succ turns ih =>
    cases str with
    | nil => exact ⟨[], .nil, rfl⟩
    | cons x str =>
      rw [List.length_cons] at hroom hturns
      have hle := @decodeTurn_le x str
      rw [decodeFrom, if_neg (by omega)]
      obtain ⟨stored, rest, hturn⟩ : ∃ stored rest, decodeTurn x str = (stored, rest) :=
        ⟨_, _, rfl⟩
      rw [hturn] at hle ⊢
      cases stored with
      | none =>
        obtain ⟨buf, hbuf, hrun⟩ := @ih rest len (by dsimp only at hle; omega) (hle.trans (by omega))
        exact ⟨buf, hbuf.skipped hturn, hrun⟩
      | some y =>
        obtain ⟨buf, hbuf, hrun⟩ :=
          @ih rest (len + 1) (by dsimp only at hle; omega) (hle.trans (by omega))
        dsimp only
        rw [hrun]
        exact ⟨y :: buf, hbuf.stored hturn, rfl⟩

theorem printfDecode_room (str : Bytes) :
    ∃ buf, Decodes str buf ∧ ∀ size, str.length < size → printfDecode size str = (buf, []) := by
  obtain ⟨buf, hbuf, -⟩ := @decodeFrom_room str (str.length + 1) str.length 0 (by omega) le_rfl
  refine ⟨buf, hbuf, ?_⟩
  intro size hsize
  obtain ⟨buf', hbuf', hrun⟩ := @decodeFrom_room str size str.length 0 (by omega) le_rfl
  rw [printfDecode, hrun, hbuf.unique hbuf']

end Decode

section RoundTrip
variable {x : UInt8} {data rest txt : Bytes} {maxlen turns len pos : ℕ}

theorem hex2byte_hex02 (x : UInt8) : hex2byte (hexDigit (x >>> 4)) (hexDigit (x &&& 15)) = some x := by
  revert x
  apply forall_octets
  decide +kernel

theorem decodeEscape_letter {e : UInt8} (h : printfStyle.letter x = some e) :
    decodeEscape (e :: rest) = (some x, rest) := by
  unfold printfStyle at h
  dsimp only at h
  split_ifs at h with hquote hbackslash hescape hfeed hreturn htab
  · cases h
    rw [hquote]
    rfl
  · cases h
    rw [hbackslash]
    rfl
  · cases h
    rw [hescape]
    rfl
  · cases h
    rw [hfeed]
    rfl
  · cases h
    rw [hreturn]
    rfl
  · cases h
    rw [htab]
    rfl

theorem ne_backslash (h : printfStyle.letter x = none) : x ≠ backslash := by
  rintro rfl
  exact absurd h (by decide)

/-- What is written for an octet is read in one turn, whatever follows it. -/
theorem decodeTurn_text (x : UInt8) (rest : Bytes) :
    ∃ c str, printfStyle.text x ++ rest = c :: str ∧ decodeTurn c str = (some x, rest) := by
  unfold Style.text
  cases hletter : printfStyle.letter x with
  | some e =>
    refine ⟨backslash, e :: rest, rfl, ?_⟩
    rw [decodeTurn, if_pos rfl, decodeEscape_letter hletter]
  | none =>
    dsimp only
    split
    · refine ⟨x, rest, rfl, ?_⟩
      rw [decodeTurn, if_neg (ne_backslash hletter)]
    · refine ⟨backslash, 'x'.toUInt8 :: (hex02 x ++ rest), rfl, ?_⟩
      rw [decodeTurn, if_pos rfl]
      show decodeHex (hexDigit (x >>> 4) :: hexDigit (x &&& 15) :: rest) = (some x, rest)
      rw [decodeHex, hex2byte_hex02]

theorem decodeFrom_text (hroom : len + data.length < maxlen)
    (hturns : (data.flatMap printfStyle.text).length ≤ turns) :
    decodeFrom maxlen turns (data.flatMap printfStyle.text) len = (data, []) := by
  induction data generalizing turns len with
  | nil =>
    rw [List.flatMap_nil]
    cases turns <;> rfl
  | cons x data ih =>
    obtain ⟨c, str, htext, hturn⟩ := decodeTurn_text x (data.flatMap printfStyle.text)
    have hle := @decodeTurn_le c str
    rw [hturn] at hle
    dsimp only at hle
    rw [List.flatMap_cons, htext] at hturns ⊢
    rw [List.length_cons] at hroom hturns
    obtain _ | turns := turns
    · omega
    · rw [decodeFrom, if_neg (by omega), hturn]
      dsimp only
      rw [@ih turns (len + 1) (by omega) (by omega)]

theorem width_le_four (x : UInt8) : 1 ≤ printfStyle.width x ∧ printfStyle.width x ≤ 4 := by
  unfold Style.width Style.text
  cases printfStyle.letter x with
  | some e => exact ⟨Nat.le_succ 1, (by decide : 2 ≤ 4)⟩
  | none =>
    dsimp only
    split
    · exact ⟨Nat.le_refl 1, (by decide : 1 ≤ 4)⟩
    · exact ⟨(by decide : 1 ≤ 4), Nat.le_refl 4⟩

theorem not_cramped : ¬ Cramped printfStyle maxlen data pos := by
  rintro ⟨front, x, back, -, hroom, htight⟩
  have hwidth := (width_le_four x).2
  omega

/-- The loop shows a first part of the octets; all of them where there are four characters for
each. -/
theorem shown_eq (data : Bytes) : ∃ front, front <+: data ∧
    printfStyle.shown maxlen data pos = front.flatMap printfStyle.text ∧
    (pos + 4 * data.length < maxlen → front = data) := by
  induction data generalizing pos with
  | nil => exact ⟨[], List.prefix_rfl, rfl, fun _ => rfl⟩
  | cons x data ih =>
    rw [Style.shown]
    by_cases hroom : maxlen ≤ pos + 4
    · rw [if_pos hroom]
      refine ⟨[], List.nil_prefix, rfl, ?_⟩
      intro hlarge
      rw [List.length_cons] at hlarge
      omega
    · obtain ⟨front, hfront, hshown, hall⟩ := @ih (pos + printfStyle.width x)
      rw [if_neg hroom, hshown]
      refine ⟨x :: front, List.cons_prefix_cons.mpr ⟨rfl, hfront⟩, rfl, ?_⟩
      intro hlarge
      have hwidth := (width_le_four x).2
      rw [List.length_cons] at hlarge
      rw [hall (by omega)]

theorem zero_notMem_text (x : UInt8) : 0 ∉ printfStyle.text x := by
  revert x
  apply forall_octets
  decide +kernel

theorem strrchr_last (c : UInt8) (s : Bytes) : strrchr c (s ++ [c]) = some (s, []) := by
  rw [strrchr, List.reverse_append]
  simp

end RoundTrip

/-- The round trip: the text of any octets is read back as a first part of them, and as all of them
where the buffer has four characters for each. And of a value `P"…"` every character is read. -/
theorem printfEncode_printfDecode (data txt : Bytes) (size : ℕ) (hmax : 1 ≤ txt.length)
    (hsize : data.length < size) :
    (∃ out pos, printfEncode txt data = some (out, pos) ∧
      (printfDecode size (cString out)).1 <+: data ∧
      (4 * data.length + 1 ≤ txt.length → (printfDecode size (cString out)).1 = data)) ∧
    ∀ tstr : Bytes, ∃ buf, Decodes tstr buf ∧
      (∀ size, tstr.length < size → printfDecode size tstr = (buf, [])) ∧
      wpaConfigParseString true ('P'.toUInt8 :: quote :: (tstr ++ [quote])) = some buf := by
  constructor
  · obtain ⟨tail, hout, -⟩ := escapeString_shown hmax (@not_cramped data txt.length 0)
    obtain ⟨front, hfront, hshown, hall⟩ := @shown_eq txt.length 0 data
    rw [hshown] at hout
    have hzero : 0 ∉ front.flatMap printfStyle.text := by
      intro h
      obtain ⟨x, -, hx⟩ := List.mem_flatMap.mp h
      exact zero_notMem_text x hx
    have htext := cString_append hzero tail
    have hlen := hfront.length_le
    have hread : (printfDecode size (front.flatMap printfStyle.text)).1 = front := by
      rw [printfDecode, decodeFrom_text (by omega) le_rfl]
    refine ⟨_, _, hout, ?_, ?_⟩
    · rw [htext, hread]
      exact hfront
    · intro hlarge
      rw [htext, hread]
      exact hall (by omega)
  · intro tstr
    obtain ⟨buf, hbuf, hread⟩ := printfDecode_room tstr
    refine ⟨buf, hbuf, hread, ?_⟩
    have hquoted : quoted (tstr ++ [quote]) = some tstr := by
      rw [quoted, strrchr_last]
    rw [wpaConfigParseString, if_neg (by decide), if_pos ⟨rfl, rfl⟩, List.tail_cons, hquoted]
    show some (printfDecode (tstr.length + 1) tstr).1 = some buf
    rw [hread _ (Nat.lt_succ_self _)]

theorem printfEncode_hex : ∃ out pos, printfEncode (zeros 9) [0, 255] = some (out, pos) ∧
    (printfDecode 3 (cString out)).1 = [0, 255] := by
  obtain ⟨out, pos, hout, -, hall⟩ :=
    (printfEncode_printfDecode [0, 255] (zeros 9) 3 (by decide) (by decide)).1
  exact ⟨out, pos, hout, hall (by decide)⟩

end Wpa.Escape
