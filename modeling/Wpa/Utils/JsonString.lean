import Mathlib.Tactic.Common
import Wpa.Lib.Bytes

/-! The strings of JSON texts: the parser's reading of them, with its escapes, and the escaper. -/

namespace Wpa.Json
open Lib

section Characters

def quote : UInt8 := 34

def backslash : UInt8 := 92

def lineFeed : UInt8 := 10

def carriageReturn : UInt8 := 13

def tab : UInt8 := 9

def space : UInt8 := 32

end Characters

section Hex

def hex2num (c : UInt8) : Option UInt8 :=
  if '0'.toUInt8 ≤ c ∧ c ≤ '9'.toUInt8 then some (c - '0'.toUInt8)
  else if 'a'.toUInt8 ≤ c ∧ c ≤ 'f'.toUInt8 then some (c - 'a'.toUInt8 + 10)
  else if 'A'.toUInt8 ≤ c ∧ c ≤ 'F'.toUInt8 then some (c - 'A'.toUInt8 + 10)
  else none

def hex2byte (a b : UInt8) : Option UInt8 :=
  match hex2num a, hex2num b with
  | some a, some b => some ((a <<< 4) ||| b)
  | _, _ => none

def hexstr2bin (hex : Bytes) : ℕ → Option Bytes
  | 0 => some []
  | len + 1 =>
    match hex with
    | a :: b :: hex =>
      match hex2byte a b, hexstr2bin hex len with
      | some x, some buf => some (x :: buf)
      | _, _ => none
    | _ => none

end Hex

section Parse

/-- What the escapes of one character stand for. -/
def unescape (e : UInt8) : Option UInt8 :=
  if e = quote ∨ e = backslash ∨ e = '/'.toUInt8 then some e
  else if e = 'n'.toUInt8 then some lineFeed
  else if e = 'r'.toUInt8 then some carriageReturn
  else if e = 't'.toUInt8 then some tab
  else none

/-- What the four characters after `\u` stand for: one octet where the high one is zero. -/
def unescapeHex (a b c d : UInt8) : Option Bytes :=
  match hexstr2bin [a, b, c, d] 2 with
  | some [hi, lo] => if lo = 0 then none else if hi = 0 then some [lo] else some [hi, lo]
  | _ => none

/-- The octets in front of what has been read. -/
def prepend (bin : Bytes) (r : Bytes × Bytes) : Bytes × Bytes := (bin ++ r.1, r.2)

/-- From behind the starting quote: the octets of the string, and what follows the ending quote. -/
def parseString : Bytes → Option (Bytes × Bytes)
  | [] => none
  | x :: pos =>
    if x = quote then some ([], pos)
    else if x = backslash then
      match pos with
      | [] => none
      | e :: pos =>
        if e = 'u'.toUInt8 then
          match pos with
          | a :: b :: c :: d :: pos =>
            match unescapeHex a b c d with
            | some bin => (parseString pos).map (prepend bin)
            | none => none
          | _ => none
        else
          match unescape e with
          | some c => (parseString pos).map (prepend [c])
          | none => none
    else (parseString pos).map (prepend [x])

end Parse

section Spelling

/-- The characters between two quotes that spell the octets of a string: anything but a quote, and
escapes. -/
inductive Chars : Bytes → Bytes → Prop
  | nil : Chars [] []
  | plain {x : UInt8} {str body : Bytes} (hquote : x ≠ quote) (hescape : x ≠ backslash)
    (h : Chars str body) : Chars (x :: str) (x :: body)
  | escape {e c : UInt8} {str body : Bytes} (he : unescape e = some c) (h : Chars str body) :
    Chars (c :: str) (backslash :: e :: body)
  | unicode {a b c d : UInt8} {bin str body : Bytes} (hbin : unescapeHex a b c d = some bin)
    (h : Chars str body) :
    Chars (bin ++ str) (backslash :: 'u'.toUInt8 :: a :: b :: c :: d :: body)

variable {str body pos rest : Bytes}

theorem parseString_quote (pos : Bytes) : parseString (quote :: pos) = some ([], pos) := by
  rw [parseString.eq_def]
  exact if_pos rfl

theorem parseString_plain {x : UInt8} (hquote : x ≠ quote) (hescape : x ≠ backslash) :
    parseString (x :: pos) = (parseString pos).map (prepend [x]) := by
  rw [parseString.eq_def]
  simp only [if_neg hquote, if_neg hescape]

theorem unescape_u : unescape 'u'.toUInt8 = none := by
  decide

theorem parseString_escape {e c : UInt8} (he : unescape e = some c) :
    parseString (backslash :: e :: pos) = (parseString pos).map (prepend [c]) := by
  have hu : e ≠ 'u'.toUInt8 := by
    rintro rfl
    rw [unescape_u] at he
    cases he
  rw [parseString.eq_def]
  simp only [if_neg (show backslash ≠ quote by decide), if_neg hu, he, if_true]

theorem parseString_unicode {a b c d : UInt8} {bin : Bytes} (hbin : unescapeHex a b c d = some bin) :
    parseString (backslash :: 'u'.toUInt8 :: a :: b :: c :: d :: pos) =
      (parseString pos).map (prepend bin) := by
  rw [parseString.eq_def]
  simp only [if_neg (show backslash ≠ quote by decide), hbin, if_true]

theorem Chars.parse (h : Chars str body) (rest : Bytes) :
    parseString (body ++ quote :: rest) = some (str, rest) := by
  induction h with
  | nil => exact parseString_quote rest
  | plain hquote hescape _ ih =>
    rw [List.cons_append, parseString_plain hquote hescape, ih]
    rfl
  | escape he _ ih =>
    rw [List.cons_append, List.cons_append, parseString_escape he, ih]
    rfl
  | unicode hbin _ ih =>
    simp only [List.cons_append]
    rw [parseString_unicode hbin, ih]
    rfl

theorem map_prepend_eq_some {bin : Bytes} {r : Option (Bytes × Bytes)}
    (h : r.map (prepend bin) = some (str, rest)) : ∃ s, r = some (s, rest) ∧ str = bin ++ s := by
  obtain ⟨⟨s, t⟩, hr, heq⟩ := Option.map_eq_some_iff.mp h
  cases heq
  exact ⟨s, hr, rfl⟩

theorem chars_of_parse (h : parseString pos = some (str, rest)) :
    ∃ body, Chars str body ∧ pos = body ++ quote :: rest := by
  fun_induction parseString pos generalizing str with
  | case1 => cases h
  | case2 =>
    cases h
    exact ⟨[], .nil, rfl⟩
  | case3 => cases h
  | case4 a b c d pos bin hbin _ ih =>
    obtain ⟨s, hs, rfl⟩ := map_prepend_eq_some h
    obtain ⟨body, hbody, rfl⟩ := ih hs
    exact ⟨_, hbody.unicode hbin, rfl⟩
  | case5 => cases h
  | case6 => cases h
  | case7 e pos hu c he _ ih =>
    obtain ⟨s, hs, rfl⟩ := map_prepend_eq_some h
    obtain ⟨body, hbody, rfl⟩ := ih hs
    exact ⟨_, hbody.escape he, rfl⟩
  | case8 => cases h
  | case9 x pos hquote hescape ih =>
    obtain ⟨s, hs, rfl⟩ := map_prepend_eq_some h
    obtain ⟨body, hbody, rfl⟩ := ih hs
    exact ⟨_, hbody.plain hquote hescape, rfl⟩

/-- The parser reads exactly what spells a string, up to the first quote that is not escaped. -/
theorem parseString_iff :
    parseString pos = some (str, rest) ↔ ∃ body, Chars str body ∧ pos = body ++ quote :: rest := by
  constructor
  · exact chars_of_parse
  · rintro ⟨body, h, rfl⟩
    exact h.parse rest

end Spelling
end Wpa.Json
