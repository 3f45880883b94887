import Mathlib.Data.List.Basic
import Wpa.Utils.JsonString

/-! What the loop of the JSON parser reads in one turn, and how it is spelled. -/

namespace Wpa.Json
open Lib

section Scan

/-- `enum json_type`. -/
inductive JsonType
  | value | object | array | string | number | boolean | null
  deriving DecidableEq

inductive Container
  | array | object
  deriving DecidableEq

def Container.type : Container → JsonType
  | .array => .array
  | .object => .object

def Container.opening : Container → UInt8
  | .array => '['.toUInt8
  | .object => '\x7b'.toUInt8

def Container.closing : Container → UInt8
  | .array => ']'.toUInt8
  | .object => '\x7d'.toUInt8

inductive Literal
  | true | false | null
  deriving DecidableEq

/-- What one turn of the loop reads: a character of its own, or a whole string, literal name or
number. -/
inductive Lexeme
  | start (container : Container)
  | finish (container : Container)
  | string (str : Bytes)
  | colon
  | comma
  | literal (name : Literal)
  | number (num : ℤ)

def Literal.chars : Literal → Bytes
  | .true => ['t'.toUInt8, 'r'.toUInt8, 'u'.toUInt8, 'e'.toUInt8]
  | .false => ['f'.toUInt8, 'a'.toUInt8, 'l'.toUInt8, 's'.toUInt8, 'e'.toUInt8]
  | .null => ['n'.toUInt8, 'u'.toUInt8, 'l'.toUInt8, 'l'.toUInt8]

def isSpace (x : UInt8) : Bool := x == space || x == tab || x == carriageReturn || x == lineFeed

def isDigit (x : UInt8) : Bool := '0'.toUInt8 ≤ x && x ≤ '9'.toUInt8

/-- The characters of a number, in any order. -/
def inNumber (x : UInt8) : Bool := x == '-'.toUInt8 || isDigit x

/-- `atoi`: the digits up to the first other character, behind at most one sign. Whatever does not
fit an `int` is undefined in the source. -/
def atoi (str : Bytes) : ℤ :=
  let value (digits : Bytes) : ℕ :=
    (digits.takeWhile isDigit).foldl (fun n x => 10 * n + (x.toNat - '0'.toNat)) 0
  match str with
  | [] => 0
  | x :: digits => if x = '-'.toUInt8 then -(value digits : ℤ) else value str

/-- The literal name that `data` begins with. -/
def scanLiteral (data : Bytes) : Option (Lexeme × Bytes) :=
  if Literal.true.chars.isPrefixOf data then some (.literal .true, data.drop 4)
  else if Literal.false.chars.isPrefixOf data then some (.literal .false, data.drop 5)
  else if Literal.null.chars.isPrefixOf data then some (.literal .null, data.drop 4)
  else none

/-- `json_parse_number`: as many characters of a number as there are. -/
def scanNumber (data : Bytes) : Lexeme × Bytes :=
  (.number (atoi (data.takeWhile inNumber)), data.dropWhile inNumber)

/-- What a turn of the loop reads from the character `x` on. -/
def scan (x : UInt8) (pos : Bytes) : Option (Lexeme × Bytes) :=
  if x = Container.array.opening then some (.start .array, pos)
  else if x = Container.object.opening then some (.start .object, pos)
  else if x = Container.array.closing then some (.finish .array, pos)
  else if x = Container.object.closing then some (.finish .object, pos)
  else if x = quote then (parseString pos).map fun (str, rest) => (.string str, rest)
  else if x = ':'.toUInt8 then some (.colon, pos)
  else if x = ','.toUInt8 then some (.comma, pos)
  else if x = 't'.toUInt8 ∨ x = 'f'.toUInt8 ∨ x = 'n'.toUInt8 then scanLiteral (x :: pos)
  else if inNumber x then some (scanNumber (x :: pos))
  else none

end Scan

section Spelling

/-- The spellings of what one turn reads. -/
inductive Spelling : Lexeme → Bytes → Prop
  | start (container : Container) : Spelling (.start container) [container.opening]
  | finish (container : Container) : Spelling (.finish container) [container.closing]
  | string {str body : Bytes} (h : Chars str body) :
    Spelling (.string str) (quote :: (body ++ [quote]))
  | colon : Spelling .colon [':'.toUInt8]
  | comma : Spelling .comma [','.toUInt8]
  | literal (name : Literal) : Spelling (.literal name) name.chars
  | number {digits : Bytes} (hne : digits ≠ []) (h : ∀ x ∈ digits, inNumber x = true) :
    Spelling (.number (atoi digits)) digits

/-- A text of lexemes with white space around them. -/
inductive Spells : List Lexeme → Bytes → Prop
  | nil : Spells [] []
  | space {x : UInt8} {ls : List Lexeme} {text : Bytes} (hx : isSpace x = true)
    (h : Spells ls text) : Spells ls (x :: text)
  | cons {l : Lexeme} {ls : List Lexeme} {word text : Bytes} (hl : Spelling l word)
    (h : Spells ls text) : Spells (l :: ls) (word ++ text)

variable {x : UInt8} {pos rest : Bytes} {l : Lexeme}

theorem eq_append_drop {a b : Bytes} (h : a.isPrefixOf b = true) :
    b = a ++ b.drop a.length :=
  (List.prefix_iff_eq_append.mp (List.isPrefixOf_iff_prefix.mp h)).symm

theorem spelling_of_scanLiteral {data : Bytes} (h : scanLiteral data = some (l, rest)) :
    ∃ word, Spelling l word ∧ data = word ++ rest := by
  unfold scanLiteral at h
  repeat' split at h
  · next hword =>
    cases h
    exact ⟨_, .literal .true, eq_append_drop hword⟩
  · next hword =>
    cases h
    exact ⟨_, .literal .false, eq_append_drop hword⟩
  · next hword =>
    cases h
    exact ⟨_, .literal .null, eq_append_drop hword⟩
  · cases h

theorem spelling_scanNumber (hx : inNumber x = true) (pos : Bytes) :
    Spelling (scanNumber (x :: pos)).1 ((x :: pos).takeWhile inNumber) := by
  apply Spelling.number
  · rw [List.takeWhile_cons_of_pos hx]
    exact List.cons_ne_nil _ _
  · intro y hy
    exact List.all_eq_true.mp List.all_takeWhile y hy

/-- A turn reads a spelling from the front of the text. -/
theorem spelling_of_scan (h : scan x pos = some (l, rest)) :
    ∃ word, Spelling l word ∧ x :: pos = word ++ rest := by
  unfold scan at h
  repeat' split at h
  · next hx =>
    cases h
    exact ⟨_, .start .array, by rw [hx]; rfl⟩
  · next hx =>
    cases h
    exact ⟨_, .start .object, by rw [hx]; rfl⟩
  · next hx =>
    cases h
    exact ⟨_, .finish .array, by rw [hx]; rfl⟩
  · next hx =>
    cases h
    exact ⟨_, .finish .object, by rw [hx]; rfl⟩
  · next hx =>
    obtain ⟨⟨str, rest⟩, hstr, heq⟩ := Option.map_eq_some_iff.mp h
    cases heq
    obtain ⟨body, hbody, rfl⟩ := parseString_iff.mp hstr
    refine ⟨_, .string hbody, ?_⟩
    rw [hx]
    simp
  · next hx =>
    cases h
    exact ⟨_, .colon, by rw [hx]; rfl⟩
  · next hx =>
    cases h
    exact ⟨_, .comma, by rw [hx]; rfl⟩
  · exact spelling_of_scanLiteral h
  · next hx =>
    cases h
    exact ⟨_, spelling_scanNumber hx pos, (List.takeWhile_append_dropWhile ..).symm⟩
  · cases h

theorem Spelling.ne_nil {word : Bytes} (h : Spelling l word) : word ≠ [] := by
  cases h with
  | number hne => exact hne
  | literal name => cases name <;> exact List.cons_ne_nil _ _
  | _ => exact List.cons_ne_nil _ _

theorem length_scan (h : scan x pos = some (l, rest)) : rest.length ≤ pos.length := by
  obtain ⟨word, hword, heq⟩ := spelling_of_scan h
  have hpos := List.length_pos_of_ne_nil hword.ne_nil
  have hlen := congrArg List.length heq
  rw [List.length_cons, List.length_append] at hlen
  omega

/-- The text goes on with something else than a number. -/
def EndsNumber (rest : Bytes) : Prop := ∀ x ∈ rest.head?, inNumber x = false

/-- Only numbers are read as far as possible. -/
def Apart (l : Lexeme) (rest : Bytes) : Prop := ∀ num, l = .number num → EndsNumber rest

theorem scanLiteral_chars (name : Literal) (rest : Bytes) :
    scanLiteral (name.chars ++ rest) = some (.literal name, rest) := by
  cases name <;> rfl

theorem scanNumber_append {digits : Bytes} (h : ∀ x ∈ digits, inNumber x = true)
    (hrest : EndsNumber rest) : scanNumber (digits ++ rest) = (.number (atoi digits), rest) := by
  unfold scanNumber
  rw [List.takeWhile_append_of_pos h, List.dropWhile_append_of_pos h]
  cases rest with
  | nil => rw [List.takeWhile_nil, List.dropWhile_nil, List.append_nil]
  | cons y rest =>
    have hy : ¬inNumber y = true := Bool.eq_false_iff.mp (hrest y rfl)
    rw [List.takeWhile_cons_of_neg hy, List.dropWhile_cons_of_neg hy, List.append_nil]

theorem inNumber_of_isSpace (hx : isSpace x = true) : inNumber x = false := by
  unfold isSpace at hx
  simp only [Bool.or_eq_true, beq_iff_eq] at hx
  rcases hx with ((rfl | rfl) | rfl) | rfl <;> rfl

/-- What begins a number begins nothing else. -/
theorem scan_number (hx : inNumber x = true) (pos : Bytes) :
    scan x pos = some (scanNumber (x :: pos)) := by
  have hne (y : UInt8) (hy : inNumber y = false) : x ≠ y := by
    rintro rfl
    rw [hx] at hy
    cases hy
  unfold scan
  rw [if_neg (hne _ rfl), if_neg (hne _ rfl), if_neg (hne _ rfl), if_neg (hne _ rfl),
    if_neg (hne _ rfl), if_neg (hne _ rfl), if_neg (hne _ rfl), if_neg, if_pos hx]
  rintro (h | h | h)
  · exact hne _ rfl h
  · exact hne _ rfl h
  · exact hne _ rfl h

/-- A turn reads any spelling that the text begins with. -/
theorem Spelling.scan {word : Bytes} (h : Spelling l word) (hrest : Apart l rest) :
    ∃ x tail, word = x :: tail ∧ isSpace x = false ∧ scan x (tail ++ rest) = some (l, rest) := by
  cases h with
  | start container => cases container <;> exact ⟨_, _, rfl, rfl, rfl⟩
  | finish container => cases container <;> exact ⟨_, _, rfl, rfl, rfl⟩
  | @string str body h =>
    refine ⟨_, _, rfl, rfl, ?_⟩
    rw [List.append_assoc]
    change (parseString (body ++ quote :: rest)).map _ = _
    rw [h.parse rest]
    rfl
  | colon => exact ⟨_, _, rfl, rfl, rfl⟩
  | comma => exact ⟨_, _, rfl, rfl, rfl⟩
  | literal name =>
    have hread := scanLiteral_chars name rest
    cases name <;> exact ⟨_, _, rfl, rfl, hread⟩
  | @number digits hne h =>
    obtain ⟨x, tail, rfl⟩ := List.exists_cons_of_ne_nil hne
    have hx := h x (List.mem_cons_self ..)
    refine ⟨x, tail, rfl, ?_, ?_⟩
    · apply Bool.eq_false_iff.mpr
      intro hspace
      rw [inNumber_of_isSpace hspace] at hx
      cases hx
    · rw [scan_number hx, ← List.cons_append, scanNumber_append h (hrest _ rfl)]

/-- White space and the other spellings end a number. -/
theorem Spelling.endsNumber {word : Bytes} (h : Spelling l word) (hl : ∀ num, l ≠ .number num)
    (rest : Bytes) : EndsNumber (word ++ rest) := by
  intro x hx
  cases h with
  | start container => cases container <;> cases hx <;> rfl
  | finish container => cases container <;> cases hx <;> rfl
  | string h =>
    cases hx
    rfl
  | colon =>
    cases hx
    rfl
  | comma =>
    cases hx
    rfl
  | literal name => cases name <;> cases hx <;> rfl
  | number => exact absurd rfl (hl _)

/-- No two numbers in a row. -/
def NoAdjacentNumbers (ls : List Lexeme) : Prop :=
  List.IsChain (fun l l' => ∀ num num', l = .number num → l' ≠ .number num') ls

theorem Spells.apart {ls : List Lexeme} {text : Bytes} (h : Spells ls text)
    (hls : NoAdjacentNumbers (l :: ls)) : Apart l text := by
  rintro num rfl
  induction h with
  | nil => intro x hx; cases hx
  | space hx h ih =>
    intro y hy
    cases hy
    exact inNumber_of_isSpace hx
  | cons hl h =>
    apply hl.endsNumber
    have hnext := (List.isChain_cons_cons.mp hls).1
    exact fun num' => hnext num num' rfl

end Spelling
end Wpa.Json
