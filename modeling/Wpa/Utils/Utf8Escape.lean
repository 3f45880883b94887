import Wpa.Lib.Bytes
import Wpa.Lib.Text

/-! Escaped strings (`utf8_escape` and `utf8_unescape` of `utils/common.c`): the round trip, and the
room that the escaped form takes. -/

namespace Wpa.Utf8
open Lib

def singleQuote : UInt8 := 39
def backslash : UInt8 := 92

/-- The characters that are read: `in_size` of them, or a string up to its NUL. -/
def inputOf (inp : Bytes) (inSize : ℕ) : Bytes :=
  if inSize = 0 then inp.takeWhile (· ≠ 0) else inp.take inSize

/-- The end of the output: a NUL if space allows. -/
def terminator (outSize resSize : ℕ) : Bytes := if resSize < outSize then [0] else []

/-- The loop of `utf8_escape`: the result, and what is written behind the `resSize` characters. -/
def escapeFrom (outSize : ℕ) : Bytes → ℕ → ℕ × Bytes
  | [], resSize => (resSize, terminator outSize resSize)
  | x :: inp, resSize =>
    if outSize ≤ resSize then (0, [])
    else if x = backslash ∨ x = singleQuote then
      if outSize ≤ resSize + 1 then (0, [])
      else
        let (res, out) := escapeFrom outSize inp (resSize + 2)
        (res, backslash :: x :: out)
    else
      let (res, out) := escapeFrom outSize inp (resSize + 1)
      (res, x :: out)

/-- `utf8_escape`: the result and what is written; `none` is a null pointer. -/
def utf8Escape (inp : Option Bytes) (inSize : ℕ) (outSize : Option ℕ) : ℕ × Bytes :=
  match inp, outSize with
  | some inp, some outSize => escapeFrom outSize (inputOf inp inSize) 0
  | _, _ => (0, [])

/-- The loop of `utf8_unescape`. -/
def unescapeFrom (outSize : ℕ) : Bytes → ℕ → ℕ × Bytes
  | [], resSize => (resSize, terminator outSize resSize)
  | x :: inp, resSize =>
    if outSize ≤ resSize then (0, [])
    else if x = singleQuote then (resSize, [0])
    else if x = backslash then
      match inp with
      | [] => (0, [])
      | y :: inp =>
        let (res, out) := unescapeFrom outSize inp (resSize + 1)
        (res, y :: out)
    else
      let (res, out) := unescapeFrom outSize inp (resSize + 1)
      (res, x :: out)

/-- `utf8_unescape`. -/
def utf8Unescape (inp : Option Bytes) (inSize : ℕ) (outSize : Option ℕ) : ℕ × Bytes :=
  match inp, outSize with
  | some inp, some outSize =>
    let inp := inputOf inp inSize
    unescapeFrom outSize (if inp.head? = some singleQuote then inp.tail else inp) 0
  | _, _ => (0, [])

/-- The escaped form, whatever the room for it. -/
def escapedOctet (x : UInt8) : Bytes :=
  if x = backslash ∨ x = singleQuote then [backslash, x] else [x]

def escaped (s : Bytes) : Bytes := s.flatMap escapedOctet

/-- The string is what a call reads: its size is given, or a NUL ends it. -/
def Holds (inp : Bytes) (inSize : ℕ) (s : Bytes) : Prop :=
  (inSize = s.length ∧ s <+: inp) ∨ (inSize = 0 ∧ s ++ [0] <+: inp)

section Escape
variable {s inp : Bytes} {x : UInt8} {outSize resSize inSize : ℕ}

@[simp] theorem escaped_nil : escaped [] = [] := rfl

@[simp] theorem escaped_cons : escaped (x :: s) = escapedOctet x ++ escaped s := rfl

theorem length_terminator_le (h : resSize ≤ outSize) :
    resSize + (terminator outSize resSize).length ≤ outSize := by
  unfold terminator
  split
  · rw [List.length_singleton]
    omega
  · exact h

/-- One character, as both loops handle it. -/
theorem escapeFrom_cons : escapeFrom outSize (x :: s) resSize =
    if outSize < resSize + (escapedOctet x).length then (0, [])
    else ((escapeFrom outSize s (resSize + (escapedOctet x).length)).1,
      escapedOctet x ++ (escapeFrom outSize s (resSize + (escapedOctet x).length)).2) := by
  rw [escapeFrom, escapedOctet]
  by_cases hx : x = backslash ∨ x = singleQuote
  · simp only [if_pos hx, List.length_cons, List.length_nil]
    by_cases hroom : outSize < resSize + 2
    · rw [if_pos hroom]
      split_ifs
      · rfl
      · rfl
      · omega
    · rw [if_neg hroom, if_neg (by omega), if_neg (by omega)]
      rfl
  · simp only [if_neg hx, List.length_singleton]
    by_cases hroom : outSize < resSize + 1
    · rw [if_pos hroom, if_pos (by omega)]
    · rw [if_neg hroom, if_neg (by omega)]
      rfl

/-- The octets are written as long as there is room for the whole form, with the NUL behind them. -/
theorem escapeFrom_fits (h : resSize + (escaped s).length ≤ outSize) :
    escapeFrom outSize s resSize = (resSize + (escaped s).length,
      escaped s ++ terminator outSize (resSize + (escaped s).length)) := by
  induction s generalizing resSize with
  | nil => rfl
  | cons x s ih =>
    rw [escaped_cons, List.length_append, ← Nat.add_assoc] at h
    rw [escapeFrom_cons, if_neg (by omega), ih h, escaped_cons, List.length_append,
      ← Nat.add_assoc, List.append_assoc]

theorem escapeFrom_short (hres : resSize ≤ outSize) (h : outSize < resSize + (escaped s).length) :
    (escapeFrom outSize s resSize).1 = 0 := by
  induction s generalizing resSize with
  | nil => exact absurd h (Nat.not_lt.mpr hres)
  | cons x s ih =>
    rw [escaped_cons, List.length_append, ← Nat.add_assoc] at h
    rw [escapeFrom_cons]
    split
    · rfl
    · rename_i hroom
      exact ih (Nat.not_lt.mp hroom) h

theorem escaped_length_pos (h : s ≠ []) : 0 < (escaped s).length := by
  cases s with
  | nil => exact absurd rfl h
  | cons x s =>
    rw [escaped_cons, List.length_append, escapedOctet]
    split
    · rw [List.length_cons]
      omega
    · rw [List.length_singleton]
      omega

/-- The escaped form never starts with a bare quote. -/
theorem escaped_head : (escaped s).head? ≠ some singleQuote := by
  cases s with
  | nil => rintro ⟨⟩
  | cons x s =>
    rw [escaped_cons, escapedOctet]
    split
    · intro h
      exact absurd (Option.some.inj h) (by decide)
    · rename_i hx
      rintro h
      exact hx (.inr (Option.some.inj h))

theorem unescapeFrom_escapedOctet (h : resSize < outSize) :
    unescapeFrom outSize (escapedOctet x ++ s) resSize =
      ((unescapeFrom outSize s (resSize + 1)).1, x :: (unescapeFrom outSize s (resSize + 1)).2) := by
  have hroom : ¬ outSize ≤ resSize := by omega
  rw [escapedOctet]
  by_cases hx : x = backslash ∨ x = singleQuote
  · rw [if_pos hx]
    show unescapeFrom outSize (backslash :: x :: s) resSize = _
    rw [unescapeFrom, if_neg hroom, if_neg (by decide), if_pos rfl]
  · rw [if_neg hx]
    rw [not_or] at hx
    show unescapeFrom outSize (x :: s) resSize = _
    rw [unescapeFrom.eq_def]
    dsimp only
    rw [if_neg hroom, if_neg hx.2, if_neg hx.1]

theorem unescapeFrom_escaped (h : resSize + s.length ≤ outSize) :
    unescapeFrom outSize (escaped s) resSize =
      (resSize + s.length, s ++ terminator outSize (resSize + s.length)) := by
  induction s generalizing resSize with
  | nil => rfl
  | cons x s ih =>
    rw [List.length_cons] at h
    rw [escaped_cons, unescapeFrom_escapedOctet (by omega), ih (by omega), List.length_cons,
      Nat.add_right_comm, Nat.add_assoc]
    rfl

theorem Holds.inputOf (h : Holds inp inSize s) (hs : s ≠ []) (hnul : 0 ∉ s) :
    inputOf inp inSize = s := by
  obtain ⟨rfl, rest, rfl⟩ | ⟨rfl, rest, rfl⟩ := h
  · have hpos : s.length ≠ 0 := fun hlen => hs (List.length_eq_zero_iff.mp hlen)
    rw [Utf8.inputOf, if_neg hpos, List.take_left]
  · rw [Utf8.inputOf, if_pos rfl, List.append_assoc]
    exact Text.takeWhile_ne hnul

theorem Holds.utf8Escape (h : Holds inp inSize s) (hs : s ≠ []) (hnul : 0 ∉ s) :
    utf8Escape (some inp) inSize (some outSize) = escapeFrom outSize s 0 := by
  rw [Utf8.utf8Escape, h.inputOf hs hnul]

/-- The escaped form is read back, into any buffer that the string fits into. -/
theorem utf8Unescape_escaped (hs : s ≠ []) (h : s.length ≤ outSize) (rest : Bytes) :
    utf8Unescape (some (escaped s ++ rest)) (escaped s).length (some outSize) =
      (s.length, s ++ terminator outSize s.length) := by
  have hread : inputOf (escaped s ++ rest) (escaped s).length = escaped s := by
    rw [inputOf, if_neg (escaped_length_pos hs).ne', List.take_left]
  rw [utf8Unescape, hread, if_neg escaped_head, unescapeFrom_escaped (by omega), Nat.zero_add]

end Escape

/-- The round trip of `utf8_escape` and `utf8_unescape`: what is written stays in the buffer and is
read back as the string, and the escape fails where its form does not fit. -/
theorem utf8Escape_utf8Unescape (s : Bytes) (hs : s ≠ []) (hnul : 0 ∉ s) (outSize : ℕ)
    (inp : Bytes) (inSize : ℕ) (hin : Holds inp inSize s) (n : ℕ) (out : Bytes)
    (hout : utf8Escape (some inp) inSize (some outSize) = (n, out)) :
    (0 < n → out.length ≤ outSize ∧ ∀ rest size, s.length ≤ size →
      ∃ written, utf8Unescape (some (out.take n ++ rest)) n (some size) = (s.length, written) ∧
        written.take s.length = s ∧ written.length ≤ size) ∧
    (n = 0 ↔ outSize < (escaped s).length) := by
  rw [hin.utf8Escape hs hnul] at hout
  by_cases hfits : 0 + (escaped s).length ≤ outSize
  · rw [escapeFrom_fits hfits, Prod.mk.injEq, Nat.zero_add] at hout
    obtain ⟨rfl, rfl⟩ := hout
    rw [Nat.zero_add] at hfits
    refine ⟨fun _ => ⟨?_, ?_⟩, ?_⟩
    · rw [List.length_append]
      exact length_terminator_le hfits
    · intro rest size hsize
      refine ⟨s ++ terminator size s.length, ?_, List.take_left, ?_⟩
      · rw [List.take_left]
        exact utf8Unescape_escaped hs hsize rest
      · rw [List.length_append]
        exact length_terminator_le hsize
    · have hpos := escaped_length_pos hs
      omega
  · have hzero := escapeFrom_short (Nat.zero_le outSize) (Nat.not_le.mp hfits)
    rw [hout] at hzero
    dsimp only at hzero
    subst hzero
    rw [Nat.zero_add] at hfits
    exact ⟨fun h => absurd h (Nat.lt_irrefl 0), iff_of_true rfl (Nat.not_le.mp hfits)⟩

/-- `a'b` with its quote escaped, in a buffer without room for the NUL. -/
theorem utf8Escape_quote :
    ∃ written, utf8Unescape (some [97, 92, 39, 98]) 4 (some 3) = (3, written) ∧
      written.take 3 = [97, 39, 98] ∧ written.length ≤ 3 :=
  ((utf8Escape_utf8Unescape [97, 39, 98] (by decide) (by decide) 4 [97, 39, 98, 0] 0
    (.inr ⟨rfl, List.prefix_rfl⟩) 4 [97, 92, 39, 98] (by decide)).1 (by decide)).2 [] 3 (by decide)

end Wpa.Utf8
