import Wpa.Lib.InPlace
import Wpa.Utils.JsonMember

/-! Escaped text in a buffer of given size: `json_escape_string` of `utils/json.c` and
`printf_encode` of `utils/common.c`, which differ in what `snprintf` prints of an octet. -/

namespace Wpa.Escape
open Lib Json

def escapeCode : UInt8 := 27

/-- `%02x` of an octet. -/
def hex02 (x : UInt8) : Bytes := [hexDigit (x >>> 4), hexDigit (x &&& 15)]

/-- The characters that have an escape of their own, and what `snprintf` prints of the others. -/
structure Style where
  letter : UInt8 → Option UInt8
  form : UInt8 → Bytes

/-- `snprintf` of `text` into the `size` octets from `pos` on. It counts the whole text. -/
def snprintf (txt : Bytes) (pos size : ℕ) (text : Bytes) : Option (Bytes × ℕ) :=
  (if size = 0 then some txt else txt.store pos (text.take (size - 1) ++ [0])).map
    fun txt => (txt, text.length)

def printable (x : UInt8) : Prop := 32 ≤ x ∧ x ≤ 126

instance (x : UInt8) : Decidable (printable x) := inferInstanceAs (Decidable (_ ∧ _))

/-- A turn of the loop at `pos`: the buffer and the position behind it. -/
def escapeOctet (style : Style) (txt : Bytes) (pos : ℕ) (x : UInt8) : Option (Bytes × ℕ) :=
  match style.letter x with
  | some e => (txt.store pos [backslash, e]).map fun txt => (txt, pos + 2)
  | none =>
    if printable x then (txt.store pos [x]).map fun txt => (txt, pos + 1)
    else
      (snprintf txt pos (txt.length - pos) (style.form x)).map fun r => (r.1, pos + r.2)

/-- The loop, over a buffer that is as long as `maxlen` says. -/
def escapeFrom (style : Style) : Bytes → Bytes → ℕ → Option (Bytes × ℕ)
  | [], txt, pos => some (txt, pos)
  | x :: data, txt, pos =>
    if txt.length ≤ pos + 4 then some (txt, pos)
    else do
      let (txt, pos) ← escapeOctet style txt pos x
      escapeFrom style data txt pos

/-- The buffer at the end and the position of its NUL; nothing for a write beyond the buffer. -/
def escapeString (style : Style) (txt data : Bytes) : Option (Bytes × ℕ) := do
  let (txt, pos) ← escapeFrom style data txt 0
  let txt ← txt.store pos [0]
  return (txt, pos)

def jsonStyle : Style where
  letter x :=
    if x = quote then some quote
    else if x = backslash then some backslash
    else if x = lineFeed then some 'n'.toUInt8
    else if x = carriageReturn then some 'r'.toUInt8
    else if x = tab then some 't'.toUInt8
    else none
  form x := [backslash, 'u'.toUInt8, '0'.toUInt8, '0'.toUInt8] ++ hex02 x

/-- `json_escape_string`. -/
def jsonEscapeString (txt data : Bytes) : Option (Bytes × ℕ) := escapeString jsonStyle txt data

def printfStyle : Style where
  letter x :=
    if x = quote then some quote
    else if x = backslash then some backslash
    else if x = escapeCode then some 'e'.toUInt8
    else if x = lineFeed then some 'n'.toUInt8
    else if x = carriageReturn then some 'r'.toUInt8
    else if x = tab then some 't'.toUInt8
    else none
  form x := [backslash, 'x'.toUInt8] ++ hex02 x

/-- `printf_encode`. -/
def printfEncode (txt data : Bytes) : Option (Bytes × ℕ) := escapeString printfStyle txt data

/-- The text of an octet, whatever the room for it. -/
def Style.text (style : Style) (x : UInt8) : Bytes :=
  match style.letter x with
  | some e => [backslash, e]
  | none => if printable x then [x] else style.form x

def Style.width (style : Style) (x : UInt8) : ℕ := (style.text x).length

/-- The octets in front of which there is room, and their text. -/
def Style.shown (style : Style) (maxlen : ℕ) : Bytes → ℕ → Bytes
  | [], _ => []
  | x :: data, pos =>
    if maxlen ≤ pos + 4 then []
    else style.text x ++ style.shown maxlen data (pos + style.width x)

def Style.widths (style : Style) (data : Bytes) : ℕ := (data.flatMap style.text).length

/-- Where the loop goes on, although the form of an octet does not fit into the rest. -/
def Cramped (style : Style) (maxlen : ℕ) (data : Bytes) (pos : ℕ) : Prop :=
  ∃ front x back, data = front ++ x :: back ∧ pos + style.widths front + 4 < maxlen ∧
    maxlen ≤ pos + style.widths front + style.width x

section Loop
variable {style : Style} {txt data : Bytes} {pos maxlen : ℕ} {x : UInt8}

theorem widths_cons : style.widths (x :: data) = style.width x + style.widths data := by
  rw [Style.widths, List.flatMap_cons, List.length_append]
  rfl

theorem cramped_cons : Cramped style maxlen (x :: data) pos ↔
    (pos + 4 < maxlen ∧ maxlen ≤ pos + style.width x) ∨
      Cramped style maxlen data (pos + style.width x) := by
  constructor
  · intro ⟨front, y, back, hdata, hroom, htight⟩
    cases front with
    | nil =>
      cases hdata
      exact .inl ⟨hroom, htight⟩
    | cons z front =>
      cases hdata
      rw [widths_cons, ← Nat.add_assoc] at hroom htight
      exact .inr ⟨front, y, back, rfl, hroom, htight⟩
  · intro h
    obtain ⟨hroom, htight⟩ | ⟨front, y, back, rfl, hroom, htight⟩ := h
    · exact ⟨[], x, data, rfl, hroom, htight⟩
    · refine ⟨x :: front, y, back, rfl, ?_, ?_⟩
      · rw [widths_cons, ← Nat.add_assoc]
        exact hroom
      · rw [widths_cons, ← Nat.add_assoc]
        exact htight

/-- The text has been written to `pos`, and there is room behind it. -/
def Written (txt : Bytes) (pos : ℕ) (text out : Bytes) : Prop :=
  ∃ tail, 0 < tail.length ∧ tail.length + text.length + pos = txt.length ∧
    out = txt.take pos ++ (text ++ tail)

theorem Written.nil (hpos : pos < txt.length) : Written txt pos [] txt := by
  refine ⟨txt.drop pos, ?_, ?_, (List.take_append_drop pos txt).symm⟩
  · rw [List.length_drop]
    omega
  · rw [List.length_drop, List.length_nil]
    omega

theorem Written.length {text out : Bytes} (h : Written txt pos text out) :
    out.length = txt.length ∧ pos + text.length < txt.length := by
  obtain ⟨tail, htail, hlen, rfl⟩ := h
  rw [List.length_append, List.length_append, List.length_take]
  omega

theorem Written.append {s t mid out : Bytes} (hs : Written txt pos s mid)
    (ht : Written mid (pos + s.length) t out) : Written txt pos (s ++ t) out := by
  have hmid := hs.length
  obtain ⟨tail, -, hlen, hmid'⟩ := hs
  obtain ⟨tail', hpos, hlen', rfl⟩ := ht
  have htake : mid.take (pos + s.length) = txt.take pos ++ s := by
    rw [hmid', ← List.append_assoc, List.take_left']
    rw [List.length_append, List.length_take, Nat.min_eq_left (by omega)]
  refine ⟨tail', hpos, ?_, ?_⟩
  · rw [List.length_append]
    omega
  · rw [htake, List.append_assoc, List.append_assoc]

theorem store_written {src : Bytes} (h : pos + src.length < txt.length) :
    ∃ out, txt.store pos src = some out ∧ Written txt pos src out := by
  refine ⟨_, Bytes.store_front (List.take_append_drop pos txt).symm ?_ ?_,
    (txt.drop pos).drop src.length, ?_, ?_, rfl⟩
  · rw [List.length_take]
    omega
  · rw [List.length_drop]
    omega
  · rw [List.length_drop, List.length_drop]
    omega
  · rw [List.length_drop, List.length_drop]
    omega

/-- `snprintf` writes a NUL of its own behind the text. -/
theorem snprintf_fits {text : Bytes} (h : pos + text.length < txt.length) :
    ∃ out, snprintf txt pos (txt.length - pos) text = some (out, text.length) ∧
      Written txt pos text out := by
  have hlen : (text ++ [0]).length = text.length + 1 := by
    rw [List.length_append, List.length_singleton]
  have hstore : txt.store pos (text ++ [0]) =
      some (txt.take pos ++ ((text ++ [0]) ++ (txt.drop pos).drop (text ++ [0]).length)) := by
    apply Bytes.store_front (List.take_append_drop pos txt).symm
    · rw [List.length_take]
      omega
    · rw [hlen, List.length_drop]
      omega
  refine ⟨txt.take pos ++ ((text ++ [0]) ++ (txt.drop pos).drop (text ++ [0]).length), ?_,
    0 :: (txt.drop pos).drop (text ++ [0]).length, Nat.succ_pos _, ?_, ?_⟩
  · rw [snprintf, if_neg (by omega), List.take_of_length_le (by omega), hstore]
    rfl
  · rw [List.length_cons, List.length_drop, List.length_drop, hlen]
    omega
  · rw [List.append_assoc text]
    rfl

theorem snprintf_short {text : Bytes} (hpos : pos < txt.length) :
    ∃ out, out.length = txt.length ∧
      snprintf txt pos (txt.length - pos) text = some (out, text.length) := by
  have hfits : pos + (text.take (txt.length - pos - 1) ++ [0]).length ≤ txt.length := by
    rw [List.length_append, List.length_take, List.length_singleton]
    omega
  refine ⟨txt.writeAt pos (text.take (txt.length - pos - 1) ++ [0]), Bytes.writeAt_length _ _ _, ?_⟩
  rw [snprintf, if_neg (by omega), Bytes.store, if_pos hfits]
  rfl

theorem escapeOctet_fits (h : pos + style.width x < txt.length) :
    ∃ out, escapeOctet style txt pos x = some (out, pos + style.width x) ∧
      Written txt pos (style.text x) out := by
  unfold escapeOctet Style.width Style.text at *
  cases hletter : style.letter x with
  | some e =>
    rw [hletter] at h
    dsimp only at h ⊢
    obtain ⟨out, heq, hout⟩ := store_written h
    exact ⟨out, by rw [heq]; rfl, hout⟩
  | none =>
    rw [hletter] at h
    dsimp only at h ⊢
    split
    · rename_i hx
      rw [if_pos hx] at h
      obtain ⟨out, heq, hout⟩ := store_written h
      exact ⟨out, by rw [heq]; rfl, hout⟩
    · rename_i hx
      rw [if_neg hx] at h
      obtain ⟨out, heq, hout⟩ := snprintf_fits h
      exact ⟨out, by rw [heq]; rfl, hout⟩

/-- A text that does not fit is cut, and the position moves on by the whole of it. -/
theorem escapeOctet_short (hroom : pos + 4 < txt.length) (h : txt.length ≤ pos + style.width x) :
    ∃ out, out.length = txt.length ∧
      escapeOctet style txt pos x = some (out, pos + style.width x) := by
  unfold escapeOctet Style.width Style.text at *
  cases hletter : style.letter x with
  | some e =>
    rw [hletter] at h
    simp only [List.length_cons, List.length_nil] at h
    omega
  | none =>
    rw [hletter] at h
    dsimp only at h ⊢
    split
    · rename_i hx
      rw [if_pos hx, List.length_singleton] at h
      omega
    · obtain ⟨out, hlen, heq⟩ := @snprintf_short txt pos (style.form x) (by omega)
      exact ⟨out, hlen, by rw [heq]; rfl⟩

/-- As long as the forms fit, the text is in the buffer and there is room for the NUL. -/
theorem escapeFrom_shown (hpos : pos < txt.length) (h : ¬ Cramped style txt.length data pos) :
    ∃ out, escapeFrom style data txt pos =
        some (out, pos + (style.shown txt.length data pos).length) ∧
      Written txt pos (style.shown txt.length data pos) out := by
  induction data generalizing txt pos with
  | nil => exact ⟨txt, rfl, .nil hpos⟩
  | cons x data ih =>
    rw [cramped_cons, not_or] at h
    rw [escapeFrom, Style.shown]
    by_cases hroom : txt.length ≤ pos + 4
    · rw [if_pos hroom, if_pos hroom]
      exact ⟨txt, rfl, .nil hpos⟩
    · have hfits : pos + style.width x < txt.length := by
        by_contra htight
        exact h.1 ⟨Nat.not_le.mp hroom, Nat.not_lt.mp htight⟩
      obtain ⟨mid, hoctet, hmid⟩ := escapeOctet_fits hfits
      have hlen := hmid.length.1
      rw [← hlen] at hfits h
      obtain ⟨out, hloop, hout⟩ := ih hfits h.2
      rw [hlen] at hloop hout
      refine ⟨out, ?_, ?_⟩
      · rw [if_neg hroom, if_neg hroom, hoctet, List.length_append, ← Nat.add_assoc]
        exact hloop
      · rw [if_neg hroom]
        exact hmid.append hout

/-- Once a form does not fit, the position is behind the buffer at the end. -/
theorem escapeFrom_cramped (hpos : pos < txt.length) (h : Cramped style txt.length data pos) :
    ∃ out stop, out.length = txt.length ∧ txt.length ≤ stop ∧
      escapeFrom style data txt pos = some (out, stop) := by
  induction data generalizing txt pos with
  | nil =>
    obtain ⟨front, x, back, hdata, -⟩ := h
    exact absurd hdata.symm (List.append_ne_nil_of_right_ne_nil front (List.cons_ne_nil x back))
  | cons x data ih =>
    have hroom : ¬ txt.length ≤ pos + 4 := by
      obtain ⟨front, -, -, -, hroom, -⟩ := h
      omega
    rw [cramped_cons] at h
    rw [escapeFrom, if_neg hroom]
    by_cases hfits : pos + style.width x < txt.length
    · obtain ⟨mid, hoctet, hmid⟩ := escapeOctet_fits hfits
      have hlen := hmid.length.1
      have hlater : Cramped style txt.length data (pos + style.width x) := by
        obtain ⟨-, htight⟩ | hlater := h
        · omega
        · exact hlater
      rw [← hlen] at hfits hlater
      obtain ⟨out, stop, hout, hstop, hloop⟩ := ih hfits hlater
      rw [hoctet]
      exact ⟨out, stop, hout.trans hlen, hlen ▸ hstop, hloop⟩
    · -- the guard of the next turn ends the loop here
      obtain ⟨out, hout, hoctet⟩ := escapeOctet_short (Nat.not_le.mp hroom) (Nat.not_lt.mp hfits)
      refine ⟨out, pos + style.width x, hout, Nat.not_lt.mp hfits, ?_⟩
      rw [hoctet]
      show escapeFrom style data out (pos + style.width x) = some (out, pos + style.width x)
      cases data with
      | nil => rfl
      | cons y data =>
        rw [escapeFrom, if_pos (by omega)]

/-- The text stands in front of the NUL, and both stay in the buffer. -/
theorem escapeString_shown (hmax : 0 < txt.length) (h : ¬ Cramped style txt.length data 0) :
    ∃ tail, escapeString style txt data =
        some (style.shown txt.length data 0 ++ 0 :: tail, (style.shown txt.length data 0).length) ∧
      (style.shown txt.length data 0 ++ 0 :: tail).length = txt.length := by
  obtain ⟨out, hloop, hout⟩ := escapeFrom_shown hmax h
  rw [Nat.zero_add] at hloop
  obtain ⟨tail, hpos, hlen, rfl⟩ := hout
  obtain _ | ⟨y, tail⟩ := tail
  · exact absurd hpos (Nat.lt_irrefl 0)
  · have hstore : Bytes.store (txt.take 0 ++ (style.shown txt.length data 0 ++ y :: tail))
        (style.shown txt.length data 0).length [0] =
          some (style.shown txt.length data 0 ++ ([0] ++ tail)) := by
      have hpart : txt.take 0 ++ (style.shown txt.length data 0 ++ y :: tail) =
          style.shown txt.length data 0 ++ ([y] ++ tail) := rfl
      exact Bytes.store_part hpart rfl rfl
    refine ⟨tail, ?_, ?_⟩
    · rw [escapeString, hloop]
      show (Bytes.store _ _ [0]).bind _ = _
      rw [hstore]
      rfl
    · rw [List.length_cons] at hlen
      rw [List.length_append, List.length_cons]
      omega

theorem escapeString_cramped (hmax : 0 < txt.length) (h : Cramped style txt.length data 0) :
    escapeString style txt data = none := by
  obtain ⟨out, stop, hlen, hstop, hloop⟩ := escapeFrom_cramped hmax h
  have hstore : out.store stop [0] = none := by
    rw [Bytes.store, List.length_singleton, if_neg (by omega)]
  rw [escapeString, hloop]
  show (out.store stop [0]).bind _ = none
  rw [hstore]
  rfl

end Loop

section Json
variable {txt data : Bytes} {x : UInt8}

/-- An octet that `json_escape_string` leaves to `snprintf`. -/
def Unprinted (x : UInt8) : Prop := jsonStyle.letter x = none ∧ ¬ printable x

theorem Unprinted.width (h : Unprinted x) : jsonStyle.width x = 6 := by
  rw [Style.width, Style.text, h.1]
  dsimp only
  rw [if_neg h.2]
  rfl

theorem width_le_two (h : ¬ Unprinted x) : jsonStyle.width x ≤ 2 := by
  rw [Style.width, Style.text]
  cases hletter : jsonStyle.letter x with
  | some e => exact Nat.le_refl 2
  | none =>
    have hx : printable x := by
      by_contra hx
      exact h ⟨hletter, hx⟩
    dsimp only
    rw [if_pos hx]
    exact Nat.le_succ 1

/-- All writes are to the buffer, and so is the position that the reports of `snprintf` add up to,
where the NUL stands in the end. -/
def Inside (txt data : Bytes) : Prop :=
  ∃ out pos, jsonEscapeString txt data = some (out, pos) ∧ out.length = txt.length ∧
    pos < txt.length ∧ out[pos]? = some 0

theorem inside_iff_not_cramped (hmax : 0 < txt.length) :
    Inside txt data ↔ ¬ Cramped jsonStyle txt.length data 0 := by
  constructor
  · rintro ⟨out, pos, hout, -⟩ h
    rw [jsonEscapeString, escapeString_cramped hmax h] at hout
    cases hout
  · intro h
    obtain ⟨tail, hout, hlen⟩ := escapeString_shown hmax h
    refine ⟨_, _, hout, hlen, ?_, ?_⟩
    · rw [List.length_append, List.length_cons] at hlen
      omega
    · rw [List.getElem?_append_right (Nat.le_refl _), Nat.sub_self]
      rfl

/-- `json_escape_string` stays in its buffer unless an octet that takes six characters meets a rest
of five or six: the guard of the loop reserves four and the NUL. -/
theorem jsonEscapeString_inside_iff (txt data : Bytes) (hmax : 1 ≤ txt.length) :
    Inside txt data ↔ ¬ ∃ front x back, data = front ++ x :: back ∧ Unprinted x ∧
      (jsonStyle.widths front + 5 = txt.length ∨ jsonStyle.widths front + 6 = txt.length) := by
  rw [inside_iff_not_cramped hmax, not_iff_not]
  constructor
  · intro ⟨front, x, back, hdata, hroom, htight⟩
    have hx : Unprinted x := by
      by_contra hx
      have hwidth := width_le_two hx
      omega
    rw [hx.width] at htight
    exact ⟨front, x, back, hdata, hx, by omega⟩
  · intro ⟨front, x, back, hdata, hx, htight⟩
    refine ⟨front, x, back, hdata, by omega, ?_⟩
    rw [hx.width]
    omega

theorem inside_six : Inside [0, 0, 0, 0, 0, 0, 0] [1] :=
  (jsonEscapeString_inside_iff [0, 0, 0, 0, 0, 0, 0] [1] (by decide)).mpr fun h => by
    obtain ⟨front, x, back, hdata, -, htight⟩ := h
    obtain _ | ⟨y, front⟩ := front
    · exact absurd htight (by decide)
    · exact absurd (List.cons.inj hdata).2.symm (by simp)

/-- One octet 1 in a buffer of five or of six. -/
theorem jsonEscapeString_outside : ¬ Inside [0, 0, 0, 0, 0] [1] ∧ ¬ Inside [0, 0, 0, 0, 0, 0] [1] := by
  have hnone : jsonEscapeString [0, 0, 0, 0, 0] [1] = none ∧
      jsonEscapeString [0, 0, 0, 0, 0, 0] [1] = none := by decide
  constructor
  · rintro ⟨out, pos, hout, -⟩
    rw [hnone.1] at hout
    cases hout
  · rintro ⟨out, pos, hout, -⟩
    rw [hnone.2] at hout
    cases hout

theorem widths_le (data : Bytes) : jsonStyle.widths data ≤ 6 * data.length := by
  induction data with
  | nil => exact Nat.le_refl 0
  | cons x data ih =>
    have hwidth : jsonStyle.width x ≤ 6 := by
      by_cases hx : Unprinted x
      · exact Nat.le_of_eq hx.width
      · have htwo := width_le_two hx
        omega
    rw [widths_cons, List.length_cons]
    omega

/-- The buffer of `json_add_string_escape` is large enough. -/
theorem jsonAddStringEscape_inside (h : txt.length = 6 * data.length + 1) : Inside txt data := by
  rw [inside_iff_not_cramped (by omega)]
  rintro ⟨front, x, back, hdata, -, htight⟩
  have hfront := widths_le (front ++ [x])
  have hwidths : jsonStyle.widths (front ++ [x]) = jsonStyle.widths front + jsonStyle.width x := by
    rw [Style.widths, List.flatMap_append, List.length_append, List.flatMap_singleton]
    rfl
  rw [hwidths, List.length_append, List.length_singleton] at hfront
  rw [hdata, List.length_append, List.length_cons] at h
  omega

theorem jsonStyle_text (x : UInt8) : jsonStyle.text x = escapeChar x := by
  unfold Style.text jsonStyle escapeChar printable
  dsimp only
  split_ifs <;> first | rfl | exact if_pos ‹_› | exact if_neg ‹_›

/-- The text of `json_escape_string` as the members of objects use it. -/
theorem escapeString_room {pos maxlen : ℕ} (h : ¬ Cramped jsonStyle maxlen data pos) :
    Json.escapeString (maxlen - pos) data = some (jsonStyle.shown maxlen data pos) := by
  induction data generalizing pos with
  | nil => rfl
  | cons x data ih =>
    rw [cramped_cons, not_or] at h
    rw [Json.escapeString, Style.shown, ← jsonStyle_text]
    by_cases hroom : maxlen ≤ pos + 4
    · rw [if_pos hroom, if_pos (by omega)]
    · have hfits : ¬ maxlen - pos ≤ (jsonStyle.text x).length := by
        intro htight
        have hwidth : jsonStyle.width x = (jsonStyle.text x).length := rfl
        exact h.1 ⟨Nat.not_le.mp hroom, by omega⟩
      have hrest : maxlen - pos - (jsonStyle.text x).length = maxlen - (pos + jsonStyle.width x) :=
        Nat.sub_sub _ _ _
      rw [if_neg hroom, if_neg (by omega), if_neg hfits, hrest, ih h.2]
      rfl

theorem jsonEscapeString_text (hmax : 0 < txt.length) (h : Inside txt data) :
    ∃ text tail, Json.escapeString txt.length data = some text ∧
      jsonEscapeString txt data = some (text ++ 0 :: tail, text.length) := by
  rw [inside_iff_not_cramped hmax] at h
  obtain ⟨tail, hout, -⟩ := escapeString_shown hmax h
  exact ⟨_, tail, escapeString_room h, hout⟩

end Json

end Wpa.Escape
