import Mathlib.Data.List.TakeWhile
import Wpa.Lib.Wpabuf
import Wpa.Utils.Base64RoundTrip
import Wpa.Utils.JsonLanguage

/-! Members of JSON objects: the escaper and the functions that write a member to a buffer, and
those that find it in the tree again. -/

namespace Wpa.Json
open Lib Base64

section Escape

/-- A digit of `%x`. -/
def hexDigit (n : UInt8) : UInt8 := if n < 10 then '0'.toUInt8 + n else 'a'.toUInt8 + (n - 10)

/-- What `json_escape_string` writes for one octet. -/
def escapeChar (x : UInt8) : Bytes :=
  if x = quote then [backslash, quote]
  else if x = backslash then [backslash, backslash]
  else if x = lineFeed then [backslash, 'n'.toUInt8]
  else if x = carriageReturn then [backslash, 'r'.toUInt8]
  else if x = tab then [backslash, 't'.toUInt8]
  else if 32 ≤ x ∧ x ≤ 126 then [x]
  else [backslash, 'u'.toUInt8, '0'.toUInt8, '0'.toUInt8, hexDigit (x >>> 4), hexDigit (x &&& 15)]

/-- `json_escape_string` with `room` octets up to the end of the buffer, one of them for the
terminating zero; `none` where `txt` moves behind the end. -/
def escapeString (room : ℕ) : Bytes → Option Bytes
  | [] => some []
  | x :: data =>
    if room ≤ 4 then some []
    else if room ≤ (escapeChar x).length then none
    else (escapeString (room - (escapeChar x).length) data).map (escapeChar x ++ ·)

end Escape

section Write
variable (sizeBits : ℕ) (malloc : ℕ → Bool) (json : Wpabuf) (name val : Bytes)

/-- A C string: what stands before the first zero octet. -/
def cString (str : Bytes) : Bytes := str.takeWhile (· != 0)

/-- `wpabuf_printf`, which needs room for the terminating zero too. -/
def wpabufPrintf (str : Bytes) : Option Wpabuf :=
  if json.tailroom ≤ str.length then none else json.put str

/-- `json_start_object` without a name. -/
def jsonStartObject : Option Wpabuf := json.put [Container.object.opening]

def jsonEndObject : Option Wpabuf := json.put [Container.object.closing]

/-- The text of a member with a string. -/
def memberText : Bytes :=
  quote :: (name ++ quote :: ':'.toUInt8 :: quote :: (val ++ [quote]))

def jsonAddString : Option Wpabuf := wpabufPrintf json (memberText (cString name) (cString val))

/-- The value that is returned, and the buffer; `none` where the program does not go on. -/
abbrev Added := Option (ℤ × Wpabuf)

def jsonAddStringEscape : Added :=
  let tmpLen := (6 * val.length + 1) % 2 ^ sizeBits
  if !malloc tmpLen then some (-1, json)
  else
    match escapeString tmpLen val with
    | none => none
    | some tmp => (jsonAddString json name tmp).map fun json => (0, json)

/-- `json_add_base64url` and `json_add_base64`, which differ in the encoder. -/
def addEncoded (encode : Bytes → Option Encoded) : Added :=
  match encode val with
  | none => some (-1, json)
  | some b64 => (jsonAddString json name b64.written).map fun json => (0, json)

def jsonAddBase64url : Added := addEncoded json name val (base64UrlEncode sizeBits malloc)

def jsonAddBase64 : Added := addEncoded json name val (base64EncodeNoLf sizeBits malloc)

/-- An object with one member, in a new buffer. -/
def objectWith (size : ℕ) (add : Wpabuf → Added) : Added := do
  let json ← jsonStartObject ⟨size, [], Nat.zero_le _⟩
  let (ret, json) ← add json
  let json ← jsonEndObject json
  some (ret, json)

end Write

section Read
variable (sizeBits : ℕ) (malloc : ℕ → Bool) (json : JsonToken) (name : Bytes)

/-- The last member with this name. -/
def jsonGetMember : Option JsonToken :=
  if json.fields.type ≠ .object then none
  else
    json.children.foldl (fun ret token =>
      match token.fields.name with
      | none => ret
      | some n => if cString n = cString name then some token else ret) none

/-- `json_get_member_base64url` and `json_get_member_base64`, which differ in the decoder. -/
def getDecoded (decode : Bytes → Option Decoded) : Option Bytes :=
  match jsonGetMember json name with
  | none => none
  | some token =>
    if token.fields.type ≠ .string then none
    else (decode (cString (token.fields.string.getD []))).bind Decoded.result

def jsonGetMemberBase64url : Option Bytes :=
  getDecoded json name (base64UrlDecode sizeBits malloc)

def jsonGetMemberBase64 : Option Bytes := getDecoded json name (wpaBase64Decode sizeBits malloc)

/-- What `json_get_member` finds, if it is a string. -/
def getString : Option Bytes :=
  match jsonGetMember json name with
  | none => none
  | some token => if token.fields.type ≠ .string then none else token.fields.string

end Read

section Escaping
variable {x : UInt8} {str body val : Bytes}

theorem forall_octets {p : UInt8 → Prop} (h : ∀ n < 256, p (UInt8.ofNat n)) (x : UInt8) : p x := by
  have hx := h x.toNat x.toNat_lt
  rwa [UInt8.ofNat_toNat] at hx

theorem hexDigits_read (x : UInt8) (hx : x ≠ 0) :
    unescapeHex '0'.toUInt8 '0'.toUInt8 (hexDigit (x >>> 4)) (hexDigit (x &&& 15)) = some [x] := by
  revert x
  apply forall_octets
  decide +kernel

/-- An escaped octet spells the octet. -/
theorem Chars.escapeChar (hx : x ≠ 0) (h : Chars str body) :
    Chars (x :: str) (escapeChar x ++ body) := by
  unfold Json.escapeChar
  split
  · next heq =>
    rw [heq]
    exact h.escape rfl
  split
  · next heq =>
    rw [heq]
    exact h.escape rfl
  split
  · next heq =>
    rw [heq]
    exact h.escape rfl
  split
  · next heq =>
    rw [heq]
    exact h.escape rfl
  split
  · next heq =>
    rw [heq]
    exact h.escape rfl
  split
  · next hquote hescape _ _ _ _ => exact h.plain hquote hescape
  · exact h.unicode (hexDigits_read x hx)

theorem length_escapeChar_le (x : UInt8) : (escapeChar x).length ≤ 6 := by
  revert x
  apply forall_octets
  decide +kernel

theorem zero_notMem_escapeChar (x : UInt8) : 0 ∉ escapeChar x := by
  revert x
  apply forall_octets
  decide +kernel

/-- With six octets for each octet, all of them are written. -/
theorem escapeString_eq {room : ℕ} (h : 6 * val.length + 1 ≤ room) :
    escapeString room val = some (val.flatMap escapeChar) := by
  induction val generalizing room with
  | nil => rfl
  | cons x val ih =>
    have hlen := length_escapeChar_le x
    rw [List.length_cons] at h
    rw [escapeString, if_neg (by omega), if_neg (by omega), ih (by omega)]
    rfl

theorem chars_escape (h : 0 ∉ val) : Chars val (val.flatMap escapeChar) := by
  induction val with
  | nil => exact .nil
  | cons x val ih =>
    obtain ⟨hx, hval⟩ := not_or.mp (mt List.mem_cons.mpr h)
    exact (ih hval).escapeChar (Ne.symm hx)

theorem zero_notMem_escape (val : Bytes) : 0 ∉ val.flatMap escapeChar := by
  intro h
  obtain ⟨x, _, hx⟩ := List.mem_flatMap.mp h
  exact zero_notMem_escapeChar x hx

end Escaping

section Plain

/-- Characters that stand for themselves in a string, and zeros nowhere. -/
def Plain (str : Bytes) : Prop := ∀ x ∈ str, x ≠ quote ∧ x ≠ backslash ∧ x ≠ 0

instance (str : Bytes) : Decidable (Plain str) := List.decidableBAll _ str

variable {str : Bytes} {table : Table} {addPad : AddPad}

theorem Plain.chars (h : Plain str) : Chars str str := by
  induction str with
  | nil => exact .nil
  | cons x str ih =>
    obtain ⟨hx, hstr⟩ := List.forall_mem_cons.mp h
    exact (ih hstr).plain hx.1 hx.2.1

theorem Plain.zero_notMem (h : Plain str) : 0 ∉ str := fun hzero => (h 0 hzero).2.2 rfl

theorem bne_zero (h : 0 ∉ str) : ∀ x ∈ str, (x != 0) = true := by
  intro x hx
  rw [bne_iff_ne]
  rintro rfl
  exact h hx

theorem cString_eq (h : 0 ∉ str) : cString str = str :=
  List.takeWhile_eq_self_iff.mpr (bne_zero h)

theorem cString_append (h : 0 ∉ str) (rest : Bytes) : cString (str ++ 0 :: rest) = str := by
  rw [cString, List.takeWhile_append_of_pos (bne_zero h), List.takeWhile_cons_of_neg (by decide),
    List.append_nil]

theorem Plain.append {a b : Bytes} (ha : Plain a) (hb : Plain b) : Plain (a ++ b) :=
  List.forall_mem_append.mpr ⟨ha, hb⟩

theorem plain_nil : Plain [] := List.forall_mem_nil _

theorem plain_char (hchars : Plain table.chars) {i : ℕ} (hi : i < 64) {str : Bytes}
    (h : Plain str) : Plain (table.char i :: str) :=
  List.forall_mem_cons.mpr ⟨hchars _ (table.char_mem hi), h⟩

theorem plain_pad (pad : Bool) : Plain (if pad then [padChar] else []) := by
  cases pad
  · exact plain_nil
  · exact List.forall_mem_singleton.mpr (by decide)

theorem plain_lf : Plain [lfChar] := List.forall_mem_singleton.mpr (by decide)

theorem plain_encodeTail (hchars : Plain table.chars) (lineLen : ℕ) (src : Bytes) :
    Plain (encodeTail table addPad lineLen src) := by
  have hmask (n : ℕ) : n &&& 0x3f < 64 := Nat.and_lt_two_pow (n := 6) _ (by decide)
  have hlf (lineLen : ℕ) : Plain (if addPad.lf ∧ lineLen ≠ 0 then [lfChar] else []) := by
    split
    · exact plain_lf
    · exact plain_nil
  match src with
  | [] => exact hlf lineLen
  | [a] =>
    apply Plain.append _ (hlf _)
    exact ((plain_char hchars (first_lt _) (plain_char hchars (hmask _) plain_nil)).append
      (plain_pad _)).append (plain_pad _)
  | a :: b :: _ =>
    apply Plain.append _ (hlf _)
    exact (plain_char hchars (first_lt _) (plain_char hchars (second_lt _ _)
      (plain_char hchars (hmask _) plain_nil))).append (plain_pad _)

/-- What an encoder writes needs no escapes. -/
theorem plain_encodeFrom (hchars : Plain table.chars) (src : Bytes) (lineLen : ℕ) :
    Plain (encodeFrom table addPad lineLen src) := by
  fun_induction encodeFrom table addPad lineLen src with
  | case1 lineLen a b c src group _ hlf ih =>
    apply Plain.append _ (plain_lf.append ih)
    exact plain_char hchars (first_lt _) (plain_char hchars (second_lt _ _)
      (plain_char hchars (third_lt _ _) (plain_char hchars (fourth_lt _) plain_nil)))
  | case2 lineLen a b c src group _ hlf ih =>
    apply Plain.append _ ih
    exact plain_char hchars (first_lt _) (plain_char hchars (second_lt _ _)
      (plain_char hchars (third_lt _ _) (plain_char hchars (fourth_lt _) plain_nil)))
  | case3 lineLen src _ => exact plain_encodeTail hchars lineLen src

end Plain

section RoundTrip
variable {name val body s : Bytes} {add : Wpabuf → Added}

/-- The text of an object with one member. -/
def objectText (name val : Bytes) : Bytes :=
  Container.object.opening :: (memberText name val ++ [Container.object.closing])

/-- With room for the text, the calls return and the text is what they have written. -/
theorem objectWith_eq {size : ℕ} (hsize : (objectText name val).length ≤ size)
    (hadd : ∀ json, add json =
      (wpabufPrintf json (memberText name val)).map fun json => (0, json)) :
    ∃ json, objectWith size add = some (0, json) ∧ json.data = objectText name val := by
  rw [objectText, List.length_cons, List.length_append, List.length_singleton] at hsize
  obtain ⟨json₁, hput₁, hext₁⟩ := Wpabuf.put_extends ⟨size, [], Nat.zero_le _⟩
    [Container.object.opening] (show 1 ≤ size - 0 by omega)
  have hroom₁ : size - 0 = json₁.tailroom + 1 := hext₁.tailroom_eq
  obtain ⟨json₂, hput₂, hext₂⟩ := json₁.put_extends (memberText name val) (by omega)
  have hroom₂ := hext₂.tailroom_eq
  obtain ⟨json₃, hput₃, hext₃⟩ := json₂.put_extends [Container.object.closing]
    (show 1 ≤ json₂.tailroom by omega)
  have hprintf : wpabufPrintf json₁ (memberText name val) = some json₂ := by
    rw [wpabufPrintf, if_neg (by omega), hput₂]
  refine ⟨json₃, ?_, ?_⟩
  · unfold objectWith jsonStartObject
    rw [hput₁]
    change (add json₁).bind _ = _
    rw [hadd, hprintf]
    change (json₂.put _).bind _ = _
    rw [hput₃]
    rfl
  · rw [hext₃.data_eq, hext₂.data_eq, hext₁.data_eq]
    rfl

/-- The value of the text: an object with one string. -/
def oneMember (name s : Bytes) : Value := .object [(name, .scalar (.string s))]

theorem inGrammar_oneMember (hname : Chars name name) (hs : Chars s body) :
    InGrammar (oneMember name s) (objectText name body) := by
  refine ⟨?_, (by decide : 1 ≤ jsonMaxDepth), (by decide : 2 ≤ jsonMaxTokens)⟩
  have htext : objectText name body = [Container.object.opening] ++
      ((quote :: (name ++ [quote])) ++ ([':'.toUInt8] ++
        ((quote :: (body ++ [quote])) ++ ([Container.object.closing] ++ [])))) := by
    simp [objectText, memberText]
  rw [htext]
  exact .cons (.start .object) (.cons (.string hname) (.cons .colon (.cons (.string hs)
    (.cons (.finish .object) .nil))))

/-- The member that the tree has. -/
theorem jsonGetMember_oneMember (name s : Bytes) :
    jsonGetMember ((oneMember name s).token none) name =
      some (.node { type := .string, state := .completed, name := some name, string := some s } []) :=
  if_pos rfl

/-- From `need` octets on, the object that `add` writes is read back with `s` as what `get` finds
in it. -/
def ReadsBack (need : ℕ) (add : Wpabuf → Added) (get : JsonToken → Option Bytes) (s : Bytes) :
    Prop :=
  ∀ size, need ≤ size → ∃ json root, objectWith size add = some (0, json) ∧
    jsonParse json.data = some [root] ∧ root.fields.type = .object ∧ get root = some s

theorem readsBack_of_chars {get : JsonToken → Option Bytes} {t : Bytes} (hname : Plain name)
    (hs : Chars t body)
    (hadd : ∀ json, add json =
      (wpabufPrintf json (memberText name body)).map fun json => (0, json))
    (hget : get ((oneMember name t).token none) = some s) :
    ReadsBack (objectText name body).length add get s := by
  intro size hsize
  obtain ⟨json, hwrite, hdata⟩ := objectWith_eq hsize hadd
  refine ⟨json, _, hwrite, ?_, rfl, hget⟩
  rw [hdata]
  exact jsonParse_of_inGrammar (inGrammar_oneMember hname.chars hs)

theorem stringEscape_readsBack (sizeBits : ℕ) (hname : Plain name) (hs : 0 ∉ s)
    (hlen : 6 * s.length + 1 ≤ sizeMax sizeBits) :
    ReadsBack (objectText name (s.flatMap escapeChar)).length
      (fun json => jsonAddStringEscape sizeBits (fun _ => true) json name s)
      (fun root => getString root name) s := by
  apply readsBack_of_chars hname (chars_escape hs)
  · intro json
    have hpos := Nat.two_pow_pos sizeBits
    unfold sizeMax at hlen
    have hmod : (6 * s.length + 1) % 2 ^ sizeBits = 6 * s.length + 1 :=
      Nat.mod_eq_of_lt (by omega)
    unfold jsonAddStringEscape jsonAddString
    simp only [hmod, escapeString_eq le_rfl, cString_eq hname.zero_notMem,
      cString_eq (zero_notMem_escape s)]
    rfl
  · rw [getString, jsonGetMember_oneMember]
    rfl

theorem encoded_readsBack {sizeBits : ℕ} {table : Table} {addPad : AddPad}
    (hlf : addPad.lf → addPad.pad) (hchars : Plain table.chars) (hname : Plain name) (hne : s ≠ [])
    (hlen : s.length < sizeMax sizeBits / 4) :
    ReadsBack (objectText name (encodeFrom table addPad 0 s)).length
      (fun json => addEncoded json name s (base64GenEncode sizeBits (fun _ => true) table addPad))
      (fun root => getDecoded root name (base64GenDecode sizeBits (fun _ => true) table)) s := by
  obtain ⟨e, d, hencode, hdecode, hresult⟩ := @base64Gen_roundTrip sizeBits table addPad hlf _ hne hlen
  obtain ⟨-, rfl⟩ := base64GenEncode_eq_some hencode
  have hplain := @plain_encodeFrom table addPad hchars s 0
  apply readsBack_of_chars hname hplain.chars
  · intro json
    unfold addEncoded jsonAddString
    simp only [hencode, cString_append hplain.zero_notMem, cString_eq hname.zero_notMem]
  · have htext : Encoded.text ⟨encodeOlen sizeBits s.length addPad,
        encodeFrom table addPad 0 s ++ [0]⟩ = encodeFrom table addPad 0 s := List.dropLast_concat
    rw [htext] at hdecode
    rw [getDecoded, jsonGetMember_oneMember]
    change (base64GenDecode sizeBits (fun _ => true) table
      (cString (encodeFrom table addPad 0 s))).bind Decoded.result = some s
    rw [cString_eq hplain.zero_notMem, hdecode]
    exact hresult

theorem plain_base64Table : Plain base64Table.chars := by
  decide

theorem plain_base64UrlTable : Plain base64UrlTable.chars := by
  decide

theorem objectWith_failed (hadd : ∀ json, add json = some (-1, json)) {size : ℕ} {ret : ℤ}
    {json : Wpabuf} (h : objectWith size add = some (ret, json)) : ret = -1 := by
  obtain ⟨json₁, -, h⟩ := Option.bind_eq_some_iff.mp h
  rw [hadd] at h
  obtain ⟨added, hadded, h⟩ := Option.bind_eq_some_iff.mp h
  cases hadded
  obtain ⟨json₂, -, h⟩ := Option.bind_eq_some_iff.mp h
  cases h
  rfl

end RoundTrip
end Wpa.Json
