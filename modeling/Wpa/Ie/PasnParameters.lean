import Wpa.Ie.Elements
import Wpa.Lib.Reads
import Wpa.Lib.Wpabuf

/-! The PASN Parameters element: `wpa_pasn_add_parameter_ie` and `wpa_pasn_parse_parameter_ie`. The
group travels with the public key, and the comeback time with the cookie. -/

namespace Wpa.Ie
open Lib Bytes

def eidExtPasnParams : ℕ := 100
def pasnCtrlComebackInfoPresent : UInt8 := 1
def pasnCtrlGroupAndKeyPresent : UInt8 := 2
def pasnWrappedDataNo : ℕ := 0
def pasnWrappedDataFt : ℕ := 1
def pasnWrappedDataFilsSk : ℕ := 2
def pasnWrappedDataSae : ℕ := 3
def pasnPubkeyCompressed0 : UInt8 := 2
def pasnPubkeyUncompressed : UInt8 := 4

/-- Size of `struct pasn_parameter_ie`. -/
def pasnParameterIeLen : ℕ := 5

def PasnFormat (format : ℕ) : Prop :=
  format = pasnWrappedDataNo ∨ format = pasnWrappedDataSae ∨ format = pasnWrappedDataFilsSk ∨
    format = pasnWrappedDataFt

instance (format : ℕ) : Decidable (PasnFormat format) :=
  inferInstanceAs (Decidable (_ ∨ _ ∨ _ ∨ _))

section Writer

/-- `params->len += n` and `params->control |= bit`, in the buffer. -/
def bumpParams (buf : Wpabuf) (params n : ℕ) (bit : UInt8) : Option Wpabuf :=
  (buf.overwrite (params + 1) [UInt8.ofNat (buf.data.byteAt (params + 1) + n)]).bind fun buf =>
  buf.overwrite (params + 3) [UInt8.ofNat (buf.data.byteAt (params + 3)) ||| bit]

def addComeback (buf : Wpabuf) (params : ℕ) (comeback : Option Bytes) (after : ℤ) :
    Option Wpabuf :=
  match comeback with
  | none => some buf
  | some cookie =>
    (bumpParams buf params ((if 0 ≤ after then 2 else 0) + (1 + cookie.length))
      pasnCtrlComebackInfoPresent).bind fun buf =>
    (if 0 ≤ after then buf.put (ofLe16 after.toNat) else some buf).bind fun buf =>
    (buf.putU8 cookie.length).bind fun buf =>
    buf.put cookie

def addGroupAndKey (buf : Wpabuf) (params : ℕ) (pasnGroup : UInt16) (pubkey : Option Bytes)
    (compressed : Bool) : Option Wpabuf :=
  match pubkey with
  | none => some buf
  | some key =>
    (bumpParams buf params (2 + 1 + 1 + key.length) pasnCtrlGroupAndKeyPresent).bind fun buf =>
    (buf.put (ofLe16 pasnGroup.toNat)).bind fun buf =>
    (buf.putU8 (key.length + 1)).bind fun buf =>
    (buf.put [if compressed then pasnPubkeyCompressed0 else pasnPubkeyUncompressed]).bind fun buf =>
    buf.put key

/-- `after` is -1 in a frame from a station. -/
def wpaPasnAddParameterIe (buf : Wpabuf) (pasnGroup : UInt16) (wrappedDataFormat : UInt8)
    (pubkey : Option Bytes) (compressed : Bool) (comeback : Option Bytes) (after : ℤ) :
    Option Wpabuf :=
  let params := buf.data.length
  (buf.put [UInt8.ofNat eidExtension, UInt8.ofNat (pasnParameterIeLen - 2),
    UInt8.ofNat eidExtPasnParams, 0, wrappedDataFormat]).bind fun buf =>
  (addComeback buf params comeback after).bind fun buf =>
  addGroupAndKey buf params pasnGroup pubkey compressed

end Writer

section Parser

/-- `comeback` and `pubkey` are offsets in the element. -/
structure PasnParamsData where
  wrappedDataFormat : ℕ
  after : ℕ
  comebackLen : ℕ
  comeback : Option ℕ
  group : ℕ
  pubkeyLen : ℕ
  pubkey : Option ℕ

/-- How the parser fails: by a read outside the octets it was given, or by returning -1. -/
inductive PasnFail where
  | outside
  | refused

def get8 (data : Bytes) (pos : ℕ) : Except PasnFail ℕ :=
  (data.read8 pos).elim (.error .outside) .ok

def getLe16 (data : Bytes) (pos : ℕ) : Except PasnFail ℕ :=
  (data.readLe16 pos).elim (.error .outside) .ok

/-- Where the parser stands; it counts down `len` in one octet. -/
structure PasnCursor where
  pos : ℕ
  len : UInt8
  params : PasnParamsData

def parseAfter (data : Bytes) (fromAp : Bool) (c : PasnCursor) : Except PasnFail PasnCursor :=
  if fromAp then
    if c.len < 2 then .error .refused
    else do
      let after ← getLe16 data c.pos
      .ok ⟨c.pos + 2, c.len - 2, { c.params with after := after }⟩
  else .ok c

def parseCookie (data : Bytes) (c : PasnCursor) : Except PasnFail PasnCursor :=
  if c.len < 1 then .error .refused
  else do
    let n ← get8 data c.pos
    if c.len.toNat < 1 + n then .error .refused
    else
      .ok ⟨c.pos + 1 + n, c.len - 1 - UInt8.ofNat n,
        { c.params with comebackLen := n, comeback := some (c.pos + 1) }⟩

def parseGroupAndKey (data : Bytes) (c : PasnCursor) : Except PasnFail PasnCursor :=
  if c.len < 3 then .error .refused
  else do
    let n ← get8 data (c.pos + 2)
    if c.len.toNat < 3 + n then .error .refused
    else do
      let group ← getLe16 data c.pos
      .ok ⟨c.pos + 2 + 1 + n, c.len - 2 - 1 - UInt8.ofNat n,
        { c.params with group := group, pubkeyLen := n, pubkey := some (c.pos + 2 + 1) }⟩

def parseComeback (data : Bytes) (control : ℕ) (fromAp : Bool) (c : PasnCursor) :
    Except PasnFail PasnCursor :=
  if UInt8.ofNat control &&& pasnCtrlComebackInfoPresent ≠ 0 then
    parseAfter data fromAp c >>= parseCookie data
  else .ok c

def parseParts (data : Bytes) (control : ℕ) (fromAp : Bool) (c : PasnCursor) :
    Except PasnFail PasnCursor :=
  parseComeback data control fromAp c >>= fun c =>
  if UInt8.ofNat control &&& pasnCtrlGroupAndKeyPresent ≠ 0 then parseGroupAndKey data c else .ok c

def wpaPasnParseParameterIe (data : Bytes) (len : UInt8) (fromAp : Bool) :
    Except PasnFail PasnParamsData := do
  let paramsLen ← get8 data 1
  if paramsLen + 2 < pasnParameterIeLen ∨ len.toNat < pasnParameterIeLen ∨
      paramsLen + 2 ≠ len.toNat then .error .refused
  else do
    let format ← get8 data 4
    if ¬ PasnFormat format then .error .refused
    else do
      let control ← get8 data 3
      let c ← parseParts data control fromAp
        ⟨pasnParameterIeLen, len - UInt8.ofNat pasnParameterIeLen, ⟨format, 0, 0, none, 0, 0, none⟩⟩
      if c.len ≠ 0 then .error .refused else .ok c.params

end Parser

section Bounds
variable {data : Bytes} {c : PasnCursor}

theorem get8_eq {i : ℕ} (h : i < data.length) : get8 data i = .ok (data.byteAt i) := by
  rw [get8, read8_eq h]
  rfl

theorem getLe16_eq {i : ℕ} (h : i + 2 ≤ data.length) : getLe16 data i = .ok (data.le16 i) := by
  rw [getLe16, readLe16_eq h]
  rfl

/-- The octets that are left are those behind the position. -/
def PasnCursor.Within (data : Bytes) (c : PasnCursor) : Prop := c.pos + c.len.toNat = data.length

/-- No read was outside, and the position still fits the count. -/
def Stays (data : Bytes) : Except PasnFail PasnCursor → Prop
  | .error e => e = .refused
  | .ok c => c.Within data

theorem Stays.bind {r : Except PasnFail PasnCursor} {f : PasnCursor → Except PasnFail PasnCursor}
    (hr : Stays data r) (hf : ∀ c, c.Within data → Stays data (f c)) : Stays data (r >>= f) := by
  cases r with
  | error e => exact hr
  | ok c => exact hf c hr

theorem toNat_sub_ofNat {x : UInt8} {n : ℕ} (h : n ≤ x.toNat) :
    (x - UInt8.ofNat n).toNat = x.toNat - n := by
  have hlt := x.toNat_lt
  have hle : UInt8.ofNat n ≤ x := by
    rw [UInt8.le_iff_toNat_le, UInt8.toNat_ofNat', Nat.mod_eq_of_lt (by omega)]
    exact h
  rw [UInt8.toNat_sub_of_le _ _ hle, UInt8.toNat_ofNat', Nat.mod_eq_of_lt (by omega)]

theorem parseAfter_stays (fromAp : Bool) (hc : c.Within data) :
    Stays data (parseAfter data fromAp c) := by
  unfold PasnCursor.Within at hc
  unfold parseAfter
  split
  · split
    · rfl
    · rename_i hlen
      rw [UInt8.lt_iff_toNat_lt, not_lt] at hlen
      have htwo : 2 ≤ c.len.toNat := hlen
      have hsub : (c.len - 2).toNat = c.len.toNat - 2 := toNat_sub_ofNat htwo
      rw [getLe16_eq (by omega)]
      show c.pos + 2 + (c.len - 2).toNat = data.length
      omega
  · exact hc

theorem parseCookie_stays (hc : c.Within data) : Stays data (parseCookie data c) := by
  unfold PasnCursor.Within at hc
  unfold parseCookie
  split
  · rfl
  rename_i hlen
  rw [UInt8.lt_iff_toNat_lt, not_lt] at hlen
  have hone : 1 ≤ c.len.toNat := hlen
  rw [get8_eq (by omega)]
  show Stays data (if c.len.toNat < 1 + data.byteAt c.pos then _ else _)
  split
  · rfl
  rename_i hfit
  have hsub : (c.len - 1).toNat = c.len.toNat - 1 := toNat_sub_ofNat hone
  have hrest : (c.len - 1 - UInt8.ofNat (data.byteAt c.pos)).toNat =
      (c.len - 1).toNat - data.byteAt c.pos :=
    toNat_sub_ofNat (by omega)
  show c.pos + 1 + data.byteAt c.pos + (c.len - 1 - UInt8.ofNat (data.byteAt c.pos)).toNat = _
  omega

theorem parseGroupAndKey_stays (hc : c.Within data) : Stays data (parseGroupAndKey data c) := by
  unfold PasnCursor.Within at hc
  unfold parseGroupAndKey
  split
  · rfl
  rename_i hlen
  rw [UInt8.lt_iff_toNat_lt, not_lt] at hlen
  have hthree : 3 ≤ c.len.toNat := hlen
  rw [get8_eq (by omega)]
  show Stays data (if c.len.toNat < 3 + data.byteAt (c.pos + 2) then _ else _)
  split
  · rfl
  rename_i hfit
  rw [getLe16_eq (by omega)]
  have htwo : (c.len - 2).toNat = c.len.toNat - 2 :=
    toNat_sub_ofNat (n := 2) (by omega)
  have hone : (c.len - 2 - 1).toNat = (c.len - 2).toNat - 1 :=
    toNat_sub_ofNat (n := 1) (by omega)
  have hrest : (c.len - 2 - 1 - UInt8.ofNat (data.byteAt (c.pos + 2))).toNat =
      (c.len - 2 - 1).toNat - data.byteAt (c.pos + 2) :=
    toNat_sub_ofNat (by omega)
  show c.pos + 2 + 1 + data.byteAt (c.pos + 2) +
    (c.len - 2 - 1 - UInt8.ofNat (data.byteAt (c.pos + 2))).toNat = _
  omega

theorem parseParts_stays (control : ℕ) (fromAp : Bool) (hc : c.Within data) :
    Stays data (parseParts data control fromAp c) := by
  unfold parseParts parseComeback
  apply Stays.bind
  · split
    · exact (parseAfter_stays fromAp hc).bind fun _ => parseCookie_stays
    · exact hc
  · intro c hc
    split
    · exact parseGroupAndKey_stays hc
    · exact hc

/-- With its own length octet there, the parser stays inside. -/
theorem parse_ne_outside {len : UInt8} (fromAp : Bool) (hlen : data.length = len.toNat)
    (htwo : 2 ≤ data.length) : wpaPasnParseParameterIe data len fromAp ≠ .error .outside := by
  unfold wpaPasnParseParameterIe
  rw [get8_eq (by omega)]
  show (if _ then _ else _) ≠ _
  split
  · nofun
  rename_i hhdr
  rw [not_or, not_or, not_lt, not_lt] at hhdr
  unfold pasnParameterIeLen at hhdr
  rw [get8_eq (by omega), get8_eq (by omega)]
  show (if _ then _ else _) ≠ _
  split
  · nofun
  have hstart : PasnCursor.Within data ⟨pasnParameterIeLen, len - UInt8.ofNat pasnParameterIeLen,
      ⟨data.byteAt 4, 0, 0, none, 0, 0, none⟩⟩ := by
    have hsub : (len - UInt8.ofNat pasnParameterIeLen).toNat = len.toNat - 5 :=
      toNat_sub_ofNat hhdr.2.1
    show 5 + (len - UInt8.ofNat pasnParameterIeLen).toNat = _
    omega
  have hparts := parseParts_stays (data.byteAt 3) fromAp hstart
  dsimp only [bind, Except.bind]
  cases hc : parseParts data (data.byteAt 3) fromAp ⟨pasnParameterIeLen,
      len - UInt8.ofNat pasnParameterIeLen, ⟨data.byteAt 4, 0, 0, none, 0, 0, none⟩⟩ with
  | error e =>
    rw [hc] at hparts
    have he : e = .refused := hparts
    rw [he]
    nofun
  | ok c =>
    show (if _ then _ else _) ≠ _
    split
    · nofun
    · nofun

end Bounds

section Element
variable {buf : Wpabuf} {before rest : Bytes} {len control format : UInt8}

def paramsHdr (len control format : UInt8) : Bytes :=
  [UInt8.ofNat eidExtension, len, UInt8.ofNat eidExtPasnParams, control, format]

def comebackPart (comeback : Option Bytes) (after : ℤ) : Bytes :=
  match comeback with
  | none => []
  | some cookie =>
    (if 0 ≤ after then ofLe16 after.toNat else []) ++ ([UInt8.ofNat cookie.length] ++ cookie)

/-- The public key behind its compression octet. -/
def sentKey (compressed : Bool) (key : Bytes) : Bytes :=
  (if compressed then pasnPubkeyCompressed0 else pasnPubkeyUncompressed) :: key

def keyPart (pasnGroup : UInt16) (pubkey : Option Bytes) (compressed : Bool) : Bytes :=
  match pubkey with
  | none => []
  | some key =>
    ofLe16 pasnGroup.toNat ++ ([UInt8.ofNat (key.length + 1)] ++ sentKey compressed key)

def comebackControl (comeback : Option Bytes) : UInt8 :=
  if comeback.isSome then pasnCtrlComebackInfoPresent else 0

def keyControl (pubkey : Option Bytes) : UInt8 :=
  if pubkey.isSome then pasnCtrlGroupAndKeyPresent else 0

/-- What `wpa_pasn_add_parameter_ie` appends. -/
def paramsElement (pasnGroup : UInt16) (format : UInt8) (pubkey : Option Bytes)
    (compressed : Bool) (comeback : Option Bytes) (after : ℤ) : Bytes :=
  let parts := comebackPart comeback after ++ keyPart pasnGroup pubkey compressed
  paramsHdr (3 + UInt8.ofNat parts.length) (comebackControl comeback ||| keyControl pubkey) format ++
    parts

theorem ofNat_toNat_add (x : UInt8) (n : ℕ) : UInt8.ofNat (x.toNat + n) = x + UInt8.ofNat n := by
  apply UInt8.toNat_inj.mp
  rw [UInt8.toNat_add, UInt8.toNat_ofNat', UInt8.toNat_ofNat']
  omega

theorem ofNat_add (m n : ℕ) : UInt8.ofNat (m + n) = UInt8.ofNat m + UInt8.ofNat n := by
  apply UInt8.toNat_inj.mp
  rw [UInt8.toNat_add, UInt8.toNat_ofNat', UInt8.toNat_ofNat', UInt8.toNat_ofNat']
  omega

theorem length_behind_hdr (l c : UInt8) : (before ++ (paramsHdr l c format ++ rest)).length =
    before.length + (5 + rest.length) := by
  rw [List.length_append, List.length_append]
  rfl

theorem bumpParams_eq (n : ℕ) (bit : UInt8)
    (hdata : buf.data = before ++ (paramsHdr len control format ++ rest)) :
    ∃ buf', bumpParams buf before.length n bit = some buf' ∧ buf'.size = buf.size ∧
      buf'.data = before ++ (paramsHdr (len + UInt8.ofNat n) (control ||| bit) format ++ rest) := by
  have hbyte : ∀ (l c : UInt8) (i : ℕ),
      byteAt (before ++ (paramsHdr l c format ++ rest)) (before.length + i) =
        byteAt (paramsHdr l c format ++ rest) i := by
    intro l c i
    rw [byteAt_append_right _ _ (Nat.le_add_right _ _), Nat.add_sub_cancel_left]
  have hfive : ∀ l c : UInt8, (paramsHdr l c format ++ rest).length = 5 + rest.length := by
    intro l c
    rw [List.length_append]
    rfl
  have hlen := congrArg List.length hdata
  rw [List.length_append, hfive] at hlen
  obtain ⟨b₁, hb₁, hsize₁, hdata₁⟩ := @Wpabuf.overwrite_eq buf (before.length + 1)
    [UInt8.ofNat (buf.data.byteAt (before.length + 1) + n)] (by
      rw [hlen, List.length_singleton]
      omega)
  rw [hdata, hbyte, writeAt_append_right _ _ _ (by rw [hfive, List.length_singleton]; omega)]
    at hdata₁
  obtain ⟨b₂, hb₂, hsize₂, hdata₂⟩ := @Wpabuf.overwrite_eq b₁ (before.length + 3)
    [UInt8.ofNat (b₁.data.byteAt (before.length + 3)) ||| bit] (by
      rw [hdata₁, List.length_append, writeAt_length, hfive, List.length_singleton]
      omega)
  refine ⟨b₂, ?_, hsize₂.trans hsize₁, ?_⟩
  · rw [bumpParams, hb₁]
    exact hb₂
  · have hstep : writeAt (paramsHdr len control format ++ rest) 1
        [UInt8.ofNat (byteAt (paramsHdr len control format ++ rest) 1 + n)] =
        paramsHdr (len + UInt8.ofNat n) control format ++ rest := by
      rw [← ofNat_toNat_add, writeAt_eq (by rw [hfive, List.length_singleton]; omega)]
      rfl
    rw [hstep] at hdata₁
    rw [hdata₂, hdata₁, hbyte,
      writeAt_append_right _ _ _ (by rw [hfive, List.length_singleton]; omega),
      writeAt_eq (by rw [hfive, List.length_singleton]; omega)]
    have hcontrol : UInt8.ofNat (byteAt (paramsHdr (len + UInt8.ofNat n) control format ++ rest) 3) =
        control := UInt8.ofNat_toNat
    rw [hcontrol]
    rfl

/-- The octets `bs` are at the end of the buffer, which had room for them. -/
theorem put_eq (buf : Wpabuf) (bs : Bytes) {data : Bytes} (hdata : buf.data = data) (h : data.length + bs.length ≤ buf.size) :
    ∃ buf', buf.put bs = some buf' ∧ buf'.size = buf.size ∧ buf'.data = data ++ bs := by
  subst hdata
  exact ⟨_, dif_pos h, rfl, rfl⟩

theorem addComeback_eq (comeback : Option Bytes) (after : ℤ)
    (hdata : buf.data = before ++ (paramsHdr len control format ++ rest))
    (hroom : buf.data.length + (comebackPart comeback after).length ≤ buf.size) :
    ∃ buf', addComeback buf before.length comeback after = some buf' ∧ buf'.size = buf.size ∧
      buf'.data = before ++ (paramsHdr (len + UInt8.ofNat (comebackPart comeback after).length)
        (control ||| comebackControl comeback) format ++ (rest ++ comebackPart comeback after)) := by
  cases comeback with
  | none =>
    refine ⟨buf, rfl, rfl, ?_⟩
    rw [hdata]
    simp [comebackPart, comebackControl]
  | some cookie =>
    have hlength : (comebackPart (some cookie) after).length =
        (if 0 ≤ after then 2 else 0) + (1 + cookie.length) := by
      rw [comebackPart, List.length_append, List.length_append]
      split
      · rfl
      · rfl
    obtain ⟨b₁, hb₁, hsize₁, hdata₁⟩ := bumpParams_eq ((if 0 ≤ after then 2 else 0) +
      (1 + cookie.length)) pasnCtrlComebackInfoPresent hdata
    have hsame : b₁.data.length = buf.data.length := by
      rw [hdata₁, hdata, length_behind_hdr, length_behind_hdr]
    rw [hlength] at hroom
    rw [← hlength] at hdata₁
    obtain ⟨b₂, hb₂, hsize₂, hdata₂⟩ : ∃ b₂, (if 0 ≤ after then b₁.put (ofLe16 after.toNat)
        else some b₁) = some b₂ ∧ b₂.size = b₁.size ∧
        b₂.data = b₁.data ++ (if 0 ≤ after then ofLe16 after.toNat else []) := by
      split
      · rename_i hafter
        rw [if_pos hafter] at hroom
        refine put_eq _ _ rfl ?_
        rw [ofLe16_length]
        omega
      · exact ⟨b₁, rfl, rfl, (List.append_nil _).symm⟩
    have hlength₂ : b₂.data.length = buf.data.length + (if 0 ≤ after then 2 else 0) := by
      rw [hdata₂, List.length_append, hsame]
      split
      · rfl
      · rfl
    obtain ⟨b₃, hb₃, hsize₃, hdata₃⟩ := put_eq b₂ [UInt8.ofNat cookie.length] rfl
      (by rw [List.length_singleton]; omega)
    obtain ⟨b₄, hb₄, hsize₄, hdata₄⟩ := put_eq b₃ cookie rfl
      (by rw [hdata₃, List.length_append, List.length_singleton]; omega)
    refine ⟨b₄, ?_, by omega, ?_⟩
    · simp only [addComeback, hb₁, hb₂, Wpabuf.putU8, hb₃, hb₄, Option.bind_some]
    · rw [hdata₄, hdata₃, hdata₂, hdata₁]
      simp only [comebackControl, Option.isSome_some, if_true, List.append_assoc]
      rfl

theorem addGroupAndKey_eq (pasnGroup : UInt16) (pubkey : Option Bytes) (compressed : Bool)
    (hdata : buf.data = before ++ (paramsHdr len control format ++ rest))
    (hroom : buf.data.length + (keyPart pasnGroup pubkey compressed).length ≤ buf.size) :
    ∃ buf', addGroupAndKey buf before.length pasnGroup pubkey compressed = some buf' ∧
      buf'.size = buf.size ∧
      buf'.data = before ++ (paramsHdr
        (len + UInt8.ofNat (keyPart pasnGroup pubkey compressed).length)
        (control ||| keyControl pubkey) format ++ (rest ++ keyPart pasnGroup pubkey compressed)) := by
  cases pubkey with
  | none =>
    refine ⟨buf, rfl, rfl, ?_⟩
    rw [hdata]
    simp [keyPart, keyControl]
  | some key =>
    have hlength : (keyPart pasnGroup (some key) compressed).length = 2 + 1 + 1 + key.length := by
      simp only [keyPart, sentKey, List.length_append, ofLe16_length, List.length_cons,
        List.length_nil]
      omega
    obtain ⟨b₁, hb₁, hsize₁, hdata₁⟩ := bumpParams_eq (2 + 1 + 1 + key.length)
      pasnCtrlGroupAndKeyPresent hdata
    have hsame : b₁.data.length = buf.data.length := by
      rw [hdata₁, hdata, length_behind_hdr, length_behind_hdr]
    rw [hlength] at hroom
    rw [← hlength] at hdata₁
    obtain ⟨b₂, hb₂, hsize₂, hdata₂⟩ := put_eq b₁ (ofLe16 pasnGroup.toNat) rfl
      (by rw [ofLe16_length]; omega)
    obtain ⟨b₃, hb₃, hsize₃, hdata₃⟩ := put_eq b₂ [UInt8.ofNat (key.length + 1)] rfl
      (by rw [hdata₂, List.length_append, ofLe16_length, List.length_singleton]; omega)
    obtain ⟨b₄, hb₄, hsize₄, hdata₄⟩ := put_eq b₃
      [if compressed then pasnPubkeyCompressed0 else pasnPubkeyUncompressed] rfl
      (by rw [hdata₃, hdata₂, List.length_append, List.length_append, ofLe16_length,
            List.length_singleton, List.length_singleton]; omega)
    obtain ⟨b₅, hb₅, hsize₅, hdata₅⟩ := put_eq b₄ key rfl
      (by rw [hdata₄, hdata₃, hdata₂, List.length_append, List.length_append, List.length_append,
            ofLe16_length, List.length_singleton, List.length_singleton]; omega)
    refine ⟨b₅, ?_, by omega, ?_⟩
    · simp only [addGroupAndKey, hb₁, hb₂, Wpabuf.putU8, hb₃, hb₄, hb₅, Option.bind_some]
    · rw [hdata₅, hdata₄, hdata₃, hdata₂, hdata₁]
      simp only [keyControl, Option.isSome_some, if_true, List.append_assoc]
      rfl

/-- With room for it, the element goes behind the data. -/
theorem wpaPasnAddParameterIe_eq (buf : Wpabuf) (pasnGroup : UInt16) (format : UInt8)
    (pubkey : Option Bytes) (compressed : Bool) (comeback : Option Bytes) (after : ℤ)
    (hroom : (paramsElement pasnGroup format pubkey compressed comeback after).length ≤
      buf.tailroom) :
    ∃ buf', wpaPasnAddParameterIe buf pasnGroup format pubkey compressed comeback after =
        some buf' ∧ buf'.size = buf.size ∧
      buf'.data = buf.data ++ paramsElement pasnGroup format pubkey compressed comeback after := by
  have hlength : (paramsElement pasnGroup format pubkey compressed comeback after).length =
      5 + ((comebackPart comeback after).length + (keyPart pasnGroup pubkey compressed).length) := by
    rw [paramsElement, List.length_append, List.length_append]
    rfl
  have hfits := buf.fits
  unfold Wpabuf.tailroom at hroom
  obtain ⟨b₁, hb₁, hsize₁, hdata₁⟩ := put_eq buf (paramsHdr 3 0 format) rfl
    (by
      have hfive : (paramsHdr 3 0 format).length = 5 := rfl
      omega)
  have hstart : b₁.data = buf.data ++ (paramsHdr 3 0 format ++ []) := by
    rw [hdata₁, List.append_nil]
  have hlen₁ : b₁.data.length = buf.data.length + 5 := by
    rw [hdata₁, List.length_append]
    rfl
  obtain ⟨b₂, hb₂, hsize₂, hdata₂⟩ := addComeback_eq comeback after hstart (by omega)
  have hlen₂ : b₂.data.length = buf.data.length + (5 + (comebackPart comeback after).length) := by
    rw [hdata₂, List.length_append, List.length_append]
    rfl
  obtain ⟨b₃, hb₃, hsize₃, hdata₃⟩ := addGroupAndKey_eq pasnGroup pubkey compressed hdata₂ (by omega)
  refine ⟨b₃, ?_, by omega, ?_⟩
  · have hput : buf.put [UInt8.ofNat eidExtension, UInt8.ofNat (pasnParameterIeLen - 2),
        UInt8.ofNat eidExtPasnParams, 0, format] = some b₁ := hb₁
    simp only [wpaPasnAddParameterIe, hput, hb₂, Option.bind_some]
    exact hb₃
  · rw [hdata₃, paramsElement, List.length_append, ofNat_add, UInt8.add_assoc, List.nil_append,
      UInt8.zero_or]

end Element

section RoundTrip
variable {before rest : Bytes} {c : PasnCursor}

theorem byteAt_behind (x : UInt8) (i : ℕ) (hi : i = before.length) :
    byteAt (before ++ (x :: rest)) i = x.toNat := by
  subst hi
  rw [byteAt_append_right _ _ le_rfl, Nat.sub_self]
  rfl

theorem le16_behind (n : ℕ) : le16 (before ++ (ofLe16 n ++ rest)) before.length = n % 65536 := by
  rw [← Nat.add_zero before.length, ← le16_drop, List.drop_left, le16_ofLe16_mod]

theorem slice_behind (part : Bytes) {off n : ℕ} (hoff : off = before.length)
    (hn : n = part.length) : slice (before ++ (part ++ rest)) off n = part := by
  subst hoff hn
  rw [slice, List.drop_left, List.take_left]

/-- What the fields of `struct wpa_pasn_params_data` say about an element. -/
structure PasnSent where
  wrappedDataFormat : ℕ
  after : ℕ
  comeback : Option Bytes
  group : ℕ
  pubkey : Option Bytes

def PasnParamsData.read (data : Bytes) (params : PasnParamsData) : PasnSent :=
  { wrappedDataFormat := params.wrappedDataFormat
    after := params.after
    comeback := params.comeback.map fun off => data.slice off params.comebackLen
    group := params.group
    pubkey := params.pubkey.map fun off => data.slice off params.pubkeyLen }

/-- The cursor is behind `before`, and knows how much follows. -/
structure PasnCursor.Behind (c : PasnCursor) (before rest : Bytes) : Prop where
  pos_eq : c.pos = before.length
  len_eq : c.len.toNat = rest.length

/-- The comeback time that is read. -/
def sentAfter (comeback : Option Bytes) (after : ℤ) : ℕ :=
  if comeback.isSome ∧ 0 ≤ after then after.toNat % 65536 else 0

theorem parseAfter_sent {after : ℤ}
    (hc : c.Behind before ((if 0 ≤ after then ofLe16 after.toNat else []) ++ rest)) :
    ∃ c', parseAfter (before ++ ((if 0 ≤ after then ofLe16 after.toNat else []) ++ rest))
        (decide (0 ≤ after)) c = .ok c' ∧
      c'.Behind (before ++ (if 0 ≤ after then ofLe16 after.toNat else [])) rest ∧
      c'.params = if 0 ≤ after then { c.params with after := after.toNat % 65536 }
        else c.params := by
  by_cases hafter : 0 ≤ after
  · rw [if_pos hafter] at hc ⊢
    have hlen : c.len.toNat = 2 + rest.length := by rw [hc.len_eq, List.length_append]; rfl
    have htwo : ¬ c.len < 2 := by
      rw [UInt8.lt_iff_toNat_lt, hlen]
      exact Nat.not_lt.mpr (Nat.le_add_right _ _)
    have hsub : (c.len - 2).toNat = c.len.toNat - 2 := toNat_sub_ofNat (n := 2) (by omega)
    have hread : c.pos + 2 ≤ (before ++ (ofLe16 after.toNat ++ rest)).length := by
      rw [hc.pos_eq, List.length_append, List.length_append, ofLe16_length]
      omega
    refine ⟨⟨c.pos + 2, c.len - 2, { c.params with after := after.toNat % 65536 }⟩, ?_, ?_, ?_⟩
    · rw [parseAfter, if_pos (decide_eq_true hafter), if_neg htwo, getLe16_eq hread, hc.pos_eq,
        le16_behind]
      rfl
    · constructor
      · rw [List.length_append, ofLe16_length, hc.pos_eq]
      · show (c.len - 2).toNat = _
        omega
    · rw [if_pos hafter]
  · rw [if_neg hafter] at hc ⊢
    refine ⟨c, ?_, ?_, ?_⟩
    · rw [parseAfter, if_neg (by simpa using hafter)]
    · rw [List.append_nil]
      exact hc
    · rw [if_neg hafter]

theorem parseCookie_sent {cookie : Bytes} (hcookie : cookie.length < 256)
    (hc : c.Behind before (UInt8.ofNat cookie.length :: (cookie ++ rest))) :
    ∃ c', parseCookie (before ++ (UInt8.ofNat cookie.length :: (cookie ++ rest))) c = .ok c' ∧
      c'.Behind (before ++ (UInt8.ofNat cookie.length :: cookie)) rest ∧
      c'.params = { c.params with
        comebackLen := cookie.length, comeback := some (before.length + 1) } := by
  have hlen : c.len.toNat = cookie.length + rest.length + 1 := by
    rw [hc.len_eq, List.length_cons, List.length_append]
  have hone : ¬ c.len < 1 := by
    rw [UInt8.lt_iff_toNat_lt, hlen]
    exact Nat.not_lt.mpr (Nat.le_add_left _ _)
  have hread : c.pos < (before ++ (UInt8.ofNat cookie.length :: (cookie ++ rest))).length := by
    rw [hc.pos_eq, List.length_append, List.length_cons]
    omega
  have hbyte : byteAt (before ++ (UInt8.ofNat cookie.length :: (cookie ++ rest))) c.pos =
      cookie.length := by
    rw [byteAt_behind _ _ hc.pos_eq, UInt8.toNat_ofNat', Nat.mod_eq_of_lt hcookie]
  refine ⟨⟨c.pos + 1 + cookie.length, c.len - 1 - UInt8.ofNat cookie.length, { c.params with
      comebackLen := cookie.length, comeback := some (c.pos + 1) }⟩, ?_, ?_, ?_⟩
  · rw [parseCookie, if_neg hone, get8_eq hread, hbyte]
    exact if_neg (by omega)
  · have hfirst : (c.len - 1).toNat = c.len.toNat - 1 := toNat_sub_ofNat (n := 1) (by omega)
    have hrest : (c.len - 1 - UInt8.ofNat cookie.length).toNat =
        (c.len - 1).toNat - cookie.length := toNat_sub_ofNat (by omega)
    constructor
    · show c.pos + 1 + cookie.length = _
      rw [hc.pos_eq, List.length_append, List.length_cons]
      omega
    · show (c.len - 1 - UInt8.ofNat cookie.length).toNat = _
      omega
  · rw [hc.pos_eq]

theorem parseGroupAndKey_sent {pasnGroup : UInt16} {key : Bytes} (hkey : key.length < 256)
    (hc : c.Behind before (ofLe16 pasnGroup.toNat ++ (UInt8.ofNat key.length :: (key ++ rest)))) :
    ∃ c', parseGroupAndKey
        (before ++ (ofLe16 pasnGroup.toNat ++ (UInt8.ofNat key.length :: (key ++ rest)))) c =
          .ok c' ∧
      c'.len.toNat = rest.length ∧
      c'.params = { c.params with
        group := pasnGroup.toNat, pubkeyLen := key.length, pubkey := some (before.length + 3) } := by
  have hsize : (before ++ (ofLe16 pasnGroup.toNat ++
      (UInt8.ofNat key.length :: (key ++ rest)))).length =
      before.length + (2 + (key.length + rest.length + 1)) := by
    rw [List.length_append, List.length_append, ofLe16_length, List.length_cons, List.length_append]
  have hlen : c.len.toNat = 2 + (key.length + rest.length + 1) := by
    rw [hc.len_eq, List.length_append, ofLe16_length, List.length_cons, List.length_append]
  have hthree : ¬ c.len < 3 := by
    rw [UInt8.lt_iff_toNat_lt, hlen]
    show ¬ 2 + (key.length + rest.length + 1) < 3
    omega
  have hbyte : byteAt (before ++ (ofLe16 pasnGroup.toNat ++
      (UInt8.ofNat key.length :: (key ++ rest)))) (c.pos + 2) = key.length := by
    rw [← List.append_assoc, byteAt_behind, UInt8.toNat_ofNat', Nat.mod_eq_of_lt hkey]
    rw [hc.pos_eq, List.length_append, ofLe16_length]
  refine ⟨⟨c.pos + 2 + 1 + key.length, c.len - 2 - 1 - UInt8.ofNat key.length, { c.params with
      group := pasnGroup.toNat, pubkeyLen := key.length, pubkey := some (c.pos + 2 + 1) }⟩,
    ?_, ?_, ?_⟩
  · rw [parseGroupAndKey, if_neg hthree, get8_eq (by rw [hsize, hc.pos_eq]; omega), hbyte,
      getLe16_eq (by rw [hsize, hc.pos_eq]; omega), hc.pos_eq, le16_behind,
      Nat.mod_eq_of_lt pasnGroup.toNat_lt]
    exact if_neg (by omega)
  · have hfirst : (c.len - 2).toNat = c.len.toNat - 2 := toNat_sub_ofNat (n := 2) (by omega)
    have hsecond : (c.len - 2 - 1).toNat = (c.len - 2).toNat - 1 :=
      toNat_sub_ofNat (n := 1) (by omega)
    have hthird : (c.len - 2 - 1 - UInt8.ofNat key.length).toNat =
        (c.len - 2 - 1).toNat - key.length := toNat_sub_ofNat (by omega)
    show (c.len - 2 - 1 - UInt8.ofNat key.length).toNat = _
    omega
  · rw [hc.pos_eq]

/-- Each bit of the control octet says whether its part is there. -/
theorem control_bits (comeback pubkey : Option Bytes) :
    ((comebackControl comeback ||| keyControl pubkey) &&& pasnCtrlComebackInfoPresent ≠ 0 ↔
      comeback.isSome) ∧
    ((comebackControl comeback ||| keyControl pubkey) &&& pasnCtrlGroupAndKeyPresent ≠ 0 ↔
      pubkey.isSome) := by
  unfold comebackControl keyControl
  cases comeback.isSome with
  | false =>
    cases pubkey.isSome with
    | false => decide
    | true => decide
  | true =>
    cases pubkey.isSome with
    | false => decide
    | true => decide

theorem parseComeback_sent {comeback : Option Bytes} {after : ℤ} {data : Bytes} (control : ℕ)
    (hdata : data = before ++ (comebackPart comeback after ++ rest))
    (hcontrol : UInt8.ofNat control &&& pasnCtrlComebackInfoPresent ≠ 0 ↔ comeback.isSome)
    (hshort : (comebackPart comeback after).length < 256)
    (hc : c.Behind before (comebackPart comeback after ++ rest)) (hnull : c.params.comeback = none)
    (hzero : c.params.after = 0) :
    ∃ c', parseComeback data control (decide (0 ≤ after)) c = .ok c' ∧
      c'.Behind (before ++ comebackPart comeback after) rest ∧
      c'.params.wrappedDataFormat = c.params.wrappedDataFormat ∧
      c'.params.after = sentAfter comeback after ∧
      (c'.params.comeback.map fun off => data.slice off c'.params.comebackLen) = comeback ∧
      c'.params.group = c.params.group ∧ c'.params.pubkey = c.params.pubkey := by
  cases comeback with
  | none =>
    refine ⟨c, if_neg fun h => Bool.noConfusion (hcontrol.mp h), ?_, rfl, ?_, ?_, rfl, rfl⟩
    · rwa [comebackPart, List.append_nil]
    · rw [hzero, sentAfter, if_neg]
      exact fun h => Bool.noConfusion h.1
    · rw [hnull]
      rfl
  | some cookie =>
    have hcookie : cookie.length < 256 := by
      rw [comebackPart, List.length_append, List.length_append] at hshort
      omega
    rw [comebackPart, List.append_assoc] at hdata hc
    obtain ⟨c₁, hc₁, hbehind₁, hparams₁⟩ := parseAfter_sent hc
    rw [← hdata] at hc₁
    obtain ⟨c₂, hc₂, hbehind₂, hparams₂⟩ := parseCookie_sent hcookie hbehind₁
    rw [← List.append_assoc] at hdata
    refine ⟨c₂, ?_, ?_, ?_, ?_, ?_, ?_, ?_⟩
    · rw [parseComeback, if_pos (hcontrol.mpr rfl), hc₁, hdata]
      exact hc₂
    · rw [comebackPart, ← List.append_assoc]
      exact hbehind₂
    · rw [hparams₂, hparams₁]
      split
      · rfl
      · rfl
    · rw [hparams₂, hparams₁, sentAfter]
      by_cases hafter : 0 ≤ after
      · have hsent : (some cookie).isSome = true ∧ 0 ≤ after := ⟨rfl, hafter⟩
        rw [if_pos hafter, if_pos hsent]
      · have hnone : ¬ ((some cookie).isSome = true ∧ 0 ≤ after) := fun h => hafter h.2
        rw [if_neg hafter, if_neg hnone]
        exact hzero
    · rw [hparams₂, hdata, Option.map_some, Option.some.injEq]
      rw [show [UInt8.ofNat cookie.length] ++ cookie ++ rest =
        [UInt8.ofNat cookie.length] ++ (cookie ++ rest) from List.append_assoc _ _ _,
        ← List.append_assoc]
      refine slice_behind cookie ?_ rfl
      exact (@List.length_append _ _ [UInt8.ofNat cookie.length]).symm
    · rw [hparams₂, hparams₁]
      split
      · rfl
      · rfl
    · rw [hparams₂, hparams₁]
      split
      · rfl
      · rfl

theorem parseKey_sent {pasnGroup : UInt16} {pubkey : Option Bytes} {compressed : Bool}
    {data : Bytes} (control : ℕ) (hdata : data = before ++ keyPart pasnGroup pubkey compressed)
    (hcontrol : UInt8.ofNat control &&& pasnCtrlGroupAndKeyPresent ≠ 0 ↔ pubkey.isSome)
    (hshort : (keyPart pasnGroup pubkey compressed).length < 256)
    (hc : c.Behind before (keyPart pasnGroup pubkey compressed)) (hnull : c.params.pubkey = none)
    (hzero : c.params.group = 0) :
    ∃ c', (if UInt8.ofNat control &&& pasnCtrlGroupAndKeyPresent ≠ 0 then parseGroupAndKey data c
        else .ok c) = .ok c' ∧ c'.len = 0 ∧
      c'.params.read data =
        { c.params.read data with
          group := if pubkey.isSome then pasnGroup.toNat else 0
          pubkey := pubkey.map (sentKey compressed) } := by
  cases pubkey with
  | none =>
    refine ⟨c, if_neg fun h => Bool.noConfusion (hcontrol.mp h), ?_, ?_⟩
    · exact UInt8.toNat_inj.mp hc.len_eq
    · rw [PasnParamsData.read, hnull, hzero]
      rfl
  | some key =>
    have hlen : (sentKey compressed key).length = key.length + 1 := rfl
    have hkey : (sentKey compressed key).length < 256 := by
      rw [keyPart, List.length_append, List.length_append] at hshort
      omega
    have hpart : keyPart pasnGroup (some key) compressed = ofLe16 pasnGroup.toNat ++
        (UInt8.ofNat (sentKey compressed key).length :: (sentKey compressed key ++ [])) := by
      rw [List.append_nil, hlen]
      rfl
    rw [hpart] at hdata hc
    obtain ⟨c₁, hc₁, hlen₁, hparams₁⟩ := parseGroupAndKey_sent hkey hc
    rw [← hdata] at hc₁
    refine ⟨c₁, (if_pos (hcontrol.mpr rfl)).trans hc₁, UInt8.toNat_inj.mp hlen₁, ?_⟩
    have hslice : data.slice (before.length + 3) (sentKey compressed key).length =
        sentKey compressed key := by
      rw [hdata, ← List.singleton_append, ← List.append_assoc, ← List.append_assoc]
      refine slice_behind _ ?_ rfl
      rw [List.length_append, List.length_append, ofLe16_length]
      rfl
    rw [hparams₁, PasnParamsData.read, Option.map_some, hslice]
    rfl

/-- The parser finds in the element what was written. -/
theorem parse_paramsElement {pasnGroup : UInt16} {format : UInt8} {pubkey : Option Bytes}
    {compressed : Bool} {comeback : Option Bytes} {after : ℤ} {data : Bytes}
    (hdata : data = paramsElement pasnGroup format pubkey compressed comeback after)
    (hformat : PasnFormat format.toNat) (hshort : data.length ≤ 255) :
    (wpaPasnParseParameterIe data (UInt8.ofNat data.length) (decide (0 ≤ after))).map
        (PasnParamsData.read data) =
      .ok { wrappedDataFormat := format.toNat
            after := sentAfter comeback after
            comeback := comeback
            group := if pubkey.isSome then pasnGroup.toNat else 0
            pubkey := pubkey.map (sentKey compressed) } := by
  have hsplit : data = paramsHdr (3 + UInt8.ofNat (comebackPart comeback after ++
      keyPart pasnGroup pubkey compressed).length) (comebackControl comeback ||| keyControl pubkey)
      format ++ (comebackPart comeback after ++ keyPart pasnGroup pubkey compressed) := hdata
  have hlength : data.length = 5 + (comebackPart comeback after ++
      keyPart pasnGroup pubkey compressed).length := by
    rw [hsplit, List.length_append]
    rfl
  have hlen : (UInt8.ofNat data.length).toNat = data.length := by
    rw [UInt8.toNat_ofNat', Nat.mod_eq_of_lt (by omega)]
  have hparamsLen : data.byteAt 1 = data.length - 2 := by
    have hbyte : data.byteAt 1 = (3 + UInt8.ofNat (comebackPart comeback after ++
        keyPart pasnGroup pubkey compressed).length).toNat := by
      rw [hsplit]
      rfl
    have hthree : (3 : UInt8).toNat = 3 := rfl
    rw [hbyte, UInt8.toNat_add, UInt8.toNat_ofNat', hthree]
    omega
  have hcontrol : UInt8.ofNat (data.byteAt 3) = comebackControl comeback ||| keyControl pubkey := by
    rw [hsplit]
    exact UInt8.ofNat_toNat
  have hbyte : data.byteAt 4 = format.toNat := by
    rw [hsplit]
    rfl
  have hstart : PasnCursor.Behind ⟨pasnParameterIeLen, UInt8.ofNat data.length -
      UInt8.ofNat pasnParameterIeLen, ⟨format.toNat, 0, 0, none, 0, 0, none⟩⟩
      (paramsHdr (3 + UInt8.ofNat (comebackPart comeback after ++
        keyPart pasnGroup pubkey compressed).length)
        (comebackControl comeback ||| keyControl pubkey) format)
      (comebackPart comeback after ++ keyPart pasnGroup pubkey compressed) := by
    have hsub : (UInt8.ofNat data.length - UInt8.ofNat pasnParameterIeLen).toNat =
        (UInt8.ofNat data.length).toNat - 5 :=
      toNat_sub_ofNat (n := 5) (by omega)
    refine ⟨rfl, ?_⟩
    show (UInt8.ofNat data.length - UInt8.ofNat pasnParameterIeLen).toNat = _
    omega
  obtain ⟨c₁, hc₁, hbehind₁, hformat₁, hafter₁, hcookie₁, hgroup₁, hkey₁⟩ :=
    parseComeback_sent (data.byteAt 3) hsplit
      (by rw [hcontrol]; exact (control_bits comeback pubkey).1)
      (by rw [List.length_append] at hlength; omega) hstart rfl rfl
  rw [← List.append_assoc] at hsplit
  obtain ⟨c₂, hc₂, hlen₂, hread₂⟩ :=
    parseKey_sent (data.byteAt 3) hsplit
      (by rw [hcontrol]; exact (control_bits comeback pubkey).2)
      (by rw [List.length_append] at hlength; omega) hbehind₁ hkey₁ hgroup₁
  have hparts : parseParts data (data.byteAt 3) (decide (0 ≤ after)) ⟨pasnParameterIeLen,
      UInt8.ofNat data.length - UInt8.ofNat pasnParameterIeLen,
      ⟨format.toNat, 0, 0, none, 0, 0, none⟩⟩ = .ok c₂ := by
    rw [parseParts, hc₁]
    exact hc₂
  have hhdr : ¬ (data.byteAt 1 + 2 < pasnParameterIeLen ∨
      (UInt8.ofNat data.length).toNat < pasnParameterIeLen ∨
      data.byteAt 1 + 2 ≠ (UInt8.ofNat data.length).toNat) := by
    unfold pasnParameterIeLen
    omega
  have hdone : wpaPasnParseParameterIe data (UInt8.ofNat data.length) (decide (0 ≤ after)) =
      .ok c₂.params := by
    rw [wpaPasnParseParameterIe, get8_eq (by omega)]
    refine (if_neg hhdr).trans ?_
    rw [get8_eq (by omega), get8_eq (by omega), hbyte]
    refine (if_neg (not_not.mpr hformat)).trans ?_
    show (parseParts _ _ _ _ >>= _) = _
    rw [hparts]
    exact if_neg (not_not.mpr hlen₂)
  rw [hdone, Except.map, hread₂, PasnParamsData.read, hcookie₁, hformat₁, hafter₁]

/-- What is written is read back, with the group if there is a public key and with the comeback time
if there is a cookie; and whatever is parsed, no octet behind it is read. -/
theorem wpaPasnParameterIe_roundTrip :
    (∀ (buf : Wpabuf) (pasnGroup : UInt16) (format : UInt8) (pubkey : Option Bytes)
      (compressed : Bool) (comeback : Option Bytes) (after : ℤ), PasnFormat format.toNat →
      (paramsElement pasnGroup format pubkey compressed comeback after).length ≤ 255 →
      (paramsElement pasnGroup format pubkey compressed comeback after).length ≤ buf.tailroom →
      ∃ buf' element,
        wpaPasnAddParameterIe buf pasnGroup format pubkey compressed comeback after = some buf' ∧
        buf'.data = buf.data ++ element ∧
        (wpaPasnParseParameterIe element (UInt8.ofNat element.length) (decide (0 ≤ after))).map
            (PasnParamsData.read element) =
          .ok { wrappedDataFormat := format.toNat
                after := sentAfter comeback after
                comeback := comeback
                group := if pubkey.isSome then pasnGroup.toNat else 0
                pubkey := pubkey.map (sentKey compressed) }) ∧
    ∀ (data : Bytes) (len : UInt8) (fromAp : Bool), data.length = len.toNat → 2 ≤ data.length →
      wpaPasnParseParameterIe data len fromAp ≠ .error .outside := by
  constructor
  · intro buf pasnGroup format pubkey compressed comeback after hformat hshort hroom
    obtain ⟨buf', hadd, _, hdata⟩ :=
      wpaPasnAddParameterIe_eq buf pasnGroup format pubkey compressed comeback after hroom
    exact ⟨buf', _, hadd, hdata, parse_paramsElement rfl hformat hshort⟩
  · intro data len fromAp hlen htwo
    exact parse_ne_outside fromAp hlen htwo

def emptyBuf : Wpabuf := ⟨64, [], Nat.zero_le 64⟩

theorem wpaPasnParameterIe_roundTrip_cookie :
    ∃ buf' element, wpaPasnAddParameterIe emptyBuf 19 1 (some [7, 8]) true (some [9]) 5 = some buf' ∧
      buf'.data = [] ++ element ∧
      (wpaPasnParseParameterIe element (UInt8.ofNat element.length) (decide ((0 : ℤ) ≤ 5))).map
        (PasnParamsData.read element) = .ok ⟨1, 5, some [9], 19, some [2, 7, 8]⟩ :=
  wpaPasnParameterIe_roundTrip.1 emptyBuf 19 1 (some [7, 8]) true (some [9]) 5 (by decide)
    (by decide) (by decide)

/-- Without a public key the group 19 is not in the element. -/
theorem group_without_key :
    (wpaPasnAddParameterIe emptyBuf 19 0 none false none (-1)).map Wpabuf.data =
      some [255, 3, 100, 0, 0] ∧
    (wpaPasnParseParameterIe [255, 3, 100, 0, 0] 5 false).map PasnParamsData.group = .ok 0 :=
  ⟨rfl, rfl⟩

end RoundTrip
end Wpa.Ie
