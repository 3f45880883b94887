import Wpa.Radius.Message

/-! What a message holds: a header and a sequence of attributes, with the index array pointing at
each of them. Building keeps it, and parsing finds it. -/

namespace Wpa.RadiusMsg
open Lib Bytes

structure Attr where
  type : UInt8
  value : Bytes
  fits : value.length ≤ maxAttrLen

namespace Attr

def encode (a : Attr) : Bytes := [a.type, UInt8.ofNat (attrHdrLen + a.value.length)] ++ a.value

def pair (a : Attr) : UInt8 × Bytes := (a.type, a.value)

@[simp] theorem encode_length (a : Attr) : a.encode.length = attrHdrLen + a.value.length := by
  rw [encode, List.length_append]
  rfl

theorem length_octet (a : Attr) :
    (UInt8.ofNat (attrHdrLen + a.value.length)).toNat = attrHdrLen + a.value.length := by
  have hfits := a.fits
  rw [UInt8.toNat_ofNat']
  apply Nat.mod_eq_of_lt
  simp only [maxAttrLen, attrHdrLen] at *
  omega

end Attr

def encode (attrs : List Attr) : Bytes := attrs.flatMap Attr.encode

@[simp] theorem encode_nil : encode [] = [] := rfl

theorem encode_cons (a : Attr) (attrs : List Attr) : encode (a :: attrs) = a.encode ++ encode attrs :=
  rfl

theorem encode_append (attrs attrs' : List Attr) :
    encode (attrs ++ attrs') = encode attrs ++ encode attrs' :=
  List.flatMap_append

/-- The offsets of attributes that start at `pos`. -/
def positions : ℕ → List Attr → List ℕ
  | _, [] => []
  | pos, a :: attrs => pos :: positions (pos + a.encode.length) attrs

@[simp] theorem positions_length (pos : ℕ) (attrs : List Attr) :
    (positions pos attrs).length = attrs.length := by
  induction attrs generalizing pos with
  | nil => rfl
  | cons a attrs ih => simp [positions, ih]

theorem positions_append (pos : ℕ) (attrs attrs' : List Attr) :
    positions pos (attrs ++ attrs') =
      positions pos attrs ++ positions (pos + (encode attrs).length) attrs' := by
  induction attrs generalizing pos with
  | nil => rfl
  | cons a attrs ih =>
    rw [List.cons_append, positions, ih, positions, encode_cons, List.length_append,
      List.cons_append, Nat.add_assoc]

/-- The attribute stands at the offset. -/
def At (data : Bytes) (pos : ℕ) (a : Attr) : Prop := a.encode <+: data.drop pos

/-- A message is this header and these attributes. -/
structure Holds (msg : Msg) (hdr : Bytes) (attrs : List Attr) : Prop where
  hdr_length : hdr.length = hdrLen
  data_eq : msg.data = hdr ++ encode attrs
  pos_eq : msg.attrs.pos = positions hdrLen attrs
  size_pos : 0 < msg.attrs.size

section Read
variable {data : Bytes} {pos : ℕ} {a : Attr}

theorem At.le_length (h : At data pos a) : pos + attrHdrLen + a.value.length ≤ data.length := by
  have hle := h.length_le
  rw [Attr.encode_length, List.length_drop] at hle
  have hpos : 0 < attrHdrLen := by decide
  omega

theorem At.getElem? (h : At data pos a) {i : ℕ} (hi : i < a.encode.length) :
    data[pos + i]? = a.encode[i]? := by
  obtain ⟨rest, hrest⟩ := h
  rw [← List.getElem?_drop, ← hrest, List.getElem?_append_left hi]

theorem At.type (h : At data pos a) : data[pos]? = some a.type :=
  h.getElem? (i := 0) (by simp [attrHdrLen])

theorem At.length (h : At data pos a) : data.read8 (pos + 1) = some (attrHdrLen + a.value.length) := by
  have hlen : data[pos + 1]? = some (UInt8.ofNat (attrHdrLen + a.value.length)) := by
    have hlt : 1 < a.encode.length := by
      rw [a.encode_length, attrHdrLen]
      omega
    rw [h.getElem? hlt]
    rfl
  rw [read8, hlen, Option.map_some, a.length_octet]

theorem At.value (h : At data pos a) :
    data.readSlice (pos + attrHdrLen) a.value.length = some a.value := by
  have hle := h.le_length
  obtain ⟨rest, hrest⟩ := h
  rw [readSlice_eq hle, slice, ← List.drop_drop, ← hrest]
  simp [Attr.encode, attrHdrLen]

theorem At.readAttr (h : At data pos a) : readAttr data pos = some a.pair := by
  simp only [RadiusMsg.readAttr, h.type, h.length, Option.bind_eq_bind, Option.bind_some,
    Nat.add_sub_cancel_left, h.value]
  rfl

/-- Attributes that stand one behind the other stand at their offsets. -/
theorem forall₂_at {attrs : List Attr} (h : encode attrs <+: data.drop pos) :
    List.Forall₂ (At data) (positions pos attrs) attrs := by
  induction attrs generalizing pos with
  | nil => exact .nil
  | cons a attrs ih =>
    rw [encode_cons] at h
    refine .cons ((List.prefix_append _ _).trans h) (ih ?_)
    obtain ⟨rest, hrest⟩ := h
    refine ⟨rest, ?_⟩
    rw [← List.drop_drop, ← hrest, List.append_assoc, List.drop_left]

theorem mapM_readAttr {ps : List ℕ} {attrs : List Attr} (h : List.Forall₂ (At data) ps attrs) :
    ps.mapM (RadiusMsg.readAttr data) = some (attrs.map Attr.pair) := by
  induction h with
  | nil => rfl
  | cons hat _ ih =>
    rw [List.mapM_cons, hat.readAttr, ih]
    rfl

end Read

/-- The EAP packet that a sequence of attributes carries. -/
def eapOf (attrs : List (UInt8 × Bytes)) : Bytes :=
  (attrs.filter fun a => a.1 = attrEapMessage).flatMap Prod.snd

theorem eapOf_append (attrs attrs' : List (UInt8 × Bytes)) :
    eapOf (attrs ++ attrs') = eapOf attrs ++ eapOf attrs' := by
  simp [eapOf]

theorem eapOf_cons (a : UInt8 × Bytes) (attrs : List (UInt8 × Bytes)) :
    eapOf (a :: attrs) = (if a.1 = attrEapMessage then a.2 else []) ++ eapOf attrs := by
  by_cases h : a.1 = attrEapMessage <;> simp [eapOf, h]

/-- The octets of a sequence of attributes tell them. -/
theorem encode_injective {attrs attrs' : List Attr} (h : encode attrs = encode attrs') :
    attrs = attrs' := by
  induction attrs generalizing attrs' with
  | nil =>
    cases attrs' with
    | nil => rfl
    | cons b bs => simp [encode_cons, Attr.encode] at h
  | cons a as ih =>
    cases attrs' with
    | nil => simp [encode_cons, Attr.encode] at h
    | cons b bs =>
      have ha := a.length_octet
      have hb := b.length_octet
      simp only [encode_cons, Attr.encode, List.cons_append, List.nil_append, List.cons.injEq] at h
      obtain ⟨htype, hlen, hrest⟩ := h
      rw [hlen, hb] at ha
      obtain ⟨hvalue, htail⟩ := List.append_inj hrest (by omega)
      have hab : a = b := by
        cases a
        cases b
        cases htype
        cases hvalue
        rfl
      rw [hab, ih htail]

section Eap
variable {data : Bytes} {ps : List ℕ} {attrs : List Attr}

theorem eapLen_eq (h : List.Forall₂ (At data) ps attrs) (len : ℕ) :
    eapLen data ps len = some (len + (eapOf (attrs.map Attr.pair)).length) := by
  induction h generalizing len with
  | nil => rfl
  | @cons p a ps attrs hat _ ih =>
    simp only [eapLen, hat.type, hat.length, Option.bind_eq_bind, Option.bind_some, ih,
      List.map_cons, eapOf_cons, Attr.pair, List.length_append]
    by_cases htype : a.type = attrEapMessage
    · rw [if_pos htype]
      split
      · congr 1
        omega
      · rename_i hno
        have hempty : a.value.length = 0 := by
          by_contra hpos
          exact hno ⟨htype, by omega⟩
        rw [hempty, Nat.zero_add]
    · rw [if_neg htype, if_neg (fun h => htype h.1)]
      simp

theorem eapPut_eq (h : List.Forall₂ (At data) ps attrs) (eap : Wpabuf)
    (hroom : (eapOf (attrs.map Attr.pair)).length ≤ eap.tailroom) :
    ∃ eap', eapPut data ps eap = some eap' ∧
      eap'.data = eap.data ++ eapOf (attrs.map Attr.pair) := by
  induction h generalizing eap with
  | nil => exact ⟨eap, rfl, by simp [eapOf]⟩
  | @cons p a ps attrs hat _ ih =>
    rw [List.map_cons, eapOf_cons] at hroom ⊢
    simp only [eapPut, hat.type, hat.length, Option.bind_eq_bind, Option.bind_some]
    by_cases htype : a.type = attrEapMessage
    · have htype' : a.pair.1 = attrEapMessage := htype
      rw [if_pos htype', List.length_append] at hroom
      rw [if_pos htype']
      by_cases hvalue : a.value = []
      · rw [if_neg (by simp [hvalue])]
        obtain ⟨eap', hput, hdata⟩ := ih eap (by omega)
        exact ⟨eap', hput, by simp [hdata, Attr.pair, hvalue]⟩
      · have hpos := List.length_pos_iff.mpr hvalue
        obtain ⟨eap₁, hput₁, hext⟩ := eap.put_extends a.value (by
          have hsnd : a.pair.2 = a.value := rfl
          rw [hsnd] at hroom
          omega)
        have hroom₁ : (eapOf (attrs.map Attr.pair)).length ≤ eap₁.tailroom := by
          have htail := hext.tailroom_eq
          have hsnd : a.pair.2 = a.value := rfl
          rw [hsnd] at hroom
          omega
        obtain ⟨eap', hput, hdata⟩ := ih eap₁ hroom₁
        refine ⟨eap', ?_, ?_⟩
        · rw [if_pos ⟨htype, by omega⟩, Nat.add_sub_cancel_left, hat.value]
          simp only [Option.bind_some, hput₁, hput]
        · rw [hdata, hext.data_eq, List.append_assoc]
          rfl
    · have htype' : ¬a.pair.1 = attrEapMessage := htype
      rw [if_neg htype', List.nil_append] at hroom ⊢
      rw [if_neg (fun h => htype h.1)]
      exact ih eap hroom

end Eap

namespace Holds
variable {msg : Msg} {hdr : Bytes} {attrs : List Attr}

theorem forall₂ (h : Holds msg hdr attrs) :
    List.Forall₂ (At msg.data) msg.attrs.pos attrs := by
  rw [h.pos_eq]
  apply forall₂_at
  rw [h.data_eq, ← h.hdr_length, List.drop_left]

theorem length_eq (h : Holds msg hdr attrs) : msg.data.length = hdrLen + (encode attrs).length := by
  rw [h.data_eq, List.length_append, h.hdr_length]

/-- The attributes of a message are read as they are. -/
theorem attributes (h : Holds msg hdr attrs) : msg.attributes = some (attrs.map Attr.pair) :=
  mapM_readAttr h.forall₂

theorem getEap (h : Holds msg hdr attrs) :
    radiusMsgGetEap msg =
      some (if eapOf (attrs.map Attr.pair) = [] then none else some (eapOf (attrs.map Attr.pair))) := by
  have hlen := eapLen_eq h.forall₂ 0
  rw [Nat.zero_add] at hlen
  simp only [radiusMsgGetEap, hlen, Option.bind_eq_bind, Option.bind_some]
  by_cases hempty : eapOf (attrs.map Attr.pair) = []
  · rw [if_pos hempty, if_pos (by rw [hempty]; rfl)]
    rfl
  · rw [if_neg hempty, if_neg (by rwa [List.length_eq_zero_iff])]
    obtain ⟨eap, hput, hdata⟩ := eapPut_eq h.forall₂
      ⟨(eapOf (attrs.map Attr.pair)).length, [], Nat.zero_le _⟩ le_rfl
    rw [hput, Option.bind_some, hdata]
    rfl

end Holds

/-- The array takes one more offset, whatever its size. -/
theorem AttrArray.add_eq (attrs : AttrArray) (hsize : 0 < attrs.size) (attr : ℕ) :
    ∃ attrs', attrs.add attr = some attrs' ∧ attrs'.pos = attrs.pos ++ [attr] ∧ 0 < attrs'.size := by
  have hfits := attrs.fits
  unfold AttrArray.add
  dsimp only
  split_ifs with hfull hroom hroom
  · exact ⟨_, rfl, rfl, by dsimp only; omega⟩
  · omega
  · exact ⟨_, rfl, rfl, hsize⟩
  · omega

section Build
variable {msg : Msg} {hdr : Bytes} {attrs : List Attr}

theorem addAttr_holds (h : Holds msg hdr attrs) (a : Attr) :
    ∃ msg', radiusMsgAddAttr msg a.type a.value = some (msg', some msg.data.length) ∧
      Holds msg' hdr (attrs ++ [a]) := by
  have hfits : ¬a.value.length > maxAttrLen := not_lt.mpr a.fits
  obtain ⟨buf, hbuf, hdata, hroom⟩ : ∃ buf, buf =
      (if msg.buf.tailroom < attrHdrLen + a.value.length then
        msg.buf.resize (attrHdrLen + a.value.length) else msg.buf) ∧
      buf.data = msg.buf.data ∧ attrHdrLen + a.value.length ≤ buf.tailroom := by
    refine ⟨_, rfl, ?_, ?_⟩
    · split
      · exact Wpabuf.resize_data ..
      · rfl
    · split
      · exact Wpabuf.le_tailroom_resize ..
      · omega
  obtain ⟨buf₁, hput₁, hext₁⟩ := buf.put_extends
    [a.type, UInt8.ofNat (attrHdrLen + a.value.length)] (by simp [attrHdrLen] at hroom ⊢; omega)
  have htail : a.value.length ≤ buf₁.tailroom := by
    have htail₁ := hext₁.tailroom_eq
    simp only [List.length_cons, List.length_nil, attrHdrLen] at htail₁ hroom
    omega
  obtain ⟨buf₂, hput₂, hext₂⟩ := buf₁.put_extends a.value htail
  obtain ⟨arr, hadd, hpos, hsize⟩ := msg.attrs.add_eq h.size_pos msg.data.length
  refine ⟨⟨buf₂, arr⟩, ?_, ?_⟩
  · have hattr : buf.data.length = msg.data.length := by rw [hdata]; rfl
    simp only [radiusMsgAddAttr, if_neg hfits, ← hbuf, hput₁, hput₂, hattr, hadd,
      Option.bind_eq_bind, Option.bind_some]
    rfl
  · refine ⟨h.hdr_length, ?_, ?_, hsize⟩
    · have hmsg : msg.buf.data = hdr ++ encode attrs := h.data_eq
      show buf₂.data = _
      rw [hext₂.data_eq, hext₁.data_eq, hdata, hmsg, encode_append, encode_cons, encode_nil,
        List.append_nil, Attr.encode, List.append_assoc, List.append_assoc]
    · show arr.pos = _
      rw [hpos, h.pos_eq, positions_append, h.length_eq]
      rfl

theorem addAttr_too_long {type : UInt8} {data : Bytes} (h : maxAttrLen < data.length) :
    radiusMsgAddAttr msg type data = some (msg, none) :=
  if_pos h

theorem radiusMsgNew_holds (code identifier : UInt8) :
    ∃ msg, radiusMsgNew code identifier = some msg ∧
      Holds msg ([code, identifier] ++ zeros 18) [] := by
  have hsize : 0 < defaultAttrCount := by decide
  exact ⟨_, rfl, rfl, rfl, rfl, hsize⟩

/-- Overwriting octets of the header leaves the attributes alone. -/
theorem write_hdr (h : Holds msg hdr attrs) {off : ℕ} {src : Bytes}
    (hsrc : off + src.length ≤ hdrLen) :
    ∃ msg', msg.write off src = some msg' ∧ Holds msg' (hdr.writeAt off src) attrs := by
  have hlen : off + src.length ≤ hdr.length := by rwa [h.hdr_length]
  have hdata : msg.buf.data = hdr ++ encode attrs := h.data_eq
  have hall : off + src.length ≤ msg.buf.data.length := by
    rw [hdata, List.length_append]
    omega
  obtain ⟨buf, hover, -, hbuf⟩ := msg.buf.overwrite_eq hall
  refine ⟨{ msg with buf := buf }, ?_, ?_, ?_, h.pos_eq, h.size_pos⟩
  · rw [Msg.write, hover]
    rfl
  · rw [writeAt_length, h.hdr_length]
  · show buf.data = _
    rw [hbuf, hdata, writeAt_append_left _ hlen]

/-- Overwriting the value of the last attribute. -/
theorem write_last {type : UInt8} {value value' : Bytes} {hfits : value.length ≤ maxAttrLen}
    {hfits' : value'.length ≤ maxAttrLen} (h : Holds msg hdr (attrs ++ [⟨type, value, hfits⟩]))
    (hlen : value'.length = value.length) :
    ∃ msg', msg.write (hdrLen + (encode attrs).length + attrHdrLen) value' = some msg' ∧
      Holds msg' hdr (attrs ++ [⟨type, value', hfits'⟩]) := by
  have hdata : msg.buf.data =
      (hdr ++ encode attrs ++ [type, UInt8.ofNat (attrHdrLen + value.length)]) ++ value := by
    have hall : msg.buf.data = _ := h.data_eq
    rw [hall, encode_append, encode_cons, encode_nil, List.append_nil, Attr.encode]
    simp only [List.append_assoc]
  have hoff : (hdr ++ encode attrs ++ [type, UInt8.ofNat (attrHdrLen + value.length)]).length =
      hdrLen + (encode attrs).length + attrHdrLen := by
    simp [h.hdr_length, attrHdrLen, Nat.add_assoc]
  have hall : hdrLen + (encode attrs).length + attrHdrLen + value'.length ≤
      msg.buf.data.length := by
    rw [hdata, List.length_append, hoff, hlen]
  obtain ⟨buf, hover, -, hbuf⟩ := msg.buf.overwrite_eq hall
  refine ⟨{ msg with buf := buf }, ?_, h.hdr_length, ?_, ?_, h.size_pos⟩
  · rw [Msg.write, hover]
    rfl
  · show buf.data = _
    have hwrite := writeAt_append_right
      (hdr ++ encode attrs ++ [type, UInt8.ofNat (attrHdrLen + value.length)]) (b := value)
      0 value' (by omega)
    rw [Nat.add_zero, hoff] at hwrite
    rw [hbuf, hdata, hwrite, writeAt_eq (by omega), encode_append, encode_cons, encode_nil, Attr.encode]
    simp [hlen]
  · show msg.attrs.pos = _
    rw [h.pos_eq, positions_append, positions_append]
    rfl

end Build

section Parse
variable {data : Bytes}

/-- Where the parser stands at an attribute that fits, the rest starts with it. -/
theorem drop_eq_encode {pos : ℕ} (hpos : pos + 1 < data.length)
    (hmin : attrHdrLen ≤ data.byteAt (pos + 1)) (hmax : data.byteAt (pos + 1) ≤ data.length - pos) :
    ∃ a : Attr, a.encode.length = data.byteAt (pos + 1) ∧
      data.drop pos = a.encode ++ data.drop (pos + data.byteAt (pos + 1)) := by
  have hoctet := data.byteAt_lt (pos + 1)
  have hvalue : (data.slice (pos + 2) (data.byteAt (pos + 1) - 2)).length =
      data.byteAt (pos + 1) - 2 := by
    rw [slice_length]
    omega
  simp only [attrHdrLen] at hmin
  have hfits : (data.slice (pos + 2) (data.byteAt (pos + 1) - 2)).length ≤ maxAttrLen := by
    rw [hvalue, maxAttrLen, attrHdrLen]
    omega
  refine ⟨⟨data[pos], data.slice (pos + 2) (data.byteAt (pos + 1) - 2), hfits⟩, ?_, ?_⟩
  · rw [Attr.encode_length, hvalue, attrHdrLen]
    omega
  · have hlen : UInt8.ofNat (attrHdrLen + (data.byteAt (pos + 1) - 2)) = data[pos + 1] := by
      apply UInt8.toNat_inj.mp
      rw [UInt8.toNat_ofNat', attrHdrLen]
      have hbyte : data.byteAt (pos + 1) = data[pos + 1].toNat := by
        simp [byteAt, List.getElem?_eq_getElem hpos]
      omega
    have hsplit : pos + data.byteAt (pos + 1) = pos + 2 + (data.byteAt (pos + 1) - 2) := by omega
    have hvalue' : data.drop (pos + 2) = data.slice (pos + 2) (data.byteAt (pos + 1) - 2) ++
        data.drop (pos + 2 + (data.byteAt (pos + 1) - 2)) := by
      have hparts := List.take_append_drop (data.byteAt (pos + 1) - 2) (data.drop (pos + 2))
      rw [List.drop_drop] at hparts
      exact hparts.symm
    have hpos₀ : pos < data.length := by omega
    simp only [Attr.encode, hvalue, hlen]
    rw [List.drop_eq_getElem_cons hpos₀, List.drop_eq_getElem_cons hpos, hsplit, List.append_assoc,
      ← hvalue']
    rfl

/-- No attributes are there if what should be the first one does not fit. -/
theorem drop_ne_encode {pos : ℕ} (hpos : pos < data.length)
    (h : ¬(pos + 1 < data.length ∧ attrHdrLen ≤ data.byteAt (pos + 1) ∧
      data.byteAt (pos + 1) ≤ data.length - pos)) (attrs : List Attr) :
    data.drop pos ≠ encode attrs := by
  intro heq
  cases attrs with
  | nil =>
    have hlen := congrArg List.length heq
    rw [List.length_drop, encode_nil, List.length_nil] at hlen
    omega
  | cons a attrs =>
    have hat : At data pos a := by
      rw [At, heq, encode_cons]
      exact List.prefix_append _ _
    have hle := hat.le_length
    have hread := hat.length
    have hlt : pos + 1 < data.length := by
      rw [attrHdrLen] at hle
      omega
    rw [read8_eq hlt, Option.some_inj] at hread
    exact h ⟨hlt, by omega, by omega⟩

/-- The octet behind the type leads from the first attribute to the others. -/
theorem drop_of_eq_cons {pos : ℕ} {a : Attr} {attrs : List Attr}
    (h : data.drop pos = encode (a :: attrs)) :
    data.drop (pos + data.byteAt (pos + 1)) = encode attrs := by
  have hat : At data pos a := by
    rw [At, h, encode_cons]
    exact List.prefix_append _ _
  have hle := hat.le_length
  have hlt : pos + 1 < data.length := by
    rw [attrHdrLen] at hle
    omega
  have hread := hat.length
  rw [read8_eq hlt, Option.some_inj] at hread
  rw [hread, ← a.encode_length, ← List.drop_drop, h, encode_cons, List.drop_left]

/-- The parser stops either way: behind a sequence of attributes, or where there is none. -/
theorem parseAttrs_cases (arr : AttrArray) (hsize : 0 < arr.size) (pos : ℕ) :
    (∃ attrs arr', data.drop pos = encode attrs ∧ parseAttrs data arr pos = some (some arr') ∧
        arr'.pos = arr.pos ++ positions pos attrs ∧ 0 < arr'.size) ∨
      (parseAttrs data arr pos = some none ∧ ∀ attrs, data.drop pos ≠ encode attrs) := by
  rw [parseAttrs]
  by_cases hend : pos < data.length
  · rw [if_pos hend]
    by_cases hshort : data.length - pos < attrHdrLen
    · rw [if_pos hshort]
      rw [attrHdrLen] at hshort
      exact .inr ⟨rfl, drop_ne_encode hend (by omega)⟩
    · have hpos : pos + 1 < data.length := by
        rw [attrHdrLen] at hshort
        omega
      rw [if_neg hshort, read8_eq hpos, Option.bind_eq_bind, Option.bind_some]
      by_cases hbad : data.byteAt (pos + 1) > data.length - pos ∨
          data.byteAt (pos + 1) < attrHdrLen
      · rw [dif_pos hbad]
        exact .inr ⟨rfl, drop_ne_encode hend (by omega)⟩
      · rw [dif_neg hbad]
        obtain ⟨a, hlen, hdrop⟩ := drop_eq_encode hpos (by omega) (by omega)
        obtain ⟨arr₁, hadd, hpos₁, hsize₁⟩ := arr.add_eq hsize pos
        rw [hadd, Option.bind_eq_bind, Option.bind_some]
        have hnext := parseAttrs_cases arr₁ hsize₁ (pos + data.byteAt (pos + 1))
        rcases hnext with ⟨attrs, arr', hrest, hparse, harr, hsize'⟩ | ⟨hparse, hno⟩
        · refine .inl ⟨a :: attrs, arr', ?_, hparse, ?_, hsize'⟩
          · rw [hdrop, hrest, encode_cons]
          · rw [harr, hpos₁, positions, hlen, List.append_assoc]
            rfl
        · refine .inr ⟨hparse, ?_⟩
          intro attrs heq
          cases attrs with
          | nil =>
            rw [hdrop] at heq
            simp [Attr.encode] at heq
          | cons b attrs => exact hno attrs (drop_of_eq_cons heq)
  · rw [if_neg hend]
    refine .inl ⟨[], arr, ?_, rfl, ?_, hsize⟩
    · exact List.drop_of_length_le (by omega)
    · rw [positions, List.append_nil]
termination_by data.length - pos
decreasing_by
  simp only [attrHdrLen] at *
  omega

theorem parse_eq (hdata : hdrLen ≤ data.length) :
    radiusMsgParse data =
      if data.be16 2 < hdrLen ∨ data.be16 2 > data.length then some none
      else (parseAttrs (data.take (data.be16 2)) {} hdrLen).map fun attrs =>
        attrs.map fun attrs =>
          ⟨⟨(data.take (data.be16 2)).length, data.take (data.be16 2), le_rfl⟩, attrs⟩ := by
  have hlen : 20 ≤ data.length := hdata
  have hhi : 2 < data.length := by omega
  have hlo : 3 < data.length := by omega
  rw [radiusMsgParse, if_neg (not_lt.mpr hdata), read8_eq hhi, read8_eq hlo]
  simp only [Option.bind_eq_bind, Option.bind_some]
  show (if data.be16 2 < hdrLen ∨ data.be16 2 > data.length then _ else _) = _
  split
  · rfl
  · rename_i hbad
    have hslice : data.readSlice 0 (data.be16 2) = some (data.take (data.be16 2)) := by
      rw [readSlice_eq (by omega), slice, List.drop_zero]
    have hmsgLen : data.byteAt 2 * 256 + data.byteAt 3 = data.be16 2 := rfl
    rw [hmsgLen, hslice, Option.bind_some]
    cases parseAttrs (data.take (data.be16 2)) {} hdrLen <;> rfl

/-- A message that is accepted is a header and attributes. -/
theorem parse_holds {msg : Msg} (h : radiusMsgParse data = some (some msg)) :
    ∃ hdr attrs, Holds msg hdr attrs := by
  by_cases hdata : hdrLen ≤ data.length
  · rw [parse_eq hdata] at h
    split at h
    · cases h
    · rename_i hbad
      have hlen : hdrLen ≤ (data.take (data.be16 2)).length := by
        rw [List.length_take]
        omega
      have hcases := @parseAttrs_cases (data.take (data.be16 2)) {} (by decide) hdrLen
      rcases hcases with ⟨attrs, arr', hdrop, hparse, harr, hsize⟩ | ⟨hparse, -⟩
      · rw [hparse] at h
        cases h
        refine ⟨(data.take (data.be16 2)).take hdrLen, attrs, ?_, ?_, harr, hsize⟩
        · rw [List.length_take, Nat.min_eq_left hlen]
        · rw [← hdrop]
          exact (List.take_append_drop ..).symm
      · rw [hparse] at h
        cases h
  · rw [radiusMsgParse, if_pos (not_le.mp hdata)] at h
    cases h

/-- A header that tells the length and attributes are accepted, and found again. -/
theorem parse_encode {hdr : Bytes} (hhdr : hdr.length = hdrLen) (attrs : List Attr)
    (hlen : hdr.be16 2 = (hdr ++ encode attrs).length) :
    ∃ msg, radiusMsgParse (hdr ++ encode attrs) = some (some msg) ∧ Holds msg hdr attrs := by
  have hdata : hdrLen ≤ (hdr ++ encode attrs).length := by
    rw [List.length_append]
    omega
  have hlen' : be16 (hdr ++ encode attrs) 2 = (hdr ++ encode attrs).length := by
    rw [be16_append_left _ _ (by rw [hhdr]; decide), hlen]
  rw [parse_eq hdata, hlen', List.take_length, if_neg (by omega)]
  have hdrop : (hdr ++ encode attrs).drop hdrLen = encode attrs := List.drop_left' hhdr
  have hcases := @parseAttrs_cases (hdr ++ encode attrs) {} (by decide) hdrLen
  rcases hcases with ⟨attrs', arr', hdrop', hparse, harr, hsize⟩ | ⟨-, hno⟩
  · rw [hdrop] at hdrop'
    obtain rfl := encode_injective hdrop'
    rw [hparse]
    exact ⟨_, rfl, hhdr, rfl, harr, hsize⟩
  · exact absurd hdrop (hno attrs)

end Parse

end Wpa.RadiusMsg
