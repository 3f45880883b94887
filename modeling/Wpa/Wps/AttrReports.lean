import Wpa.Wps.AttrBounds

/-! What `wps_parse_msg` reports of a message that is a concatenation of whole attributes: the last
occurrence of what there is one pointer for, and all occurrences, up to the limit, of the rest. -/

namespace Wpa.Wps
open Lib Bytes Ie

/-- An attribute type, or a subelement of a WFA vendor extension. -/
inductive Key
  | attr (type : ℕ)
  | wfa (id : ℕ)
  deriving DecidableEq

abbrev Item := Key × Span

section Items
variable {items : List Item} {k k' : Key} {s : Span}

def allOf (items : List Item) (k : Key) : List Span := (items.filter (·.1 = k)).map Prod.snd

def lastOf (items : List Item) (k : Key) : Option Span := (allOf items k).getLast?

theorem allOf_append (front rest : List Item) (k : Key) :
    allOf (front ++ rest) k = allOf front k ++ allOf rest k := by
  rw [allOf, List.filter_append, List.map_append]
  rfl

theorem allOf_append_self (items : List Item) (k : Key) (s : Span) :
    allOf (items ++ [(k, s)]) k = allOf items k ++ [s] := by
  have hone : allOf [(k, s)] k = [s] := by simp [allOf]
  rw [allOf_append, hone]

theorem allOf_append_ne (h : k ≠ k') : allOf (items ++ [(k, s)]) k' = allOf items k' := by
  have hnone : allOf [(k, s)] k' = [] := by simp [allOf, h]
  rw [allOf_append, hnone, List.append_nil]

theorem lastOf_append_self (items : List Item) (k : Key) (s : Span) :
    lastOf (items ++ [(k, s)]) k = some s := by
  rw [lastOf, allOf_append_self, List.getLast?_concat]

theorem lastOf_append_ne (h : k ≠ k') : lastOf (items ++ [(k, s)]) k' = lastOf items k' := by
  rw [lastOf, allOf_append_ne h, lastOf]

end Items

section Keys

/-- What there is a pointer of a fixed length for. -/
def fixedKeys : List (Key × FixedField) :=
  fixedAttrs.map (fun e => (.attr e.1, e.2.1)) ++ wfaElems.map fun e => (.wfa e.1, e.2.1)

/-- What there is a pointer with a length for. -/
def varKeys : List (Key × VarField) :=
  cutAttrs.map (fun e => (.attr e.1, e.2.1)) ++ rangedAttrs.map (fun e => (.attr e.1, e.2.1)) ++
    plainAttrs.map (fun e => (.attr e.1, e.2)) ++
    [(.attr attrOobDevicePassword, .oobDevPassword),
      (.attr attrSecondaryDevTypeList, .secDevTypeList), (.wfa wfaElemAuthorizedMacs, .authorizedMacs)]

/-- What has a place of its own. -/
def otherKeys : List Key :=
  [.attr attrCred, .attr attrRequestedDevType, .attr attrVendorExt, .wfa wfaElemMultiAp]

def keys : List Key := fixedKeys.map Prod.fst ++ varKeys.map Prod.fst ++ otherKeys

/-- What one of the tables or cases of the parser is for. -/
def Key.known : Key → Bool
  | attr type =>
    (fixedAttrs.lookup type).isSome || (cutAttrs.lookup type).isSome ||
      (rangedAttrs.lookup type).isSome || (plainAttrs.lookup type).isSome ||
      type ∈ [attrOobDevicePassword, attrCred, attrRequestedDevType, attrSecondaryDevTypeList,
        attrVendorExt]
  | wfa id => (wfaElems.lookup id).isSome || id ∈ [wfaElemAuthorizedMacs, wfaElemMultiAp]

theorem known_of_mem_keys : ∀ k ∈ keys, k.known := by decide

theorem fixedKeys_inj : ∀ e ∈ fixedKeys, ∀ e' ∈ fixedKeys, e.1 = e'.1 ↔ e.2 = e'.2 := by decide

theorem varKeys_inj : ∀ e ∈ varKeys, ∀ e' ∈ varKeys, e.1 = e'.1 ↔ e.2 = e'.2 := by decide

theorem fixedKeys_varKeys : ∀ e ∈ fixedKeys, ∀ e' ∈ varKeys, e.1 ≠ e'.1 := by decide

theorem fixedKeys_otherKeys : ∀ e ∈ fixedKeys, ∀ k ∈ otherKeys, e.1 ≠ k := by decide

theorem varKeys_otherKeys : ∀ e ∈ varKeys, ∀ k ∈ otherKeys, e.1 ≠ k := by decide

end Keys

section Reports
variable {msg : Bytes} {items : List Item} {attr : WpsParseAttr} {k : Key} {s : Span}

/-- The last occurrence of what there is one pointer for. -/
structure ReportsLast (items : List Item) (attr : WpsParseAttr) : Prop where
  fixed : ∀ k field, (k, field) ∈ fixedKeys → attr.fixed field = (lastOf items k).map Span.off
  var : ∀ k field, (k, field) ∈ varKeys → attr.var field = lastOf items k

/-- All occurrences in order of what there is an array for, up to its length, and the octet that is
copied. -/
structure ReportsAll (msg : Bytes) (items : List Item) (attr : WpsParseAttr) : Prop where
  cred : attr.cred = (allOf items (.attr attrCred)).take maxCredCount
  reqDevType : attr.reqDevType =
    ((allOf items (.attr attrRequestedDevType)).map Span.off).take maxReqDevTypeCount
  vendorExt : attr.vendorExt = allOf items (.attr attrVendorExt)
  multiAp : attr.multiApExt = (lastOf items (.wfa wfaElemMultiAp)).elim 0 fun s => msg.byteAt s.off

structure Reports (msg : Bytes) (items : List Item) (attr : WpsParseAttr) : Prop extends
  ReportsLast items attr, ReportsAll msg items attr

theorem Reports.empty (msg : Bytes) : Reports msg [] {} where
  fixed _ _ _ := rfl
  var _ _ _ := rfl
  cred := rfl
  reqDevType := rfl
  vendorExt := rfl
  multiAp := rfl

theorem ReportsLast.other (h : ReportsLast items attr)
    (hk : k ∉ fixedKeys.map Prod.fst ++ varKeys.map Prod.fst) (s : Span) : ReportsLast (items ++ [(k, s)]) attr where
  fixed k' field hmem := by
    have hne : k ≠ k' := fun heq =>
      hk (List.mem_append_left _ (heq ▸ List.mem_map_of_mem hmem))
    rw [lastOf_append_ne hne]
    exact h.fixed k' field hmem
  var k' field hmem := by
    have hne : k ≠ k' := fun heq =>
      hk (List.mem_append_right _ (heq ▸ List.mem_map_of_mem hmem))
    rw [lastOf_append_ne hne]
    exact h.var k' field hmem

theorem ReportsAll.other (h : ReportsAll msg items attr) (hk : k ∉ otherKeys) (s : Span) :
    ReportsAll msg (items ++ [(k, s)]) attr := by
  simp only [otherKeys, List.mem_cons, List.not_mem_nil, or_false, not_or] at hk
  obtain ⟨hcred, hreq, hvendor, hap⟩ := hk
  constructor
  · rw [allOf_append_ne hcred]
    exact h.cred
  · rw [allOf_append_ne hreq]
    exact h.reqDevType
  · rw [allOf_append_ne hvendor]
    exact h.vendorExt
  · rw [lastOf_append_ne hap]
    exact h.multiAp

/-- Nothing is stored of what the parser does not know. -/
theorem Reports.skip (h : Reports msg items attr) (hk : k.known = false) (s : Span) :
    Reports msg (items ++ [(k, s)]) attr := by
  have hkeys : k ∉ keys := fun hmem => Bool.false_ne_true (hk.symm.trans (known_of_mem_keys k hmem))
  rw [keys, List.mem_append, not_or] at hkeys
  exact { h.toReportsLast.other hkeys.1 s, h.toReportsAll.other hkeys.2 s with }

theorem Reports.setFixed (h : Reports msg items attr) {field : FixedField}
    (hmem : (k, field) ∈ fixedKeys) (s : Span) :
    Reports msg (items ++ [(k, s)]) (attr.setFixed field s.off) := by
  have hrest := h.toReportsAll.other (fun hk => fixedKeys_otherKeys _ hmem _ hk rfl) s
  refine ⟨⟨fun k' field' hmem' => ?_, fun k' field' hmem' => ?_⟩, { hrest with }⟩
  · have hiff : k' = k ↔ field' = field := fixedKeys_inj _ hmem' _ hmem
    rw [WpsParseAttr.setFixed_fixed]
    by_cases heq : field' = field
    · rw [hiff.mpr heq, heq, Function.update_self, lastOf_append_self]
      rfl
    · rw [Function.update_of_ne heq, lastOf_append_ne fun hk => heq (hiff.mp hk.symm)]
      exact h.fixed k' field' hmem'
  · rw [lastOf_append_ne (fixedKeys_varKeys _ hmem _ hmem')]
    exact h.var k' field' hmem'

theorem Reports.setVar (h : Reports msg items attr) {field : VarField}
    (hmem : (k, field) ∈ varKeys) (s : Span) :
    Reports msg (items ++ [(k, s)]) (attr.setVar field s) := by
  have hrest := h.toReportsAll.other (fun hk => varKeys_otherKeys _ hmem _ hk rfl) s
  refine ⟨⟨fun k' field' hmem' => ?_, fun k' field' hmem' => ?_⟩, { hrest with }⟩
  · rw [lastOf_append_ne (fixedKeys_varKeys _ hmem' _ hmem).symm]
    exact h.fixed k' field' hmem'
  · have hiff : k' = k ↔ field' = field := varKeys_inj _ hmem' _ hmem
    rw [WpsParseAttr.setVar_var]
    by_cases heq : field' = field
    · rw [hiff.mpr heq, heq, Function.update_self, lastOf_append_self]
    · rw [Function.update_of_ne heq, lastOf_append_ne fun hk => heq (hiff.mp hk.symm)]
      exact h.var k' field' hmem'

/-- An array that is not full takes one more entry. -/
theorem take_concat_of_lt {α : Type} {l : List α} {n : ℕ} (h : (l.take n).length < n) (x : α) :
    (l ++ [x]).take n = l.take n ++ [x] := by
  rw [List.length_take] at h
  have hall : l.take n = l := List.take_of_length_le (by omega)
  have hmore : (l ++ [x]).length ≤ n := by
    rw [List.length_append, List.length_singleton]
    omega
  rw [hall, List.take_of_length_le hmore]

/-- A full one takes none. -/
theorem take_concat_of_ge {α : Type} {l : List α} {n : ℕ} (h : n ≤ (l.take n).length) (x : α) :
    (l ++ [x]).take n = l.take n := by
  rw [List.length_take] at h
  exact List.take_append_of_le_length (by omega)

theorem Reports.addCred (h : Reports msg items attr) (s : Span) :
    Reports msg (items ++ [(.attr attrCred, s)])
      (if attr.cred.length ≥ maxCredCount then attr
       else { attr with cred := attr.cred ++ [s] }) := by
  have hlast := h.toReportsLast.other (k := .attr attrCred) (by decide) s
  obtain ⟨hcred, hreq, hvendor, hap⟩ := h.toReportsAll
  rw [← allOf_append_ne (k := .attr attrCred) (s := s) (by decide)] at hreq hvendor
  rw [← lastOf_append_ne (k := .attr attrCred) (s := s) (by decide)] at hap
  split_ifs with hfull
  · refine { hlast with cred := ?_, reqDevType := hreq, vendorExt := hvendor, multiAp := hap }
    rw [hcred] at hfull ⊢
    rw [allOf_append_self, take_concat_of_ge hfull]
  · refine { hlast with cred := ?_, reqDevType := hreq, vendorExt := hvendor, multiAp := hap }
    show attr.cred ++ [s] = _
    rw [hcred] at hfull ⊢
    rw [allOf_append_self, take_concat_of_lt (not_le.mp hfull)]

theorem Reports.addReqDevType (h : Reports msg items attr) (s : Span) :
    Reports msg (items ++ [(.attr attrRequestedDevType, s)])
      (if attr.reqDevType.length ≥ maxReqDevTypeCount then attr
       else { attr with reqDevType := attr.reqDevType ++ [s.off] }) := by
  have hlast := h.toReportsLast.other (k := .attr attrRequestedDevType) (by decide) s
  obtain ⟨hcred, hreq, hvendor, hap⟩ := h.toReportsAll
  rw [← allOf_append_ne (k := .attr attrRequestedDevType) (s := s) (by decide)] at hcred hvendor
  rw [← lastOf_append_ne (k := .attr attrRequestedDevType) (s := s) (by decide)] at hap
  split_ifs with hfull
  · refine { hlast with cred := hcred, reqDevType := ?_, vendorExt := hvendor, multiAp := hap }
    rw [hreq] at hfull ⊢
    rw [allOf_append_self, List.map_append, List.map_singleton, take_concat_of_ge hfull]
  · refine { hlast with cred := hcred, reqDevType := ?_, vendorExt := hvendor, multiAp := hap }
    show attr.reqDevType ++ [s.off] = _
    rw [hreq] at hfull ⊢
    rw [allOf_append_self, List.map_append, List.map_singleton,
      take_concat_of_lt (not_le.mp hfull)]

theorem Reports.addVendorExt (h : Reports msg items attr) (s : Span) :
    Reports msg (items ++ [(.attr attrVendorExt, s)])
      { attr with vendorExt := attr.vendorExt ++ [s] } := by
  have hlast := h.toReportsLast.other (k := .attr attrVendorExt) (by decide) s
  obtain ⟨hcred, hreq, hvendor, hap⟩ := h.toReportsAll
  rw [← allOf_append_ne (k := .attr attrVendorExt) (s := s) (by decide)] at hcred hreq
  rw [← lastOf_append_ne (k := .attr attrVendorExt) (s := s) (by decide)] at hap
  refine { hlast with cred := hcred, reqDevType := hreq, vendorExt := ?_, multiAp := hap }
  show attr.vendorExt ++ [s] = _
  rw [hvendor, allOf_append_self]

theorem Reports.setMultiAp (h : Reports msg items attr) (s : Span) :
    Reports msg (items ++ [(.wfa wfaElemMultiAp, s)])
      { attr with multiApExt := msg.byteAt s.off } := by
  have hlast := h.toReportsLast.other (k := .wfa wfaElemMultiAp) (by decide) s
  obtain ⟨hcred, hreq, hvendor, -⟩ := h.toReportsAll
  rw [← allOf_append_ne (k := .wfa wfaElemMultiAp) (s := s) (by decide)] at hcred hreq hvendor
  refine { hlast with cred := hcred, reqDevType := hreq, vendorExt := hvendor, multiAp := ?_ }
  rw [lastOf_append_self]
  rfl

end Reports

section Message

structure Attribute where
  type : ℕ
  value : Bytes

def Attribute.encode (a : Attribute) : Bytes :=
  ofBeNat a.type 2 ++ (ofBeNat a.value.length 2 ++ a.value)

def encode (attrs : List Attribute) : Bytes := (attrs.map Attribute.encode).flatten

/-- The attributes of a message, from `off` on, with the places of their values. -/
def place : ℕ → List Attribute → List Element
  | _, [] => []
  | off, a :: attrs =>
    ⟨a.type, ⟨off + 4, a.value.length⟩⟩ :: place (off + 4 + a.value.length) attrs

def wfaItem (sub : Element) : Item := (.wfa sub.id, sub.data)

variable (msg : Bytes) (e : Element)

/-- The subelements of a vendor extension of the Wi-Fi Alliance. -/
def subelements : List Element := elementsBetween msg (e.data.off + 3) (e.data.off + e.data.len)

/-- What an attribute holds: itself, or the subelements of a WFA vendor extension. A vendor extension
that is too short for its identifier holds nothing. -/
def itemsOf : List Item :=
  if e.id = attrVendorExt then
    if e.data.len < 3 then []
    else if msg.be24 e.data.off = wpsVendorIdWfa then
      (subelements msg e).map wfaItem
    else [(.attr attrVendorExt, e.data)]
  else [(.attr e.id, e.data)]

def itemsOfAll (es : List Element) : List Item := es.flatMap (itemsOf msg)

/-- The limits of a subelement. -/
structure SubLimits (sub : Element) : Prop where
  fixed : ∀ field len, (sub.id, field, len) ∈ wfaElems → sub.data.len = len
  multiAp : sub.id = wfaElemMultiAp → sub.data.len = 1

/-- The limits of an attribute. -/
structure Limits : Prop where
  fixed : ∀ field len, (e.id, field, len) ∈ fixedAttrs → e.data.len = len
  cut : ∀ field max, (e.id, field, max) ∈ cutAttrs → e.data.len ≤ max
  ranged : ∀ field min max, (e.id, field, min, max) ∈ rangedAttrs →
    min ≤ e.data.len ∧ e.data.len ≤ max
  oobDevPassword : e.id = attrOobDevicePassword →
    wpsOobPubkeyHashLen + 2 ≤ e.data.len ∧
      e.data.len ≤ wpsOobPubkeyHashLen + 2 + wpsOobDevicePasswordLen ∧
      (wpsOobPubkeyHashLen + 2 + wpsOobDevicePasswordMinLen ≤ e.data.len ∨
        msg.be16 (e.data.off + wpsOobPubkeyHashLen) = devPwNfcConnectionHandover)
  reqDevType : e.id = attrRequestedDevType → e.data.len = wpsDevTypeLen
  secDevTypeList : e.id = attrSecondaryDevTypeList →
    e.data.len ≤ wpsSecDevTypeMaxLen ∧ wpsDevTypeLen ∣ e.data.len
  wfa : e.id = attrVendorExt → 3 ≤ e.data.len → msg.be24 e.data.off = wpsVendorIdWfa →
    ∀ sub ∈ subelements msg e, SubLimits sub
  vendorExt : e.id = attrVendorExt → msg.be24 e.data.off ≠ wpsVendorIdWfa →
    e.data.len ≤ wpsMaxVendorExtLen

end Message

section Step
variable {msg : Bytes} {items : List Item} {attr : WpsParseAttr} {e : Element}

theorem setVendorExtWfaSubelem_reports {sub : Element} (hlimits : SubLimits sub)
    (hpos : sub.data.off + sub.data.len ≤ msg.length) (h : Reports msg items attr) :
    Meets (setVendorExtWfaSubelem msg attr sub.id sub.data.len sub.data.off) (fun _ => False)
      (Reports msg (items ++ [wfaItem sub])) := by
  unfold setVendorExtWfaSubelem wfaItem
  split
  · rename_i field n hfield
    have hmem := mem_of_lookup hfield
    rw [if_neg (not_not.mpr (hlimits.fixed field n hmem))]
    refine .ret (h.setFixed ?_ sub.data)
    exact List.mem_append_right _ (List.mem_map.mpr ⟨_, hmem, rfl⟩)
  · rename_i hnone
    split_ifs with hmacs hap hone
    · rw [hmacs]
      exact .ret (h.setVar (by decide) sub.data)
    · exact absurd (hlimits.multiAp hap) hone
    · have hone := hlimits.multiAp hap
      rw [hap]
      exact .bind_read (read8_eq (by omega)) (.ret (h.setMultiAp sub.data))
    · refine .ret (h.skip ?_ sub.data)
      simp [Key.known, hnone, hmacs, hap]

theorem parseVendorExt_reports (hvendor : e.id = attrVendorExt) (hlimits : Limits msg e)
    (hpos : e.data.off + e.data.len ≤ msg.length)
    (hroom : (allOf (items ++ itemsOf msg e) (.attr attrVendorExt)).length ≤ maxWpsParseVendorExt)
    (h : Reports msg items attr) :
    Meets (parseVendorExt msg attr e.data.off e.data.len) (fun _ => False)
      (Reports msg (items ++ itemsOf msg e)) := by
  unfold parseVendorExt
  by_cases hshort : e.data.len < 3
  · have hnil : itemsOf msg e = [] := by rw [itemsOf, if_pos hvendor, if_pos hshort]
    rw [if_pos hshort, hnil, List.append_nil]
    exact .ret h
  · rw [if_neg hshort]
    refine .bind_read (readBe24_eq (by omega)) ?_
    by_cases hwfa : msg.be24 e.data.off = wpsVendorIdWfa
    · have hsubs : itemsOf msg e =
          (subelements msg e).map wfaItem := by
        rw [itemsOf, if_pos hvendor, if_neg hshort, if_pos hwfa]
      rw [if_pos hwfa, hsubs]
      have hstart : Reports msg (items ++ ([] : List Element).map wfaItem) attr := by
        rw [List.map_nil, List.append_nil]
        exact h
      refine parseVendorExtWfa_meets (V := SubLimits)
        (I := fun past => Reports msg (items ++ past.map wfaItem)) [] ?_ hpos (by omega)
        (hlimits.wfa hvendor (by omega) hwfa) hstart
      intro past sub attr' hsub hvalid hattr'
      rw [List.map_append, ← List.append_assoc]
      exact setVendorExtWfaSubelem_reports hvalid hsub hattr'
    · have hitem : itemsOf msg e = [(.attr attrVendorExt, e.data)] := by
        rw [itemsOf, if_pos hvendor, if_neg hshort, if_neg hwfa]
      rw [hitem, allOf_append_self, ← h.vendorExt, List.length_append, List.length_singleton] at hroom
      rw [if_neg hwfa, if_neg (not_lt.mpr (hlimits.vendorExt hvendor hwfa)), if_neg (by omega), hitem]
      exact .ret (h.addVendorExt e.data)

theorem setOther_reports (hlimits : Limits msg e) (hpos : e.data.off + e.data.len ≤ msg.length)
    (hfixed : fixedAttrs.lookup e.id = none) (hcut : cutAttrs.lookup e.id = none)
    (hranged : rangedAttrs.lookup e.id = none) (hplain : plainAttrs.lookup e.id = none)
    (hroom : (allOf (items ++ itemsOf msg e) (.attr attrVendorExt)).length ≤ maxWpsParseVendorExt)
    (h : Reports msg items attr) :
    Meets (setOther msg attr e.id e.data.off e.data.len) (fun _ => False)
      (Reports msg (items ++ itemsOf msg e)) := by
  by_cases hvendor : e.id = attrVendorExt
  · rw [setOther, hvendor, if_neg (by decide), if_neg (by decide), if_neg (by decide),
      if_neg (by decide), if_pos rfl]
    exact parseVendorExt_reports hvendor hlimits hpos hroom h
  · have hitem : itemsOf msg e = [(.attr e.id, e.data)] := if_neg hvendor
    rw [hitem, setOther]
    by_cases hoob : e.id = attrOobDevicePassword
    · have hvalid : ¬ OobInvalid msg e.data.off e.data.len := by
        obtain ⟨hmin, hmax, hid⟩ := hlimits.oobDevPassword hoob
        rintro (hlow | hhigh | ⟨hshort, hne⟩)
        · omega
        · omega
        · exact hid.elim (fun hlong => by omega) hne
      rw [if_pos hoob]
      refine .bind_read (oobInvalid_eq hpos) ?_
      rw [decide_eq_false hvalid, if_neg Bool.false_ne_true, hoob]
      exact .ret (h.setVar (by decide) e.data)
    · rw [if_neg hoob]
      by_cases hcred : e.id = attrCred
      · rw [if_pos hcred, hcred]
        have hadd := h.addCred e.data
        split_ifs at hadd ⊢ with hfull
        · exact .ret hadd
        · exact .ret hadd
      · rw [if_neg hcred]
        by_cases hreq : e.id = attrRequestedDevType
        · rw [if_pos hreq, if_neg (not_not.mpr (hlimits.reqDevType hreq)), hreq]
          have hadd := h.addReqDevType e.data
          split_ifs at hadd ⊢ with hfull
          · exact .ret hadd
          · exact .ret hadd
        · rw [if_neg hreq]
          by_cases hsec : e.id = attrSecondaryDevTypeList
          · obtain ⟨hmax, hdvd⟩ := hlimits.secDevTypeList hsec
            have hvalid : ¬ (e.data.len > wpsSecDevTypeMaxLen ∨ e.data.len % wpsDevTypeLen > 0) := by
              rw [Nat.mod_eq_zero_of_dvd hdvd]
              omega
            rw [if_pos hsec, if_neg hvalid, hsec]
            exact .ret (h.setVar (by decide) e.data)
          · rw [if_neg hsec, if_neg hvendor]
            refine .ret (h.skip ?_ e.data)
            simp [Key.known, hfixed, hcut, hranged, hplain, hoob, hcred, hreq, hsec, hvendor]

/-- An attribute within its limits is stored. -/
theorem setAttr_reports (hlimits : Limits msg e) (hpos : e.data.off + e.data.len ≤ msg.length)
    (hroom : (allOf (items ++ itemsOf msg e) (.attr attrVendorExt)).length ≤ maxWpsParseVendorExt)
    (h : Reports msg items attr) :
    Meets (setAttr msg attr e.id e.data.off e.data.len) (fun _ => False)
      (Reports msg (items ++ itemsOf msg e)) := by
  have hitem (hne : e.id ≠ attrVendorExt) : itemsOf msg e = [(.attr e.id, e.data)] := if_neg hne
  unfold setAttr
  split
  · rename_i field n hfield
    have hmem := mem_of_lookup hfield
    have hkey : (.attr e.id, field) ∈ fixedKeys :=
      List.mem_append_left _ (List.mem_map.mpr ⟨_, hmem, rfl⟩)
    have hne : Key.attr e.id ≠ .attr attrVendorExt := fixedKeys_otherKeys _ hkey _ (by decide)
    rw [if_neg (not_not.mpr (hlimits.fixed field n hmem)), hitem fun heq => hne (congrArg _ heq)]
    exact .ret (h.setFixed hkey e.data)
  · have hset {field : VarField} (hkey : (.attr e.id, field) ∈ varKeys) :
        Reports msg (items ++ itemsOf msg e) (attr.setVar field e.data) := by
      have hne : Key.attr e.id ≠ .attr attrVendorExt := varKeys_otherKeys _ hkey _ (by decide)
      rw [hitem fun heq => hne (congrArg _ heq)]
      exact h.setVar hkey e.data
    split
    · rename_i field max hfield
      have hmem := mem_of_lookup hfield
      rw [if_neg (not_lt.mpr (hlimits.cut field max hmem))]
      refine .ret (hset ?_)
      simp only [varKeys, List.mem_append, List.mem_map]
      exact .inl (.inl (.inl ⟨_, hmem, rfl⟩))
    · split
      · rename_i field min max hfield
        have hmem := mem_of_lookup hfield
        obtain ⟨hmin, hmax⟩ := hlimits.ranged field min max hmem
        rw [if_neg (by omega)]
        refine .ret (hset ?_)
        simp only [varKeys, List.mem_append, List.mem_map]
        exact .inl (.inl (.inr ⟨_, hmem, rfl⟩))
      · split
        · rename_i field hfield
          refine .ret (hset ?_)
          simp only [varKeys, List.mem_append, List.mem_map]
          exact .inl (.inr ⟨_, mem_of_lookup hfield, rfl⟩)
        · rename_i hfixed _ hcut _ hranged _ hplain
          exact setOther_reports hlimits hpos hfixed hcut hranged hplain hroom h

end Step

section Run
variable {msg front rest : Bytes} {items : List Item} {attr : WpsParseAttr} {a : Attribute}
  {prevType fuel : ℕ}

/-- An attribute whose type and length have two octets each. -/
structure Attribute.Whole (a : Attribute) : Prop where
  type : a.type < 65536
  len : a.value.length < 65536

theorem Attribute.length_encode (a : Attribute) : a.encode.length = 4 + a.value.length := by
  rw [encode, List.length_append, List.length_append, ofBeNat_length, ofBeNat_length]
  omega

theorem header_eq (hwhole : a.Whole) (front rest : Bytes) :
    be16 (front ++ (a.encode ++ rest)) front.length = a.type ∧
      be16 (front ++ (a.encode ++ rest)) (front.length + 2) = a.value.length := by
  have htype := be16_append_right front (a.encode ++ rest) (Nat.le_refl _)
  have hlen := be16_append_right front (a.encode ++ rest) (Nat.le_add_right front.length 2)
  have hvalue := @be16_append_right (ofBeNat a.type 2)
    (ofBeNat a.value.length 2 ++ (a.value ++ rest)) 2 (Nat.le_of_eq (ofBeNat_length _ _))
  rw [Nat.sub_self] at htype
  rw [Nat.add_sub_cancel_left] at hlen
  rw [ofBeNat_length, Nat.sub_self] at hvalue
  rw [htype, hlen]
  simp only [Attribute.encode, List.append_assoc]
  exact ⟨be16_ofBeNat hwhole.type _, hvalue.trans (be16_ofBeNat hwhole.len _)⟩

/-- A turn for a whole attribute moves on behind it. -/
theorem wpsTurn_reports {e : Element} (hmsg : msg = front ++ (a.encode ++ rest)) (hwhole : a.Whole)
    (hne : a.type ≠ 0) (he : e = ⟨a.type, ⟨front.length + 4, a.value.length⟩⟩)
    (hlimits : Limits msg e)
    (hroom : (allOf (items ++ itemsOf msg e) (.attr attrVendorExt)).length ≤ maxWpsParseVendorExt)
    (h : Reports msg items attr) :
    Meets (wpsTurn msg ⟨front.length, prevType, attr⟩) (fun _ => False) fun turn =>
      ∃ attr', turn = .next ⟨front.length + 4 + a.value.length, a.type, attr'⟩ ∧
        Reports msg (items ++ itemsOf msg e) attr' := by
  obtain ⟨htype, hlen⟩ := header_eq hwhole front rest
  rw [← hmsg] at htype hlen
  have hinside : front.length + 4 + a.value.length ≤ msg.length := by
    rw [hmsg, List.length_append, List.length_append, a.length_encode]
    omega
  have hread : readBe16 msg front.length = some a.type := htype ▸ readBe16_eq (by omega)
  have hread' : readBe16 msg (front.length + 2) = some a.value.length :=
    hlen ▸ readBe16_eq (by omega)
  unfold wpsTurn
  rw [if_pos (by show front.length < _; omega), if_neg (by show ¬ msg.length - front.length < 4; omega)]
  refine .bind_read hread (.bind_read hread' ?_)
  have hpadding : paddingAt msg a.type a.value.length (front.length + 4) = some false :=
    if_neg fun hzero => hne hzero.1
  simp only [if_neg (show ¬ a.value.length > msg.length - (front.length + 4) by omega)]
  refine .bind_read hpadding ?_
  rw [if_neg Bool.false_ne_true]
  have hset := setAttr_reports hlimits (by rw [he]; exact hinside) hroom h
  rw [he] at hset ⊢
  exact .bind hset fun attr' hattr' => .ret ⟨attr', rfl, hattr'⟩

/-- The loop over whole attributes. -/
theorem parseFrom_reports {attrs : List Attribute} (hmsg : msg = front ++ encode attrs)
    (hwhole : ∀ a ∈ attrs, a.Whole) (hne : ∀ a ∈ attrs, a.type ≠ 0)
    (hlimits : ∀ e ∈ place front.length attrs, Limits msg e)
    (hroom : (allOf (items ++ itemsOfAll msg (place front.length attrs))
      (.attr attrVendorExt)).length ≤ maxWpsParseVendorExt)
    (hfuel : (encode attrs).length < fuel) (h : Reports msg items attr) :
    Meets (parseFrom msg fuel ⟨front.length, prevType, attr⟩) (fun _ => False)
      (Reports msg (items ++ itemsOfAll msg (place front.length attrs))) := by
  induction attrs generalizing front fuel items prevType attr with
  | nil =>
    obtain _ | fuel := fuel
    · exact absurd hfuel (Nat.not_lt_zero _)
    · have hend : wpsTurn msg ⟨front.length, prevType, attr⟩ = pure (.done attr) := by
        rw [hmsg, encode, List.map_nil, List.flatten_nil, List.append_nil]
        exact if_neg (Nat.lt_irrefl _)
      rw [parseFrom, hend, pure_bind]
      rw [place, itemsOfAll, List.flatMap_nil, List.append_nil]
      exact .ret h
  | cons a attrs ih =>
    obtain _ | fuel := fuel
    · exact absurd hfuel (Nat.not_lt_zero _)
    · have hsplit : encode (a :: attrs) = a.encode ++ encode attrs := rfl
      obtain ⟨e, he⟩ : ∃ e : Element, e = ⟨a.type, ⟨front.length + 4, a.value.length⟩⟩ := ⟨_, rfl⟩
      have hplace : place front.length (a :: attrs) =
          e :: place (front.length + 4 + a.value.length) attrs := by rw [he, place]
      have hitems : items ++ itemsOfAll msg (e :: place (front.length + 4 + a.value.length) attrs) =
          items ++ itemsOf msg e ++
            itemsOfAll msg (place (front.length + 4 + a.value.length) attrs) := by
        rw [itemsOfAll, List.flatMap_cons, List.append_assoc]
        rfl
      have hfront : (front ++ a.encode).length = front.length + 4 + a.value.length := by
        rw [List.length_append, a.length_encode, Nat.add_assoc]
      rw [hplace] at hlimits hroom ⊢
      rw [hitems] at hroom ⊢
      rw [hsplit] at hmsg hfuel
      have hnow : (allOf (items ++ itemsOf msg e) (.attr attrVendorExt)).length ≤
          maxWpsParseVendorExt := by
        rw [allOf_append, List.length_append] at hroom
        omega
      rw [parseFrom]
      refine .bind (wpsTurn_reports hmsg (hwhole a List.mem_cons_self) (hne a List.mem_cons_self) he
        (hlimits e List.mem_cons_self) hnow h) ?_
      rintro _ ⟨attr', rfl, hattr'⟩
      rw [← hfront] at hlimits hroom ⊢
      rw [List.length_append, a.length_encode] at hfuel
      exact ih (hmsg.trans (List.append_assoc _ _ _).symm)
        (fun b hb => hwhole b (List.mem_cons_of_mem _ hb))
        (fun b hb => hne b (List.mem_cons_of_mem _ hb))
        (fun b hb => hlimits b (List.mem_cons_of_mem _ hb)) hroom (by omega) hattr'

/-- A list of whole attributes with lengths within their limits, none of type 0, and no more vendor
extensions than there is room for. -/
structure Admissible (attrs : List Attribute) : Prop where
  whole : ∀ a ∈ attrs, a.Whole
  nonzero : ∀ a ∈ attrs, a.type ≠ 0
  limits : ∀ e ∈ place 0 attrs, Limits (encode attrs) e
  vendorExts : (allOf (itemsOfAll (encode attrs) (place 0 attrs)) (.attr attrVendorExt)).length ≤
    maxWpsParseVendorExt

/-- A message made of such attributes is reported. -/
theorem wpsParseMsg_reports {attrs : List Attribute} (h : Admissible attrs) :
    ∃ attr, (wpsParseMsg (encode attrs)).run = some (.ok attr) ∧
      Reports (encode attrs) (itemsOfAll (encode attrs) (place 0 attrs)) attr := by
  have hrun := @parseFrom_reports (encode attrs) [] [] {} 0 ((encode attrs).length + 1) attrs rfl
    h.whole h.nonzero h.limits h.vendorExts (Nat.lt_succ_self _) (Reports.empty _)
  exact hrun.ok

/-- Behind a network key the octet that is too many is skipped. -/
example : (wpsParseMsg [0x10, 0x27, 0, 0, 0, 0x10, 0x4a, 0, 1, 0x20]).run.map
    (fun r => r.toOption.bind fun attr => attr.fixed .version) = some (some 9) := by decide

/-- The parser ends, reads inside the message and stores what is inside, and what it stores of whole
attributes is their last occurrences, or all of them. -/
def Correct (msg : Bytes) : Prop :=
  Sound msg ∧ ∀ attrs, Admissible attrs → msg = encode attrs →
    ∃ attr, (wpsParseMsg msg).run = some (.ok attr) ∧
      Reports msg (itemsOfAll msg (place 0 attrs)) attr

theorem wpsParseMsg_correct_iff (msg : Bytes) : Correct msg ↔ ¬ Overruns msg := by
  constructor
  · rintro ⟨hsound, -⟩
    exact (sound_iff msg).mp hsound
  · refine fun hno => ⟨(sound_iff msg).mpr hno, ?_⟩
    rintro attrs hattrs rfl
    exact wpsParseMsg_reports hattrs

theorem overruns_zeros {n : ℕ} (hn : 2 ^ 31 ≤ n) : Overruns (zeros (4 + n)) := by
  have hget {i : ℕ} (hi : i < 4 + n) : (zeros (4 + n))[i]? = some 0 := by
    rw [zeros, List.getElem?_replicate, if_pos hi]
  have hbyte {i : ℕ} (hi : i < 4 + n) : byteAt (zeros (4 + n)) i = 0 := by
    rw [byteAt, List.getD_eq_getElem?_getD, hget hi]
    rfl
  refine ⟨{}, .start, ?_, ?_, ?_, fun i hi => hget ?_⟩
  · rw [zeros_length]
    exact Nat.le_add_right 4 n
  · show be16 _ 0 = 0
    rw [be16, hbyte (by omega), hbyte (by omega)]
  · show be16 _ 2 = 0
    rw [be16, hbyte (by omega), hbyte (by omega)]
  · show 0 + 4 + i < 4 + n
    omega

/-- Four zero octets, which read as an attribute of type 0 and length 0, and 2^31 more of them. -/
theorem wpsParseMsg_zeros : ¬ Correct (zeros (4 + 2 ^ 31)) := by
  rintro ⟨hsound, -⟩
  exact (sound_iff _).mp hsound (overruns_zeros le_rfl)

end Run
end Wpa.Wps
