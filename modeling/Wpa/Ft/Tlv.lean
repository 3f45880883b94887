import Mathlib.Data.List.Sort
import Wpa.Lib.Reads

/-! The TLVs that the FT RRB messages of `ap/wpa_auth_ft.c` are made of: the lists given by the
callers and the VLAN description in the order in which they are written, and the two functions that
look for them again. A `tlv_list` is the list of its entries before the terminator. -/

namespace Wpa.Ft
open Lib Bytes

def ftRrbLastEmpty : ℕ := 0
def ftRrbVlanUntagged : ℕ := 13
def ftRrbVlanTagged : ℕ := 14
def maxVlanId : ℕ := 4094
def maxNumTaggedVlan : ℕ := 32

/-- The size of `struct ft_rrb_tlv`. -/
def tlvHdrLen : ℕ := 4

structure Tlv where
  type : ℕ
  data : Bytes
  type_ne : type ≠ ftRrbLastEmpty
  type_lt : type < 65536
  len_lt : data.length < 65536

/-- `struct vlan_description`; `tagged` is the part of the array before its first zero. -/
structure VlanDescription where
  notempty : Bool := false
  untagged : ℕ := 0
  tagged : List ℕ := []
  deriving DecidableEq

def tlvHdr (type len : ℕ) : Bytes := ofLe16 type ++ ofLe16 len

def tlvLen (tlvs : List Tlv) : ℕ := (tlvs.map fun t => tlvHdrLen + t.data.length).sum

/-- The loop of `wpa_ft_tlv_lin`; `n` is `tlv_len`. -/
def tlvLinFrom (start endpos : ℕ) : List Tlv → ℕ → Bytes → Bytes × ℕ
  | [], n, buf => (buf, n)
  | t :: tlvs, n, buf =>
    if n + tlvHdrLen > endpos - start then (buf, n)
    else
      let buf := buf.writeAt (start + n) (tlvHdr t.type t.data.length)
      let n := n + tlvHdrLen
      if n + t.data.length > endpos - start then (buf, n)
      else if t.data.length = 0 then tlvLinFrom start endpos tlvs n buf
      else tlvLinFrom start endpos tlvs (n + t.data.length) (buf.writeAt (start + n) t.data)

def tlvLin (tlvs : List Tlv) (buf : Bytes) (start endpos : ℕ) : Bytes × ℕ :=
  tlvLinFrom start endpos tlvs 0 buf

def vlanLen : Option VlanDescription → ℕ
  | none => 0
  | some vlan =>
    if vlan.notempty = false then 0
    else
      (if vlan.untagged ≠ 0 then tlvHdrLen + 2 else 0) +
        (if vlan.tagged ≠ [] then tlvHdrLen else 0) + 2 * (vlan.tagged.take maxNumTaggedVlan).length

/-- The loop of `wpa_ft_vlan_lin`, with `tlv_len` and the length of the tagged identifiers. -/
def taggedFrom (start endpos : ℕ) : List ℕ → ℕ → ℕ → Bytes → Bytes × ℕ × ℕ
  | [], n, len, buf => (buf, n, len)
  | id :: ids, n, len, buf =>
    if start + (n + 2) > endpos then (buf, n + 2, len)
    else taggedFrom start endpos ids (n + 2) (len + 2) (buf.writeAt (start + n) (ofLe16 id))

/-- The second half of `wpa_ft_vlan_lin`, after `n` octets. -/
def taggedLin (tagged : List ℕ) (buf : Bytes) (start endpos n : ℕ) : Bytes × ℕ :=
  if tagged = [] then (buf, n)
  else if start + (n + tlvHdrLen) > endpos then (buf, n + tlvHdrLen)
  else
    let buf := buf.writeAt (start + n) (ofLe16 ftRrbVlanTagged)
    let r := taggedFrom start endpos (tagged.take maxNumTaggedVlan) (n + tlvHdrLen) 0 buf
    (r.1.writeAt (start + n + 2) (ofLe16 r.2.2), r.2.1)

def vlanLin (vlan : Option VlanDescription) (buf : Bytes) (start endpos : ℕ) : Bytes × ℕ :=
  match vlan with
  | none => (buf, 0)
  | some vlan =>
    if vlan.notempty = false then (buf, 0)
    else if vlan.untagged ≠ 0 then
      if start + tlvHdrLen > endpos then (buf, tlvHdrLen)
      else
        let buf := buf.writeAt start (tlvHdr ftRrbVlanUntagged 2)
        if start + (tlvHdrLen + 2) > endpos then (buf, tlvHdrLen + 2)
        else
          let buf := buf.writeAt (start + tlvHdrLen) (ofLe16 vlan.untagged)
          taggedLin vlan.tagged buf start endpos (tlvHdrLen + 2)
    else taggedLin vlan.tagged buf start endpos 0

/-- `wpa_ft_rrb_lin`. -/
def rrbLin (tlvs1 tlvs2 : List Tlv) (vlan : Option VlanDescription) : Option Bytes :=
  let len := tlvLen tlvs1 + tlvLen tlvs2 + vlanLen vlan
  let r1 := tlvLin tlvs1 (zeros len) 0 len
  let r2 := tlvLin tlvs2 r1.1 r1.2 len
  let r3 := vlanLin vlan r2.1 (r1.2 + r2.2) len
  if r1.2 + r2.2 + r3.2 ≠ len then none else some r3.1

/-- `wpa_ft_rrb_get_tlv`. -/
def getTlv (type : ℕ) (plain : Bytes) : Option Bytes :=
  if plain.length < tlvHdrLen then none
  else
    let rest := plain.drop tlvHdrLen
    let len := plain.le16 2
    if rest.length < len then none
    else if plain.le16 0 = type then some (rest.take len)
    else getTlv type (rest.drop len)
termination_by plain.length
decreasing_by
  simp only [tlvHdrLen, List.length_drop] at *
  omega

/-- The inner loop of `wpa_ft_rrb_get_tlv_vlan` over the data of one TLV. -/
def vlanIds (type : ℕ) : Bytes → VlanDescription → VlanDescription
  | a :: b :: rest, vlan =>
    let vlanId := le16 [a, b] 0
    if vlanId = 0 ∨ vlanId > maxVlanId then vlanIds type rest vlan
    else if type = ftRrbVlanUntagged then vlanIds type rest { vlan with untagged := vlanId }
    else if vlan.tagged.length < maxNumTaggedVlan then
      vlanIds type rest { vlan with tagged := vlan.tagged ++ [vlanId] }
    else vlanIds type rest vlan
  | _, vlan => vlan

/-- The loop of `wpa_ft_rrb_get_tlv_vlan`. -/
def vlanFrom (plain : Bytes) (vlan : VlanDescription) : Option VlanDescription :=
  if plain.length < tlvHdrLen then some vlan
  else
    let rest := plain.drop tlvHdrLen
    let len := plain.le16 2
    let type := plain.le16 0
    if rest.length < len then none
    else if type ≠ ftRrbVlanUntagged ∧ type ≠ ftRrbVlanTagged then vlanFrom (rest.drop len) vlan
    else if type = ftRrbVlanUntagged ∧ len ≠ 2 then none
    else if type = ftRrbVlanTagged ∧ len % 2 ≠ 0 then none
    else vlanFrom (rest.drop len) (vlanIds type (rest.take len) vlan)
termination_by plain.length
decreasing_by
  all_goals
    simp only [tlvHdrLen, List.length_drop] at *
    omega

/-- `wpa_ft_rrb_get_tlv_vlan`, where `none` is an error. -/
def getTlvVlan (plain : Bytes) : Option VlanDescription := do
  let vlan ← vlanFrom plain {}
  let tagged := vlan.tagged.mergeSort (· ≤ ·)
  return { notempty := vlan.untagged ≠ 0 ∨ tagged ≠ [], untagged := vlan.untagged, tagged := tagged }

/-! What is written, and that it is found again. -/

def Tlv.encode (t : Tlv) : Bytes := tlvHdr t.type t.data.length ++ t.data

def encodeTlvs (tlvs : List Tlv) : Bytes := tlvs.flatMap Tlv.encode

@[simp] theorem tlvHdr_length (type len : ℕ) : (tlvHdr type len).length = tlvHdrLen := rfl

@[simp] theorem Tlv.encode_length (t : Tlv) : t.encode.length = tlvHdrLen + t.data.length := by
  rw [Tlv.encode, List.length_append, tlvHdr_length]

theorem encodeTlvs_cons (t : Tlv) (tlvs : List Tlv) :
    encodeTlvs (t :: tlvs) = tlvHdr t.type t.data.length ++ (t.data ++ encodeTlvs tlvs) := by
  rw [encodeTlvs, List.flatMap_cons, Tlv.encode, List.append_assoc]
  rfl

theorem encodeTlvs_append (tlvs tlvs' : List Tlv) :
    encodeTlvs (tlvs ++ tlvs') = encodeTlvs tlvs ++ encodeTlvs tlvs' :=
  List.flatMap_append

@[simp] theorem tlvLen_nil : tlvLen [] = 0 := rfl

@[simp] theorem tlvLen_cons (t : Tlv) (tlvs : List Tlv) :
    tlvLen (t :: tlvs) = tlvHdrLen + t.data.length + tlvLen tlvs := by
  rw [tlvLen, List.map_cons, List.sum_cons]
  rfl

theorem tlvLen_append (tlvs tlvs' : List Tlv) : tlvLen (tlvs ++ tlvs') = tlvLen tlvs + tlvLen tlvs' := by
  rw [tlvLen, List.map_append, List.sum_append]
  rfl

@[simp] theorem encodeTlvs_length (tlvs : List Tlv) : (encodeTlvs tlvs).length = tlvLen tlvs := by
  induction tlvs with
  | nil => rfl
  | cons t tlvs ih =>
    rw [encodeTlvs_cons, List.length_append, List.length_append, ih, tlvHdr_length, tlvLen_cons,
      Nat.add_assoc]

section Lin
variable {a z : Bytes} {start : ℕ} (endpos : ℕ)

/-- The loop fills the octets behind what it has written so far. -/
theorem tlvLinFrom_eq (tlvs : List Tlv) {n : ℕ} (ha : a.length = start + n)
    (hroom : tlvLen tlvs ≤ z.length) (hend : start + n + z.length ≤ endpos) :
    tlvLinFrom start endpos tlvs n (a ++ z) =
      (a ++ encodeTlvs tlvs ++ z.drop (tlvLen tlvs), n + tlvLen tlvs) := by
  induction tlvs generalizing a z n with
  | nil =>
    rw [tlvLinFrom, encodeTlvs, List.flatMap_nil, List.append_nil]
    rfl
  | cons t tlvs ih =>
    rw [tlvLen_cons] at hroom ⊢
    have hhdr : (tlvHdr t.type t.data.length).length = tlvHdrLen := rfl
    have hw₁ := writeAt_fill a (z := z) (tlvHdr t.type t.data.length) (by omega)
    have hl₁ : (a ++ tlvHdr t.type t.data.length).length = start + (n + tlvHdrLen) := by
      rw [List.length_append, hhdr, ha]
      omega
    have hz₁ : (z.drop tlvHdrLen).length = z.length - tlvHdrLen := List.length_drop
    rw [tlvLinFrom, if_neg (by omega), ← ha, hw₁, hhdr]
    dsimp only
    rw [if_neg (by omega)]
    by_cases hempty : t.data.length = 0
    · rw [if_pos hempty, ih hl₁ (by omega) (by omega), encodeTlvs_cons,
        List.length_eq_zero_iff.mp hempty, List.nil_append, List.drop_drop]
      simp only [List.length_nil, Nat.add_zero, Prod.mk.injEq, List.append_assoc, true_and]
      omega
    · have hoff : start + (n + tlvHdrLen) = (a ++ tlvHdr t.type t.data.length).length := hl₁.symm
      have hw₂ := writeAt_fill (a ++ tlvHdr t.type t.data.length) (z := z.drop tlvHdrLen)
        t.data (by omega)
      have hl₂ : (a ++ tlvHdr t.type t.data.length ++ t.data).length =
          start + (n + tlvHdrLen + t.data.length) := by
        rw [List.length_append, hl₁]
        omega
      have hz₂ : ((z.drop tlvHdrLen).drop t.data.length).length =
          z.length - tlvHdrLen - t.data.length := by
        rw [List.length_drop, List.length_drop]
      rw [if_neg hempty, hoff, hw₂, ih hl₂ (by omega) (by omega), encodeTlvs_cons,
        List.drop_drop, List.drop_drop]
      have hsum : tlvHdrLen + (t.data.length + tlvLen tlvs) =
          tlvHdrLen + t.data.length + tlvLen tlvs := by omega
      have hsum' : n + tlvHdrLen + t.data.length + tlvLen tlvs =
          n + (tlvHdrLen + t.data.length + tlvLen tlvs) := by omega
      rw [hsum, hsum']
      simp only [List.append_assoc]

end Lin

structure VlanDescription.Valid (vlan : VlanDescription) : Prop where
  untagged_le : vlan.untagged ≤ maxVlanId
  tagged_pos : ∀ id ∈ vlan.tagged, 0 < id
  tagged_le : ∀ id ∈ vlan.tagged, id ≤ maxVlanId
  tagged_length : vlan.tagged.length ≤ maxNumTaggedVlan
  tagged_sorted : vlan.tagged.Pairwise (· ≤ ·)
  notempty_iff : vlan.notempty ↔ vlan.untagged ≠ 0 ∨ vlan.tagged ≠ []

/-- A VLAN description as the configuration and the stations have it. -/
structure Vlan where
  val : VlanDescription
  valid : val.Valid

def taggedData (tagged : List ℕ) : Bytes := tagged.flatMap ofLe16

@[simp] theorem taggedData_length (tagged : List ℕ) :
    (taggedData tagged).length = 2 * tagged.length := by
  induction tagged with
  | nil => rfl
  | cons id ids ih =>
    rw [taggedData, List.flatMap_cons, List.length_append, ofLe16_length, List.length_cons]
    rw [taggedData] at ih
    omega

namespace Vlan
variable (vlan : Vlan)

def untaggedTlvs : List Tlv :=
  if vlan.val.untagged = 0 then []
  else [⟨ftRrbVlanUntagged, ofLe16 vlan.val.untagged, by decide, by decide, by
    rw [ofLe16_length]
    decide⟩]

def taggedTlvs : List Tlv :=
  if vlan.val.tagged = [] then []
  else [⟨ftRrbVlanTagged, taggedData vlan.val.tagged, by decide, by decide, by
    have hlen := vlan.valid.tagged_length
    rw [taggedData_length]
    rw [maxNumTaggedVlan] at hlen
    omega⟩]

/-- The TLVs that describe a VLAN. -/
def tlvs : List Tlv := vlan.untaggedTlvs ++ vlan.taggedTlvs

theorem tlvLen_untaggedTlvs :
    tlvLen vlan.untaggedTlvs = if vlan.val.untagged ≠ 0 then tlvHdrLen + 2 else 0 := by
  by_cases h : vlan.val.untagged = 0 <;> simp [untaggedTlvs, h]

theorem tlvLen_taggedTlvs :
    tlvLen vlan.taggedTlvs =
      (if vlan.val.tagged ≠ [] then tlvHdrLen else 0) + 2 * vlan.val.tagged.length := by
  by_cases h : vlan.val.tagged = [] <;> simp [taggedTlvs, h]

theorem untaggedTlvs_eq (h : vlan.val.untagged ≠ 0) :
    ∃ t, vlan.untaggedTlvs = [t] ∧ t.type = ftRrbVlanUntagged ∧
      t.data = ofLe16 vlan.val.untagged :=
  ⟨_, if_neg h, rfl, rfl⟩

theorem taggedTlvs_eq (h : vlan.val.tagged ≠ []) :
    ∃ t, vlan.taggedTlvs = [t] ∧ t.type = ftRrbVlanTagged ∧ t.data = taggedData vlan.val.tagged :=
  ⟨_, if_neg h, rfl, rfl⟩

theorem take_tagged : vlan.val.tagged.take maxNumTaggedVlan = vlan.val.tagged :=
  List.take_of_length_le vlan.valid.tagged_length

theorem eq_of_not_notempty (h : vlan.val.notempty = false) :
    vlan.val.untagged = 0 ∧ vlan.val.tagged = [] := by
  have hiff := vlan.valid.notempty_iff
  rw [h] at hiff
  simpa using hiff

theorem vlanLen_eq : vlanLen (some vlan.val) = tlvLen vlan.tlvs := by
  rw [tlvs, tlvLen_append, tlvLen_untaggedTlvs, tlvLen_taggedTlvs, vlanLen]
  by_cases hnot : vlan.val.notempty = false
  · obtain ⟨hun, htag⟩ := vlan.eq_of_not_notempty hnot
    simp [hnot, hun, htag]
  · rw [if_neg hnot, take_tagged, Nat.add_assoc]

end Vlan

section VlanLin
variable {a z : Bytes} {start : ℕ} (endpos : ℕ)

theorem taggedFrom_eq (ids : List ℕ) {n : ℕ} (len : ℕ) (ha : a.length = start + n)
    (hroom : 2 * ids.length ≤ z.length) (hend : start + n + z.length ≤ endpos) :
    taggedFrom start endpos ids n len (a ++ z) =
      (a ++ taggedData ids ++ z.drop (2 * ids.length), n + 2 * ids.length,
        len + 2 * ids.length) := by
  induction ids generalizing a z n len with
  | nil => simp [taggedFrom, taggedData]
  | cons id ids ih =>
    rw [List.length_cons] at hroom ⊢
    have hw := writeAt_fill a (z := z) (ofLe16 id) (by rw [ofLe16_length]; omega)
    have hl : (a ++ ofLe16 id).length = start + (n + 2) := by
      rw [List.length_append, ha, ofLe16_length, Nat.add_assoc]
    have hz : (z.drop 2).length = z.length - 2 := List.length_drop
    have hdata : taggedData (id :: ids) = ofLe16 id ++ taggedData ids := rfl
    have hsum : 2 * (ids.length + 1) = 2 + 2 * ids.length := by omega
    rw [taggedFrom, if_neg (by omega), ← ha, hw, ofLe16_length, ih _ hl (by omega) (by omega),
      List.drop_drop, hdata, hsum]
    simp only [List.append_assoc, Nat.add_assoc]

theorem taggedLin_eq (vlan : Vlan) {n : ℕ} (ha : a.length = start + n)
    (hroom : tlvLen vlan.taggedTlvs ≤ z.length) (hend : start + n + z.length ≤ endpos) :
    taggedLin vlan.val.tagged (a ++ z) start endpos n =
      (a ++ encodeTlvs vlan.taggedTlvs ++ z.drop (tlvLen vlan.taggedTlvs),
        n + tlvLen vlan.taggedTlvs) := by
  rw [vlan.tlvLen_taggedTlvs] at hroom ⊢
  by_cases hempty : vlan.val.tagged = []
  · simp [taggedLin, Vlan.taggedTlvs, hempty, encodeTlvs]
  · rw [if_pos hempty, tlvHdrLen] at hroom ⊢
    have hlen := vlan.valid.tagged_length
    rw [maxNumTaggedVlan] at hlen
    have hw := writeAt_fill a (z := z) (ofLe16 ftRrbVlanTagged)
      (by rw [ofLe16_length]; omega)
    -- The length is still missing when the identifiers are written.
    have hsplit : z.drop 2 = z.slice 2 2 ++ z.drop 4 := by
      rw [slice, ← List.drop_drop (i := 2) (j := 2), List.take_append_drop]
    have hslice : (z.slice 2 2).length = 2 := by
      rw [slice_length]
      omega
    have hl : (a ++ ofLe16 ftRrbVlanTagged ++ z.slice 2 2).length = start + (n + 4) := by
      rw [List.length_append, List.length_append, ha, ofLe16_length, hslice]
      omega
    have hz : (z.drop 4).length = z.length - 4 := List.length_drop
    have hids := taggedFrom_eq endpos (z := z.drop 4) vlan.val.tagged 0 hl (by omega) (by omega)
    have hoff : start + n + 2 = (a ++ ofLe16 ftRrbVlanTagged).length := by
      rw [List.length_append, ofLe16_length, ha]
    have hw' := writeAt_fill (a ++ ofLe16 ftRrbVlanTagged)
      (z := z.slice 2 2 ++ (taggedData vlan.val.tagged ++ (z.drop 4).drop (2 * vlan.val.tagged.length)))
      (ofLe16 (2 * vlan.val.tagged.length)) (by
        rw [ofLe16_length, List.length_append, hslice]
        omega)
    rw [taggedLin, if_neg hempty, tlvHdrLen, if_neg (by omega), vlan.take_tagged, ← ha, hw,
      ofLe16_length, hsplit, ← List.append_assoc]
    dsimp only
    rw [hids, ha]
    dsimp only
    rw [hoff, Nat.zero_add, List.append_assoc (a ++ ofLe16 ftRrbVlanTagged), List.append_assoc (a ++ ofLe16 ftRrbVlanTagged),
      List.append_assoc (z.slice 2 2), hw', ofLe16_length, List.drop_left' hslice]
    have hencode : encodeTlvs vlan.taggedTlvs = ofLe16 ftRrbVlanTagged ++
        (ofLe16 (2 * vlan.val.tagged.length) ++ taggedData vlan.val.tagged) := by
      simp only [Vlan.taggedTlvs, if_neg hempty, encodeTlvs_cons, tlvHdr, taggedData_length]
      simp [encodeTlvs]
    rw [hencode, List.drop_drop]
    simp only [List.append_assoc, Nat.add_assoc]

theorem vlanLin_eq (vlan : Vlan) (hroom : tlvLen vlan.tlvs ≤ z.length)
    (hend : a.length + z.length ≤ endpos) :
    vlanLin (some vlan.val) (a ++ z) a.length endpos =
      (a ++ encodeTlvs vlan.tlvs ++ z.drop (tlvLen vlan.tlvs), tlvLen vlan.tlvs) := by
  rw [Vlan.tlvs, tlvLen_append] at hroom ⊢
  by_cases hnot : vlan.val.notempty = false
  · obtain ⟨hun, htag⟩ := vlan.eq_of_not_notempty hnot
    simp [vlanLin, hnot, Vlan.untaggedTlvs, Vlan.taggedTlvs, hun, htag, encodeTlvs]
  · rw [vlanLin, if_neg hnot, encodeTlvs_append]
    have hun := vlan.tlvLen_untaggedTlvs
    by_cases huntagged : vlan.val.untagged = 0
    · have hempty : vlan.untaggedTlvs = [] := if_pos huntagged
      rw [hempty, tlvLen_nil, Nat.zero_add] at hroom ⊢
      rw [if_neg (not_not.mpr huntagged), taggedLin_eq endpos vlan (by omega) hroom (by omega)]
      simp [encodeTlvs]
    · rw [if_pos huntagged] at hun
      rw [hun, tlvHdrLen] at hroom ⊢
      have hw₁ := writeAt_fill a (z := z) (tlvHdr ftRrbVlanUntagged 2)
        (by rw [tlvHdr_length, tlvHdrLen]; omega)
      have hl₁ : (a ++ tlvHdr ftRrbVlanUntagged 2).length = a.length + 4 := by
        rw [List.length_append, tlvHdr_length, tlvHdrLen]
      have hz₁ : (z.drop 4).length = z.length - 4 := List.length_drop
      have hw₂ := writeAt_fill (a ++ tlvHdr ftRrbVlanUntagged 2) (z := z.drop 4)
        (ofLe16 vlan.val.untagged) (by rw [ofLe16_length]; omega)
      have hl₂ : (a ++ tlvHdr ftRrbVlanUntagged 2 ++ ofLe16 vlan.val.untagged).length =
          a.length + 6 := by
        rw [List.length_append, hl₁, ofLe16_length]
      have hz₂ : ((z.drop 4).drop 2).length = z.length - 6 := by
        rw [List.length_drop, List.length_drop]
        omega
      have hencode : encodeTlvs vlan.untaggedTlvs =
          tlvHdr ftRrbVlanUntagged 2 ++ ofLe16 vlan.val.untagged := by
        simp only [Vlan.untaggedTlvs, if_neg huntagged, encodeTlvs_cons, ofLe16_length]
        simp [encodeTlvs]
      rw [if_pos huntagged, if_neg (by omega), hw₁, tlvHdr_length, tlvHdrLen]
      dsimp only
      rw [if_neg (by omega), ← hl₁, hw₂, ofLe16_length,
        taggedLin_eq endpos vlan (n := 6) (by rw [hl₂]) (by omega) (by omega), hencode, List.drop_drop,
        List.drop_drop]
      simp only [List.append_assoc, Nat.add_assoc, Prod.mk.injEq, true_and]
      omega

end VlanLin

/-- The TLVs of a VLAN description, where there is one. -/
def vlanTlvs : Option Vlan → List Tlv
  | none => []
  | some vlan => vlan.tlvs

/-- What the lengths announce is what is written. -/
theorem rrbLin_eq (tlvs1 tlvs2 : List Tlv) (vlan : Option Vlan) :
    rrbLin tlvs1 tlvs2 (vlan.map Vlan.val) =
      some (encodeTlvs (tlvs1 ++ tlvs2 ++ vlanTlvs vlan)) := by
  have hvlan : vlanLen (vlan.map Vlan.val) = tlvLen (vlanTlvs vlan) := by
    cases vlan with
    | none => rfl
    | some vlan => exact vlan.vlanLen_eq
  obtain ⟨n, hn⟩ : ∃ n, n = tlvLen tlvs1 + tlvLen tlvs2 + tlvLen (vlanTlvs vlan) := ⟨_, rfl⟩
  have h₁ := tlvLinFrom_eq n (a := []) (z := zeros n) tlvs1 (show _ = 0 + 0 from rfl)
    (by rw [zeros_length]; omega) (by rw [zeros_length]; omega)
  rw [List.nil_append, List.nil_append, Nat.zero_add] at h₁
  have hl₁ : (encodeTlvs tlvs1).length = tlvLen tlvs1 + 0 := encodeTlvs_length tlvs1
  have hz₁ : ((zeros n).drop (tlvLen tlvs1)).length = n - tlvLen tlvs1 := by
    rw [List.length_drop, zeros_length]
  have h₂ := tlvLinFrom_eq n tlvs2 hl₁
    (z := (zeros n).drop (tlvLen tlvs1)) (by omega) (by omega)
  rw [Nat.zero_add] at h₂
  have hl₂ : (encodeTlvs tlvs1 ++ encodeTlvs tlvs2).length = tlvLen tlvs1 + tlvLen tlvs2 := by
    rw [List.length_append, encodeTlvs_length, encodeTlvs_length]
  have hz₂ : (((zeros n).drop (tlvLen tlvs1)).drop (tlvLen tlvs2)).length =
      tlvLen (vlanTlvs vlan) := by
    rw [List.length_drop, hz₁]
    omega
  have h₃ : vlanLin (vlan.map Vlan.val) (encodeTlvs tlvs1 ++ encodeTlvs tlvs2 ++
      ((zeros n).drop (tlvLen tlvs1)).drop (tlvLen tlvs2)) (tlvLen tlvs1 + tlvLen tlvs2) n =
      (encodeTlvs tlvs1 ++ encodeTlvs tlvs2 ++ encodeTlvs (vlanTlvs vlan),
        tlvLen (vlanTlvs vlan)) := by
    cases vlan with
    | none =>
      rw [List.length_eq_zero_iff.mp hz₂]
      rfl
    | some vlan =>
      have hvlan := vlanLin_eq n (a := encodeTlvs tlvs1 ++ encodeTlvs tlvs2) vlan
        (z := ((zeros n).drop (tlvLen tlvs1)).drop (tlvLen tlvs2)) (le_of_eq hz₂.symm)
        (by rw [hl₂, hz₂, hn])
      have hnone : (((zeros n).drop (tlvLen tlvs1)).drop (tlvLen tlvs2)).drop (tlvLen vlan.tlvs) =
          [] := List.drop_of_length_le (le_of_eq hz₂)
      rw [hl₂, hnone, List.append_nil] at hvlan
      exact hvlan
  simp only [rrbLin, tlvLin, hvlan, ← hn, h₁, h₂, h₃]
  rw [if_neg (by omega), encodeTlvs_append, encodeTlvs_append]

section Get
variable {rest : Bytes}

theorem le16_hdr_type (t : Tlv) (rest : Bytes) : le16 (t.encode ++ rest) 0 = t.type := by
  rw [Tlv.encode, tlvHdr]
  simp only [List.append_assoc]
  exact le16_ofLe16 t.type_lt _

theorem le16_hdr_len (t : Tlv) (rest : Bytes) : le16 (t.encode ++ rest) 2 = t.data.length := by
  have hdrop := le16_drop (t.encode ++ rest) 2 0
  rw [Nat.add_zero] at hdrop
  rw [← hdrop, Tlv.encode, tlvHdr]
  simp only [List.append_assoc]
  rw [List.drop_left' (ofLe16_length t.type)]
  exact le16_ofLe16 t.len_lt _

theorem drop_hdr (t : Tlv) (rest : Bytes) :
    (t.encode ++ rest).drop tlvHdrLen = t.data ++ rest := by
  rw [Tlv.encode, List.append_assoc, List.drop_left' (tlvHdr_length _ _)]

/-- The first TLV of a type is found before what is behind the TLVs is looked at. -/
theorem getTlv_append (type : ℕ) (tlvs : List Tlv) (rest : Bytes) :
    getTlv type (encodeTlvs tlvs ++ rest) =
      ((tlvs.find? fun t => t.type = type).map Tlv.data).or (getTlv type rest) := by
  induction tlvs with
  | nil => rfl
  | cons t tlvs ih =>
    have hencode : encodeTlvs (t :: tlvs) ++ rest = t.encode ++ (encodeTlvs tlvs ++ rest) := by
      rw [encodeTlvs_cons, Tlv.encode]
      simp only [List.append_assoc]
    have hlen : ¬(t.encode ++ (encodeTlvs tlvs ++ rest)).length < tlvHdrLen := by
      rw [List.length_append, Tlv.encode_length]
      omega
    have hroom : ¬(t.data ++ (encodeTlvs tlvs ++ rest)).length < t.data.length := by
      rw [List.length_append]
      omega
    rw [getTlv, hencode, if_neg hlen]
    simp only [drop_hdr, le16_hdr_len, le16_hdr_type, if_neg hroom, List.take_left, List.drop_left,
      ih]
    by_cases htype : t.type = type
    · rw [if_pos htype, List.find?_cons_of_pos (by simpa using htype)]
      rfl
    · rw [if_neg htype, List.find?_cons_of_neg (by simpa using htype)]

/-- Fewer octets than a header are not read. -/
theorem getTlv_encode (type : ℕ) (tlvs : List Tlv) (hrest : rest.length < tlvHdrLen) :
    getTlv type (encodeTlvs tlvs ++ rest) =
      (tlvs.find? fun t => t.type = type).map Tlv.data := by
  have hnone : getTlv type rest = none := by rw [getTlv, if_pos hrest]
  rw [getTlv_append, hnone, Option.or_none]

/-- TLVs of other types are passed over. -/
theorem vlanFrom_other (tlvs : List Tlv) (vlan : VlanDescription)
    (htypes : ∀ t ∈ tlvs, t.type ≠ ftRrbVlanUntagged ∧ t.type ≠ ftRrbVlanTagged) :
    vlanFrom (encodeTlvs tlvs ++ rest) vlan = vlanFrom rest vlan := by
  induction tlvs with
  | nil => rfl
  | cons t tlvs ih =>
    have hencode : encodeTlvs (t :: tlvs) ++ rest = t.encode ++ (encodeTlvs tlvs ++ rest) := by
      rw [encodeTlvs_cons, Tlv.encode]
      simp only [List.append_assoc]
    have hlen : ¬(t.encode ++ (encodeTlvs tlvs ++ rest)).length < tlvHdrLen := by
      rw [List.length_append, Tlv.encode_length]
      omega
    have hroom : ¬(t.data ++ (encodeTlvs tlvs ++ rest)).length < t.data.length := by
      rw [List.length_append]
      omega
    rw [vlanFrom, hencode, if_neg hlen]
    simp only [drop_hdr, le16_hdr_len, le16_hdr_type, if_neg hroom, List.drop_left,
      if_pos (htypes t List.mem_cons_self)]
    exact ih fun t' ht' => htypes t' (List.mem_cons_of_mem _ ht')

theorem vlanIds_tagged (ids : List ℕ) (vlan : VlanDescription)
    (hids : ∀ id ∈ ids, 0 < id ∧ id ≤ maxVlanId)
    (hlen : vlan.tagged.length + ids.length ≤ maxNumTaggedVlan) :
    vlanIds ftRrbVlanTagged (taggedData ids) vlan = { vlan with tagged := vlan.tagged ++ ids } := by
  induction ids generalizing vlan with
  | nil => simp [taggedData, vlanIds]
  | cons id ids ih =>
    obtain ⟨hpos, hle⟩ := hids id List.mem_cons_self
    have hlt : id < 65536 := by
      rw [maxVlanId] at hle
      omega
    have hid : le16 [UInt8.ofNat id, UInt8.ofNat (id / 256)] 0 = id := le16_ofLe16 hlt []
    rw [List.length_cons] at hlen
    have hdata : taggedData (id :: ids) =
        UInt8.ofNat id :: UInt8.ofNat (id / 256) :: taggedData ids := rfl
    rw [hdata, vlanIds]
    simp only [hid]
    rw [if_neg (by omega), if_neg (by decide), if_pos (by omega),
      ih _ (fun id' hid' => hids id' (List.mem_cons_of_mem _ hid'))
        (by rw [List.length_append, List.length_singleton]; omega),
      List.append_assoc]
    rfl

theorem vlanFrom_rest (hrest : rest.length < tlvHdrLen) (vlan : VlanDescription) :
    vlanFrom rest vlan = some vlan := by
  rw [vlanFrom, if_pos hrest]

/-- The one turn of the loop that a TLV of a VLAN type takes. -/
theorem vlanFrom_cons (t : Tlv) (vlan : VlanDescription)
    (htype : t.type = ftRrbVlanUntagged ∧ t.data.length = 2 ∨
      t.type = ftRrbVlanTagged ∧ t.data.length % 2 = 0) :
    vlanFrom (t.encode ++ rest) vlan = vlanFrom rest (vlanIds t.type t.data vlan) := by
  have hlen : ¬(t.encode ++ rest).length < tlvHdrLen := by
    rw [List.length_append, Tlv.encode_length]
    omega
  have hroom : ¬(t.data ++ rest).length < t.data.length := by
    rw [List.length_append]
    omega
  rw [vlanFrom, if_neg hlen]
  simp only [drop_hdr, le16_hdr_len, le16_hdr_type, if_neg hroom, List.drop_left, List.take_left]
  rcases htype with ⟨htype, hdata⟩ | ⟨htype, hdata⟩
  · rw [if_neg (fun h => h.1 htype), if_neg (fun h => h.2 hdata),
      if_neg (fun h => absurd (htype.symm.trans h.1) (by decide))]
  · rw [if_neg (fun h => h.2 htype), if_neg (fun h => absurd (htype.symm.trans h.1) (by decide)),
      if_neg (fun h => h.2 hdata)]

theorem vlanFrom_vlan (vlan : Vlan) (hrest : rest.length < tlvHdrLen) :
    vlanFrom (encodeTlvs vlan.tlvs ++ rest) {} =
      some { untagged := vlan.val.untagged, tagged := vlan.val.tagged } := by
  have htagged : ∀ v : VlanDescription, v.tagged = [] →
      vlanFrom (encodeTlvs vlan.taggedTlvs ++ rest) v =
        some { v with tagged := vlan.val.tagged } := by
    intro v hv
    by_cases hempty : vlan.val.tagged = []
    · have hnil : vlan.taggedTlvs = [] := if_pos hempty
      rw [hnil, hempty, ← hv]
      exact vlanFrom_rest hrest v
    · obtain ⟨t, ht, htype, hdata⟩ := vlan.taggedTlvs_eq hempty
      have hone : encodeTlvs vlan.taggedTlvs = t.encode := by
        rw [ht, encodeTlvs, List.flatMap_singleton]
      have heven : t.data.length % 2 = 0 := by
        rw [hdata, taggedData_length]
        omega
      have hids : vlanIds t.type t.data v = { v with tagged := v.tagged ++ vlan.val.tagged } := by
        rw [htype, hdata]
        apply vlanIds_tagged
        · exact fun id hid => ⟨vlan.valid.tagged_pos id hid, vlan.valid.tagged_le id hid⟩
        · rw [hv, List.length_nil, Nat.zero_add]
          exact vlan.valid.tagged_length
      rw [hone, vlanFrom_cons t v (.inr ⟨htype, heven⟩), hids, vlanFrom_rest hrest, hv]
      rfl
  rw [Vlan.tlvs, encodeTlvs_append, List.append_assoc]
  by_cases hempty : vlan.val.untagged = 0
  · have hnil : vlan.untaggedTlvs = [] := if_pos hempty
    rw [hnil, hempty]
    exact htagged {} rfl
  · obtain ⟨t, ht, htype, hdata⟩ := vlan.untaggedTlvs_eq hempty
    have hone : encodeTlvs vlan.untaggedTlvs = t.encode := by
      rw [ht, encodeTlvs, List.flatMap_singleton]
    have hle := vlan.valid.untagged_le
    have hlt : vlan.val.untagged < 65536 := by
      rw [maxVlanId] at hle
      omega
    have hid : le16 [UInt8.ofNat vlan.val.untagged, UInt8.ofNat (vlan.val.untagged / 256)] 0 =
        vlan.val.untagged := le16_ofLe16 hlt []
    have hids : vlanIds t.type t.data {} = { untagged := vlan.val.untagged } := by
      rw [htype, hdata, ofLe16, vlanIds]
      simp only [hid]
      rw [if_neg (by omega), if_pos trivial]
      rfl
    rw [hone, vlanFrom_cons t {} (.inl ⟨htype, by rw [hdata]; rfl⟩), hids]
    exact htagged _ rfl

/-- The description that stands for a VLAN, or for none. -/
def vlanOf : Option Vlan → VlanDescription
  | none => {}
  | some vlan => vlan.val

/-- Behind TLVs of other types the VLAN description is read as it was written. -/
theorem getTlvVlan_encode (tlvs : List Tlv) (vlan : Option Vlan) (hrest : rest.length < tlvHdrLen)
    (htypes : ∀ t ∈ tlvs, t.type ≠ ftRrbVlanUntagged ∧ t.type ≠ ftRrbVlanTagged) :
    getTlvVlan (encodeTlvs (tlvs ++ vlanTlvs vlan) ++ rest) = some (vlanOf vlan) := by
  have hfrom : vlanFrom (encodeTlvs (tlvs ++ vlanTlvs vlan) ++ rest) {} =
      some { untagged := (vlanOf vlan).untagged, tagged := (vlanOf vlan).tagged } := by
    rw [encodeTlvs_append, List.append_assoc, vlanFrom_other _ _ htypes]
    cases vlan with
    | none => exact vlanFrom_rest hrest {}
    | some vlan => exact vlanFrom_vlan vlan hrest
  have hsorted : (vlanOf vlan).tagged.mergeSort (· ≤ ·) = (vlanOf vlan).tagged := by
    cases vlan with
    | none => exact List.mergeSort_nil
    | some vlan =>
      exact List.mergeSort_of_pairwise (vlan.valid.tagged_sorted.imp fun h => decide_eq_true h)
  have hnotempty : decide ((vlanOf vlan).untagged ≠ 0 ∨ (vlanOf vlan).tagged ≠ []) =
      (vlanOf vlan).notempty := by
    cases vlan with
    | none => rfl
    | some vlan =>
      have hiff := vlan.valid.notempty_iff
      rw [Bool.eq_iff_iff, decide_eq_true_iff]
      exact hiff.symm
  simp only [getTlvVlan, hfrom, Option.bind_eq_bind, Option.bind_some, hsorted, hnotempty]
  rfl

end Get

end Wpa.Ft
