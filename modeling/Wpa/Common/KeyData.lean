import Wpa.Common.Kde

/-! What `wpa_parse_kde_ies` finds in a Key Data field that was put together from elements and
KDEs, with the padding of AES key wrap behind them. -/

namespace Wpa
open Lib Bytes

inductive Item where
  | element (eid : UInt8) (body : Bytes)
  | kde (selector : ℕ) (data : Bytes)
  deriving DecidableEq

namespace Item

def bytes : Item → Bytes
  | element eid body => eid :: UInt8.ofNat body.length :: body
  | kde selector data => wpaAddKde selector data

/-- The length octet of the item holds its length. -/
def Fits : Item → Prop
  | element eid body => eid.toNat ≠ eidVendorSpecific ∧ body.length ≤ 255
  | kde selector data => selector < 2 ^ 32 ∧ data.length ≤ 251

end Item

/-- The octets behind the entries of the parse result that the key handshakes use. -/
structure Found where
  rsnIe : Option Bytes := none
  rsnxe : Option Bytes := none
  keyId : Option Bytes := none
  gtk : Option Bytes := none
  igtk : Option Bytes := none
  bigtk : Option Bytes := none
  deriving DecidableEq

def EapolIeParse.found (buf : Bytes) (ie : EapolIeParse) : Found where
  rsnIe := kde buf ie.rsnIe
  rsnxe := kde buf ie.rsnxe
  keyId := ie.keyId.map fun off => buf.slice off 2
  gtk := kde buf ie.gtk
  igtk := kde buf ie.igtk
  bigtk := kde buf ie.bigtk

/-- The entry under which an item is kept; the last one of a kind counts. -/
def Found.store (f : Found) : Item → Found
  | .element eid body =>
    if eid.toNat = eidRsn then { f with rsnIe := some (Item.bytes (.element eid body)) }
    else if eid.toNat = eidRsnx then { f with rsnxe := some (Item.bytes (.element eid body)) }
    else f
  | .kde selector data =>
    if selector = rsnKeyDataKeyid ∧ 2 ≤ data.length then { f with keyId := some (data.take 2) }
    else if selector = rsnKeyDataGroupkey ∧ 2 < data.length then { f with gtk := some data }
    else if selector = rsnKeyDataIgtk ∧ 2 < data.length then { f with igtk := some data }
    else if selector = rsnKeyDataBigtk ∧ 2 < data.length then { f with bigtk := some data }
    else f

section Octets
variable (pre rest : Bytes)

theorem byteAt_middle (item : Bytes) {i : ℕ} (h : i < item.length) :
    byteAt (pre ++ (item ++ rest)) (pre.length + i) = byteAt item i := by
  rw [byteAt_append_right _ _ (by omega), Nat.add_sub_cancel_left, byteAt_append_left _ _ h]

theorem slice_middle {item : Bytes} (off len : ℕ) (h : off + len ≤ item.length) :
    slice (pre ++ (item ++ rest)) (pre.length + off) len = slice item off len := by
  rw [slice_append_right _ _ (by omega), Nat.add_sub_cancel_left, slice_append_left _ _ h]

theorem be32_middle (item : Bytes) {i : ℕ} (h : i + 4 ≤ item.length) :
    be32 (pre ++ (item ++ rest)) (pre.length + i) = be32 item i := by
  have h0 := byteAt_middle pre rest item (i := i) (by omega)
  have h1 := byteAt_middle pre rest item (i := i + 1) (by omega)
  have h2 := byteAt_middle pre rest item (i := i + 2) (by omega)
  have h3 := byteAt_middle pre rest item (i := i + 3) (by omega)
  simp only [be32, be16]
  rw [h0, Nat.add_assoc _ i 1, h1, Nat.add_assoc _ i 2, h2, Nat.add_assoc _ (i + 2) 1, h3]

variable {selector : ℕ} {data : Bytes}

@[simp] theorem wpaAddKde_length : (wpaAddKde selector data).length = data.length + 6 := by
  simp [wpaAddKde]
  omega

theorem byteAt_wpaAddKde (selector : ℕ) (hd : data.length ≤ 251) :
    byteAt (wpaAddKde selector data) 0 = eidVendorSpecific ∧
    byteAt (wpaAddKde selector data) 1 = rsnSelectorLen + data.length := by
  constructor
  · rfl
  · simp [wpaAddKde, byteAt, rsnSelectorLen]
    omega

theorem be32_wpaAddKde (hs : selector < 2 ^ 32) : be32 (wpaAddKde selector data) 2 = selector := by
  simp [wpaAddKde, be32, be16, byteAt, ofBeNat]
  omega

theorem slice_wpaAddKde : slice (wpaAddKde selector data) 6 data.length = data := by
  simp [wpaAddKde, slice, ofBeNat]

end Octets

section Item
variable {ie : EapolIeParse}

theorem found_ite {buf : Bytes} {f : Found} {c : Prop} [Decidable c] {a b : EapolIeParse}
    (ha : a.found buf = f) (hb : b.found buf = f) : (if c then a else b).found buf = f := by
  split
  · exact ha
  · exact hb

/-- The parser is at an element of the list. -/
theorem found_wpaParseElement (pre rest : Bytes) (ie : EapolIeParse) {eid : UInt8} {body : Bytes} (hb : body.length ≤ 255) :
    let buf := pre ++ (Item.bytes (.element eid body) ++ rest)
    (wpaParseElement buf pre.length ie).found buf = (ie.found buf).store (.element eid body) := by
  intro buf
  have heid : byteAt buf pre.length = eid.toNat :=
    byteAt_middle pre rest (Item.bytes (.element eid body)) (i := 0) (by simp [Item.bytes])
  have hlen : byteAt buf (pre.length + 1) = body.length := by
    rw [byteAt_middle pre rest (Item.bytes (.element eid body)) (by simp [Item.bytes])]
    simp [Item.bytes, byteAt]
    omega
  have hread : kde buf (some ⟨pre.length, body.length + 2⟩) =
      some (Item.bytes (.element eid body)) := by
    have h := slice_middle pre rest 0 (body.length + 2)
      (show 0 + (body.length + 2) ≤ (Item.bytes (.element eid body)).length by simp [Item.bytes])
    simp only [kde, Option.map_some, Span.read]
    rw [show buf.slice pre.length (body.length + 2) = _ from h]
    simp [slice, Item.bytes]
  unfold wpaParseElement
  simp only [heid, hlen, Found.store]
  by_cases hrsn : eid.toNat = eidRsn
  · simp only [if_pos hrsn, EapolIeParse.found, hread]
  · by_cases hrsnx : eid.toNat = eidRsnx
    · simp only [if_neg hrsn, if_pos hrsnx, EapolIeParse.found, hread]
    · simp only [if_neg hrsn, if_neg hrsnx]
      -- the other elements go to entries of their own
      repeat' refine found_ite ?_ ?_
      all_goals rfl

theorem found_wpaParseVendorSpecific (buf : Bytes) (pos : ℕ) :
    (wpaParseVendorSpecific buf pos ie).found buf = ie.found buf := by
  unfold wpaParseVendorSpecific
  repeat' refine found_ite ?_ ?_
  all_goals rfl

/-- What the loop goes on with behind a KDE. -/
def GenericResult.next (buf : Bytes) (pos : ℕ) (ie : EapolIeParse) :
    GenericResult → Option EapolIeParse
  | .parsed ie' => some ie'
  | .endMark => none
  | .unknown => some (wpaParseVendorSpecific buf pos ie)

/-- The loop goes on, with these entries. -/
def GenericResult.Goes (buf : Bytes) (pos : ℕ) (ie : EapolIeParse) (f : Found)
    (r : GenericResult) : Prop :=
  ∃ ie', r.next buf pos ie = some ie' ∧ ie'.found buf = f

theorem goes_ite {buf : Bytes} {pos : ℕ} {f : Found} {c : Prop} [Decidable c]
    {a b : GenericResult} (ha : a.Goes buf pos ie f) (hb : b.Goes buf pos ie f) :
    (if c then a else b).Goes buf pos ie f := by
  split
  · exact ha
  · exact hb

/-- A KDE of a kind that is kept elsewhere. -/
theorem wpaParseGeneric_other {buf : Bytes} {pos len selector : ℕ}
    (hlen : byteAt buf (pos + 1) = rsnSelectorLen + len) (hsel : be32 buf (pos + 2) = selector)
    (hkeyid : ¬(selector = rsnKeyDataKeyid ∧ 2 ≤ len))
    (hgtk : ¬(selector = rsnKeyDataGroupkey ∧ 2 < len))
    (higtk : ¬(selector = rsnKeyDataIgtk ∧ 2 < len))
    (hbigtk : ¬(selector = rsnKeyDataBigtk ∧ 2 < len)) :
    (wpaParseGeneric buf pos ie).Goes buf pos ie (ie.found buf) := by
  have hkeyid' : ¬(rsnSelectorLen + len ≥ rsnSelectorLen + 2 ∧ selector = rsnKeyDataKeyid) :=
    fun h => hkeyid ⟨h.2, by omega⟩
  have hgtk' : ¬(rsnSelectorLen + len > rsnSelectorLen + 2 ∧ selector = rsnKeyDataGroupkey) :=
    fun h => hgtk ⟨h.2, by omega⟩
  have higtk' : ¬(rsnSelectorLen + len > rsnSelectorLen + 2 ∧ selector = rsnKeyDataIgtk) :=
    fun h => higtk ⟨h.2, by omega⟩
  have hbigtk' : ¬(rsnSelectorLen + len > rsnSelectorLen + 2 ∧ selector = rsnKeyDataBigtk) :=
    fun h => hbigtk ⟨h.2, by omega⟩
  have hzero : ¬rsnSelectorLen + len = 0 := by simp [rsnSelectorLen]
  simp only [wpaParseGeneric, hlen, hsel, if_neg hkeyid', if_neg hgtk', if_neg higtk',
    if_neg hbigtk', if_neg hzero]
  repeat' refine goes_ite ?_ ?_
  all_goals first
    | exact ⟨_, rfl, found_wpaParseVendorSpecific buf pos⟩
    | exact ⟨_, rfl, rfl⟩

section Kinds
variable {buf : Bytes} {pos len : ℕ} (hlen : byteAt buf (pos + 1) = rsnSelectorLen + len)
include hlen

theorem wpaParseGeneric_keyid (hsel : be32 buf (pos + 2) = rsnKeyDataKeyid) (h : 2 ≤ len) :
    wpaParseGeneric buf pos ie =
      .parsed { ie with keyId := some (pos + 2 + rsnSelectorLen) } := by
  have hmin : 6 ≤ 4 + len := by omega
  simp [wpaParseGeneric, hlen, hsel, hmin, rsnSelectorLen, wpaOuiType, osenIeVendorType,
    rsnKeyDataKeyid, rsnKeyDataPmkid]

theorem wpaParseGeneric_gtk (hsel : be32 buf (pos + 2) = rsnKeyDataGroupkey) (h : 2 < len) :
    wpaParseGeneric buf pos ie =
      .parsed { ie with gtk := some ⟨pos + 2 + rsnSelectorLen, len⟩ } := by
  have hmin : 6 < 4 + len := by omega
  simp [wpaParseGeneric, hlen, hsel, hmin, rsnSelectorLen, wpaOuiType, osenIeVendorType,
    rsnKeyDataKeyid, rsnKeyDataPmkid, rsnKeyDataGroupkey]

theorem wpaParseGeneric_igtk (hsel : be32 buf (pos + 2) = rsnKeyDataIgtk) (h : 2 < len) :
    wpaParseGeneric buf pos ie =
      .parsed { ie with igtk := some ⟨pos + 2 + rsnSelectorLen, len⟩ } := by
  have hmin : 6 < 4 + len := by omega
  simp [wpaParseGeneric, hlen, hsel, hmin, rsnSelectorLen, wpaOuiType, osenIeVendorType,
    rsnKeyDataKeyid, rsnKeyDataPmkid, rsnKeyDataGroupkey, rsnKeyDataMacAddr, rsnKeyDataIgtk]

theorem wpaParseGeneric_bigtk (hsel : be32 buf (pos + 2) = rsnKeyDataBigtk) (h : 2 < len) :
    wpaParseGeneric buf pos ie =
      .parsed { ie with bigtk := some ⟨pos + 2 + rsnSelectorLen, len⟩ } := by
  have hmin : 6 < 4 + len := by omega
  simp [wpaParseGeneric, hlen, hsel, hmin, rsnSelectorLen, wpaOuiType, osenIeVendorType,
    rsnKeyDataKeyid, rsnKeyDataPmkid, rsnKeyDataGroupkey, rsnKeyDataMacAddr, rsnKeyDataIgtk,
    rsnKeyDataBigtk]

end Kinds

/-- The parser is at a KDE of the list. -/
theorem wpaParseGeneric_goes (pre rest : Bytes) (ie : EapolIeParse) {selector : ℕ} {data : Bytes}
    (hs : selector < 2 ^ 32) (hd : data.length ≤ 251) :
    let buf := pre ++ (wpaAddKde selector data ++ rest)
    (wpaParseGeneric buf pre.length ie).Goes buf pre.length ie
      ((ie.found buf).store (.kde selector data)) := by
  intro buf
  have hlen : byteAt buf (pre.length + 1) = rsnSelectorLen + data.length := by
    rw [← (byteAt_wpaAddKde selector hd).2, byteAt_middle pre rest (wpaAddKde selector data) (by simp)]
  have hsel : be32 buf (pre.length + 2) = selector := by
    rw [be32_middle pre rest (wpaAddKde selector data) (by simp), be32_wpaAddKde hs]
  have hread : kde buf (some ⟨pre.length + 2 + rsnSelectorLen, data.length⟩) = some data := by
    have h := slice_middle pre rest 6 data.length
      (show 6 + data.length ≤ (wpaAddKde selector data).length by simp; omega)
    rw [slice_wpaAddKde] at h
    exact congrArg some h
  have hread2 : 2 ≤ data.length → slice buf (pre.length + 2 + rsnSelectorLen) 2 = data.take 2 := by
    intro h2
    have h := slice_middle pre rest 6 2
      (show 6 + 2 ≤ (wpaAddKde selector data).length by simp; omega)
    refine h.trans ?_
    simp [wpaAddKde, slice, ofBeNat]
  simp only [Found.store]
  by_cases hkeyid : selector = rsnKeyDataKeyid ∧ 2 ≤ data.length
  · rw [if_pos hkeyid, wpaParseGeneric_keyid hlen (hsel.trans hkeyid.1) hkeyid.2]
    exact ⟨_, rfl, by simp only [EapolIeParse.found, Option.map_some, hread2 hkeyid.2]⟩
  · rw [if_neg hkeyid]
    by_cases hgtk : selector = rsnKeyDataGroupkey ∧ 2 < data.length
    · rw [if_pos hgtk, wpaParseGeneric_gtk hlen (hsel.trans hgtk.1) hgtk.2]
      exact ⟨_, rfl, by simp only [EapolIeParse.found, hread]⟩
    · rw [if_neg hgtk]
      by_cases higtk : selector = rsnKeyDataIgtk ∧ 2 < data.length
      · rw [if_pos higtk, wpaParseGeneric_igtk hlen (hsel.trans higtk.1) higtk.2]
        exact ⟨_, rfl, by simp only [EapolIeParse.found, hread]⟩
      · rw [if_neg higtk]
        by_cases hbigtk : selector = rsnKeyDataBigtk ∧ 2 < data.length
        · rw [if_pos hbigtk, wpaParseGeneric_bigtk hlen (hsel.trans hbigtk.1) hbigtk.2]
          exact ⟨_, rfl, by simp only [EapolIeParse.found, hread]⟩
        · rw [if_neg hbigtk]
          exact wpaParseGeneric_other hlen hsel hkeyid hgtk higtk hbigtk

end Item

section Loop
variable (pre rest : Bytes)

@[simp] theorem Item.bytes_length_element (eid : UInt8) (body : Bytes) :
    (Item.bytes (.element eid body)).length = body.length + 2 := rfl

theorem Item.two_le_length (item : Item) : 2 ≤ item.bytes.length := by
  cases item with
  | element eid body => simp
  | kde selector data => simp [Item.bytes]

theorem Item.length_le_flatMap (items : List Item) :
    items.length ≤ (items.flatMap Item.bytes).length := by
  induction items with
  | nil => exact le_rfl
  | cons item items ih =>
    have := item.two_le_length
    simp only [List.length_cons, List.flatMap_cons, List.length_append]
    omega

/-- The length octet of the item at the cursor. -/
theorem Item.byteAt_length (item : Item) (h : item.Fits) :
    byteAt (pre ++ (item.bytes ++ rest)) (pre.length + 1) + 2 = item.bytes.length := by
  rw [byteAt_middle pre rest item.bytes (by have := item.two_le_length; omega)]
  cases item with
  | element eid body =>
    have := h.2
    simp [Item.bytes, byteAt]
    omega
  | kde selector data =>
    simp only [Item.bytes, (byteAt_wpaAddKde selector h.2).2, wpaAddKde_length, rsnSelectorLen]
    omega

/-- One round of the loop. -/
theorem wpaParseKdeIesFrom_item {item : Item} (h : item.Fits) (ie : EapolIeParse) (fuel : ℕ) :
    let buf := pre ++ (item.bytes ++ rest)
    ∃ ie', wpaParseKdeIesFrom buf (fuel + 1) pre.length ie =
        wpaParseKdeIesFrom buf fuel (pre ++ item.bytes).length ie' ∧
      ie'.found buf = (ie.found buf).store item := by
  intro buf
  have hlen : byteAt buf (pre.length + 1) + 2 = item.bytes.length := item.byteAt_length pre rest h
  have hbuf : buf.length = pre.length + (item.bytes.length + rest.length) := by
    simp [buf, List.length_append]
  have hmin := item.two_le_length
  have hnext : (pre ++ item.bytes).length = pre.length + 2 + byteAt buf (pre.length + 1) := by
    rw [List.length_append]
    omega
  have hmore : ¬buf.length - pre.length ≤ 1 := by omega
  have hroom : ¬2 + byteAt buf (pre.length + 1) > buf.length - pre.length := by omega
  rw [hnext]
  simp only [wpaParseKdeIesFrom, hmore, hroom, if_false]
  cases item with
  | element eid body =>
    have heid : byteAt buf pre.length = eid.toNat :=
      byteAt_middle pre rest (Item.bytes (.element eid body)) (i := 0) (by simp)
    have hvendor : ¬byteAt buf pre.length = eidVendorSpecific := by rw [heid]; exact h.1
    have hpad : ¬(byteAt buf pre.length = 0xdd ∧
        (pre.length = buf.length - 1 ∨ byteAt buf (pre.length + 1) = 0)) := fun hp => hvendor hp.1
    rw [if_neg hpad, if_neg hvendor]
    exact ⟨_, rfl, found_wpaParseElement pre rest ie h.2⟩
  | kde selector data =>
    have heid : byteAt buf pre.length = eidVendorSpecific := by
      rw [← (byteAt_wpaAddKde selector h.2).1]
      exact byteAt_middle pre rest (Item.bytes (.kde selector data)) (i := 0)
        (by simp [Item.bytes])
    have hpad : ¬(byteAt buf pre.length = 0xdd ∧
        (pre.length = buf.length - 1 ∨ byteAt buf (pre.length + 1) = 0)) := by
      simp only [Item.bytes, wpaAddKde_length] at hlen
      omega
    have hgoes : (wpaParseGeneric buf pre.length ie).Goes buf pre.length ie
        ((ie.found buf).store (.kde selector data)) := wpaParseGeneric_goes pre rest ie h.1 h.2
    obtain ⟨ie', hnext', hfound⟩ := hgoes
    rw [if_neg hpad, if_pos heid]
    refine ⟨ie', ?_, hfound⟩
    cases hres : wpaParseGeneric buf pre.length ie with
    | parsed x =>
      rw [hres] at hnext'
      cases hnext'
      rfl
    | endMark =>
      rw [hres] at hnext'
      cases hnext'
    | unknown =>
      rw [hres] at hnext'
      cases hnext'
      rfl

/-- The padding of `__wpa_send_eapol`, which ends the loop. -/
def padding (n : ℕ) : Bytes := if n = 0 then [] else 0xdd :: zeros (n - 1)

theorem wpaParseKdeIesFrom_padding (n fuel : ℕ) (ie : EapolIeParse) :
    wpaParseKdeIesFrom (pre ++ padding n) fuel pre.length ie = some ie := by
  cases fuel with
  | zero => rfl
  | succ fuel =>
    simp only [wpaParseKdeIesFrom]
    by_cases hn : n ≤ 1
    · have hlen : (pre ++ padding n).length - pre.length ≤ 1 := by
        unfold padding
        split <;> simp
        omega
      rw [if_pos hlen]
    · have hpad : padding n = 0xdd :: 0 :: zeros (n - 2) := by
        obtain ⟨m, rfl⟩ : ∃ m, n = m + 2 := ⟨n - 2, by omega⟩
        simp [padding, zeros, List.replicate_succ]
      have h0 : byteAt (pre ++ padding n) pre.length = 0xdd := by
        rw [byteAt_append_right _ _ le_rfl, hpad]
        simp [byteAt]
      have h1 : byteAt (pre ++ padding n) (pre.length + 1) = 0 := by
        rw [byteAt_append_right _ _ (by omega), hpad]
        simp [byteAt]
      have hmore : ¬(pre ++ padding n).length - pre.length ≤ 1 := by
        rw [hpad]
        simp
      rw [if_neg hmore, if_pos ⟨h0, .inr h1⟩]

/-- The loop over a list of items, from its invariant: what was found so far. -/
theorem wpaParseKdeIesFrom_items (items : List Item) (hfits : ∀ item ∈ items, item.Fits) (n : ℕ)
    (pre : Bytes) (fuel : ℕ) (hfuel : items.length ≤ fuel) (ie : EapolIeParse) :
    let buf := pre ++ (items.flatMap Item.bytes ++ padding n)
    ∃ ie', wpaParseKdeIesFrom buf fuel pre.length ie = some ie' ∧
      ie'.found buf = items.foldl Found.store (ie.found buf) := by
  induction items generalizing pre fuel ie with
  | nil => exact ⟨ie, wpaParseKdeIesFrom_padding pre n fuel ie, rfl⟩
  | cons item items ih =>
    intro buf
    obtain ⟨fuel, rfl⟩ : ∃ m, fuel = m + 1 := ⟨fuel - 1, by simp at hfuel; omega⟩
    have hbuf : buf = pre ++ (item.bytes ++ (items.flatMap Item.bytes ++ padding n)) := by
      simp [buf, List.append_assoc]
    have hbuf' : buf = (pre ++ item.bytes) ++ (items.flatMap Item.bytes ++ padding n) := by
      simp [buf, List.append_assoc]
    obtain ⟨ie', hstep, hfound⟩ := wpaParseKdeIesFrom_item pre
      (items.flatMap Item.bytes ++ padding n) (hfits item List.mem_cons_self) ie fuel
    obtain ⟨ie'', hrun, hfound'⟩ := ih (fun i hi => hfits i (List.mem_cons_of_mem _ hi))
      (pre ++ item.bytes) fuel (by simpa using hfuel) ie'
    rw [← hbuf] at hstep hfound
    rw [← hbuf'] at hrun hfound'
    exact ⟨ie'', hstep.trans hrun, by rw [hfound', hfound, List.foldl_cons]⟩

/-- What the parser finds is what the items leave behind. -/
theorem wpaParseKdeIes_items (items : List Item) (hfits : ∀ item ∈ items, item.Fits) (n : ℕ) :
    ∃ ie, wpaParseKdeIes (items.flatMap Item.bytes ++ padding n) = some ie ∧
      ie.found (items.flatMap Item.bytes ++ padding n) = items.foldl Found.store {} := by
  have hfuel : items.length ≤ (items.flatMap Item.bytes ++ padding n).length := by
    have := Item.length_le_flatMap items
    rw [List.length_append]
    omega
  exact wpaParseKdeIesFrom_items items hfits n [] _ hfuel {}

end Loop
end Wpa
