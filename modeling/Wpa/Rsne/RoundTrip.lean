import Wpa.Rsne.Format

/-! `wpa_gen_wpa_ie_rsn` of `rsn_supp/wpa_ie.c` and the way of the element it writes through
`wpa_parse_wpa_ie`. -/

namespace Wpa.Rsne
open Lib Bytes

/-- `wpa_cipher_to_suite`. -/
def wpaCipherToSuite (proto : Proto) (cipher : ℕ) : ℕ :=
  if hasBits cipher cipherCcmp256 then 0x000fac0a
  else if hasBits cipher cipherGcmp256 then 0x000fac09
  else if hasBits cipher cipherCcmp then if proto = .rsn then 0x000fac04 else 0x0050f204
  else if hasBits cipher cipherGcmp then 0x000fac08
  else if hasBits cipher cipherTkip then if proto = .rsn then 0x000fac02 else 0x0050f202
  else if hasBits cipher cipherNone then if proto = .rsn then 0x000fac00 else 0x0050f200
  else if hasBits cipher cipherGtkNotUsed then 0x000fac07
  else if hasBits cipher cipherAes128Cmac then 0x000fac06
  else if hasBits cipher cipherBipGmac128 then 0x000fac0b
  else if hasBits cipher cipherBipGmac256 then 0x000fac0c
  else if hasBits cipher cipherBipCmac256 then 0x000fac0d
  else 0

/-- One branch of the choice of an AKM suite: `key_mgmt == mask` or `key_mgmt & mask`. -/
structure AkmBranch where
  mask : ℕ
  equal : Bool
  suite : ℕ

def AkmBranch.taken (b : AkmBranch) (keyMgmt : ℕ) : Bool :=
  if b.equal then keyMgmt == b.mask else hasBits keyMgmt b.mask

/-- The branches in the order in which they are tried. -/
def akmBranches : List AkmBranch :=
  [⟨keyMgmtIeee8021x, true, 0x000fac01⟩, ⟨keyMgmtPsk, true, 0x000fac02⟩,
    ⟨keyMgmtCckm, true, 0x00409600⟩, ⟨keyMgmtFtIeee8021x, true, 0x000fac03⟩,
    ⟨keyMgmtFtIeee8021xSha384, true, 0x000fac0d⟩, ⟨keyMgmtFtPsk, true, 0x000fac04⟩,
    ⟨keyMgmtIeee8021xSha256, true, 0x000fac05⟩, ⟨keyMgmtPskSha256, true, 0x000fac06⟩,
    ⟨keyMgmtSae, true, 0x000fac08⟩, ⟨keyMgmtSaeExtKey, true, 0x000fac18⟩,
    ⟨keyMgmtFtSae, true, 0x000fac09⟩, ⟨keyMgmtIeee8021xSuiteB192, true, 0x000fac0c⟩,
    ⟨keyMgmtIeee8021xSuiteB, true, 0x000fac0b⟩, ⟨keyMgmtFilsSha256, false, 0x000fac0e⟩,
    ⟨keyMgmtFilsSha384, false, 0x000fac0f⟩, ⟨keyMgmtFtFilsSha256, false, 0x000fac10⟩,
    ⟨keyMgmtFtFilsSha384, false, 0x000fac11⟩, ⟨keyMgmtOwe, false, 0x000fac12⟩,
    ⟨keyMgmtDpp, false, 0x506f9a02⟩, ⟨keyMgmtOsen, false, 0x506f9a01⟩]

def akmSuite (keyMgmt : ℕ) : Option ℕ :=
  (akmBranches.find? fun b => b.taken keyMgmt).map AkmBranch.suite

def wpaCapabilityMfpr : ℕ := 2 ^ 6
def wpaCapabilityMfpc : ℕ := 2 ^ 7
def wpaCapabilityExtKeyIdForUnicast : ℕ := 2 ^ 13

/-- What `wpa_gen_wpa_ie_rsn` reads of `struct wpa_sm`; of the cached PMKSA, its PMKID. -/
structure SuppSm where
  pairwiseCipher : ℕ
  groupCipher : ℕ
  keyMgmt : ℕ
  mgmtGroupCipher : ℕ
  mfp : ℕ
  ocv : Bool
  extKeyId : Bool
  curPmksa : Option { pmkid : Bytes // pmkid.length = pmkidLen }

def rsnSuppCapab (sm : SuppSm) : ℕ :=
  (if sm.mfp ≠ 0 then wpaCapabilityMfpc else 0) ||| (if sm.mfp = 2 then wpaCapabilityMfpr else 0) |||
    (if sm.ocv then capabilityOcvc else 0) |||
    (if sm.extKeyId then wpaCapabilityExtKeyIdForUnicast else 0)

/-- The PMKID list and the management group cipher. Without a PMKID the empty list is written only in
front of a management group cipher. -/
def pmkidPart (sm : SuppSm) : Bytes :=
  match sm.curPmksa with
  | some p => ofLe16 1 ++ p.1
  | none => if wpaCipherValidMgmtGroup sm.mgmtGroupCipher then ofLe16 0 else []

def mgmtGroupPart (sm : SuppSm) : Bytes :=
  if wpaCipherValidMgmtGroup sm.mgmtGroupCipher then
    ofBeNat (wpaCipherToSuite .rsn sm.mgmtGroupCipher) 4
  else []

/-- `wpa_gen_wpa_ie_rsn` for a buffer of `rsnIeLen` octets. The room for the management group cipher
is checked by the assertion at the end only. -/
def wpaGenWpaIeRsn (rsnIeLen : ℕ) (sm : SuppSm) : Option Bytes :=
  if rsnIeLen < 4 + 4 + 2 + 4 + 2 + 4 + 2 + (if sm.curPmksa.isSome then 2 + pmkidLen else 0) then none
  else
    let group := wpaCipherToSuite .rsn sm.groupCipher
    let pairwise := wpaCipherToSuite .rsn sm.pairwiseCipher
    if group = 0 then none
    else if pairwise = 0 ∨
        (¬ wpaCipherValidPairwise sm.pairwiseCipher ∧ sm.pairwiseCipher ≠ cipherNone) then none
    else
      match akmSuite sm.keyMgmt with
      | none => none
      | some akm =>
        let fields := ofBeNat group 4 ++ (ofLe16 1 ++ ofBeNat pairwise 4) ++
          (ofLe16 1 ++ ofBeNat akm 4) ++ ofLe16 (rsnSuppCapab sm) ++ pmkidPart sm ++
          mgmtGroupPart sm
        let ie := [UInt8.ofNat eidRsn, UInt8.ofNat (fields.length + 2)] ++ ofLe16 rsnVersion ++ fields
        if ie.length ≤ rsnIeLen then some ie else none

def wpaSelectorToBitfield (selector : ℕ) : ℕ :=
  if selector = 0x0050f200 then cipherNone
  else if selector = 0x0050f202 then cipherTkip
  else if selector = 0x0050f204 then cipherCcmp
  else 0

def keyMgmtWpaNone : ℕ := 2 ^ 4

def wpaKeyMgmtToBitfield (selector : ℕ) : ℕ :=
  if selector = 0x0050f201 then keyMgmtIeee8021x
  else if selector = 0x0050f202 then keyMgmtPsk
  else if selector = 0x0050f200 then keyMgmtWpaNone
  else 0

/-- A list of suites in a WPA element, with the errors for a wrong count and a stray octet. -/
def wpaIeSuites (toBit : ℕ → ℕ) (countError strayError : ℤ) (ie : Bytes) (c : RsnCursor) :
    Except ℤ (Option ℕ × RsnCursor) :=
  if c.left ≥ 2 then
    let count := ie.le16 c.pos
    let c := c.skip 2
    if count = 0 ∨ count > c.left / 4 then .error countError
    else .ok (some (suiteUnion toBit ie c.pos count), c.skip (4 * count))
  else if c.left = 1 then .error strayError
  else .ok (none, c)

def wpaParseWpaIeWpa (ie : Bytes) : Except ℤ WpaIeData := do
  let n := ie.length
  if n < 8 then throw (-1)
  if ie.byteAt 0 ≠ eidVendorSpecific ∨ ie.byteAt 1 ≠ n - 2 ∨ ie.be32 2 ≠ wpaOuiType ∨
      ie.le16 6 ≠ 1 then throw (-2)
  let d : WpaIeData :=
    { proto := .wpa, pairwiseCipher := cipherTkip, groupCipher := cipherTkip, mgmtGroupCipher := 0 }
  let c : RsnCursor := ⟨8, n - 8⟩
  if 0 < c.left ∧ c.left < 4 then throw (-3)
  let (d, c) := if c.left ≥ 4 then
      ({ d with groupCipher := wpaSelectorToBitfield (ie.be32 c.pos) }, c.skip 4)
    else (d, c)
  let (pairwise, c) ← wpaIeSuites wpaSelectorToBitfield (-4) (-5) ie c
  let (keyMgmt, c) ← wpaIeSuites wpaKeyMgmtToBitfield (-6) (-7) ie c
  return { d with
    pairwiseCipher := pairwise.getD d.pairwiseCipher
    keyMgmt := keyMgmt.getD d.keyMgmt
    capabilities := if c.left ≥ 2 then ie.le16 c.pos else 0 }

/-- `wpa_parse_wpa_ie`. -/
def wpaParseWpaIe (ie : Bytes) : Except ℤ WpaIeData :=
  let vendor := fun type => ie.length ≥ 6 ∧ ie.byteAt 0 = eidVendorSpecific ∧ ie.byteAt 1 ≥ 4 ∧
    ie.be32 2 = type
  if ie.length ≥ 1 ∧ ie.byteAt 0 = eidRsn then wpaParseWpaIeRsn ie
  else if vendor osenIeVendorType then wpaParseWpaIeRsn ie
  else if vendor rsneOverrideIeVendorType then wpaParseWpaIeRsn ie
  else if vendor rsneOverride2IeVendorType then wpaParseWpaIeRsn ie
  else wpaParseWpaIeWpa ie

/-- The PMKIDs that the pointer and the count in the parsed data stand for. -/
def pmkidList (ie : Bytes) (d : WpaIeData) : List Bytes :=
  match d.pmkid with
  | none => []
  | some pos => (List.range d.numPmkid).map fun i => ie.slice (pos + pmkidLen * i) pmkidLen

section Suites

def pairwiseCiphers : List ℕ :=
  [cipherNone, cipherCcmp256, cipherGcmp256, cipherCcmp, cipherGcmp, cipherTkip]

theorem mem_pairwiseCiphers {c : ℕ} (h : wpaCipherValidPairwise c = true ∨ c = cipherNone) :
    c ∈ pairwiseCiphers := by
  simp only [wpaCipherValidPairwise, Bool.or_eq_true, beq_iff_eq] at h
  simp only [pairwiseCiphers, List.mem_cons, List.not_mem_nil, or_false]
  omega

/-- The parser reads a pairwise cipher back. -/
theorem pairwise_suite {c : ℕ} (h : wpaCipherValidPairwise c = true ∨ c = cipherNone) :
    wpaCipherToSuite .rsn c < 2 ^ 32 ∧ rsnSelectorToBitfield (wpaCipherToSuite .rsn c) = c ∧
      c ≠ cipherAes128Cmac := by
  have hall : ∀ c ∈ pairwiseCiphers, wpaCipherToSuite .rsn c < 2 ^ 32 ∧
      rsnSelectorToBitfield (wpaCipherToSuite .rsn c) = c ∧ c ≠ cipherAes128Cmac := by decide
  exact hall c (mem_pairwiseCiphers h)

theorem group_suite {c : ℕ} (h : wpaCipherValidGroup c = true) :
    wpaCipherToSuite .rsn c < 2 ^ 32 ∧ rsnSelectorToBitfield (wpaCipherToSuite .rsn c) = c := by
  rw [wpaCipherValidGroup, Bool.or_eq_true, beq_iff_eq] at h
  rcases h with h | rfl
  · exact ⟨(pairwise_suite (Or.inl h)).1, (pairwise_suite (Or.inl h)).2.1⟩
  · decide

def mgmtGroupCiphers : List ℕ :=
  [cipherGtkNotUsed, cipherAes128Cmac, cipherBipGmac128, cipherBipGmac256, cipherBipCmac256]

theorem mgmtGroup_suite {c : ℕ} (h : wpaCipherValidMgmtGroup c = true) :
    wpaCipherToSuite .rsn c < 2 ^ 32 ∧ rsnSelectorToBitfield (wpaCipherToSuite .rsn c) = c := by
  have hall : ∀ c ∈ mgmtGroupCiphers, wpaCipherToSuite .rsn c < 2 ^ 32 ∧
      rsnSelectorToBitfield (wpaCipherToSuite .rsn c) = c := by decide
  refine hall c ?_
  simp only [wpaCipherValidMgmtGroup, Bool.or_eq_true, beq_iff_eq] at h
  simp only [mgmtGroupCiphers, List.mem_cons, List.not_mem_nil, or_false]
  omega

theorem akmBranches_masks : ∀ b ∈ akmBranches, ∃ j, b.mask = 2 ^ j := by
  have hall : ∀ b ∈ akmBranches, b.mask ∈ (List.range 32).map fun j => 2 ^ j := by decide
  intro b hb
  obtain ⟨j, -, hj⟩ := List.mem_map.mp (hall b hb)
  exact ⟨j, hj.symm⟩

/-- With one bit in `key_mgmt` both kinds of branches compare it with their mask. -/
theorem AkmBranch.taken_single {b : AkmBranch} (hb : b ∈ akmBranches) {k : ℕ} :
    b.taken (2 ^ k) = true ↔ b.mask = 2 ^ k := by
  obtain ⟨j, hj⟩ := akmBranches_masks b hb
  unfold AkmBranch.taken
  split
  · rw [beq_iff_eq, eq_comm]
  · rw [hj, hasBits_two_pow, Nat.testBit_two_pow, decide_eq_true_eq]
    exact ⟨fun h => h ▸ rfl, fun h => (Nat.pow_right_injective (Nat.le_refl 2) h).symm⟩

/-- The parser reads a single AKM back, other than CCKM, which it does not know. -/
theorem akm_suite {keyMgmt akm k : ℕ} (h : akmSuite keyMgmt = some akm) (hk : keyMgmt = 2 ^ k)
    (hcckm : keyMgmt ≠ keyMgmtCckm) : akm < 2 ^ 32 ∧ rsnKeyMgmtToBitfield akm = keyMgmt := by
  have hall : ∀ b ∈ akmBranches, b.suite < 2 ^ 32 ∧
      (b.mask = keyMgmtCckm ∨ rsnKeyMgmtToBitfield b.suite = b.mask) := by decide
  obtain ⟨b, hfind, rfl⟩ := Option.map_eq_some_iff.mp h
  have hb := List.mem_of_find?_eq_some hfind
  have htaken := List.find?_some hfind
  rw [hk] at htaken
  have hmask : b.mask = keyMgmt := hk ▸ (AkmBranch.taken_single hb).mp htaken
  obtain ⟨hlt, hread⟩ := hall b hb
  refine ⟨hlt, ?_⟩
  rw [hmask] at hread
  exact hread.resolve_left hcckm

theorem rsnSuppCapab_lt (sm : SuppSm) : rsnSuppCapab sm < 65536 := by
  have hite : ∀ (p : Prop) [Decidable p] (a : ℕ), a < 2 ^ 16 → (if p then a else 0) < 2 ^ 16 := by
    intro p _ a ha
    split
    · exact ha
    · decide
  show rsnSuppCapab sm < 2 ^ 16
  unfold rsnSuppCapab
  refine Nat.or_lt_two_pow (Nat.or_lt_two_pow (Nat.or_lt_two_pow ?_ ?_) ?_) ?_
  all_goals exact hite _ _ (by decide)

end Suites

theorem isUnion_single (toBit : ℕ → ℕ) (s : ℕ) : IsUnion (toBit s) ([s].map toBit) := by
  intro k
  simp

/-- The last two parts of the element, behind `front`. -/
theorem tail_described (sm : SuppSm) {d : WpaIeData} (hpmkid : d.pmkid = none)
    {ie front : Bytes} (hie : ie = front ++ (pmkidPart sm ++ mgmtGroupPart sm)) :
    ∃ d₅ d', PmkidField ie.length d (pmkidPart sm ++ mgmtGroupPart sm) d₅ (mgmtGroupPart sm) ∧
      MgmtGroupField d₅ (mgmtGroupPart sm) d' ∧ d'.keyMgmt = d.keyMgmt ∧
      d'.pairwiseCipher = d.pairwiseCipher ∧ d'.groupCipher = d.groupCipher ∧
      d'.capabilities = d.capabilities ∧
      (wpaCipherValidMgmtGroup sm.mgmtGroupCipher → d'.mgmtGroupCipher = sm.mgmtGroupCipher) ∧
      pmkidList ie d' = (sm.curPmksa.map Subtype.val).toList := by
  have hmgmt : ∀ d₅ : WpaIeData, ∃ d', MgmtGroupField d₅ (mgmtGroupPart sm) d' ∧
      d' = { d₅ with mgmtGroupCipher := d'.mgmtGroupCipher } ∧
      (wpaCipherValidMgmtGroup sm.mgmtGroupCipher → d'.mgmtGroupCipher = sm.mgmtGroupCipher) := by
    intro d₅
    unfold mgmtGroupPart
    by_cases hvalid : wpaCipherValidMgmtGroup sm.mgmtGroupCipher = true
    · obtain ⟨hlt, hread⟩ := mgmtGroup_suite hvalid
      have hfield := MgmtGroupField.present (d := d₅) _ [] hlt (by rwa [hread])
      rw [List.append_nil, hread] at hfield
      rw [if_pos hvalid]
      exact ⟨_, hfield, rfl, fun _ => rfl⟩
    · rw [if_neg hvalid]
      exact ⟨d₅, .absent [] (by decide), rfl, fun h => absurd h hvalid⟩
  cases hcur : sm.curPmksa with
  | some p =>
    have hpart : pmkidPart sm = ofLe16 1 ++ p.1 := by rw [pmkidPart, hcur]
    have hlen : p.1.length = 1 * pmkidLen := by rw [p.2, Nat.one_mul]
    have hfield := PmkidField.present (n := ie.length) (d := d) p.1 (mgmtGroupPart sm) 1 (by decide)
      hlen
    rw [← List.append_assoc, ← hpart] at hfield
    obtain ⟨d', hmgmt, hd', hread⟩ := hmgmt _
    refine ⟨_, d', hfield, hmgmt, by rw [hd'], by rw [hd'], by rw [hd'], by rw [hd'], hread, ?_⟩
    rw [hd']
    simp only [pmkidList, List.range_one, List.map_cons, List.map_nil, Nat.mul_zero, Nat.add_zero,
      Option.map_some, Option.toList_some, List.cons.injEq, and_true]
    have hsplit : ie = front ++ ofLe16 1 ++ (p.1 ++ mgmtGroupPart sm) := by
      rw [hie, hpart]
      simp
    have hpos : ie.length - (p.1 ++ mgmtGroupPart sm).length = (front ++ ofLe16 1).length := by
      rw [hsplit, List.length_append, Nat.add_sub_cancel]
    rw [hpos, hsplit, slice_append_right _ _ (Nat.le_refl _), Nat.sub_self, slice, List.drop_zero,
      List.take_left' p.2]
  | none =>
    by_cases hvalid : wpaCipherValidMgmtGroup sm.mgmtGroupCipher = true
    · have hpart : pmkidPart sm = ofLe16 0 := by rw [pmkidPart, hcur]; exact if_pos hvalid
      have hfield := PmkidField.present (n := ie.length) (d := d) [] (mgmtGroupPart sm) 0
        (by decide) rfl
      rw [← List.append_assoc, List.append_nil, ← hpart] at hfield
      obtain ⟨d', hmgmt, hd', hread⟩ := hmgmt _
      refine ⟨_, d', hfield, hmgmt, by rw [hd'], by rw [hd'], by rw [hd'], by rw [hd'], hread, ?_⟩
      rw [hd']
      rfl
    · have hpart : pmkidPart sm = [] := by rw [pmkidPart, hcur]; exact if_neg hvalid
      have hmgmtPart : mgmtGroupPart sm = [] := if_neg hvalid
      obtain ⟨d', hmgmt, hd', hread⟩ := hmgmt d
      refine ⟨d, d', ?_, hmgmt, by rw [hd'], by rw [hd'], by rw [hd'], by rw [hd'], hread, ?_⟩
      · rw [hpart, hmgmtPart]
        exact .absent [] (by decide)
      · rw [hd', pmkidList, hpmkid]
        rfl

theorem counted_single (s : ℕ) : counted [s] = ofLe16 1 ++ ofBeNat s 4 := by
  simp [counted]

/-- The element that `sm` gives with the suite `akm`, behind its header. -/
def genFields (sm : SuppSm) (akm : ℕ) : Bytes :=
  ofBeNat (wpaCipherToSuite .rsn sm.groupCipher) 4 ++
    (counted [wpaCipherToSuite .rsn sm.pairwiseCipher] ++ (counted [akm] ++
      (ofLe16 (rsnSuppCapab sm) ++ (pmkidPart sm ++ mgmtGroupPart sm))))

theorem genFields_length (sm : SuppSm) (akm : ℕ) : (genFields sm akm).length + 2 < 256 := by
  have hpmkid : (pmkidPart sm).length ≤ 18 := by
    unfold pmkidPart
    split
    next p _ =>
      have hp := p.2
      unfold pmkidLen at hp
      rw [List.length_append, ofLe16_length, hp]
    next =>
      split
      · decide
      · decide
  have hmgmt : (mgmtGroupPart sm).length ≤ 4 := by
    unfold mgmtGroupPart
    split
    · rw [ofBeNat_length]
    · decide
  simp only [genFields, counted_single, List.length_append, ofBeNat_length, ofLe16_length]
  omega

theorem wpaGenWpaIeRsn_cases {n : ℕ} {sm : SuppSm} {ie : Bytes}
    (h : wpaGenWpaIeRsn n sm = some ie) :
    (wpaCipherValidPairwise sm.pairwiseCipher = true ∨ sm.pairwiseCipher = cipherNone) ∧
      ∃ akm, akmSuite sm.keyMgmt = some akm ∧
        ie = [UInt8.ofNat eidRsn, UInt8.ofNat ((genFields sm akm).length + 2)] ++
          ofLe16 rsnVersion ++ genFields sm akm := by
  simp only [wpaGenWpaIeRsn, Option.ite_none_left_eq_some] at h
  obtain ⟨-, -, hpairwise, h⟩ := h
  rw [not_or, not_and_or, not_not, not_not] at hpairwise
  refine ⟨hpairwise.2, ?_⟩
  cases hakm : akmSuite sm.keyMgmt with
  | none =>
    rw [hakm] at h
    cases h
  | some akm =>
    rw [hakm] at h
    simp only [Option.ite_none_right_eq_some, Option.some.injEq] at h
    refine ⟨akm, rfl, ?_⟩
    rw [← h.2]
    simp only [genFields, counted_single, List.append_assoc]

/-- The element written for a configuration with one AKM, other than CCKM, is parsed as this
configuration. -/
theorem wpaParseWpaIe_wpaGenWpaIeRsn (n : ℕ) (sm : SuppSm) (ie : Bytes)
    (hgen : wpaGenWpaIeRsn n sm = some ie) (hgroup : wpaCipherValidGroup sm.groupCipher = true)
    (hcckm : sm.keyMgmt ≠ keyMgmtCckm) (hsingle : ∃ k, sm.keyMgmt = 2 ^ k) :
    ∃ d, wpaParseWpaIe ie = .ok d ∧ d.keyMgmt = sm.keyMgmt ∧
      d.pairwiseCipher = sm.pairwiseCipher ∧ d.groupCipher = sm.groupCipher ∧
      d.capabilities = rsnSuppCapab sm ∧
      (wpaCipherValidMgmtGroup sm.mgmtGroupCipher = true →
        d.mgmtGroupCipher = sm.mgmtGroupCipher) ∧
      pmkidList ie d = (sm.curPmksa.map Subtype.val).toList := by
  obtain ⟨hpairwise, akm, hakm, hie⟩ := wpaGenWpaIeRsn_cases hgen
  obtain ⟨k, hk⟩ := hsingle
  obtain ⟨hgroupLt, hgroupRead⟩ := group_suite hgroup
  obtain ⟨hpairwiseLt, hpairwiseRead, hcmac⟩ := pairwise_suite hpairwise
  obtain ⟨hakmLt, hakmRead⟩ := akm_suite hakm hk hcckm
  have hone : ∀ s : ℕ, s < 2 ^ 32 → ∀ x ∈ [s], x < 2 ^ 32 := by
    intro s hs x hx
    exact List.mem_singleton.mp hx ▸ hs
  have hfront : ie = [UInt8.ofNat eidRsn, UInt8.ofNat ((genFields sm akm).length + 2)] ++
      ofLe16 rsnVersion ++ (ofBeNat (wpaCipherToSuite .rsn sm.groupCipher) 4 ++
        counted [wpaCipherToSuite .rsn sm.pairwiseCipher] ++ counted [akm] ++
        ofLe16 (rsnSuppCapab sm)) ++ (pmkidPart sm ++ mgmtGroupPart sm) := by
    rw [hie]
    simp only [genFields, List.append_assoc]
  have htail := tail_described (d :=
    { groupCipher := rsnSelectorToBitfield (wpaCipherToSuite .rsn sm.groupCipher)
      hasGroup := true
      pairwiseCipher := rsnSelectorToBitfield (wpaCipherToSuite .rsn sm.pairwiseCipher)
      hasPairwise := true
      keyMgmt := rsnKeyMgmtToBitfield akm
      capabilities := rsnSuppCapab sm }) sm rfl hfront
  obtain ⟨d₅, d, h₅, h₆, hkey, hpair, hgrp, hcap, hmgmt, hpmkids⟩ := htail
  -- the fields in their order
  have hbody : Body ie.length {} (genFields sm akm) d := by
    refine ⟨_, _, _, _, _, _, _, _, _, _, .present _ _ hgroupLt (by rwa [hgroupRead]),
      .present [_] _ _ (by simp) (by simp) (hone _ hpairwiseLt) (isUnion_single _ _) ?_,
      .present [_] _ _ (by simp) (by simp) (hone _ hakmLt) (isUnion_single _ _),
      .present _ _ (rsnSuppCapab_lt sm), h₅, h₆⟩
    intro s hs
    rw [List.mem_singleton.mp hs, hpairwiseRead]
    exact hcmac
  have hheader : RsnHeader ie {} (genFields sm akm) := hie ▸ .mk _ (genFields_length sm akm)
  have hparse : wpaParseWpaIeRsn ie = .ok d :=
    wpaParseWpaIeRsn_eq_ok_iff.mpr ⟨_, _, Or.inl hheader, hbody⟩
  refine ⟨d, ?_, hkey.trans hakmRead, hpair.trans hpairwiseRead, hgrp.trans hgroupRead, hcap, hmgmt,
    hpmkids⟩
  have hrsn : ie.length ≥ 1 ∧ ie.byteAt 0 = eidRsn := by
    rw [hie]
    exact ⟨by simp, rfl⟩
  rw [wpaParseWpaIe, if_pos hrsn, hparse]

def saeSm : SuppSm :=
  { pairwiseCipher := cipherCcmp
    groupCipher := cipherCcmp
    keyMgmt := keyMgmtSae
    mgmtGroupCipher := cipherAes128Cmac
    mfp := 2
    ocv := false
    extKeyId := false
    curPmksa := none }

theorem wpaParseWpaIe_wpaGenWpaIeRsn_sae :
    ∃ ie d, wpaGenWpaIeRsn 80 saeSm = some ie ∧ wpaParseWpaIe ie = .ok d ∧
      d.keyMgmt = keyMgmtSae ∧ pmkidList ie d = [] := by
  obtain ⟨d, hparse, hkey, -, -, -, -, hpmkids⟩ := wpaParseWpaIe_wpaGenWpaIeRsn 80 saeSm _ rfl
    (by decide) (by decide) ⟨10, rfl⟩
  exact ⟨_, d, rfl, hparse, hkey, hpmkids⟩

/-- Two AKMs at once, which the tests with `&` let pass. -/
def filsPskSm : SuppSm := { saeSm with keyMgmt := keyMgmtFilsSha256 ||| keyMgmtPsk }

theorem two_akms_read_as_one :
    wpaCipherValidGroup filsPskSm.groupCipher = true ∧ filsPskSm.keyMgmt ≠ keyMgmtCckm ∧
      ∃ ie d, wpaGenWpaIeRsn 80 filsPskSm = some ie ∧ wpaParseWpaIe ie = .ok d ∧
        d.keyMgmt ≠ filsPskSm.keyMgmt := by
  have hrun : ((wpaGenWpaIeRsn 80 filsPskSm).bind fun ie => (wpaParseWpaIe ie).toOption.map
      WpaIeData.keyMgmt) = some keyMgmtFilsSha256 := by
    decide
  obtain ⟨ie, hgen, hread⟩ := Option.bind_eq_some_iff.mp hrun
  obtain ⟨d, hparse, hkey⟩ := Option.map_eq_some_iff.mp hread
  refine ⟨by decide, by decide, ie, d, hgen, ?_, ?_⟩
  · cases hok : wpaParseWpaIe ie with
    | error e =>
      rw [hok] at hparse
      cases hparse
    | ok d' =>
      rw [hok] at hparse
      obtain rfl := Option.some.inj hparse
      rfl
  · rw [hkey]
    decide

end Wpa.Rsne
