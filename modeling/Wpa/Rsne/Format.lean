import Mathlib.Data.Nat.Bitwise
import Wpa.Common.RsnIe
import Wpa.Lib.Reads

/-! What an RSN element says, as a relation between octet strings and the data in
`struct wpa_ie_data`: one relation a field, in the order of the fields, from what is left of the
element before the field to what is left after it. `wpa_parse_wpa_ie_rsn` is then shown to compute
the relation. -/

namespace Wpa.Rsne
open Lib Bytes

/-- `u` has the bits of all of `bits`. -/
def IsUnion (u : ℕ) (bits : List ℕ) : Prop := ∀ k, u.testBit k = bits.any fun b => b.testBit k

theorem IsUnion.unique {u u' : ℕ} {bits : List ℕ} (h : IsUnion u bits) (h' : IsUnion u' bits) :
    u = u' := Nat.eq_of_testBit_eq fun k => (h k).trans (h' k).symm

theorem isUnion_foldl (toBit : ℕ → ℕ) (selectors : List ℕ) :
    IsUnion (selectors.foldl (fun acc s => acc ||| toBit s) 0) (selectors.map toBit) := by
  have hfold : ∀ acc k, (selectors.foldl (fun acc s => acc ||| toBit s) acc).testBit k =
      (acc.testBit k || (selectors.map toBit).any fun b => b.testBit k) := by
    induction selectors with
    | nil => simp
    | cons s selectors ih =>
      intro acc k
      rw [List.foldl_cons, ih, Nat.testBit_or, List.map_cons, List.any_cons, Bool.or_assoc]
  intro k
  rw [hfold, Nat.zero_testBit, Bool.false_or]

/-- A count and so many suite selectors. -/
def counted (selectors : List ℕ) : Bytes :=
  ofLe16 selectors.length ++ selectors.flatMap fun s => ofBeNat s 4

inductive GroupField (d : WpaIeData) : Bytes → WpaIeData → Bytes → Prop
  | absent : GroupField d [] d []
  | present (s : ℕ) (rest : Bytes) (hs : s < 2 ^ 32)
      (hvalid : wpaCipherValidGroup (rsnSelectorToBitfield s)) :
      GroupField d (ofBeNat s 4 ++ rest)
        { d with groupCipher := rsnSelectorToBitfield s, hasGroup := true } rest

inductive PairwiseField (d : WpaIeData) : Bytes → WpaIeData → Bytes → Prop
  | absent : PairwiseField d [] d []
  | present (selectors : List ℕ) (u : ℕ) (rest : Bytes) (hne : selectors ≠ [])
      (hcount : selectors.length < 65536) (hs : ∀ s ∈ selectors, s < 2 ^ 32)
      (hunion : IsUnion u (selectors.map rsnSelectorToBitfield))
      (hvalid : ∀ s ∈ selectors, rsnSelectorToBitfield s ≠ cipherAes128Cmac) :
      PairwiseField d (counted selectors ++ rest)
        { d with pairwiseCipher := u, hasPairwise := true } rest

inductive KeyMgmtField (d : WpaIeData) : Bytes → WpaIeData → Bytes → Prop
  | absent : KeyMgmtField d [] d []
  | present (selectors : List ℕ) (u : ℕ) (rest : Bytes) (hne : selectors ≠ [])
      (hcount : selectors.length < 65536) (hs : ∀ s ∈ selectors, s < 2 ^ 32)
      (hunion : IsUnion u (selectors.map rsnKeyMgmtToBitfield)) :
      KeyMgmtField d (counted selectors ++ rest) { d with keyMgmt := u } rest

inductive CapabilitiesField (d : WpaIeData) : Bytes → WpaIeData → Bytes → Prop
  | absent (rest : Bytes) (hshort : rest.length < 2) : CapabilitiesField d rest d rest
  | present (capab : ℕ) (rest : Bytes) (hcapab : capab < 65536) :
      CapabilitiesField d (ofLe16 capab ++ rest) { d with capabilities := capab } rest

/-- The PMKID list of an element of `n` octets. -/
inductive PmkidField (n : ℕ) (d : WpaIeData) : Bytes → WpaIeData → Bytes → Prop
  | absent (rest : Bytes) (hshort : rest.length < 2) : PmkidField n d rest d rest
  | present (pmkids rest : Bytes) (num : ℕ) (hnum : num < 65536)
      (hlen : pmkids.length = num * pmkidLen) :
      PmkidField n d (ofLe16 num ++ (pmkids ++ rest))
        { d with numPmkid := num, pmkid := some (n - (pmkids ++ rest).length) } rest

/-- What is left after the last field is ignored. -/
inductive MgmtGroupField (d : WpaIeData) : Bytes → WpaIeData → Prop
  | absent (rest : Bytes) (hshort : rest.length < 4) : MgmtGroupField d rest d
  | present (s : ℕ) (rest : Bytes) (hs : s < 2 ^ 32)
      (hvalid : wpaCipherValidMgmtGroup (rsnSelectorToBitfield s)) :
      MgmtGroupField d (ofBeNat s 4 ++ rest) { d with mgmtGroupCipher := rsnSelectorToBitfield s }

/-- All fields after the header, of an element of `n` octets. -/
def Body (n : ℕ) (d₀ : WpaIeData) (body : Bytes) (d : WpaIeData) : Prop :=
  ∃ d₁ r₁ d₂ r₂ d₃ r₃ d₄ r₄ d₅ r₅, GroupField d₀ body d₁ r₁ ∧ PairwiseField d₁ r₁ d₂ r₂ ∧
    KeyMgmtField d₂ r₂ d₃ r₃ ∧ CapabilitiesField d₃ r₃ d₄ r₄ ∧ PmkidField n d₄ r₄ d₅ r₅ ∧
    MgmtGroupField d₅ r₅ d

/-- The header of a version 1 RSNE. -/
inductive RsnHeader : Bytes → WpaIeData → Bytes → Prop
  | mk (body : Bytes) (hlen : body.length + 2 < 256) :
      RsnHeader ([UInt8.ofNat eidRsn, UInt8.ofNat (body.length + 2)] ++ ofLe16 rsnVersion ++ body)
        {} body

def osenData : WpaIeData :=
  { groupCipher := cipherGtkNotUsed, hasGroup := true, keyMgmt := keyMgmtOsen, proto := .osen }

/-- The headers of the OSEN and the RSNE Override elements, with the element ID `id`. -/
inductive VendorHeader (id : UInt8) : Bytes → WpaIeData → Bytes → Prop
  | osen (body : Bytes) (hlen : body.length + 4 < 256) :
      VendorHeader id ([id, UInt8.ofNat (body.length + 4)] ++ ofBeNat osenIeVendorType 4 ++ body)
        osenData body
  | override (type : ℕ)
      (htype : type = rsneOverrideIeVendorType ∨ type = rsneOverride2IeVendorType) (body : Bytes)
      (hlen : body.length + 6 < 256) :
      VendorHeader id ([id, UInt8.ofNat (body.length + 6)] ++ ofBeNat type 4 ++ ofLe16 rsnVersion ++
        body) {} body

/-- The element `ie` is a well-formed RSNE, OSEN or RSNE Override element that says `d`. -/
def Describes (ie : Bytes) (d : WpaIeData) : Prop :=
  ∃ d₀ body, (RsnHeader ie d₀ body ∨ VendorHeader (UInt8.ofNat eidVendorSpecific) ie d₀ body) ∧
    Body ie.length d₀ body d

section Cursor
variable {ie : Bytes} {c : RsnCursor}

def Inside (ie : Bytes) (c : RsnCursor) : Prop := c.pos + c.left = ie.length

def left (ie : Bytes) (c : RsnCursor) : Bytes := ie.drop c.pos

theorem left_length (h : Inside ie c) : (left ie c).length = c.left := by
  unfold Inside at h
  rw [left, List.length_drop]
  omega

theorem inside_skip (h : Inside ie c) {n : ℕ} (hn : n ≤ c.left) : Inside ie (c.skip n) := by
  unfold Inside RsnCursor.skip at *
  dsimp only
  omega

theorem left_skip (n : ℕ) : left ie (c.skip n) = (left ie c).drop n := by
  rw [left, left, RsnCursor.skip, List.drop_drop]

theorem be32_left : ie.be32 c.pos = (left ie c).be32 0 := (be32_drop ie c.pos 0).symm

theorem le16_left : ie.le16 c.pos = (left ie c).le16 0 := (le16_drop ie c.pos 0).symm

/-- The selectors spelled by the first `4 * count` octets. -/
def selectorsOf (b : Bytes) (count : ℕ) : List ℕ := (List.range count).map fun i => b.be32 (4 * i)

theorem selectorsOf_succ (b : Bytes) (count : ℕ) :
    selectorsOf b (count + 1) = b.be32 0 :: selectorsOf (b.drop 4) count := by
  rw [selectorsOf, List.range_succ_eq_map, List.map_cons, List.map_map]
  refine congrArg₂ _ rfl (List.map_congr_left fun i _ => ?_)
  rw [be32_drop, Function.comp_apply]
  congr 1
  omega

theorem selectorsOf_spelled {b : Bytes} {count : ℕ} (h : 4 * count ≤ b.length) :
    ((selectorsOf b count).flatMap fun s => ofBeNat s 4) = b.take (4 * count) := by
  induction count generalizing b with
  | zero => simp [selectorsOf]
  | succ count ih =>
    have hfour : 4 ≤ b.length := by omega
    have hrest : 4 * count ≤ (b.drop 4).length := by
      rw [List.length_drop]
      omega
    have hspell := ofBeNat_be32 hfour
    rw [selectorsOf_succ, List.flatMap_cons, ih hrest]
    conv_rhs => rw [← hspell]
    rw [show 4 * (count + 1) = (ofBeNat (b.be32 0) 4).length + 4 * count by simp; omega,
      List.take_length_add_append]

theorem selectorsOf_flatMap {selectors : List ℕ} (hs : ∀ s ∈ selectors, s < 2 ^ 32) (rest : Bytes) :
    selectorsOf ((selectors.flatMap fun s => ofBeNat s 4) ++ rest) selectors.length = selectors := by
  induction selectors with
  | nil => rfl
  | cons s selectors ih =>
    obtain ⟨hs, hrest⟩ := List.forall_mem_cons.mp hs
    rw [List.length_cons, selectorsOf_succ, List.flatMap_cons, List.append_assoc, be32_ofBeNat hs,
      List.drop_left' (ofBeNat_length s 4), ih hrest]

theorem suiteUnion_eq (toBit : ℕ → ℕ) (pos count : ℕ) :
    suiteUnion toBit ie pos count =
      (selectorsOf (ie.drop pos) count).foldl (fun acc s => acc ||| toBit s) 0 := by
  rw [suiteUnion, selectorsOf, List.foldl_map]
  simp only [be32_drop]

end Cursor

section Fields
variable {ie : Bytes} {c c' : RsnCursor} {d d' : WpaIeData} {rest' : Bytes}

/-- A position reached by reading `n` octets. -/
theorem skip_reaches (h : Inside ie c) {n : ℕ} {front : Bytes} (hfront : front.length = n)
    (hleft : left ie c = front ++ rest') :
    Inside ie (c.skip n) ∧ left ie (c.skip n) = rest' := by
  have hlen := left_length h
  rw [hleft, List.length_append, hfront] at hlen
  refine ⟨inside_skip h (by omega), ?_⟩
  rw [left_skip, hleft, List.drop_left' hfront]

theorem left_eq_nil (h : Inside ie c) (hleft : c.left = 0) : left ie c = [] :=
  List.length_eq_zero_iff.mp ((left_length h).trans hleft)

theorem group_sound (h : Inside ie c) (hok : rsnIeGroup ie d c = .ok (d', c')) :
    Inside ie c' ∧ GroupField d (left ie c) d' (left ie c') := by
  have hlen := left_length h
  simp only [rsnIeGroup] at hok
  split_ifs at hok with hfour hvalid hsome
  · obtain ⟨rfl, rfl⟩ := Prod.mk.inj (Except.ok.inj hok)
    refine ⟨inside_skip h hfour, ?_⟩
    rw [left_skip, be32_left]
    rw [be32_left] at hvalid
    have hspell := ofBeNat_be32 (b := left ie c) (by omega)
    conv => arg 2; rw [← hspell]
    exact .present _ _ (be32_lt _ _) hvalid
  · obtain ⟨rfl, rfl⟩ := Prod.mk.inj (Except.ok.inj hok)
    refine ⟨h, ?_⟩
    rw [left_eq_nil h (by omega)]
    exact .absent

theorem group_complete (h : Inside ie c) {rest : Bytes} (hleft : left ie c = rest)
    (hfield : GroupField d rest d' rest') :
    ∃ c', rsnIeGroup ie d c = .ok (d', c') ∧ Inside ie c' ∧ left ie c' = rest' := by
  have hlen := left_length h
  cases hfield with
  | absent =>
    rw [hleft, List.length_nil] at hlen
    refine ⟨c, ?_, h, hleft⟩
    simp [rsnIeGroup, ← hlen]
  | present s _ hs hvalid =>
    refine ⟨c.skip 4, ?_, skip_reaches h (ofBeNat_length s 4) hleft⟩
    have hfour : c.left ≥ 4 := by
      rw [hleft, List.length_append, ofBeNat_length] at hlen
      omega
    have hsel : ie.be32 c.pos = s := by
      rw [be32_left, hleft, be32_ofBeNat hs]
    simp only [rsnIeGroup, if_pos hfour, hsel, if_pos hvalid]

/-- A list whose count fits is spelled by what is left of the element. -/
theorem counted_sound (h : Inside ie c) (htwo : c.left ≥ 2)
    (hcount : ¬ (ie.le16 c.pos = 0 ∨ ie.le16 c.pos > (c.skip 2).left / 4)) :
    ∃ selectors, selectors ≠ [] ∧ selectors.length = ie.le16 c.pos ∧ (∀ s ∈ selectors, s < 2 ^ 32) ∧
      selectors = selectorsOf (ie.drop (c.skip 2).pos) (ie.le16 c.pos) ∧
      Inside ie ((c.skip 2).skip (4 * ie.le16 c.pos)) ∧
      left ie c = counted selectors ++ left ie ((c.skip 2).skip (4 * ie.le16 c.pos)) := by
  set count := ie.le16 c.pos with hcountdef
  have hskip := inside_skip h htwo
  have hlen := left_length h
  have hlen₂ := left_length hskip
  have hfits : 4 * count ≤ (c.skip 2).left := by omega
  have hlength : (selectorsOf (left ie (c.skip 2)) count).length = count := by simp [selectorsOf]
  refine ⟨selectorsOf (left ie (c.skip 2)) count, ?_, hlength, ?_, rfl, inside_skip hskip hfits, ?_⟩
  · intro hnil
    rw [hnil, List.length_nil] at hlength
    omega
  · intro s hs
    obtain ⟨i, -, rfl⟩ := List.mem_map.mp hs
    exact be32_lt _ _
  · have hspell := ofLe16_le16 (b := left ie c) (by omega)
    rw [← le16_left, ← hcountdef] at hspell
    rw [counted, hlength, selectorsOf_spelled (by omega), List.append_assoc, left_skip (4 * count),
      List.take_append_drop, left_skip, hspell]

theorem counted_complete (h : Inside ie c) {selectors : List ℕ} (hne : selectors ≠ [])
    (hcount : selectors.length < 65536) (hs : ∀ s ∈ selectors, s < 2 ^ 32)
    (hleft : left ie c = counted selectors ++ rest') :
    c.left ≥ 2 ∧ ie.le16 c.pos = selectors.length ∧
      ¬ (selectors.length = 0 ∨ selectors.length > (c.skip 2).left / 4) ∧
      selectorsOf (ie.drop (c.skip 2).pos) selectors.length = selectors ∧
      Inside ie ((c.skip 2).skip (4 * selectors.length)) ∧
      left ie ((c.skip 2).skip (4 * selectors.length)) = rest' := by
  have hspelled : (selectors.flatMap fun s => ofBeNat s 4).length = 4 * selectors.length := by
    rw [List.length_flatMap]
    simp [Nat.mul_comm]
  have hlen := left_length h
  rw [counted, List.append_assoc] at hleft
  rw [hleft, List.length_append, ofLe16_length, List.length_append, hspelled] at hlen
  have hpos := List.length_pos_of_ne_nil hne
  obtain ⟨hskip, hleft₂⟩ := skip_reaches h (ofLe16_length _) hleft
  have hleft₂' : (c.skip 2).left = 4 * selectors.length + rest'.length := by
    have := left_length hskip
    rw [hleft₂, List.length_append, hspelled] at this
    exact this.symm
  refine ⟨by omega, ?_, ?_, ?_, skip_reaches hskip hspelled hleft₂⟩
  · rw [le16_left, hleft, le16_ofLe16 hcount]
  · rw [hleft₂']
    omega
  · show selectorsOf (left ie (c.skip 2)) selectors.length = selectors
    rw [hleft₂, selectorsOf_flatMap hs]

theorem hasBits_two_pow (u k : ℕ) : hasBits u (2 ^ k) = u.testBit k := by
  rw [hasBits, Nat.and_two_pow]
  cases u.testBit k <;> simp

theorem ite_mem {l : List ℕ} {p : Prop} [Decidable p] {a b : ℕ} (ha : a ∈ l) (hb : b ∈ l) :
    (if p then a else b) ∈ l := by
  by_cases hp : p
  · rwa [if_pos hp]
  · rwa [if_neg hp]

/-- The values of `rsn_selector_to_bitfield`. -/
def cipherBits : List ℕ :=
  [cipherNone, cipherTkip, cipherCcmp, cipherAes128Cmac, cipherGcmp, cipherCcmp256, cipherGcmp256,
    cipherBipGmac128, cipherBipGmac256, cipherBipCmac256, cipherGtkNotUsed, 0]

theorem rsnSelectorToBitfield_mem (s : ℕ) : rsnSelectorToBitfield s ∈ cipherBits := by
  unfold rsnSelectorToBitfield
  repeat' apply ite_mem
  all_goals decide

theorem testBit_cmac (s : ℕ) :
    (rsnSelectorToBitfield s).testBit 5 = true ↔ rsnSelectorToBitfield s = cipherAes128Cmac := by
  have hall : ∀ v ∈ cipherBits, v.testBit 5 = true ↔ v = cipherAes128Cmac := by decide
  exact hall _ (rsnSelectorToBitfield_mem s)

theorem hasBits_cmac {u : ℕ} {selectors : List ℕ}
    (hu : IsUnion u (selectors.map rsnSelectorToBitfield)) :
    hasBits u cipherAes128Cmac = true ↔
      ∃ s ∈ selectors, rsnSelectorToBitfield s = cipherAes128Cmac := by
  rw [cipherAes128Cmac, hasBits_two_pow, hu, List.any_map, List.any_eq_true]
  exact exists_congr fun s => and_congr_right fun _ => testBit_cmac s

theorem pairwise_sound (h : Inside ie c) (hok : rsnIePairwise ie d c = .ok (d', c')) :
    Inside ie c' ∧ PairwiseField d (left ie c) d' (left ie c') := by
  simp only [rsnIePairwise] at hok
  split_ifs at hok with htwo hcount hcmac hone
  · obtain ⟨rfl, rfl⟩ := Prod.mk.inj (Except.ok.inj hok)
    obtain ⟨selectors, hne, hlength, hs, hsel, hinside, hleft⟩ := counted_sound h htwo hcount
    have hunion := isUnion_foldl rsnSelectorToBitfield selectors
    rw [suiteUnion_eq, ← hsel] at hcmac ⊢
    refine ⟨hinside, ?_⟩
    conv => arg 2; rw [hleft]
    refine .present selectors _ _ hne (hlength ▸ le16_lt _ _) hs hunion fun s hmem hbad => ?_
    exact hcmac ((hasBits_cmac hunion).mpr ⟨s, hmem, hbad⟩)
  · obtain ⟨rfl, rfl⟩ := Prod.mk.inj (Except.ok.inj hok)
    refine ⟨h, ?_⟩
    rw [left_eq_nil h (by omega)]
    exact .absent

theorem pairwise_complete (h : Inside ie c) {rest : Bytes} (hleft : left ie c = rest)
    (hfield : PairwiseField d rest d' rest') :
    ∃ c', rsnIePairwise ie d c = .ok (d', c') ∧ Inside ie c' ∧ left ie c' = rest' := by
  cases hfield with
  | absent =>
    have hlen := left_length h
    rw [hleft, List.length_nil] at hlen
    refine ⟨c, ?_, h, hleft⟩
    simp [rsnIePairwise, ← hlen]
  | present selectors u _ hne hcount hs hunion hvalid =>
    obtain ⟨htwo, hread, hfits, hsel, hinside, hrest⟩ := counted_complete h hne hcount hs hleft
    refine ⟨_, ?_, hinside, hrest⟩
    have hu : suiteUnion rsnSelectorToBitfield ie (c.skip 2).pos selectors.length = u := by
      rw [suiteUnion_eq, hsel]
      exact (isUnion_foldl _ _).unique hunion
    have hcmac : ¬ hasBits u cipherAes128Cmac = true := fun hb => by
      obtain ⟨s, hmem, hbad⟩ := (hasBits_cmac hunion).mp hb
      exact hvalid s hmem hbad
    simp only [rsnIePairwise, if_pos htwo, hread, if_neg hfits, hu, if_neg hcmac]

theorem keyMgmt_sound (h : Inside ie c) (hok : rsnIeKeyMgmt ie d c = .ok (d', c')) :
    Inside ie c' ∧ KeyMgmtField d (left ie c) d' (left ie c') := by
  simp only [rsnIeKeyMgmt] at hok
  split_ifs at hok with htwo hcount hone
  · obtain ⟨rfl, rfl⟩ := Prod.mk.inj (Except.ok.inj hok)
    obtain ⟨selectors, hne, hlength, hs, hsel, hinside, hleft⟩ := counted_sound h htwo hcount
    refine ⟨hinside, ?_⟩
    rw [suiteUnion_eq, ← hsel]
    conv => arg 2; rw [hleft]
    exact .present selectors _ _ hne (hlength ▸ le16_lt _ _) hs (isUnion_foldl _ _)
  · obtain ⟨rfl, rfl⟩ := Prod.mk.inj (Except.ok.inj hok)
    refine ⟨h, ?_⟩
    rw [left_eq_nil h (by omega)]
    exact .absent

theorem keyMgmt_complete (h : Inside ie c) {rest : Bytes} (hleft : left ie c = rest)
    (hfield : KeyMgmtField d rest d' rest') :
    ∃ c', rsnIeKeyMgmt ie d c = .ok (d', c') ∧ Inside ie c' ∧ left ie c' = rest' := by
  cases hfield with
  | absent =>
    have hlen := left_length h
    rw [hleft, List.length_nil] at hlen
    refine ⟨c, ?_, h, hleft⟩
    simp [rsnIeKeyMgmt, ← hlen]
  | present selectors u _ hne hcount hs hunion =>
    obtain ⟨htwo, hread, hfits, hsel, hinside, hrest⟩ := counted_complete h hne hcount hs hleft
    refine ⟨_, ?_, hinside, hrest⟩
    have hu : suiteUnion rsnKeyMgmtToBitfield ie (c.skip 2).pos selectors.length = u := by
      rw [suiteUnion_eq, hsel]
      exact (isUnion_foldl _ _).unique hunion
    simp only [rsnIeKeyMgmt, if_pos htwo, hread, if_neg hfits, hu]

theorem capabilities_sound (h : Inside ie c) :
    Inside ie (rsnIeCapabilities ie d c).2 ∧ CapabilitiesField d (left ie c)
      (rsnIeCapabilities ie d c).1 (left ie (rsnIeCapabilities ie d c).2) := by
  have hlen := left_length h
  unfold rsnIeCapabilities
  split_ifs with htwo
  · refine ⟨inside_skip h htwo, ?_⟩
    have hspell := ofLe16_le16 (b := left ie c) (by omega)
    dsimp only
    rw [left_skip, le16_left]
    conv => arg 2; rw [← hspell]
    exact .present _ _ (le16_lt _ _)
  · exact ⟨h, .absent _ (by omega)⟩

theorem capabilities_complete (h : Inside ie c) {rest : Bytes} (hleft : left ie c = rest)
    (hfield : CapabilitiesField d rest d' rest') :
    ∃ c', rsnIeCapabilities ie d c = (d', c') ∧ Inside ie c' ∧ left ie c' = rest' := by
  have hlen := left_length h
  rw [hleft] at hlen
  cases hfield with
  | absent _ hshort =>
    refine ⟨c, ?_, h, hleft⟩
    rw [rsnIeCapabilities, if_neg (by omega)]
  | present capab _ hcapab =>
    refine ⟨c.skip 2, ?_, skip_reaches h (ofLe16_length _) hleft⟩
    have htwo : c.left ≥ 2 := by
      rw [List.length_append, ofLe16_length] at hlen
      omega
    rw [rsnIeCapabilities, if_pos htwo, le16_left, hleft, le16_ofLe16 hcapab]

theorem pmkid_sound (h : Inside ie c) (hok : rsnIePmkid ie d c = .ok (d', c')) :
    Inside ie c' ∧ PmkidField ie.length d (left ie c) d' (left ie c') := by
  have hlen := left_length h
  simp only [rsnIePmkid] at hok
  split_ifs at hok with htwo hcount
  · obtain ⟨rfl, rfl⟩ := Prod.mk.inj (Except.ok.inj hok)
    have hskip := inside_skip h htwo
    have hlen₂ := left_length hskip
    set num := ie.le16 c.pos with hnum
    have hfits : num * pmkidLen ≤ (c.skip 2).left := by
      unfold pmkidLen at *
      omega
    refine ⟨inside_skip hskip hfits, ?_⟩
    have hspell := ofLe16_le16 (b := left ie c) (by omega)
    rw [← le16_left, ← hnum, ← left_skip,
      ← List.take_append_drop (num * pmkidLen) (left ie (c.skip 2))] at hspell
    have hpos : (c.skip 2).pos = ie.length - ((left ie (c.skip 2)).take (num * pmkidLen) ++
        (left ie (c.skip 2)).drop (num * pmkidLen)).length := by
      rw [List.take_append_drop, hlen₂]
      unfold Inside at hskip
      omega
    rw [left_skip (c := c.skip 2), hpos]
    conv => arg 3; rw [← hspell]
    refine .present _ _ num (le16_lt _ _) ?_
    rw [List.length_take]
    omega
  · obtain ⟨rfl, rfl⟩ := Prod.mk.inj (Except.ok.inj hok)
    exact ⟨h, .absent _ (by omega)⟩

theorem pmkid_complete (h : Inside ie c) {rest : Bytes} (hleft : left ie c = rest)
    (hfield : PmkidField ie.length d rest d' rest') :
    ∃ c', rsnIePmkid ie d c = .ok (d', c') ∧ Inside ie c' ∧ left ie c' = rest' := by
  have hlen := left_length h
  cases hfield with
  | absent _ hshort =>
    rw [hleft] at hlen
    refine ⟨c, ?_, h, hleft⟩
    rw [rsnIePmkid, if_neg (by omega)]
  | present pmkids _ num hnum hpmkids =>
    rw [hleft, List.length_append, ofLe16_length] at hlen
    obtain ⟨hskip, hleft₂⟩ := skip_reaches h (ofLe16_length _) hleft
    have hlen₂ := left_length hskip
    rw [hleft₂, List.length_append, hpmkids] at hlen₂
    refine ⟨(c.skip 2).skip (num * pmkidLen), ?_, skip_reaches hskip hpmkids hleft₂⟩
    have htwo : c.left ≥ 2 := by omega
    have hread : ie.le16 c.pos = num := by rw [le16_left, hleft, le16_ofLe16 hnum]
    have hfits : ¬ num > (c.skip 2).left / pmkidLen := by
      unfold pmkidLen at *
      omega
    have hpos : (c.skip 2).pos = ie.length - (pmkids ++ rest').length := by
      rw [List.length_append, hpmkids]
      unfold Inside at hskip
      omega
    simp only [rsnIePmkid, if_pos htwo, hread, if_neg hfits, hpos]

theorem mgmtGroup_sound (h : Inside ie c) (hok : rsnIeMgmtGroup ie d c = .ok d') :
    MgmtGroupField d (left ie c) d' := by
  have hlen := left_length h
  simp only [rsnIeMgmtGroup] at hok
  split_ifs at hok with hfour hvalid
  · obtain rfl := Except.ok.inj hok
    have hspell := ofBeNat_be32 (b := left ie c) (by omega)
    rw [be32_left] at hvalid ⊢
    conv => arg 2; rw [← hspell]
    exact .present _ _ (be32_lt _ _) hvalid
  · obtain rfl := Except.ok.inj hok
    exact .absent _ (by omega)

theorem mgmtGroup_complete (h : Inside ie c) {rest : Bytes} (hleft : left ie c = rest)
    (hfield : MgmtGroupField d rest d') : rsnIeMgmtGroup ie d c = .ok d' := by
  have hlen := left_length h
  rw [hleft] at hlen
  cases hfield with
  | absent _ hshort => rw [rsnIeMgmtGroup, if_neg (by omega)]
  | present s rest hs hvalid =>
    have hfour : c.left ≥ 4 := by
      rw [List.length_append, ofBeNat_length] at hlen
      omega
    have hsel : ie.be32 c.pos = s := by
      rw [be32_left, hleft, be32_ofBeNat hs]
    simp only [rsnIeMgmtGroup, if_pos hfour, hsel, if_pos hvalid]

end Fields

section Header
variable {ie : Bytes} {d : WpaIeData} {c : RsnCursor}

theorem be32_cons_cons (x y : UInt8) (rest : Bytes) : be32 (x :: y :: rest) 2 = be32 rest 0 :=
  (be32_drop (x :: y :: rest) 2 0).symm

theorem le16_cons_cons (x y : UInt8) (rest : Bytes) (k : ℕ) :
    le16 (x :: y :: rest) (2 + k) = le16 (rest.drop k) 0 := by
  rw [le16_drop, ← le16_drop (x :: y :: rest) 2 k]
  rfl

/-- A length octet that is right, with `k` octets of the header after it. -/
theorem lenOctet {x y : UInt8} {rest : Bytes} {k : ℕ} (hk : k ≤ rest.length)
    (hlen : byteAt (x :: y :: rest) 1 = (x :: y :: rest).length - 2) :
    (rest.drop k).length + k < 256 ∧ y = UInt8.ofNat ((rest.drop k).length + k) := by
  have hy := y.toNat_lt
  have hlen' : y.toNat = rest.length := by simpa [byteAt] using hlen
  have hbody : (rest.drop k).length + k = y.toNat := by
    rw [List.length_drop, hlen']
    omega
  rw [hbody, UInt8.ofNat_toNat]
  exact ⟨hy, rfl⟩

theorem header_sound (hok : rsnIeHeader ie = .ok (d, c)) :
    Inside ie c ∧ (RsnHeader ie d (left ie c) ∨ ∃ id, VendorHeader id ie d (left ie c)) := by
  simp only [rsnIeHeader] at hok
  split_ifs at hok with hzero hshort hosen hoverride hrsn
  · obtain ⟨rfl, rfl⟩ := Prod.mk.inj (Except.ok.inj hok)
    obtain ⟨hsix, -, hlen, htype⟩ := hosen
    refine ⟨by unfold Inside; dsimp only; omega, Or.inr ?_⟩
    obtain _ | ⟨x, _ | ⟨y, rest⟩⟩ := ie
    · simp at hsix
    · simp at hsix
    · have hfour : 4 ≤ List.length rest := by
        simp only [List.length_cons] at hsix
        omega
      obtain ⟨hsmall, hy⟩ := lenOctet hfour hlen
      have hspell := ofBeNat_be32 hfour
      rw [be32_cons_cons] at htype
      rw [htype] at hspell
      have hheader : VendorHeader x _ osenData (rest.drop 4) := .osen (rest.drop 4) hsmall
      rw [← hy, List.append_assoc, hspell] at hheader
      exact ⟨x, hheader⟩
  · obtain ⟨rfl, rfl⟩ := Prod.mk.inj (Except.ok.inj hok)
    obtain ⟨height, -, hlen, htype, hversion⟩ := hoverride
    refine ⟨by unfold Inside; dsimp only; omega, Or.inr ?_⟩
    obtain _ | ⟨x, _ | ⟨y, rest⟩⟩ := ie
    · simp at height
    · simp at height
    · have hsix : 6 ≤ List.length rest := by
        simp only [List.length_cons] at height
        omega
      obtain ⟨hsmall, hy⟩ := lenOctet hsix hlen
      have hspell := ofBeNat_be32 (b := rest) (by omega)
      have hspell₂ := ofLe16_le16 (b := rest.drop 4) (by rw [List.length_drop]; omega)
      rw [← le16_cons_cons x y, hversion, List.drop_drop] at hspell₂
      rw [be32_cons_cons] at htype
      have hheader : VendorHeader x _ {} (rest.drop 6) := .override _ htype (rest.drop 6) hsmall
      rw [← hy, List.append_assoc, List.append_assoc, hspell₂, hspell] at hheader
      exact ⟨x, hheader⟩
  · obtain ⟨rfl, rfl⟩ := Prod.mk.inj (Except.ok.inj hok)
    rw [not_or, not_or, not_not, not_not, not_not] at hrsn
    obtain ⟨hid, hlen, hversion⟩ := hrsn
    refine ⟨by unfold Inside; dsimp only; omega, Or.inl ?_⟩
    obtain _ | ⟨x, _ | ⟨y, rest⟩⟩ := ie
    · simp at hshort
    · simp at hshort
    · have htwo : 2 ≤ List.length rest := by
        simp only [List.length_cons] at hshort
        omega
      obtain ⟨hsmall, hy⟩ := lenOctet htwo hlen
      have hspell := ofLe16_le16 htwo
      rw [show le16 rest 0 = rsnVersion from hversion ▸ (le16_cons_cons x y rest 0).symm] at hspell
      have hx : x = UInt8.ofNat eidRsn := by
        have hid' : x.toNat = eidRsn := by simpa [byteAt] using hid
        rw [← hid', UInt8.ofNat_toNat]
      have hheader := RsnHeader.mk (rest.drop 2) hsmall
      rw [← hx, ← hy, List.append_assoc, hspell] at hheader
      exact hheader

theorem byteAt_one_cons {x : UInt8} {n : ℕ} (hn : n < 256) (rest : Bytes) :
    byteAt (x :: UInt8.ofNat n :: rest) 1 = n := by
  simp [byteAt, UInt8.toNat_ofNat', Nat.mod_eq_of_lt hn]

theorem header_of_rsn {body : Bytes} (h : RsnHeader ie d body) :
    ∃ c, rsnIeHeader ie = .ok (d, c) ∧ Inside ie c ∧ left ie c = body := by
  obtain ⟨body, hlen⟩ := h
  set ie : Bytes := [UInt8.ofNat eidRsn, UInt8.ofNat (body.length + 2)] ++ ofLe16 rsnVersion ++ body
    with hie
  have hlength : ie.length = body.length + 4 := by
    simp only [hie, List.length_append, List.length_cons, List.length_nil, ofLe16_length]
    omega
  have hlen₁ : ie.byteAt 1 = body.length + 2 := byteAt_one_cons hlen _
  have hversion : ie.le16 2 = rsnVersion := le16_ofLe16 (by decide) body
  have hid : ie.byteAt 0 = eidRsn := rfl
  -- the third octet is that of the version, not of a vendor type
  have hthird : ∀ type, type / 2 ^ 24 = 0x50 → ie.be32 2 ≠ type := by
    intro type htype heq
    have h₂ : ie.byteAt 2 = 1 := rfl
    have h₃ := ie.byteAt_lt (2 + 1)
    have h₄ := ie.be16_lt (2 + 2)
    rw [← heq, be32, be16, h₂] at htype
    omega
  refine ⟨⟨4, ie.length - 4⟩, ?_, by unfold Inside; dsimp only; omega, rfl⟩
  simp only [rsnIeHeader]
  rw [if_neg (by omega), if_neg (by omega), if_neg (fun h => hthird _ (by decide) h.2.2.2), if_neg,
    if_neg]
  · simp only [hid, hlen₁, hversion, hlength]
    omega
  · rintro ⟨-, -, -, htype | htype, -⟩
    · exact hthird _ (by decide) htype
    · exact hthird _ (by decide) htype

theorem header_of_vendor {id : UInt8} {body : Bytes} (h : VendorHeader id ie d body) :
    ∃ c, rsnIeHeader ie = .ok (d, c) ∧ Inside ie c ∧ left ie c = body := by
  cases h with
  | osen _ hlen =>
    set ie : Bytes := [id, UInt8.ofNat (body.length + 4)] ++ ofBeNat osenIeVendorType 4 ++ body with hie
    have hlength : ie.length = body.length + 6 := by
      simp only [hie, List.length_append, List.length_cons, List.length_nil, ofBeNat_length]
      omega
    have hlen₁ : ie.byteAt 1 = body.length + 4 := byteAt_one_cons hlen _
    have htype : ie.be32 2 = osenIeVendorType := be32_ofBeNat (by decide) body
    refine ⟨⟨6, ie.length - 6⟩, ?_, by unfold Inside; dsimp only; omega, rfl⟩
    simp only [rsnIeHeader]
    rw [if_neg (by omega), if_neg (by omega), if_pos ⟨by omega, by omega, by omega, htype⟩]
    rfl
  | override type htype _ hlen =>
    set ie : Bytes := [id, UInt8.ofNat (body.length + 6)] ++ ofBeNat type 4 ++ ofLe16 rsnVersion ++ body
      with hie
    have hlength : ie.length = body.length + 8 := by
      simp only [hie, List.length_append, List.length_cons, List.length_nil, ofBeNat_length,
        ofLe16_length]
      omega
    have hlen₁ : ie.byteAt 1 = body.length + 6 := byteAt_one_cons hlen _
    have hsmall : type < 2 ^ 32 := by
      rcases htype with rfl | rfl <;> decide
    have hsplit : ie = [id, UInt8.ofNat (body.length + 6)] ++ (ofBeNat type 4 ++
        (ofLe16 rsnVersion ++ body)) := by
      simp [hie]
    have hread : ie.be32 2 = type := by
      rw [hsplit]
      exact be32_ofBeNat hsmall (ofLe16 rsnVersion ++ body)
    have hversion : ie.le16 6 = rsnVersion := by
      rw [hsplit]
      exact le16_ofLe16 (by decide) body
    have hother : ie.be32 2 ≠ osenIeVendorType := by
      rw [hread]
      rcases htype with rfl | rfl <;> decide
    refine ⟨⟨8, ie.length - 8⟩, ?_, by unfold Inside; dsimp only; omega, ?_⟩
    · simp only [rsnIeHeader]
      rw [if_neg (by omega), if_neg (by omega), if_neg fun h => hother h.2.2.2,
        if_pos ⟨by omega, by omega, by omega, hread ▸ htype, hversion⟩]
    · rw [left, hsplit]
      rfl

end Header

theorem bind_eq_ok {α β : Type} {x : Except ℤ α} {f : α → Except ℤ β} {b : β} :
    x >>= f = .ok b ↔ ∃ a, x = .ok a ∧ f a = .ok b := by
  cases x with
  | error e => simp [bind, Except.bind]
  | ok a => simp [bind, Except.bind]

/-- The part of the parser behind the header. -/
def fields (ie : Bytes) (d : WpaIeData) (c : RsnCursor) : Except ℤ WpaIeData := do
  let (d, c) ← rsnIeGroup ie d c
  let (d, c) ← rsnIePairwise ie d c
  let (d, c) ← rsnIeKeyMgmt ie d c
  let (d, c) := rsnIeCapabilities ie d c
  let (d, c) ← rsnIePmkid ie d c
  rsnIeMgmtGroup ie d c

section Parse
variable {ie : Bytes} {d : WpaIeData}

theorem wpaParseWpaIeRsn_eq (ie : Bytes) :
    wpaParseWpaIeRsn ie = rsnIeHeader ie >>= fun x => fields ie x.1 x.2 := rfl

theorem body_sound {c : RsnCursor} {d₀ : WpaIeData} (h : Inside ie c)
    (hok : fields ie d₀ c = .ok d) : Body ie.length d₀ (left ie c) d := by
  obtain ⟨⟨d₁, c₁⟩, h₁, hok⟩ := bind_eq_ok.mp hok
  obtain ⟨⟨d₂, c₂⟩, h₂, hok⟩ := bind_eq_ok.mp hok
  obtain ⟨⟨d₃, c₃⟩, h₃, hok⟩ := bind_eq_ok.mp hok
  obtain ⟨⟨d₅, c₅⟩, h₅, hok⟩ := bind_eq_ok.mp hok
  obtain ⟨hin₁, hf₁⟩ := group_sound h h₁
  obtain ⟨hin₂, hf₂⟩ := pairwise_sound hin₁ h₂
  obtain ⟨hin₃, hf₃⟩ := keyMgmt_sound hin₂ h₃
  obtain ⟨hin₄, hf₄⟩ := capabilities_sound hin₃
  obtain ⟨hin₅, hf₅⟩ := pmkid_sound hin₄ h₅
  exact ⟨_, _, _, _, _, _, _, _, _, _, hf₁, hf₂, hf₃, hf₄, hf₅, mgmtGroup_sound hin₅ hok⟩

theorem body_complete {c : RsnCursor} {d₀ : WpaIeData} {body : Bytes} (h : Inside ie c)
    (hleft : left ie c = body) (hbody : Body ie.length d₀ body d) :
    fields ie d₀ c = .ok d := by
  obtain ⟨_, _, _, _, _, _, _, _, _, _, hf₁, hf₂, hf₃, hf₄, hf₅, hf₆⟩ := hbody
  obtain ⟨c₁, h₁, hin₁, hleft₁⟩ := group_complete h hleft hf₁
  obtain ⟨c₂, h₂, hin₂, hleft₂⟩ := pairwise_complete hin₁ hleft₁ hf₂
  obtain ⟨c₃, h₃, hin₃, hleft₃⟩ := keyMgmt_complete hin₂ hleft₂ hf₃
  obtain ⟨c₄, h₄, hin₄, hleft₄⟩ := capabilities_complete hin₃ hleft₃ hf₄
  obtain ⟨c₅, h₅, hin₅, hleft₅⟩ := pmkid_complete hin₄ hleft₄ hf₅
  have h₆ := mgmtGroup_complete hin₅ hleft₅ hf₆
  simp only [fields, h₁, h₂, h₃, h₄, h₅, h₆, bind, Except.bind]

/-- The parser accepts a well-formed element under the header of an RSNE, or under that of an OSEN or
RSNE Override element with whatever element ID. -/
theorem wpaParseWpaIeRsn_eq_ok_iff : wpaParseWpaIeRsn ie = .ok d ↔
    ∃ d₀ body, (RsnHeader ie d₀ body ∨ ∃ id, VendorHeader id ie d₀ body) ∧
      Body ie.length d₀ body d := by
  constructor
  · intro hok
    obtain ⟨⟨d₀, c⟩, hheader, hok⟩ := bind_eq_ok.mp hok
    obtain ⟨hin, hform⟩ := header_sound hheader
    exact ⟨d₀, left ie c, hform, body_sound hin hok⟩
  · rintro ⟨d₀, body, hform, hbody⟩
    have hheader : ∃ c, rsnIeHeader ie = .ok (d₀, c) ∧ Inside ie c ∧ left ie c = body := by
      rcases hform with hrsn | ⟨id, hvendor⟩
      · exact header_of_rsn hrsn
      · exact header_of_vendor hvendor
    obtain ⟨c, hok, hin, hleft⟩ := hheader
    rw [wpaParseWpaIeRsn_eq, hok]
    exact body_complete hin hleft hbody

end Parse

end Wpa.Rsne
