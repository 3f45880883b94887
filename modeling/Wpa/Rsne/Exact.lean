import Wpa.Rsne.Format

/-! `wpa_parse_wpa_ie_rsn` with every read of the element checked. It reads nothing outside, and it
accepts exactly the well-formed elements, but for one thing: the headers of the vendor specific
elements are recognized without a look at the element ID. -/

namespace Wpa.Rsne
open Lib Bytes

/-- The condition for an OSEN element, read as far as it is evaluated. -/
def isOsenRead (ie : Bytes) : Option Bool :=
  if ie.length ≥ 6 then do
    let len ← ie.read8 1
    if len ≥ 4 ∧ len = ie.length - 2 then do
      let type ← ie.readBe32 2
      return type = osenIeVendorType
    else return false
  else some false

def isOverrideRead (ie : Bytes) : Option Bool :=
  if ie.length ≥ 8 then do
    let len ← ie.read8 1
    if len ≥ 6 ∧ len = ie.length - 2 then do
      let type ← ie.readBe32 2
      if type = rsneOverrideIeVendorType ∨ type = rsneOverride2IeVendorType then do
        let version ← ie.readLe16 6
        return version = rsnVersion
      else return false
    else return false
  else some false

def rsnIeHeaderRead (ie : Bytes) : Option (Except ℤ (WpaIeData × RsnCursor)) :=
  let n := ie.length
  if n = 0 then some (.error (-1))
  else if n < 4 then some (.error (-1))
  else do
    let osen ← isOsenRead ie
    if osen then return .ok (osenData, ⟨6, n - 6⟩)
    else do
      let override ← isOverrideRead ie
      if override then return .ok ({}, ⟨8, n - 8⟩)
      else do
        let id ← ie.read8 0
        let len ← ie.read8 1
        let version ← ie.readLe16 2
        if id ≠ eidRsn ∨ len ≠ n - 2 ∨ version ≠ rsnVersion then return .error (-2)
        else return .ok ({}, ⟨4, n - 4⟩)

def rsnIeGroupRead (ie : Bytes) (d : WpaIeData) (c : RsnCursor) :
    Option (Except ℤ (WpaIeData × RsnCursor)) :=
  if c.left ≥ 4 then
    (ie.readBe32 c.pos).map fun selector =>
      let group := rsnSelectorToBitfield selector
      if wpaCipherValidGroup group then
        .ok ({ d with groupCipher := group, hasGroup := true }, c.skip 4)
      else .error (-1)
  else if c.left > 0 then some (.error (-3))
  else some (.ok (d, c))

def suiteUnionRead (toBit : ℕ → ℕ) (ie : Bytes) (pos count : ℕ) : Option ℕ :=
  (List.range count).foldlM (fun acc i => do return acc ||| toBit (← ie.readBe32 (pos + 4 * i))) 0

def rsnIePairwiseRead (ie : Bytes) (d : WpaIeData) (c : RsnCursor) :
    Option (Except ℤ (WpaIeData × RsnCursor)) :=
  if c.left ≥ 2 then do
    let count ← ie.readLe16 c.pos
    let c := c.skip 2
    if count = 0 ∨ count > c.left / 4 then return .error (-4)
    else do
      let pairwise ← suiteUnionRead rsnSelectorToBitfield ie c.pos count
      if hasBits pairwise cipherAes128Cmac then return .error (-1)
      else
        return .ok ({ d with pairwiseCipher := pairwise, hasPairwise := true }, c.skip (4 * count))
  else if c.left = 1 then some (.error (-5))
  else some (.ok (d, c))

def rsnIeKeyMgmtRead (ie : Bytes) (d : WpaIeData) (c : RsnCursor) :
    Option (Except ℤ (WpaIeData × RsnCursor)) :=
  if c.left ≥ 2 then do
    let count ← ie.readLe16 c.pos
    let c := c.skip 2
    if count = 0 ∨ count > c.left / 4 then return .error (-6)
    else do
      let keyMgmt ← suiteUnionRead rsnKeyMgmtToBitfield ie c.pos count
      return .ok ({ d with keyMgmt := keyMgmt }, c.skip (4 * count))
  else if c.left = 1 then some (.error (-7))
  else some (.ok (d, c))

def rsnIeCapabilitiesRead (ie : Bytes) (d : WpaIeData) (c : RsnCursor) :
    Option (WpaIeData × RsnCursor) :=
  if c.left ≥ 2 then do
    let capabilities ← ie.readLe16 c.pos
    return ({ d with capabilities := capabilities }, c.skip 2)
  else some (d, c)

def rsnIePmkidRead (ie : Bytes) (d : WpaIeData) (c : RsnCursor) :
    Option (Except ℤ (WpaIeData × RsnCursor)) :=
  if c.left ≥ 2 then do
    let num ← ie.readLe16 c.pos
    let c := c.skip 2
    if num > c.left / pmkidLen then return .error (-9)
    else return .ok ({ d with numPmkid := num, pmkid := some c.pos }, c.skip (num * pmkidLen))
  else some (.ok (d, c))

def rsnIeMgmtGroupRead (ie : Bytes) (d : WpaIeData) (c : RsnCursor) :
    Option (Except ℤ WpaIeData) :=
  if c.left ≥ 4 then
    (ie.readBe32 c.pos).map fun selector =>
      let mgmt := rsnSelectorToBitfield selector
      if wpaCipherValidMgmtGroup mgmt then .ok { d with mgmtGroupCipher := mgmt }
      else .error (-10)
  else some (.ok d)

/-- `wpa_parse_wpa_ie_rsn`: nothing for a read outside the element, else the return value. -/
def wpaParseWpaIeRsnRead (ie : Bytes) : ExceptT ℤ Option WpaIeData := do
  let (d, c) ← ExceptT.mk (rsnIeHeaderRead ie)
  let (d, c) ← ExceptT.mk (rsnIeGroupRead ie d c)
  let (d, c) ← ExceptT.mk (rsnIePairwiseRead ie d c)
  let (d, c) ← ExceptT.mk (rsnIeKeyMgmtRead ie d c)
  let (d, c) ← ExceptT.mk ((rsnIeCapabilitiesRead ie d c).map .ok)
  let (d, c) ← ExceptT.mk (rsnIePmkidRead ie d c)
  ExceptT.mk (rsnIeMgmtGroupRead ie d c)

section Reads
variable {ie : Bytes} {c : RsnCursor} {d : WpaIeData}

theorem isOsenRead_eq (ie : Bytes) : isOsenRead ie = some (decide (ie.length ≥ 6 ∧
    ie.byteAt 1 ≥ 4 ∧ ie.byteAt 1 = ie.length - 2 ∧ ie.be32 2 = osenIeVendorType)) := by
  unfold isOsenRead
  by_cases hsix : ie.length ≥ 6
  · have h₁ : ie.read8 1 = some (ie.byteAt 1) := read8_eq (by omega)
    have h₂ : ie.readBe32 2 = some (ie.be32 2) := readBe32_eq (by omega)
    rw [if_pos hsix, h₁, h₂]
    generalize ie.be32 2 = type
    generalize ie.byteAt 1 = len
    simp only [Option.bind_eq_bind, Option.bind_some, Option.pure_def]
    split_ifs with hlen
    · exact congrArg some (decide_eq_decide.mpr
        ⟨fun h => ⟨hsix, hlen.1, hlen.2, h⟩, fun h => h.2.2.2⟩)
    · exact congrArg some (decide_eq_false fun h => hlen ⟨h.2.1, h.2.2.1⟩).symm
  · rw [if_neg hsix, decide_eq_false fun h => hsix h.1]

theorem isOverrideRead_eq (ie : Bytes) : isOverrideRead ie = some (decide (ie.length ≥ 8 ∧
    ie.byteAt 1 ≥ 6 ∧ ie.byteAt 1 = ie.length - 2 ∧
    (ie.be32 2 = rsneOverrideIeVendorType ∨ ie.be32 2 = rsneOverride2IeVendorType) ∧
    ie.le16 6 = rsnVersion)) := by
  unfold isOverrideRead
  by_cases height : ie.length ≥ 8
  · have h₁ : ie.read8 1 = some (ie.byteAt 1) := read8_eq (by omega)
    have h₂ : ie.readBe32 2 = some (ie.be32 2) := readBe32_eq (by omega)
    have h₃ : ie.readLe16 6 = some (ie.le16 6) := readLe16_eq (by omega)
    rw [if_pos height, h₁, Option.bind_eq_bind, Option.bind_some]
    by_cases hlen : ie.byteAt 1 ≥ 6 ∧ ie.byteAt 1 = ie.length - 2
    · rw [if_pos hlen, h₂, Option.bind_some]
      by_cases htype : ie.be32 2 = rsneOverrideIeVendorType ∨ ie.be32 2 = rsneOverride2IeVendorType
      · rw [if_pos htype, h₃]
        exact congrArg some (decide_eq_decide.mpr
          ⟨fun h => ⟨height, hlen.1, hlen.2, htype, h⟩, fun h => h.2.2.2.2⟩)
      · rw [if_neg htype, decide_eq_false fun h => htype h.2.2.2.1]
        rfl
    · rw [if_neg hlen, decide_eq_false fun h => hlen ⟨h.2.1, h.2.2.1⟩]
      rfl
  · rw [if_neg height, decide_eq_false fun h => height h.1]

theorem rsnIeHeaderRead_eq (ie : Bytes) : rsnIeHeaderRead ie = some (rsnIeHeader ie) := by
  simp only [rsnIeHeaderRead, rsnIeHeader]
  by_cases hzero : ie.length = 0
  · rw [if_pos hzero, if_pos hzero]
  · by_cases hfour : ie.length < 4
    · rw [if_neg hzero, if_neg hzero, if_pos hfour, if_pos hfour]
    · have h₀ : ie.read8 0 = some (ie.byteAt 0) := read8_eq (by omega)
      have h₁ : ie.read8 1 = some (ie.byteAt 1) := read8_eq (by omega)
      have h₂ : ie.readLe16 2 = some (ie.le16 2) := readLe16_eq (by omega)
      simp only [if_neg hzero, if_neg hfour, isOsenRead_eq, isOverrideRead_eq, h₀, h₁, h₂,
        Option.bind_eq_bind, Option.bind_some, decide_eq_true_eq, Option.pure_def]
      split_ifs <;> rfl

theorem rsnIeGroupRead_eq (h : Inside ie c) :
    rsnIeGroupRead ie d c = some (rsnIeGroup ie d c) := by
  unfold Inside at h
  simp only [rsnIeGroupRead, rsnIeGroup]
  by_cases hfour : c.left ≥ 4
  · have hread : ie.readBe32 c.pos = some (ie.be32 c.pos) := readBe32_eq (by omega)
    rw [if_pos hfour, if_pos hfour, hread]
    rfl
  · simp only [if_neg hfour]
    split_ifs <;> rfl

theorem suiteUnionRead_eq (toBit : ℕ → ℕ) {pos count : ℕ} (h : pos + 4 * count ≤ ie.length) :
    suiteUnionRead toBit ie pos count = some (suiteUnion toBit ie pos count) := by
  have hfold : ∀ (l : List ℕ) (acc : ℕ), (∀ i ∈ l, i < count) →
      l.foldlM (fun acc i => do return acc ||| toBit (← ie.readBe32 (pos + 4 * i))) acc =
        some (l.foldl (fun acc i => acc ||| toBit (ie.be32 (pos + 4 * i))) acc) := by
    intro l
    induction l with
    | nil => intro acc _; rfl
    | cons i l ih =>
      intro acc hl
      obtain ⟨hi, hl⟩ := List.forall_mem_cons.mp hl
      have hread : ie.readBe32 (pos + 4 * i) = some (ie.be32 (pos + 4 * i)) :=
        readBe32_eq (by omega)
      rw [List.foldlM_cons, hread, List.foldl_cons, ← ih _ hl]
      rfl
  exact hfold _ _ fun i hi => List.mem_range.mp hi

theorem counted_fits (h : c.pos + c.left = ie.length) (htwo : c.left ≥ 2)
    (hcount : ¬ (ie.le16 c.pos = 0 ∨ ie.le16 c.pos > (c.skip 2).left / 4)) :
    (c.skip 2).pos + 4 * ie.le16 c.pos ≤ ie.length := by
  simp only [RsnCursor.skip] at hcount ⊢
  omega

theorem rsnIePairwiseRead_eq (h : Inside ie c) :
    rsnIePairwiseRead ie d c = some (rsnIePairwise ie d c) := by
  unfold Inside at h
  simp only [rsnIePairwiseRead, rsnIePairwise]
  by_cases htwo : c.left ≥ 2
  · have hread : ie.readLe16 c.pos = some (ie.le16 c.pos) := readLe16_eq (by omega)
    simp only [if_pos htwo, hread, Option.bind_eq_bind, Option.bind_some, Option.pure_def]
    by_cases hcount : ie.le16 c.pos = 0 ∨ ie.le16 c.pos > (c.skip 2).left / 4
    · rw [if_pos hcount, if_pos hcount]
    · have hunion := suiteUnionRead_eq rsnSelectorToBitfield (counted_fits h htwo hcount)
      rw [if_neg hcount, if_neg hcount, hunion]
      simp only [Option.bind_some]
      split_ifs <;> rfl
  · simp only [if_neg htwo]
    split_ifs <;> rfl

theorem rsnIeKeyMgmtRead_eq (h : Inside ie c) :
    rsnIeKeyMgmtRead ie d c = some (rsnIeKeyMgmt ie d c) := by
  unfold Inside at h
  simp only [rsnIeKeyMgmtRead, rsnIeKeyMgmt]
  by_cases htwo : c.left ≥ 2
  · have hread : ie.readLe16 c.pos = some (ie.le16 c.pos) := readLe16_eq (by omega)
    simp only [if_pos htwo, hread, Option.bind_eq_bind, Option.bind_some, Option.pure_def]
    by_cases hcount : ie.le16 c.pos = 0 ∨ ie.le16 c.pos > (c.skip 2).left / 4
    · rw [if_pos hcount, if_pos hcount]
    · have hunion := suiteUnionRead_eq rsnKeyMgmtToBitfield (counted_fits h htwo hcount)
      rw [if_neg hcount, if_neg hcount, hunion]
      rfl
  · simp only [if_neg htwo]
    split_ifs <;> rfl

theorem rsnIeCapabilitiesRead_eq (h : Inside ie c) :
    rsnIeCapabilitiesRead ie d c = some (rsnIeCapabilities ie d c) := by
  unfold Inside at h
  simp only [rsnIeCapabilitiesRead, rsnIeCapabilities]
  split_ifs with htwo
  · rw [readLe16_eq (by omega)]
    rfl
  · rfl

theorem rsnIePmkidRead_eq (h : Inside ie c) :
    rsnIePmkidRead ie d c = some (rsnIePmkid ie d c) := by
  unfold Inside at h
  simp only [rsnIePmkidRead, rsnIePmkid]
  by_cases htwo : c.left ≥ 2
  · have hread : ie.readLe16 c.pos = some (ie.le16 c.pos) := readLe16_eq (by omega)
    simp only [if_pos htwo, hread, Option.bind_eq_bind, Option.bind_some, Option.pure_def]
    split_ifs <;> rfl
  · rw [if_neg htwo, if_neg htwo]

theorem rsnIeMgmtGroupRead_eq (h : Inside ie c) :
    rsnIeMgmtGroupRead ie d c = some (rsnIeMgmtGroup ie d c) := by
  unfold Inside at h
  simp only [rsnIeMgmtGroupRead, rsnIeMgmtGroup]
  by_cases hfour : c.left ≥ 4
  · have hread : ie.readBe32 c.pos = some (ie.be32 c.pos) := readBe32_eq (by omega)
    rw [if_pos hfour, if_pos hfour, hread]
    rfl
  · rw [if_neg hfour, if_neg hfour]

/-- No octet outside the element is read. -/
theorem wpaParseWpaIeRsnRead_eq (ie : Bytes) :
    (wpaParseWpaIeRsnRead ie).run = some (wpaParseWpaIeRsn ie) := by
  have hbind : ∀ {α β : Type} {x : Option (Except ℤ α)} {f : α → ExceptT ℤ Option β}
      {y : Except ℤ α} {g : α → Except ℤ β}, x = some y →
      (∀ a, y = .ok a → (f a).run = some (g a)) →
      (ExceptT.mk x >>= f).run = some (y >>= g) := by
    rintro α β _ f y g rfl h
    cases y with
    | error e => rfl
    | ok a => exact h a rfl
  refine hbind (rsnIeHeaderRead_eq ie) fun ⟨d₀, c₀⟩ hok => ?_
  have hin₀ := (header_sound hok).1
  refine hbind (rsnIeGroupRead_eq hin₀) fun ⟨d₁, c₁⟩ hok => ?_
  have hin₁ := (group_sound hin₀ hok).1
  refine hbind (rsnIePairwiseRead_eq hin₁) fun ⟨d₂, c₂⟩ hok => ?_
  have hin₂ := (pairwise_sound hin₁ hok).1
  refine hbind (rsnIeKeyMgmtRead_eq hin₂) fun ⟨d₃, c₃⟩ hok => ?_
  have hin₃ := (keyMgmt_sound hin₂ hok).1
  have hcapabilities : (rsnIeCapabilitiesRead ie d₃ c₃).map Except.ok =
      some (Except.ok (rsnIeCapabilities ie d₃ c₃) : Except ℤ _) := by
    rw [rsnIeCapabilitiesRead_eq hin₃]
    rfl
  refine hbind (g := fun x => rsnIePmkid ie x.1 x.2 >>= fun y => rsnIeMgmtGroup ie y.1 y.2)
    hcapabilities fun ⟨d₄, c₄⟩ hok => ?_
  have hin₄ := (capabilities_sound (d := d₃) hin₃).1
  rw [Except.ok.inj hok] at hin₄
  refine hbind (rsnIePmkidRead_eq hin₄) fun ⟨d₅, c₅⟩ hok => ?_
  exact rsnIeMgmtGroupRead_eq (pmkid_sound hin₄ hok).1

end Reads

section Exact
variable {ie rest rest' : Bytes} {d d' : WpaIeData}

theorem GroupField.keeps (h : GroupField d rest d' rest') :
    d'.pmkid = d.pmkid ∧ rest'.length ≤ rest.length := by
  cases h with
  | absent => exact ⟨rfl, Nat.le_refl _⟩
  | present s => exact ⟨rfl, by simp⟩

theorem PairwiseField.keeps (h : PairwiseField d rest d' rest') :
    d'.pmkid = d.pmkid ∧ rest'.length ≤ rest.length := by
  cases h with
  | absent => exact ⟨rfl, Nat.le_refl _⟩
  | present selectors u => exact ⟨rfl, by simp⟩

theorem KeyMgmtField.keeps (h : KeyMgmtField d rest d' rest') :
    d'.pmkid = d.pmkid ∧ rest'.length ≤ rest.length := by
  cases h with
  | absent => exact ⟨rfl, Nat.le_refl _⟩
  | present selectors u => exact ⟨rfl, by simp⟩

theorem CapabilitiesField.keeps (h : CapabilitiesField d rest d' rest') :
    d'.pmkid = d.pmkid ∧ rest'.length ≤ rest.length := by
  cases h with
  | absent => exact ⟨rfl, Nat.le_refl _⟩
  | present capab => exact ⟨rfl, by simp⟩

theorem PmkidField.inside {n : ℕ} (h : PmkidField n d rest d' rest') (hd : d.pmkid = none)
    (hrest : rest.length ≤ n) : ∀ p, d'.pmkid = some p → p + d'.numPmkid * pmkidLen ≤ n := by
  intro p hp
  cases h with
  | absent => exact absurd (hd.symm.trans hp) (by simp)
  | present pmkids _ num _ hlen =>
    obtain rfl := Option.some.inj hp
    simp only [List.length_append, ofLe16_length] at hrest ⊢
    omega

theorem MgmtGroupField.keeps (h : MgmtGroupField d rest d') :
    d'.pmkid = d.pmkid ∧ d'.numPmkid = d.numPmkid := by
  cases h with
  | absent => exact ⟨rfl, rfl⟩
  | present s => exact ⟨rfl, rfl⟩

theorem Body.pmkid_inside {n : ℕ} {d₀ : WpaIeData} {body : Bytes} (h : Body n d₀ body d)
    (hd₀ : d₀.pmkid = none) (hbody : body.length ≤ n) :
    ∀ p, d.pmkid = some p → p + d.numPmkid * pmkidLen ≤ n := by
  obtain ⟨d₁, r₁, d₂, r₂, d₃, r₃, d₄, r₄, d₅, r₅, h₁, h₂, h₃, h₄, h₅, h₆⟩ := h
  have hd₄ : d₄.pmkid = none := by
    rw [h₄.keeps.1, h₃.keeps.1, h₂.keeps.1, h₁.keeps.1, hd₀]
  have hr₄ : r₄.length ≤ n :=
    calc r₄.length ≤ r₃.length := h₄.keeps.2
      _ ≤ r₂.length := h₃.keeps.2
      _ ≤ r₁.length := h₂.keeps.2
      _ ≤ body.length := h₁.keeps.2
      _ ≤ n := hbody
  rw [h₆.keeps.1, h₆.keeps.2]
  exact h₅.inside hd₄ hr₄

theorem RsnHeader.starts {d₀ : WpaIeData} {body : Bytes} (h : RsnHeader ie d₀ body) :
    d₀.pmkid = none ∧ body.length ≤ ie.length ∧ ie.byteAt 2 = 1 := by
  obtain ⟨body, hlen⟩ := h
  exact ⟨rfl, (List.suffix_append _ body).length_le, rfl⟩

theorem VendorHeader.starts {id : UInt8} {d₀ : WpaIeData} {body : Bytes}
    (h : VendorHeader id ie d₀ body) :
    d₀.pmkid = none ∧ body.length ≤ ie.length ∧ ie.byteAt 2 = 0x50 ∧ ie[0]? = some id := by
  cases h with
  | osen _ hlen => exact ⟨rfl, (List.suffix_append _ body).length_le, rfl, rfl⟩
  | override type htype _ hlen =>
    refine ⟨rfl, (List.suffix_append _ body).length_le, ?_, rfl⟩
    rcases htype with rfl | rfl <;> rfl

theorem pmkid_inside_element (hok : wpaParseWpaIeRsn ie = .ok d) :
    ∀ p, d.pmkid = some p → p + d.numPmkid * pmkidLen ≤ ie.length := by
  obtain ⟨d₀, body, hheader, hbody⟩ := wpaParseWpaIeRsn_eq_ok_iff.mp hok
  have hstart : d₀.pmkid = none ∧ body.length ≤ ie.length := by
    rcases hheader with hrsn | ⟨id, hvendor⟩
    · exact ⟨hrsn.starts.1, hrsn.starts.2.1⟩
    · exact ⟨hvendor.starts.1, hvendor.starts.2.1⟩
  exact hbody.pmkid_inside hstart.1 hstart.2

/-- The parser reads nothing outside the element, succeeds exactly on the well-formed elements, with
what they say, and leaves a PMKID list inside the element. -/
def Exact (ie : Bytes) : Prop :=
  ∃ r, (wpaParseWpaIeRsnRead ie).run = some r ∧ (∀ d, r = .ok d ↔ Describes ie d) ∧
    ∀ d p, r = .ok d → d.pmkid = some p → p + d.numPmkid * pmkidLen ≤ ie.length

/-- The octets of an OSEN or RSNE Override element, but for the element ID. -/
def Disguised (ie : Bytes) : Prop :=
  ∃ id d₀ body d, id ≠ UInt8.ofNat eidVendorSpecific ∧ VendorHeader id ie d₀ body ∧
    Body ie.length d₀ body d

theorem exact_iff_not_disguised (ie : Bytes) : Exact ie ↔ ¬ Disguised ie := by
  constructor
  · rintro ⟨r, hread, hexact, -⟩ ⟨id, d₀, body, d, hid, hvendor, hbody⟩
    have hok : r = .ok d := by
      rw [wpaParseWpaIeRsnRead_eq, Option.some.injEq] at hread
      rw [← hread, wpaParseWpaIeRsn_eq_ok_iff]
      exact ⟨d₀, body, Or.inr ⟨id, hvendor⟩, hbody⟩
    obtain ⟨_, _, hrsn | hvendor', -⟩ := (hexact d).mp hok
    · exact absurd (hrsn.starts.2.2.symm.trans hvendor.starts.2.2.1) (by decide)
    · have hsame := hvendor.starts.2.2.2.symm.trans hvendor'.starts.2.2.2
      exact hid (Option.some.inj hsame)
  · intro hdisguised
    refine ⟨wpaParseWpaIeRsn ie, wpaParseWpaIeRsnRead_eq ie, fun d => ?_, fun d p hok hp => ?_⟩
    · rw [wpaParseWpaIeRsn_eq_ok_iff]
      refine exists_congr fun d₀ => exists_congr fun body =>
        ⟨fun h => ⟨h.1.imp_right ?_, h.2⟩, fun h => ⟨h.1.imp_right fun hv => ⟨_, hv⟩, h.2⟩⟩
      rintro ⟨id, hvendor⟩
      by_cases hid : id = UInt8.ofNat eidVendorSpecific
      · exact hid ▸ hvendor
      · exact absurd ⟨id, d₀, body, d, hid, hvendor, h.2⟩ hdisguised
    · exact pmkid_inside_element hok p hp

/-- The shortest OSEN element with the element ID of an RSNE is accepted as an OSEN element. -/
theorem not_exact_osen_under_rsn_id : ¬ Exact [48, 4, 0x50, 0x6f, 0x9a, 0x12] := by
  rintro ⟨r, hread, hexact, -⟩
  have hok : r = .ok osenData := by
    have hrun : (wpaParseWpaIeRsnRead [48, 4, 0x50, 0x6f, 0x9a, 0x12]).run =
        some (.ok osenData) := by decide
    exact Option.some.inj (hread.symm.trans hrun)
  obtain ⟨_, _, hrsn | hvendor, -⟩ := (hexact osenData).mp hok
  · exact absurd hrsn.starts.2.2 (by decide)
  · exact absurd hvendor.starts.2.2.2 (by decide)

end Exact

end Wpa.Rsne
