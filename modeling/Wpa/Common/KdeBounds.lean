import Wpa.Common.Kde
import Wpa.Lib.Reads

/-! `wpa_parse_kde_ies` with every read of the Key Data checked, and the places its pointers end up
at. An element is looked into only as far as its length octet says, with one exception: the four
comparisons for the override and selection elements read a whole selector whatever the length. -/

namespace Wpa
open Lib Bytes

/-- `pos[1] >= minLen && RSN_SELECTOR_GET(pos + 2) == type`. -/
def kdeIs (buf : Bytes) (pos len minLen type : ℕ) : Option Bool :=
  if len ≥ minLen then (buf.readBe32 (pos + 2)).map fun selector => decide (selector = type)
  else some false

/-- `RSN_SELECTOR_GET(pos + 2) == type`. -/
def selectorIs (buf : Bytes) (pos type : ℕ) : Option Bool :=
  (buf.readBe32 (pos + 2)).map fun selector => decide (selector = type)

/-- The WPA element: the selector and the version octets behind it. -/
def wpaIeIs (buf : Bytes) (pos len : ℕ) : Option Bool :=
  (kdeIs buf pos len 6 wpaOuiType).bind fun wpa =>
    if wpa then
      (buf.read8 (pos + 6)).bind fun lo =>
        if lo = 1 then (buf.read8 (pos + 7)).map fun hi => decide (hi = 0) else some false
    else some false

def orElse (test : Option Bool) (result : GenericResult) (rest : Option GenericResult) :
    Option GenericResult :=
  test.bind fun yes => if yes then some result else rest

/-- `wpa_parse_generic`. -/
def wpaParseGenericRead (buf : Bytes) (pos : ℕ) (ie : EapolIeParse) : Option GenericResult :=
  (buf.read8 (pos + 1)).bind fun len =>
    let element : Span := ⟨pos, len + 2⟩
    let body : Span := ⟨pos + 2 + rsnSelectorLen, len - rsnSelectorLen⟩
    if len = 0 then some .endMark
    else
      orElse (wpaIeIs buf pos len) (.parsed { ie with wpaIe := some element }) <|
      orElse (kdeIs buf pos len 4 osenIeVendorType) (.parsed { ie with osen := some element }) <|
      orElse (kdeIs buf pos len (rsnSelectorLen + pmkidLen) rsnKeyDataPmkid)
        (.parsed { ie with pmkid := some body.off }) <|
      orElse (kdeIs buf pos len (rsnSelectorLen + 2) rsnKeyDataKeyid)
        (.parsed { ie with keyId := some body.off }) <|
      orElse (kdeIs buf pos len (rsnSelectorLen + 2 + 1) rsnKeyDataGroupkey)
        (.parsed { ie with gtk := some body }) <|
      orElse (kdeIs buf pos len (rsnSelectorLen + 2 + 1) rsnKeyDataMacAddr)
        (.parsed { ie with macAddr := some body }) <|
      orElse (kdeIs buf pos len (rsnSelectorLen + 2 + 1) rsnKeyDataIgtk)
        (.parsed { ie with igtk := some body }) <|
      orElse (kdeIs buf pos len (rsnSelectorLen + 2 + 1) rsnKeyDataBigtk)
        (.parsed { ie with bigtk := some body }) <|
      orElse (kdeIs buf pos len (rsnSelectorLen + 1) wfaKeyDataIpAddrReq)
        (.parsed { ie with ipAddrReq := some body.off }) <|
      orElse (kdeIs buf pos len (rsnSelectorLen + 3 * 4) wfaKeyDataIpAddrAlloc)
        (.parsed { ie with ipAddrAlloc := some body.off }) <|
      orElse (kdeIs buf pos len (rsnSelectorLen + 2 + 1) rsnKeyDataOci)
        (.parsed { ie with oci := some body }) <|
      orElse (kdeIs buf pos len (rsnSelectorLen + 1) wfaKeyDataTransitionDisable)
        (.parsed { ie with transitionDisable := some body }) <|
      orElse (kdeIs buf pos len (rsnSelectorLen + 2) wfaKeyDataDpp)
        (.parsed { ie with dppKde := some body }) <|
      orElse (selectorIs buf pos rsneOverrideIeVendorType)
        (.parsed { ie with rsneOverride := some element }) <|
      orElse (selectorIs buf pos rsneOverride2IeVendorType)
        (.parsed { ie with rsneOverride2 := some element }) <|
      orElse (selectorIs buf pos rsnxeOverrideIeVendorType)
        (.parsed { ie with rsnxeOverride := some element }) <|
      orElse (selectorIs buf pos rsnSelectionIeVendorType)
        (.parsed { ie with rsnSelection := some ⟨pos + 2 + rsnSelectorLen, subSelectorLen len⟩ })
        (some .unknown)

def wpaParseVendorSpecificRead (buf : Bytes) (pos : ℕ) (ie : EapolIeParse) :
    Option EapolIeParse := do
  let len ← buf.read8 (pos + 1)
  if len < 4 then return ie
  else
    let oui ← buf.readBe24 (pos + 2)
    if oui = ouiMicrosoft then
      let type ← buf.read8 (pos + 5)
      if type = 2 ∧ len > 4 then
        let subtype ← buf.read8 (pos + 6)
        if subtype = 0 ∨ subtype = 1 then return { ie with wmm := some ⟨pos + 2, len⟩ }
        else return ie
      else return ie
    else return ie

/-- The branches of `wpa_parse_kde_ies` for the elements other than Vendor Specific. -/
def wpaParseElementRead (buf : Bytes) (pos : ℕ) (ie : EapolIeParse) : Option EapolIeParse :=
  (buf.read8 pos).bind fun eid => (buf.read8 (pos + 1)).bind fun len =>
    let element : Span := ⟨pos, len + 2⟩
    let third := buf.read8 (pos + 2)
    if eid = eidRsn then some { ie with rsnIe := some element }
    else if eid = eidRsnx then some { ie with rsnxe := some element }
    else if eid = eidMobilityDomain then some { ie with mdie := some element }
    else if eid = eidFastBssTransition then some { ie with ftie := some element }
    else if eid = eidTimeoutInterval ∧ len ≥ 5 then
      third.map fun type =>
        if type = 1 then { ie with reassocDeadline := some pos }
        else if type = 2 then { ie with keyLifetime := some pos }
        else ie
    else if eid = eidLinkId then
      some (if len ≥ 18 then { ie with lnkid := some element } else ie)
    else if eid = eidExtCapab then some { ie with extCapab := some element }
    else if eid = eidSuppRates then some { ie with suppRates := some element }
    else if eid = eidExtSuppRates then some { ie with extSuppRates := some element }
    else if eid = eidHtCap ∧ len ≥ htCapabilitiesSize then
      some { ie with htCapabilities := some (pos + 2) }
    else if eid = eidVhtAid then
      if len ≥ 2 then (buf.readLe16 (pos + 2)).map fun aid => { ie with aid := aid % 2 ^ 14 }
      else some ie
    else if eid = eidVhtCap ∧ len ≥ vhtCapabilitiesSize then
      some { ie with vhtCapabilities := some (pos + 2) }
    else
      (extensionIs third eid len (1 + heCapabMinLen) eidExtHeCapabilities).bind fun he =>
        if he then some { ie with heCapabilities := some ⟨pos + 3, len - 1⟩ }
        else
          (extensionIs third eid len (1 + he6ghzBandCapSize) eidExtHe6ghzBandCap).bind fun he6 =>
            if he6 then some { ie with he6ghzCapabilities := some (pos + 3) }
            else if eid = eidQos ∧ len ≥ 1 then third.map fun qos => { ie with qosinfo := qos }
            else if eid = eidSupportedChannels then
              some { ie with suppChannels := some ⟨pos + 2, len⟩ }
            else if eid = eidSupportedOperatingClasses then
              some (if len ≥ 2 ∧ len ≤ 253 then { ie with suppOperClasses := some ⟨pos + 2, len⟩ }
                else ie)
            else some ie
where
  /-- An element with the extension ID `ext`, which is read only for a long enough element. -/
  extensionIs (third : Option ℕ) (eid len minLen ext : ℕ) : Option Bool :=
    if eid = eidExtension ∧ len ≥ minLen then third.map fun x => decide (x = ext) else some false

inductive KdeStep where
  | stop (ok : Bool)
  | next (pos : ℕ) (ie : EapolIeParse)
  deriving DecidableEq

/-- The body of the loop, entered with at least two octets left. -/
def kdeStep (buf : Bytes) (pos : ℕ) (ie : EapolIeParse) : Option KdeStep := do
  let eid ← buf.read8 pos
  let len ← buf.read8 (pos + 1)
  if eid = 0xdd ∧ (pos = buf.length - 1 ∨ len = 0) then return .stop true
  else if 2 + len > buf.length - pos then return .stop false
  else if eid = eidVendorSpecific then
    match ← wpaParseGenericRead buf pos ie with
    | .endMark => return .stop true
    | .parsed ie => return .next (pos + 2 + len) ie
    | .unknown =>
      let ie ← wpaParseVendorSpecificRead buf pos ie
      return .next (pos + 2 + len) ie
  else
    let ie ← wpaParseElementRead buf pos ie
    return .next (pos + 2 + len) ie

inductive KdeOutcome where
  | outside
  | running
  | returned (ok : Bool)
  deriving DecidableEq

/-- The loop, for at most `fuel` iterations: what is stored after each element, and how it ends. -/
def kdeRun (buf : Bytes) : ℕ → ℕ → EapolIeParse → List EapolIeParse × KdeOutcome
  | 0, _, _ => ([], .running)
  | fuel + 1, pos, ie =>
    if buf.length - pos ≤ 1 then ([], .returned true)
    else
      match kdeStep buf pos ie with
      | none => ([], .outside)
      | some (.stop ok) => ([], .returned ok)
      | some (.next pos ie) =>
        let r := kdeRun buf fuel pos ie
        (ie :: r.1, r.2)

/-- `wpa_parse_kde_ies`. Every iteration moves on by two octets or more. -/
def wpaParseKdeIesRead (buf : Bytes) : List EapolIeParse × KdeOutcome :=
  kdeRun buf (buf.length + 1) 0 {}

/-! ### The checked reads of one element -/

section Reads
variable {buf : Bytes} {pos len : ℕ} {ie : EapolIeParse}

/-- The test is carried out, and it decides `p`. -/
def Decides (test : Option Bool) (p : Prop) : Prop := ∃ yes, test = some yes ∧ (yes = true ↔ p)

theorem Decides.bind_ite {test : Option Bool} {p : Prop} [Decidable p] {α : Type} {a b : Option α}
    {a' b' : α} (htest : Decides test p) (ha : a = some a') (hb : b = some b') :
    (test.bind fun yes => if yes then a else b) = some (if p then a' else b') := by
  obtain ⟨yes, rfl, hyes⟩ := htest
  by_cases hp : p
  · rw [if_pos hp, hyes.mpr hp]
    exact ha
  · have hno : yes = false := by simpa using mt hyes.mp hp
    rw [if_neg hp, hno]
    exact hb

theorem orElse_eq {test : Option Bool} {p : Prop} [Decidable p] {result rest' : GenericResult}
    {rest : Option GenericResult} (htest : Decides test p) (hrest : rest = some rest') :
    orElse test result rest = some (if p then result else rest') :=
  htest.bind_ite rfl hrest

theorem kdeIs_decides {minLen : ℕ} (type : ℕ) (hroom : pos + 2 + len ≤ buf.length)
    (hmin : 4 ≤ minLen) :
    Decides (kdeIs buf pos len minLen type) (len ≥ minLen ∧ buf.be32 (pos + 2) = type) := by
  unfold kdeIs
  by_cases hlen : len ≥ minLen
  · rw [if_pos hlen, readBe32_eq (by omega)]
    exact ⟨_, rfl, by simp [hlen]⟩
  · rw [if_neg hlen]
    exact ⟨_, rfl, by simp [hlen]⟩

theorem wpaIeIs_decides (hroom : pos + 2 + len ≤ buf.length) :
    Decides (wpaIeIs buf pos len) (len ≥ 6 ∧ buf.be32 (pos + 2) = wpaOuiType ∧
      buf.byteAt (pos + 6) = 1 ∧ buf.byteAt (pos + 7) = 0) := by
  obtain ⟨wpa, htest, hwpa⟩ := kdeIs_decides wpaOuiType hroom (by omega : 4 ≤ 6)
  rw [wpaIeIs, htest, Option.bind_some]
  cases wpa with
  | false =>
    have hno : ¬ (len ≥ 6 ∧ buf.be32 (pos + 2) = wpaOuiType) := by simpa using hwpa
    exact ⟨false, rfl, by simpa using fun hlen htype => absurd ⟨hlen, htype⟩ hno⟩
  | true =>
    obtain ⟨hlen, htype⟩ := hwpa.mp rfl
    rw [if_pos rfl, read8_eq (by omega), read8_eq (by omega), Option.bind_some]
    by_cases hlo : buf.byteAt (pos + 6) = 1
    · rw [if_pos hlo]
      exact ⟨_, rfl, by simp [hlen, htype, hlo]⟩
    · rw [if_neg hlo]
      exact ⟨false, rfl, by simp [hlo]⟩

theorem selectorIs_decides (type : ℕ) (hroom : pos + 6 ≤ buf.length) :
    Decides (selectorIs buf pos type) (buf.be32 (pos + 2) = type) := by
  rw [selectorIs, readBe32_eq (by omega)]
  exact ⟨_, rfl, by simp⟩

/-- With a whole selector behind the header, the element is parsed without leaving the buffer. -/
theorem wpaParseGenericRead_eq (hroom : pos + 2 + buf.byteAt (pos + 1) ≤ buf.length)
    (hselector : pos + 6 ≤ buf.length) :
    wpaParseGenericRead buf pos ie = some (wpaParseGeneric buf pos ie) := by
  have hkde (type : ℕ) {minLen : ℕ} (hmin : 4 ≤ minLen) := kdeIs_decides type hroom hmin
  have hsel (type : ℕ) := selectorIs_decides type hselector
  simp only [wpaParseGenericRead, wpaParseGeneric]
  rw [read8_eq (by omega), Option.bind_some]
  by_cases hzero : buf.byteAt (pos + 1) = 0
  · rw [if_pos hzero, if_pos hzero]
  · rw [if_neg hzero, if_neg hzero]
    refine orElse_eq (wpaIeIs_decides hroom) ?_
    refine orElse_eq (hkde _ (by decide)) ?_
    refine orElse_eq (hkde _ (by decide)) ?_
    refine orElse_eq (hkde _ (by decide)) ?_
    refine orElse_eq (hkde _ (by decide)) ?_
    refine orElse_eq (hkde _ (by decide)) ?_
    refine orElse_eq (hkde _ (by decide)) ?_
    refine orElse_eq (hkde _ (by decide)) ?_
    refine orElse_eq (hkde _ (by decide)) ?_
    refine orElse_eq (hkde _ (by decide)) ?_
    refine orElse_eq (hkde _ (by decide)) ?_
    refine orElse_eq (hkde _ (by decide)) ?_
    refine orElse_eq (hkde _ (by decide)) ?_
    refine orElse_eq (hsel _) ?_
    refine orElse_eq (hsel _) ?_
    refine orElse_eq (hsel _) ?_
    exact orElse_eq (hsel _) rfl

theorem kdeIs_short {minLen : ℕ} (type : ℕ) (h : len < minLen) :
    kdeIs buf pos len minLen type = some false := by
  rw [kdeIs, if_neg (by omega)]

/-- The comparison for the RSNE Override element reads four octets behind the header. -/
theorem wpaParseGenericRead_eq_none (hpos : 0 < buf.byteAt (pos + 1))
    (hshort : buf.byteAt (pos + 1) < 4) (hroom : pos + 2 + buf.byteAt (pos + 1) ≤ buf.length)
    (hend : buf.length < pos + 6) : wpaParseGenericRead buf pos ie = none := by
  have hkde (type : ℕ) {minLen : ℕ} (hmin : 4 ≤ minLen) :
      kdeIs buf pos (buf.byteAt (pos + 1)) minLen type = some false := kdeIs_short type (by omega)
  have hwpa : wpaIeIs buf pos (buf.byteAt (pos + 1)) = some false := by
    rw [wpaIeIs, hkde _ (by decide)]
    rfl
  have hsel : selectorIs buf pos rsneOverrideIeVendorType = none := by
    rw [selectorIs, readBe32_eq_none (by omega)]
    rfl
  have hno (result : GenericResult) (rest : Option GenericResult) :
      orElse (some false) result rest = rest := rfl
  rw [wpaParseGenericRead, read8_eq (by omega), Option.bind_some]
  simp only
  rw [if_neg (by omega), hwpa, hno]
  simp only [hkde _ (show 4 ≤ 4 by decide), hkde _ (show 4 ≤ rsnSelectorLen + pmkidLen by decide),
    hkde _ (show 4 ≤ rsnSelectorLen + 2 by decide),
    hkde _ (show 4 ≤ rsnSelectorLen + 2 + 1 by decide),
    hkde _ (show 4 ≤ rsnSelectorLen + 1 by decide),
    hkde _ (show 4 ≤ rsnSelectorLen + 3 * 4 by decide), hno, hsel]
  rfl

theorem wpaParseVendorSpecificRead_eq (hroom : pos + 2 + buf.byteAt (pos + 1) ≤ buf.length) :
    wpaParseVendorSpecificRead buf pos ie = some (wpaParseVendorSpecific buf pos ie) := by
  simp only [wpaParseVendorSpecificRead, wpaParseVendorSpecific, read8_eq (by omega : pos + 1 < buf.length),
    Option.bind_eq_bind, Option.bind_some]
  by_cases hlen : buf.byteAt (pos + 1) < 4
  · rw [if_pos hlen, if_pos hlen]
    rfl
  rw [if_neg hlen, if_neg hlen, readBe24_eq (by omega), Option.bind_some]
  by_cases houi : buf.be24 (pos + 2) = ouiMicrosoft
  swap
  · rw [if_neg houi, if_neg (fun h => houi h.1)]
    rfl
  rw [if_pos houi, read8_eq (by omega), Option.bind_some]
  by_cases htype : buf.byteAt (pos + 5) = 2 ∧ buf.byteAt (pos + 1) > 4
  swap
  · rw [if_neg htype, if_neg (fun h => htype h.2)]
    rfl
  rw [if_pos htype, if_pos ⟨houi, htype⟩, read8_eq (by omega), Option.bind_some]
  by_cases hsub : buf.byteAt (pos + 6) = 0 ∨ buf.byteAt (pos + 6) = 1
  · rw [if_pos hsub, if_pos hsub]
    rfl
  · rw [if_neg hsub, if_neg hsub]
    rfl

theorem ite_eq_some {α : Type} {p : Prop} [Decidable p] {a b : Option α} {a' b' : α}
    (ha : p → a = some a') (hb : ¬ p → b = some b') :
    (if p then a else b) = some (if p then a' else b') := by
  by_cases h : p
  · rw [if_pos h, if_pos h, ha h]
  · rw [if_neg h, if_neg h, hb h]

theorem extensionIs_decides {third : ℕ} {eid minLen : ℕ} (ext : ℕ)
    (hthird : 1 ≤ len → buf.read8 (pos + 2) = some third) (hmin : 1 ≤ minLen) :
    Decides (wpaParseElementRead.extensionIs (buf.read8 (pos + 2)) eid len minLen ext)
      (eid = eidExtension ∧ len ≥ minLen ∧ third = ext) := by
  unfold wpaParseElementRead.extensionIs
  by_cases h : eid = eidExtension ∧ len ≥ minLen
  · rw [if_pos h, hthird (by omega)]
    exact ⟨_, rfl, by simp [h.1, h.2]⟩
  · rw [if_neg h]
    exact ⟨false, rfl, by simpa using fun heid hlen => absurd ⟨heid, hlen⟩ h⟩

theorem wpaParseElementRead_eq (hroom : pos + 2 + buf.byteAt (pos + 1) ≤ buf.length) :
    wpaParseElementRead buf pos ie = some (wpaParseElement buf pos ie) := by
  have hthird (h : 1 ≤ buf.byteAt (pos + 1)) :
      buf.read8 (pos + 2) = some (buf.byteAt (pos + 2)) := read8_eq (by omega)
  simp only [wpaParseElementRead, wpaParseElement]
  rw [read8_eq (by omega), Option.bind_some, read8_eq (by omega), Option.bind_some]
  refine ite_eq_some (fun _ => rfl) fun _ => ?_
  refine ite_eq_some (fun _ => rfl) fun _ => ?_
  refine ite_eq_some (fun _ => rfl) fun _ => ?_
  refine ite_eq_some (fun _ => rfl) fun _ => ?_
  refine ite_eq_some (fun htie => by rw [hthird (by omega)]; rfl) fun _ => ?_
  refine ite_eq_some (fun _ => rfl) fun _ => ?_
  refine ite_eq_some (fun _ => rfl) fun _ => ?_
  refine ite_eq_some (fun _ => rfl) fun _ => ?_
  refine ite_eq_some (fun _ => rfl) fun _ => ?_
  refine ite_eq_some (fun _ => rfl) fun _ => ?_
  refine ite_eq_some (fun _ => ?_) fun _ => ?_
  · exact ite_eq_some (fun hlen => by rw [readLe16_eq (by omega)]; rfl) fun _ => rfl
  refine ite_eq_some (fun _ => rfl) fun _ => ?_
  refine (extensionIs_decides _ hthird (by decide)).bind_ite rfl ?_
  refine (extensionIs_decides _ hthird (by decide)).bind_ite rfl ?_
  refine ite_eq_some (fun hqos => by rw [hthird hqos.2]; rfl) fun _ => ?_
  refine ite_eq_some (fun _ => rfl) fun _ => ?_
  exact ite_eq_some (fun _ => rfl) fun _ => rfl

end Reads

/-! ### Where the stored pointers lie -/

def SpanIn (n : ℕ) (o : Option Span) : Prop := ∀ s ∈ o, s.off + s.len ≤ n

/-- A pointer stored without a length, whose users read `m` octets. -/
def OffIn (n m : ℕ) (o : Option ℕ) : Prop := ∀ off ∈ o, off + m ≤ n

/-- Every pointer stored for a Key Data field of `n` octets lies inside it: the interval elements
are read up to their value, the capabilities as the structure they are. -/
structure EapolIeParse.Inside (n : ℕ) (ie : EapolIeParse) : Prop where
  wpaIe : SpanIn n ie.wpaIe
  rsnIe : SpanIn n ie.rsnIe
  pmkid : OffIn n pmkidLen ie.pmkid
  keyId : OffIn n 2 ie.keyId
  gtk : SpanIn n ie.gtk
  macAddr : SpanIn n ie.macAddr
  igtk : SpanIn n ie.igtk
  bigtk : SpanIn n ie.bigtk
  mdie : SpanIn n ie.mdie
  ftie : SpanIn n ie.ftie
  ipAddrReq : OffIn n 1 ie.ipAddrReq
  ipAddrAlloc : OffIn n (3 * 4) ie.ipAddrAlloc
  transitionDisable : SpanIn n ie.transitionDisable
  dppKde : SpanIn n ie.dppKde
  oci : SpanIn n ie.oci
  osen : SpanIn n ie.osen
  rsnxe : SpanIn n ie.rsnxe
  reassocDeadline : OffIn n 7 ie.reassocDeadline
  keyLifetime : OffIn n 7 ie.keyLifetime
  lnkid : SpanIn n ie.lnkid
  extCapab : SpanIn n ie.extCapab
  suppRates : SpanIn n ie.suppRates
  extSuppRates : SpanIn n ie.extSuppRates
  htCapabilities : OffIn n htCapabilitiesSize ie.htCapabilities
  vhtCapabilities : OffIn n vhtCapabilitiesSize ie.vhtCapabilities
  heCapabilities : SpanIn n ie.heCapabilities
  he6ghzCapabilities : OffIn n he6ghzBandCapSize ie.he6ghzCapabilities
  suppChannels : SpanIn n ie.suppChannels
  suppOperClasses : SpanIn n ie.suppOperClasses
  wmm : SpanIn n ie.wmm
  rsnSelection : SpanIn n ie.rsnSelection
  rsneOverride : SpanIn n ie.rsneOverride
  rsneOverride2 : SpanIn n ie.rsneOverride2
  rsnxeOverride : SpanIn n ie.rsnxeOverride

section Inside
variable {buf : Bytes} {pos n m : ℕ} {ie : EapolIeParse}

theorem spanIn_some {off len : ℕ} : SpanIn n (some ⟨off, len⟩) ↔ off + len ≤ n := by
  simp [SpanIn]

theorem offIn_some {off : ℕ} : OffIn n m (some off) ↔ off + m ≤ n := by
  simp [OffIn]

theorem spanIn_none : SpanIn n none := by simp [SpanIn]

theorem offIn_none : OffIn n m none := by simp [OffIn]

theorem EapolIeParse.Inside.empty : EapolIeParse.Inside n {} := by
  constructor <;> first | exact spanIn_none | exact offIn_none

/-- What `wpa_parse_generic` leaves in the structure is inside. -/
def GenericResult.Inside (n : ℕ) : GenericResult → Prop
  | .parsed ie => ie.Inside n
  | .endMark => True
  | .unknown => True

theorem genericInside_ite {p : Prop} [Decidable p] {a b : GenericResult} (ha : p → a.Inside n)
    (hb : ¬ p → b.Inside n) : (if p then a else b).Inside n :=
  iteInduction ha hb

theorem wpaParseGeneric_inside (h : ie.Inside buf.length)
    (hroom : pos + 2 + buf.byteAt (pos + 1) ≤ buf.length)
    (hselection : buf.be32 (pos + 2) = rsnSelectionIeVendorType → 4 ≤ buf.byteAt (pos + 1)) :
    (wpaParseGeneric buf pos ie).Inside buf.length := by
  have hlen : rsnSelectorLen = 4 := rfl
  have helement : SpanIn buf.length (some ⟨pos, buf.byteAt (pos + 1) + 2⟩) := by
    rw [spanIn_some]
    omega
  -- each field is stored with its own lower bound on the length octet in scope
  have hbody {k : ℕ} (hk : 4 ≤ k) (hmin : buf.byteAt (pos + 1) ≥ k) :
      SpanIn buf.length
        (some ⟨pos + 2 + rsnSelectorLen, buf.byteAt (pos + 1) - rsnSelectorLen⟩) := by
    rw [spanIn_some]
    omega
  have hoff {k : ℕ} (hmin : buf.byteAt (pos + 1) ≥ rsnSelectorLen + k) :
      OffIn buf.length k (some (pos + 2 + rsnSelectorLen)) := by
    rw [offIn_some]
    omega
  simp only [wpaParseGeneric]
  refine genericInside_ite (fun _ => trivial) fun _ => ?_
  refine genericInside_ite (fun _ => { h with wpaIe := helement }) fun _ => ?_
  refine genericInside_ite (fun _ => { h with osen := helement }) fun _ => ?_
  refine genericInside_ite (fun hp => { h with pmkid := hoff hp.1 }) fun _ => ?_
  refine genericInside_ite (fun hp => { h with keyId := hoff hp.1 }) fun _ => ?_
  refine genericInside_ite (fun hp => { h with gtk := hbody (by decide) hp.1 }) fun _ => ?_
  refine genericInside_ite (fun hp => { h with macAddr := hbody (by decide) hp.1 }) fun _ => ?_
  refine genericInside_ite (fun hp => { h with igtk := hbody (by decide) hp.1 }) fun _ => ?_
  refine genericInside_ite (fun hp => { h with bigtk := hbody (by decide) hp.1 }) fun _ => ?_
  refine genericInside_ite (fun hp => { h with ipAddrReq := hoff hp.1 }) fun _ => ?_
  refine genericInside_ite (fun hp => { h with ipAddrAlloc := hoff hp.1 }) fun _ => ?_
  refine genericInside_ite (fun hp => { h with oci := hbody (by decide) hp.1 }) fun _ => ?_
  refine genericInside_ite
    (fun hp => { h with transitionDisable := hbody (by decide) hp.1 }) fun _ => ?_
  refine genericInside_ite (fun hp => { h with dppKde := hbody (by decide) hp.1 }) fun _ => ?_
  refine genericInside_ite (fun _ => { h with rsneOverride := helement }) fun _ => ?_
  refine genericInside_ite (fun _ => { h with rsneOverride2 := helement }) fun _ => ?_
  refine genericInside_ite (fun _ => { h with rsnxeOverride := helement }) fun _ => ?_
  refine genericInside_ite (fun hp => { h with rsnSelection := ?_ }) fun _ => trivial
  have hwrap : subSelectorLen (buf.byteAt (pos + 1)) = buf.byteAt (pos + 1) - 4 := by
    have hfour := hselection hp
    have hoctet := buf.byteAt_lt (pos + 1)
    unfold subSelectorLen
    omega
  have hfour := hselection hp
  rw [spanIn_some, hwrap]
  omega

/-- A selection element shorter than its own selector: the stored length wraps around. -/
theorem wpaParseGeneric_short_selection (hpos : 0 < buf.byteAt (pos + 1))
    (hshort : buf.byteAt (pos + 1) < 4)
    (hselection : buf.be32 (pos + 2) = rsnSelectionIeVendorType) :
    wpaParseGeneric buf pos ie = .parsed { ie with
      rsnSelection := some ⟨pos + 2 + rsnSelectorLen, subSelectorLen (buf.byteAt (pos + 1))⟩ } := by
  have hno {k : ℕ} (hk : 4 ≤ k) (q : Prop) : ¬ (buf.byteAt (pos + 1) ≥ k ∧ q) := by omega
  simp only [wpaParseGeneric]
  refine (if_neg (by omega)).trans ?_
  refine (if_neg (hno (by decide) _)).trans ?_
  refine (if_neg (hno (by decide) _)).trans ?_
  refine (if_neg (hno (by decide) _)).trans ?_
  refine (if_neg (hno (by decide) _)).trans ?_
  refine (if_neg (hno (by decide) _)).trans ?_
  refine (if_neg (hno (by decide) _)).trans ?_
  refine (if_neg (hno (by decide) _)).trans ?_
  refine (if_neg (hno (by decide) _)).trans ?_
  refine (if_neg (hno (by decide) _)).trans ?_
  refine (if_neg (hno (by decide) _)).trans ?_
  refine (if_neg (hno (by decide) _)).trans ?_
  refine (if_neg (hno (by decide) _)).trans ?_
  refine (if_neg (hno (by decide) _)).trans ?_
  rw [hselection, if_neg (by decide), if_neg (by decide), if_neg (by decide), if_pos rfl]

theorem wpaParseVendorSpecific_inside (h : ie.Inside buf.length)
    (hroom : pos + 2 + buf.byteAt (pos + 1) ≤ buf.length) :
    (wpaParseVendorSpecific buf pos ie).Inside buf.length := by
  simp only [wpaParseVendorSpecific]
  refine iteInduction (fun _ => h) fun _ => ?_
  refine iteInduction (fun _ => ?_) fun _ => h
  exact iteInduction (fun _ => { h with wmm := spanIn_some.mpr hroom }) fun _ => h

theorem inside_ite {p : Prop} [Decidable p] {a b : EapolIeParse} (ha : p → a.Inside n)
    (hb : ¬ p → b.Inside n) : (if p then a else b).Inside n :=
  iteInduction ha hb

theorem wpaParseElement_inside (h : ie.Inside buf.length)
    (hroom : pos + 2 + buf.byteAt (pos + 1) ≤ buf.length) :
    (wpaParseElement buf pos ie).Inside buf.length := by
  have helement : SpanIn buf.length (some ⟨pos, buf.byteAt (pos + 1) + 2⟩) := by
    rw [spanIn_some]
    omega
  have hinterval (hmin : buf.byteAt (pos + 1) ≥ 5) : OffIn buf.length 7 (some pos) := by
    rw [offIn_some]
    omega
  have hbody {k : ℕ} (hmin : buf.byteAt (pos + 1) ≥ k) : OffIn buf.length k (some (pos + 2)) := by
    rw [offIn_some]
    omega
  have hext {k : ℕ} (hmin : buf.byteAt (pos + 1) ≥ 1 + k) :
      OffIn buf.length k (some (pos + 3)) := by
    rw [offIn_some]
    omega
  have hhe (hmin : buf.byteAt (pos + 1) ≥ 1 + heCapabMinLen) :
      SpanIn buf.length (some ⟨pos + 3, buf.byteAt (pos + 1) - 1⟩) := by
    rw [spanIn_some]
    omega
  simp only [wpaParseElement]
  refine inside_ite (fun _ => { h with rsnIe := helement }) fun _ => ?_
  refine inside_ite (fun _ => { h with rsnxe := helement }) fun _ => ?_
  refine inside_ite (fun _ => { h with mdie := helement }) fun _ => ?_
  refine inside_ite (fun _ => { h with ftie := helement }) fun _ => ?_
  refine inside_ite (fun htie => ?_) fun _ => ?_
  · refine inside_ite (fun _ => { h with reassocDeadline := hinterval htie.2 }) fun _ => ?_
    exact inside_ite (fun _ => { h with keyLifetime := hinterval htie.2 }) fun _ => h
  refine inside_ite (fun _ => ?_) fun _ => ?_
  · exact inside_ite (fun _ => { h with lnkid := helement }) fun _ => h
  refine inside_ite (fun _ => { h with extCapab := helement }) fun _ => ?_
  refine inside_ite (fun _ => { h with suppRates := helement }) fun _ => ?_
  refine inside_ite (fun _ => { h with extSuppRates := helement }) fun _ => ?_
  refine inside_ite (fun hp => { h with htCapabilities := hbody hp.2 }) fun _ => ?_
  refine inside_ite (fun _ => inside_ite (fun _ => { h with }) fun _ => h) fun _ => ?_
  refine inside_ite (fun hp => { h with vhtCapabilities := hbody hp.2 }) fun _ => ?_
  refine inside_ite (fun hp => { h with heCapabilities := hhe hp.2.1 }) fun _ => ?_
  refine inside_ite (fun hp => { h with he6ghzCapabilities := hext hp.2.1 }) fun _ => ?_
  refine inside_ite (fun _ => { h with }) fun _ => ?_
  refine inside_ite (fun _ => { h with suppChannels := spanIn_some.mpr hroom }) fun _ => ?_
  refine inside_ite (fun _ => ?_) fun _ => h
  exact inside_ite (fun _ => { h with suppOperClasses := spanIn_some.mpr hroom }) fun _ => h

end Inside

/-! ### One element -/

section Step
variable {buf : Bytes} {pos : ℕ} {ie : EapolIeParse}

/-- The structure after the element at `pos`. -/
def kdeParsed (buf : Bytes) (pos : ℕ) (ie : EapolIeParse) : EapolIeParse :=
  if buf.byteAt pos = eidVendorSpecific then
    match wpaParseGeneric buf pos ie with
    | .parsed ie => ie
    | _ => wpaParseVendorSpecific buf pos ie
  else wpaParseElement buf pos ie

def KdePadding (buf : Bytes) (pos : ℕ) : Prop := buf.byteAt pos = 0xdd ∧ buf.byteAt (pos + 1) = 0

/-- The element at `pos` is not a vendor element shorter than a selector, or it is one whose
comparisons stay in the buffer and do not find the RSN Selection type. -/
def KdeFits (buf : Bytes) (pos : ℕ) : Prop :=
  buf.byteAt pos = eidVendorSpecific → 0 < buf.byteAt (pos + 1) → buf.byteAt (pos + 1) < 4 →
    pos + 2 + buf.byteAt (pos + 1) ≤ buf.length →
      pos + 6 ≤ buf.length ∧ buf.be32 (pos + 2) ≠ rsnSelectionIeVendorType

theorem ite_ne_endMark {p : Prop} [Decidable p] {a b : GenericResult} (ha : a ≠ .endMark)
    (hb : b ≠ .endMark) : (if p then a else b) ≠ .endMark := by
  by_cases h : p
  · rwa [if_pos h]
  · rwa [if_neg h]

theorem wpaParseGeneric_ne_endMark (hpos : 0 < buf.byteAt (pos + 1)) :
    wpaParseGeneric buf pos ie ≠ .endMark := by
  simp only [wpaParseGeneric]
  rw [if_neg (by omega)]
  repeat' apply ite_ne_endMark
  all_goals
    intro h
    cases h

theorem kdeStep_padding (hpos : pos + 2 ≤ buf.length) (h : KdePadding buf pos) :
    kdeStep buf pos ie = some (.stop true) := by
  simp only [kdeStep, read8_eq (by omega : pos < buf.length),
    read8_eq (by omega : pos + 1 < buf.length), Option.bind_eq_bind, Option.bind_some]
  rw [if_pos ⟨h.1, Or.inr h.2⟩]
  rfl

/-- With two octets left the test for a padding octet at the end never applies. -/
theorem not_kdePadding (hpos : pos + 2 ≤ buf.length) (h : ¬ KdePadding buf pos) :
    ¬ (buf.byteAt pos = 0xdd ∧ (pos = buf.length - 1 ∨ buf.byteAt (pos + 1) = 0)) := by
  rintro ⟨heid, hend | hzero⟩
  · omega
  · exact h ⟨heid, hzero⟩

theorem kdeStep_underflow (hpos : pos + 2 ≤ buf.length) (h : ¬ KdePadding buf pos)
    (hroom : buf.length < pos + 2 + buf.byteAt (pos + 1)) :
    kdeStep buf pos ie = some (.stop false) := by
  simp only [kdeStep, read8_eq (by omega : pos < buf.length),
    read8_eq (by omega : pos + 1 < buf.length), Option.bind_eq_bind, Option.bind_some]
  rw [if_neg (not_kdePadding hpos h), if_pos (by omega)]
  rfl

theorem kdeStep_next (h : ¬ KdePadding buf pos)
    (hroom : pos + 2 + buf.byteAt (pos + 1) ≤ buf.length)
    (hselector : buf.byteAt pos = eidVendorSpecific → pos + 6 ≤ buf.length) :
    kdeStep buf pos ie =
      some (.next (pos + 2 + buf.byteAt (pos + 1)) (kdeParsed buf pos ie)) := by
  simp only [kdeStep, read8_eq (by omega : pos < buf.length),
    read8_eq (by omega : pos + 1 < buf.length), Option.bind_eq_bind, Option.bind_some]
  rw [if_neg (not_kdePadding (by omega) h), if_neg (by omega)]
  by_cases hvendor : buf.byteAt pos = eidVendorSpecific
  · have hlen : 0 < buf.byteAt (pos + 1) := Nat.pos_of_ne_zero fun hzero => h ⟨hvendor, hzero⟩
    rw [if_pos hvendor, wpaParseGenericRead_eq hroom (hselector hvendor), Option.bind_some,
      kdeParsed, if_pos hvendor]
    cases hgeneric : wpaParseGeneric buf pos ie with
    | endMark => exact absurd hgeneric (wpaParseGeneric_ne_endMark hlen)
    | parsed ie' => rfl
    | unknown =>
      simp only
      rw [wpaParseVendorSpecificRead_eq hroom]
      rfl
  · rw [if_neg hvendor, wpaParseElementRead_eq hroom, kdeParsed, if_neg hvendor]
    rfl

theorem kdeStep_outside (hvendor : buf.byteAt pos = eidVendorSpecific)
    (hpos : 0 < buf.byteAt (pos + 1)) (hshort : buf.byteAt (pos + 1) < 4)
    (hroom : pos + 2 + buf.byteAt (pos + 1) ≤ buf.length) (hend : buf.length < pos + 6) :
    kdeStep buf pos ie = none := by
  have hpad : ¬ KdePadding buf pos := fun h => hpos.ne' h.2
  simp only [kdeStep, read8_eq (by omega : pos < buf.length),
    read8_eq (by omega : pos + 1 < buf.length), Option.bind_eq_bind, Option.bind_some]
  rw [if_neg (not_kdePadding (by omega) hpad), if_neg (by omega), if_pos hvendor,
    wpaParseGenericRead_eq_none hpos hshort hroom hend]
  rfl

theorem kdeParsed_inside (h : ¬ KdePadding buf pos) (hie : ie.Inside buf.length)
    (hroom : pos + 2 + buf.byteAt (pos + 1) ≤ buf.length) (hfits : KdeFits buf pos) :
    (kdeParsed buf pos ie).Inside buf.length := by
  unfold kdeParsed
  by_cases hvendor : buf.byteAt pos = eidVendorSpecific
  · have hlen : 0 < buf.byteAt (pos + 1) := Nat.pos_of_ne_zero fun hzero => h ⟨hvendor, hzero⟩
    have hgeneric := wpaParseGeneric_inside hie hroom fun hselection => by
      by_contra hshort
      exact (hfits hvendor hlen (by omega) hroom).2 hselection
    rw [if_pos hvendor]
    cases hr : wpaParseGeneric buf pos ie with
    | endMark => exact wpaParseVendorSpecific_inside hie hroom
    | unknown => exact wpaParseVendorSpecific_inside hie hroom
    | parsed ie' =>
      rw [hr] at hgeneric
      exact hgeneric
  · rw [if_neg hvendor]
    exact wpaParseElement_inside hie hroom

theorem kdeParsed_not_inside (hsize : buf.length < 2 ^ 32)
    (hvendor : buf.byteAt pos = eidVendorSpecific)
    (hpos : 0 < buf.byteAt (pos + 1)) (hshort : buf.byteAt (pos + 1) < 4)
    (hselection : buf.be32 (pos + 2) = rsnSelectionIeVendorType) :
    ¬ (kdeParsed buf pos ie).Inside buf.length := by
  intro hinside
  rw [kdeParsed, if_pos hvendor, wpaParseGeneric_short_selection hpos hshort hselection] at hinside
  have hspan := spanIn_some.mp hinside.rsnSelection
  have hwrap : subSelectorLen (buf.byteAt (pos + 1)) = 2 ^ 32 - 4 + buf.byteAt (pos + 1) := by
    unfold subSelectorLen
    omega
  rw [hwrap] at hspan
  have hlen : rsnSelectorLen = 4 := rfl
  omega

end Step

/-! ### The whole field -/

/-- `q` is the place of an element the loop comes to from `pos`. -/
inductive KdeReached (buf : Bytes) : ℕ → ℕ → Prop
  | here (pos : ℕ) : KdeReached buf pos pos
  | next {pos q : ℕ} (hpad : ¬ KdePadding buf pos)
      (hroom : pos + 2 + buf.byteAt (pos + 1) ≤ buf.length)
      (hrest : KdeReached buf (pos + 2 + buf.byteAt (pos + 1)) q) : KdeReached buf pos q

/-- The loop returned, and everything it stored lies in the buffer. -/
def KdeSafe (n : ℕ) (r : List EapolIeParse × KdeOutcome) : Prop :=
  (∃ ok, r.2 = .returned ok) ∧ ∀ ie ∈ r.1, ie.Inside n

section Run
variable {buf : Bytes} {pos q fuel : ℕ} {ie : EapolIeParse}

/-- Nothing behind the last two octets, behind the padding or behind an element that does not fit
is an element of the field. -/
theorem KdeReached.eq_of_stop (h : KdeReached buf pos q)
    (hstop : KdePadding buf pos ∨ buf.length < pos + 2 + buf.byteAt (pos + 1)) : q = pos := by
  cases h with
  | here => rfl
  | next hpad hroom hrest =>
    rcases hstop with hstop | hstop
    · exact absurd hstop hpad
    · omega

theorem kdeFits_of_stop
    (hstop : KdePadding buf pos ∨ buf.length < pos + 2 + buf.byteAt (pos + 1)) :
    ∀ q, KdeReached buf pos q → KdeFits buf q := by
  intro q hreached _ hpos _ hroom
  obtain rfl := hreached.eq_of_stop hstop
  rcases hstop with hstop | hstop
  · have hzero := hstop.2
    omega
  · omega

theorem kdeRun_outside (hpos : pos + 2 ≤ buf.length) (hstep : kdeStep buf pos ie = none) :
    kdeRun buf (fuel + 1) pos ie = ([], .outside) := by
  rw [kdeRun, if_neg (by omega), hstep]

theorem kdeRun_stop {ok : Bool} (hpos : pos + 2 ≤ buf.length)
    (hstep : kdeStep buf pos ie = some (.stop ok)) :
    kdeRun buf (fuel + 1) pos ie = ([], .returned ok) := by
  rw [kdeRun, if_neg (by omega), hstep]

theorem kdeRun_next {pos' : ℕ} {ie' : EapolIeParse} (hpos : pos + 2 ≤ buf.length)
    (hstep : kdeStep buf pos ie = some (.next pos' ie')) :
    kdeRun buf (fuel + 1) pos ie =
      (ie' :: (kdeRun buf fuel pos' ie').1, (kdeRun buf fuel pos' ie').2) := by
  rw [kdeRun, if_neg (by omega), hstep]

theorem kdeSafe_stop {n : ℕ} (ok : Bool) : KdeSafe n ([], .returned ok) :=
  ⟨⟨ok, rfl⟩, by simp⟩

theorem kdeSafe_next {n : ℕ} {r : List EapolIeParse × KdeOutcome} :
    KdeSafe n (ie :: r.1, r.2) ↔ ie.Inside n ∧ KdeSafe n r := by
  simp only [KdeSafe, List.mem_cons, forall_eq_or_imp]
  tauto

/-- An element that does not fit leaves the buffer, or a pointer that does. -/
theorem kdeRun_not_safe (hsize : buf.length < 2 ^ 32) (hfits : ¬ KdeFits buf pos) :
    ¬ KdeSafe buf.length (kdeRun buf (fuel + 1) pos ie) := by
  simp only [KdeFits, not_forall] at hfits
  obtain ⟨hvendor, hpos, hshort, hroom, hbad⟩ := hfits
  by_cases hend : pos + 6 ≤ buf.length
  · have hselection : buf.be32 (pos + 2) = rsnSelectionIeVendorType := by
      by_contra hne
      exact hbad ⟨hend, hne⟩
    rw [kdeRun_next (by omega) (kdeStep_next (fun h => hpos.ne' h.2) hroom fun _ => hend)]
    intro hsafe
    exact kdeParsed_not_inside hsize hvendor hpos hshort hselection (kdeSafe_next.mp hsafe).1
  · rw [kdeRun_outside (by omega) (kdeStep_outside hvendor hpos hshort hroom (by omega))]
    rintro ⟨⟨ok, hreturned⟩, -⟩
    cases hreturned

/-- The invariant of the loop is that the structure points into the buffer; it survives an
element exactly if the element fits. -/
theorem kdeRun_safe_iff (hsize : buf.length < 2 ^ 32) (hpos : pos ≤ buf.length)
    (hfuel : buf.length < pos + fuel) (hie : ie.Inside buf.length) :
    KdeSafe buf.length (kdeRun buf fuel pos ie) ↔ ∀ q, KdeReached buf pos q → KdeFits buf q := by
  induction fuel generalizing pos ie with
  | zero => omega
  | succ fuel ih =>
    by_cases hleft : buf.length - pos ≤ 1
    · rw [kdeRun, if_pos hleft]
      exact iff_of_true (kdeSafe_stop true) (kdeFits_of_stop (Or.inr (by omega)))
    by_cases hpad : KdePadding buf pos
    · rw [kdeRun_stop (by omega) (kdeStep_padding (by omega) hpad)]
      exact iff_of_true (kdeSafe_stop true) (kdeFits_of_stop (Or.inl hpad))
    by_cases hroom : pos + 2 + buf.byteAt (pos + 1) ≤ buf.length
    swap
    · rw [kdeRun_stop (by omega) (kdeStep_underflow (by omega) hpad (by omega))]
      exact iff_of_true (kdeSafe_stop false) (kdeFits_of_stop (Or.inr (by omega)))
    by_cases hfits : KdeFits buf pos
    swap
    · exact iff_of_false (kdeRun_not_safe hsize hfits) fun h => hfits (h pos (.here pos))
    have hselector (hvendor : buf.byteAt pos = eidVendorSpecific) : pos + 6 ≤ buf.length := by
      have hlen : 0 < buf.byteAt (pos + 1) :=
        Nat.pos_of_ne_zero fun hzero => hpad ⟨hvendor, hzero⟩
      by_contra hend
      exact hend (hfits hvendor hlen (by omega) hroom).1
    have hparsed := kdeParsed_inside hpad hie hroom hfits
    rw [kdeRun_next (by omega) (kdeStep_next hpad hroom hselector), kdeSafe_next,
      ih hroom (by omega) hparsed]
    constructor
    · rintro ⟨-, hrest⟩ q hreached
      cases hreached with
      | here => exact hfits
      | next _ _ hq => exact hrest q hq
    · intro hall
      exact ⟨hparsed, fun q hq => hall q (.next hpad hroom hq)⟩

theorem wpaParseKdeIesFrom_next (hpad : ¬ KdePadding buf pos)
    (hroom : pos + 2 + buf.byteAt (pos + 1) ≤ buf.length) :
    wpaParseKdeIesFrom buf (fuel + 1) pos ie =
      wpaParseKdeIesFrom buf fuel (pos + 2 + buf.byteAt (pos + 1)) (kdeParsed buf pos ie) := by
  rw [wpaParseKdeIesFrom, if_neg (by omega), if_neg (not_kdePadding (by omega) hpad), if_neg (by omega)]
  unfold kdeParsed
  by_cases hvendor : buf.byteAt pos = eidVendorSpecific
  · have hlen : 0 < buf.byteAt (pos + 1) := Nat.pos_of_ne_zero fun hzero => hpad ⟨hvendor, hzero⟩
    rw [if_pos hvendor, if_pos hvendor]
    cases hgeneric : wpaParseGeneric buf pos ie with
    | endMark => exact absurd hgeneric (wpaParseGeneric_ne_endMark hlen)
    | parsed ie' => rfl
    | unknown => rfl
  · rw [if_neg hvendor, if_neg hvendor]

/-- The loop with checked reads, when it returns, returns what the loop without them does. -/
theorem wpaParseKdeIesFrom_eq {ok : Bool} (hreturned : (kdeRun buf fuel pos ie).2 = .returned ok) :
    wpaParseKdeIesFrom buf fuel pos ie =
      if ok then some ((kdeRun buf fuel pos ie).1.getLastD ie) else none := by
  induction fuel generalizing pos ie with
  | zero => cases hreturned
  | succ fuel ih =>
    by_cases hleft : buf.length - pos ≤ 1
    · rw [kdeRun, if_pos hleft] at hreturned ⊢
      cases hreturned
      rw [wpaParseKdeIesFrom]
      exact if_pos hleft
    by_cases hpad : KdePadding buf pos
    · rw [kdeRun_stop (by omega) (kdeStep_padding (by omega) hpad)] at hreturned ⊢
      cases hreturned
      rw [wpaParseKdeIesFrom]
      exact (if_neg hleft).trans (if_pos ⟨hpad.1, Or.inr hpad.2⟩)
    by_cases hroom : pos + 2 + buf.byteAt (pos + 1) ≤ buf.length
    swap
    · rw [kdeRun_stop (by omega) (kdeStep_underflow (by omega) hpad (by omega))] at hreturned ⊢
      cases hreturned
      rw [wpaParseKdeIesFrom]
      exact (if_neg hleft).trans
        ((if_neg (not_kdePadding (by omega) hpad)).trans (if_pos (by omega)))
    by_cases hselector : buf.byteAt pos = eidVendorSpecific → pos + 6 ≤ buf.length
    · rw [kdeRun_next (by omega) (kdeStep_next hpad hroom hselector)] at hreturned ⊢
      rw [wpaParseKdeIesFrom_next hpad hroom, ih hreturned, List.getLastD_cons]
    · obtain ⟨hvendor, hend⟩ := Classical.not_imp.mp hselector
      have hlen : 0 < buf.byteAt (pos + 1) :=
        Nat.pos_of_ne_zero fun hzero => hpad ⟨hvendor, hzero⟩
      rw [kdeRun_outside (by omega)
        (kdeStep_outside hvendor hlen (by omega) hroom (by omega))] at hreturned
      cases hreturned

/-- One more unit of fuel changes nothing once there is an octet of it for each octet left. -/
theorem wpaParseKdeIesFrom_fuel (hfuel : buf.length ≤ pos + fuel) :
    wpaParseKdeIesFrom buf (fuel + 1) pos ie = wpaParseKdeIesFrom buf fuel pos ie := by
  induction fuel generalizing pos ie with
  | zero =>
    rw [wpaParseKdeIesFrom, wpaParseKdeIesFrom]
    exact if_pos (by omega)
  | succ fuel ih =>
    have hrest (ie' : EapolIeParse) :
        wpaParseKdeIesFrom buf (fuel + 1) (pos + 2 + buf.byteAt (pos + 1)) ie' =
          wpaParseKdeIesFrom buf fuel (pos + 2 + buf.byteAt (pos + 1)) ie' := ih (by omega)
    rw [wpaParseKdeIesFrom]
    simp only [hrest]
    rw [wpaParseKdeIesFrom]

theorem wpaParseKdeIes_eq {ok : Bool} (hreturned : (wpaParseKdeIesRead buf).2 = .returned ok) :
    wpaParseKdeIes buf = if ok then some ((wpaParseKdeIesRead buf).1.getLastD {}) else none :=
  (wpaParseKdeIesFrom_fuel (by omega)).symm.trans (wpaParseKdeIesFrom_eq hreturned)

end Run

/-- The Key Data is parsed inside the buffer exactly if every vendor element the loop comes to has
room for its selector: behind the header, and in its own length where the selector is that of the
RSN Selection element. -/
theorem wpaParseKdeIesRead_safe_iff (buf : Bytes) (hsize : buf.length < 2 ^ 32) :
    KdeSafe buf.length (wpaParseKdeIesRead buf) ↔ ∀ q, KdeReached buf 0 q → KdeFits buf q :=
  kdeRun_safe_iff hsize (Nat.zero_le _) (by omega) .empty

theorem wpaParseKdeIesRead_safe_iff_unknown_vendor :
    [0xdd, 3, 0, 0, 0, 0x2d, 0].length < 2 ^ 32 ∧
      (KdeSafe 7 (wpaParseKdeIesRead [0xdd, 3, 0, 0, 0, 0x2d, 0]) ↔
        ∀ q, KdeReached [0xdd, 3, 0, 0, 0, 0x2d, 0] 0 q →
          KdeFits [0xdd, 3, 0, 0, 0, 0x2d, 0] q) :=
  ⟨by decide, wpaParseKdeIesRead_safe_iff _ (by decide)⟩

theorem wpaParseKdeIesRead_short_selector :
    (wpaParseKdeIesRead [0xdd, 1, 0]).2 = .outside ∧
      ¬ KdeSafe 3 (wpaParseKdeIesRead [0xdd, 1, 0]) ∧
      (wpaParseKdeIesRead [0xdd, 3, 0x50, 0x6f, 0x9a, 0x2c, 0]).2 = .returned true ∧
      ¬ KdeSafe 7 (wpaParseKdeIesRead [0xdd, 3, 0x50, 0x6f, 0x9a, 0x2c, 0]) := by
  have houtside : (wpaParseKdeIesRead [0xdd, 1, 0]).2 = .outside := by decide
  refine ⟨houtside, ?_, by decide, ?_⟩
  · rintro ⟨⟨ok, hreturned⟩, -⟩
    rw [houtside] at hreturned
    cases hreturned
  · intro hsafe
    have hstored : ({ rsnSelection := some ⟨6, 2 ^ 32 - 1⟩ } : EapolIeParse) ∈
        (wpaParseKdeIesRead [0xdd, 3, 0x50, 0x6f, 0x9a, 0x2c, 0]).1 := by decide
    exact absurd (spanIn_some.mp (hsafe.2 _ hstored).rsnSelection) (by decide)

end Wpa
