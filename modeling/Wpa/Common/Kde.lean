import Wpa.Common.EapolKey

/-! `wpa_parse_kde_ies`: the walk over the elements and KDEs of an EAPOL-Key Key Data field. The
pointers stored in `struct wpa_eapol_ie_parse` are offsets into the Key Data; a pointer stored
with a length is a `Span`. -/

namespace Wpa
open Lib Bytes

structure Span where
  off : ℕ
  len : ℕ
  deriving DecidableEq

def Span.read (buf : Bytes) (s : Span) : Bytes := buf.slice s.off s.len

/-- `size_t` subtraction of a length octet and the selector length, which wraps for elements
shorter than the selector. -/
def subSelectorLen (n : ℕ) : ℕ := (n + 2 ^ 32 - 4) % 2 ^ 32

structure EapolIeParse where
  wpaIe : Option Span := none
  rsnIe : Option Span := none
  pmkid : Option ℕ := none
  keyId : Option ℕ := none
  gtk : Option Span := none
  macAddr : Option Span := none
  igtk : Option Span := none
  bigtk : Option Span := none
  mdie : Option Span := none
  ftie : Option Span := none
  ipAddrReq : Option ℕ := none
  ipAddrAlloc : Option ℕ := none
  transitionDisable : Option Span := none
  dppKde : Option Span := none
  oci : Option Span := none
  osen : Option Span := none
  rsnxe : Option Span := none
  reassocDeadline : Option ℕ := none
  keyLifetime : Option ℕ := none
  lnkid : Option Span := none
  extCapab : Option Span := none
  suppRates : Option Span := none
  extSuppRates : Option Span := none
  htCapabilities : Option ℕ := none
  vhtCapabilities : Option ℕ := none
  heCapabilities : Option Span := none
  he6ghzCapabilities : Option ℕ := none
  suppChannels : Option Span := none
  suppOperClasses : Option Span := none
  qosinfo : ℕ := 0
  aid : ℕ := 0
  wmm : Option Span := none
  rsnSelection : Option Span := none
  rsneOverride : Option Span := none
  rsneOverride2 : Option Span := none
  rsnxeOverride : Option Span := none
  deriving DecidableEq

def eidSuppRates : ℕ := 1
def eidSupportedChannels : ℕ := 36
def eidHtCap : ℕ := 45
def eidQos : ℕ := 46
def eidRsn : ℕ := 48
def eidExtSuppRates : ℕ := 50
def eidMobilityDomain : ℕ := 54
def eidFastBssTransition : ℕ := 55
def eidTimeoutInterval : ℕ := 56
def eidSupportedOperatingClasses : ℕ := 59
def eidLinkId : ℕ := 101
def eidExtCapab : ℕ := 127
def eidVhtCap : ℕ := 191
def eidVhtAid : ℕ := 197
def eidVendorSpecific : ℕ := 221
def eidRsnx : ℕ := 244
def eidExtension : ℕ := 255
def eidExtHeCapabilities : ℕ := 35
def eidExtHe6ghzBandCap : ℕ := 59

def rsnSelectorLen : ℕ := 4
def wpaOuiType : ℕ := 0x0050f201
def osenIeVendorType : ℕ := 0x506f9a12
def rsnKeyDataGroupkey : ℕ := 0x000fac01
def rsnKeyDataMacAddr : ℕ := 0x000fac03
def rsnKeyDataPmkid : ℕ := 0x000fac04
def rsnKeyDataIgtk : ℕ := 0x000fac09
def rsnKeyDataKeyid : ℕ := 0x000fac0a
def rsnKeyDataOci : ℕ := 0x000fac0d
def rsnKeyDataBigtk : ℕ := 0x000fac0e
def wfaKeyDataIpAddrReq : ℕ := 0x506f9a04
def wfaKeyDataIpAddrAlloc : ℕ := 0x506f9a05
def wfaKeyDataTransitionDisable : ℕ := 0x506f9a20
def wfaKeyDataDpp : ℕ := 0x506f9a21
def rsneOverrideIeVendorType : ℕ := 0x506f9a29
def rsneOverride2IeVendorType : ℕ := 0x506f9a2a
def rsnxeOverrideIeVendorType : ℕ := 0x506f9a2b
def rsnSelectionIeVendorType : ℕ := 0x506f9a2c
def ouiMicrosoft : ℕ := 0x0050f2

/-- `sizeof` of `struct ieee80211_ht_capabilities`, `struct ieee80211_vht_capabilities` and
`struct ieee80211_he_6ghz_band_cap`. -/
def htCapabilitiesSize : ℕ := 26
def vhtCapabilitiesSize : ℕ := 12
def he6ghzBandCapSize : ℕ := 2
def heCapabMinLen : ℕ := 6 + 11

def wpaAddKde (selector : ℕ) (data : Bytes) : Bytes :=
  [UInt8.ofNat eidVendorSpecific, UInt8.ofNat (rsnSelectorLen + data.length)] ++
    ofBeNat selector 4 ++ data

/-- Parse an element that `wpa_parse_generic` did not recognize; only WMM is kept. -/
def wpaParseVendorSpecific (buf : Bytes) (pos : ℕ) (ie : EapolIeParse) : EapolIeParse :=
  let len := buf.byteAt (pos + 1)
  if len < 4 then ie
  else if buf.be24 (pos + 2) = ouiMicrosoft ∧ buf.byteAt (pos + 5) = 2 ∧ len > 4 then
    if buf.byteAt (pos + 6) = 0 ∨ buf.byteAt (pos + 6) = 1 then
      { ie with wmm := some ⟨pos + 2, len⟩ }
    else ie
  else ie

inductive GenericResult where
  | parsed (ie : EapolIeParse)
  | endMark
  | unknown
  deriving DecidableEq

def wpaParseGeneric (buf : Bytes) (pos : ℕ) (ie : EapolIeParse) : GenericResult :=
  let len := buf.byteAt (pos + 1)
  let selector := buf.be32 (pos + 2)
  let element : Span := ⟨pos, len + 2⟩
  let body : Span := ⟨pos + 2 + rsnSelectorLen, len - rsnSelectorLen⟩
  if len = 0 then .endMark
  else if len ≥ 6 ∧ selector = wpaOuiType ∧ buf.byteAt (pos + 6) = 1 ∧
      buf.byteAt (pos + 7) = 0 then
    .parsed { ie with wpaIe := some element }
  else if len ≥ 4 ∧ selector = osenIeVendorType then .parsed { ie with osen := some element }
  else if len ≥ rsnSelectorLen + pmkidLen ∧ selector = rsnKeyDataPmkid then
    .parsed { ie with pmkid := some body.off }
  else if len ≥ rsnSelectorLen + 2 ∧ selector = rsnKeyDataKeyid then
    .parsed { ie with keyId := some body.off }
  else if len > rsnSelectorLen + 2 ∧ selector = rsnKeyDataGroupkey then
    .parsed { ie with gtk := some body }
  else if len > rsnSelectorLen + 2 ∧ selector = rsnKeyDataMacAddr then
    .parsed { ie with macAddr := some body }
  else if len > rsnSelectorLen + 2 ∧ selector = rsnKeyDataIgtk then
    .parsed { ie with igtk := some body }
  else if len > rsnSelectorLen + 2 ∧ selector = rsnKeyDataBigtk then
    .parsed { ie with bigtk := some body }
  else if len ≥ rsnSelectorLen + 1 ∧ selector = wfaKeyDataIpAddrReq then
    .parsed { ie with ipAddrReq := some body.off }
  else if len ≥ rsnSelectorLen + 3 * 4 ∧ selector = wfaKeyDataIpAddrAlloc then
    .parsed { ie with ipAddrAlloc := some body.off }
  else if len > rsnSelectorLen + 2 ∧ selector = rsnKeyDataOci then
    .parsed { ie with oci := some body }
  else if len ≥ rsnSelectorLen + 1 ∧ selector = wfaKeyDataTransitionDisable then
    .parsed { ie with transitionDisable := some body }
  else if len ≥ rsnSelectorLen + 2 ∧ selector = wfaKeyDataDpp then
    .parsed { ie with dppKde := some body }
  -- the override elements are recognized without a length check of their own
  else if selector = rsneOverrideIeVendorType then .parsed { ie with rsneOverride := some element }
  else if selector = rsneOverride2IeVendorType then
    .parsed { ie with rsneOverride2 := some element }
  else if selector = rsnxeOverrideIeVendorType then
    .parsed { ie with rsnxeOverride := some element }
  else if selector = rsnSelectionIeVendorType then
    .parsed { ie with rsnSelection := some ⟨pos + 2 + rsnSelectorLen, subSelectorLen len⟩ }
  else .unknown

/-- The elements other than Vendor Specific. -/
def wpaParseElement (buf : Bytes) (pos : ℕ) (ie : EapolIeParse) : EapolIeParse :=
  let eid := buf.byteAt pos
  let len := buf.byteAt (pos + 1)
  let element : Span := ⟨pos, len + 2⟩
  if eid = eidRsn then { ie with rsnIe := some element }
  else if eid = eidRsnx then { ie with rsnxe := some element }
  else if eid = eidMobilityDomain then { ie with mdie := some element }
  else if eid = eidFastBssTransition then { ie with ftie := some element }
  else if eid = eidTimeoutInterval ∧ len ≥ 5 then
    if buf.byteAt (pos + 2) = 1 then { ie with reassocDeadline := some pos }
    else if buf.byteAt (pos + 2) = 2 then { ie with keyLifetime := some pos }
    else ie
  else if eid = eidLinkId then if len ≥ 18 then { ie with lnkid := some element } else ie
  else if eid = eidExtCapab then { ie with extCapab := some element }
  else if eid = eidSuppRates then { ie with suppRates := some element }
  else if eid = eidExtSuppRates then { ie with extSuppRates := some element }
  else if eid = eidHtCap ∧ len ≥ htCapabilitiesSize then
    { ie with htCapabilities := some (pos + 2) }
  else if eid = eidVhtAid then
    if len ≥ 2 then { ie with aid := buf.le16 (pos + 2) % 2 ^ 14 } else ie
  else if eid = eidVhtCap ∧ len ≥ vhtCapabilitiesSize then
    { ie with vhtCapabilities := some (pos + 2) }
  else if eid = eidExtension ∧ len ≥ 1 + heCapabMinLen ∧
      buf.byteAt (pos + 2) = eidExtHeCapabilities then
    { ie with heCapabilities := some ⟨pos + 3, len - 1⟩ }
  else if eid = eidExtension ∧ len ≥ 1 + he6ghzBandCapSize ∧
      buf.byteAt (pos + 2) = eidExtHe6ghzBandCap then
    { ie with he6ghzCapabilities := some (pos + 3) }
  else if eid = eidQos ∧ len ≥ 1 then { ie with qosinfo := buf.byteAt (pos + 2) }
  else if eid = eidSupportedChannels then { ie with suppChannels := some ⟨pos + 2, len⟩ }
  else if eid = eidSupportedOperatingClasses then
    if len ≥ 2 ∧ len ≤ 253 then { ie with suppOperClasses := some ⟨pos + 2, len⟩ } else ie
  else ie

/-- The loop of `wpa_parse_kde_ies` from `pos` on; `none` is the error return. Every iteration
moves on by at least two octets, so the length of the buffer is enough fuel. -/
def wpaParseKdeIesFrom (buf : Bytes) : ℕ → ℕ → EapolIeParse → Option EapolIeParse
  | 0, _, ie => some ie
  | fuel + 1, pos, ie =>
    let len := buf.byteAt (pos + 1)
    if buf.length - pos ≤ 1 then some ie
    else if buf.byteAt pos = 0xdd ∧ (pos = buf.length - 1 ∨ len = 0) then some ie
    else if 2 + len > buf.length - pos then none
    else if buf.byteAt pos = eidVendorSpecific then
      match wpaParseGeneric buf pos ie with
      | .endMark => some ie
      | .parsed ie' => wpaParseKdeIesFrom buf fuel (pos + 2 + len) ie'
      | .unknown =>
        wpaParseKdeIesFrom buf fuel (pos + 2 + len) (wpaParseVendorSpecific buf pos ie)
    else wpaParseKdeIesFrom buf fuel (pos + 2 + len) (wpaParseElement buf pos ie)

def wpaParseKdeIes (buf : Bytes) : Option EapolIeParse :=
  wpaParseKdeIesFrom buf buf.length 0 {}

/-- The KDEs of a parsed Key Data field that the key handlers use. -/
def kde (keyData : Bytes) (s : Option Span) : Option Bytes := s.map (Span.read keyData)

/-- `wpa_supplicant_parse_ies`. -/
def wpaSupplicantParseIes (buf : Bytes) : Option EapolIeParse := wpaParseKdeIes buf

end Wpa
