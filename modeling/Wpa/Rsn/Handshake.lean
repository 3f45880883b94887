import Wpa.Rsn.Tx

/-! The message handlers of the 4-way and group key handshakes in `rsn_supp/wpa.c`. -/

namespace Wpa.Rsn
open Lib Bytes Prog

/-- `goto failed` of the handlers. -/
def failed : M Unit := wpaSmDeauthenticate reasonUnspecified

inductive GetPmkResult where
  | ok
  | failed
  /-- Return value -2: full EAP authentication was requested, no reply is sent. -/
  | noReply
  deriving DecidableEq

/-- The PMK from the EAPOL state machines and its length; EAP-LEAP gives only 16 octets. -/
def eapolPmk (env : Env) (sm : Sm) : Option Bytes :=
  if wpaKeyMgmtSha384 sm.keyMgmt then env.eapolGetKey pmkLenSuiteB192
  else
    match env.eapolGetKey pmkLen with
    | some pmk => some pmk
    | none => env.eapolGetKey 16

/-- The XXKey taken from the 64-octet MSK. -/
def eapolXxkey (env : Env) (sm : Sm) : Option Bytes :=
  (env.eapolGetKey (2 * pmkLen)).map fun msk =>
    if wpaKeyMgmtSha384 sm.keyMgmt then msk.take 48 else msk.slice pmkLen pmkLen

/-- Last part of `wpa_supplicant_get_pmk`: an EAPOL-Start when PMKSA caching was aborted. -/
def requestFullEap (abortCached : Bool) : M GetPmkResult := do
  let env ← ask
  let sm ← get
  if abortCached ∧ wpaKeyMgmtWpaIeee8021x sm.keyMgmt ∧ ¬wpaKeyMgmtSuiteB sm.keyMgmt ∧
      ¬wpaKeyMgmtFt sm.keyMgmt ∧ sm.keyMgmt ≠ keyMgmtOsen then
    if env.alloc .eapolStart then do
      emit (.etherSend sm.bssid [UInt8.ofNat env.eapolVersion, 1, 0, 0])
      pure .noReply
    else pure .failed
  else pure .ok

/-- The branch of `wpa_supplicant_get_pmk` that takes over the cached PMK. -/
def usePmksa : M Unit :=
  update fun sm =>
    let sm := wpaSmSetPmkFromPmksa sm
    { sm with
      xxkey := if sm.keyMgmt = keyMgmtFtSae ∧ sm.pmk.length = pmkLen then sm.pmk else [] }

/-- FT caches the XXKey; the callback of the cache may erase the PMK octets already stored. -/
def cacheXxkey (xxkey : Bytes) : M Unit := do
  update fun sm => { sm with xxkey := xxkey }
  let sm ← get
  when (sm.proto = .rsn ∧ wpaKeyMgmtFt sm.keyMgmt) (do
    let sa ← pmksaCacheAdd
    update fun sm => { sm with curPmksa := sm.curPmksa.or sa })

/-- Store a PMK from EAP, with the XXKey cached before if there is one. -/
def storeEapolPmk (pmk : Bytes) : M Unit := do
  let env ← ask
  let sm ← get
  let xxkey := eapolXxkey env sm
  let ft : Bool := sm.proto = .rsn ∧ wpaKeyMgmtFt sm.keyMgmt
  let erased := xxkey.isSome && ft && env.pmksaAdd.currentRemoved
  when xxkey.isSome (cacheXxkey (xxkey.getD []))
  update fun sm => { sm with pmk := if erased then zeros pmk.length else pmk }

def cacheEapolPmk : M (Option Pmksa) := do
  let sm ← get
  if sm.proto = .rsn ∧ ¬wpaKeyMgmtSuiteB sm.keyMgmt ∧ ¬wpaKeyMgmtFt sm.keyMgmt then pmksaCacheAdd
  else pure none

/-- The PMKID of the message must belong to the PMK that EAP gave. -/
def matchEapolPmkid (pmkid : Option Bytes) (sa : Option Pmksa) (abortCached : Bool) :
    M GetPmkResult := do
  let env ← ask
  let sm ← get
  if sm.curPmksa = none ∧ pmkid.isSome ∧ env.pmksaGetAfterAdd then do
    update fun sm => { sm with curPmksa := sm.curPmksa.or sa }
    requestFullEap false
  else if sa.isSome ∧ sm.curPmksa = none ∧ pmkid.isSome then pure .failed
  else do
    update fun sm => { sm with curPmksa := sm.curPmksa.or sa }
    requestFullEap abortCached

/-- The branch of `wpa_supplicant_get_pmk` for a PMK from EAP. -/
def pmkFromEapol (pmkid : Option Bytes) (pmk : Bytes) (abortCached : Bool) : M GetPmkResult := do
  storeEapolPmk pmk
  let sa ← cacheEapolPmk
  matchEapolPmkid pmkid sa abortCached

/-- The branch of `wpa_supplicant_get_pmk` for AKMs with EAP. -/
def pmkFromEap (pmkid : Option Bytes) (abortCached : Bool) : M GetPmkResult := do
  let env ← ask
  let sm ← get
  match eapolPmk env sm with
  | some pmk => pmkFromEapol pmkid pmk abortCached
  | none =>
    if wpaKeyMgmtFt sm.keyMgmt ∧ sm.ftProtocol then requestFullEap abortCached
    else if sm.curPmksa.isSome then do
      update fun sm => { sm with curPmksa := none }
      requestFullEap true
    else if abortCached then requestFullEap abortCached
    else pure .failed

/-- Look for a PMKSA with the PMKID if none is current; the result tells that none was found. -/
def lookupPmksa (pmkid : Option Bytes) : M Bool := do
  let env ← ask
  let sm ← get
  if pmkid.isSome ∧ sm.curPmksa = none then do
    update fun sm => { sm with curPmksa := env.pmksaGet }
    pure env.pmksaGet.isNone
  else pure false

def wpaSupplicantGetPmk (pmkid : Option Bytes) : M GetPmkResult := do
  let abortCached ← lookupPmksa pmkid
  let sm ← get
  if pmkid.isSome ∧ pmkid = sm.curPmksa.map Pmksa.pmkid then do
    usePmksa
    requestFullEap abortCached
  else if wpaKeyMgmtWpaIeee8021x sm.keyMgmt ∧ sm.eapol then pmkFromEap pmkid abortCached
  else requestFullEap abortCached

def Sm.kdkLen (sm : Sm) : ℕ :=
  if sm.forceKdkDerivation || (sm.secureLtf && ieee80211RsnxCapab sm.ap.rsnxe rsnxCapabSecureLtf)
  then wpaKdkMaxLen else 0

/-- The key that PMK-R0 is derived from. -/
def Sm.mpmk (sm : Sm) : Option Bytes :=
  if sm.xxkey.length > 0 then some sm.xxkey else sm.curPmksa.map Pmksa.pmk

/-- `wpa_derive_ptk_ft`, which also stores the PMK-R0 and PMK-R1 it derives on the way. -/
def wpaDerivePtkFt (anonce : Bytes) : M (Option Ptk) := do
  let env ← ask
  let sm ← get
  match sm.mpmk with
  | none => pure none
  | some mpmk =>
    match wpaDerivePmkR0 env.cr mpmk sm.ssid sm.mobilityDomain sm.r0khId sm.ownAddr
      (wpaKeyMgmtSha384 sm.keyMgmt) with
    | none => pure none
    | some (pmkR0, pmkR0Name) => do
      update fun sm => { sm with pmkR0 := pmkR0, pmkR0Name := pmkR0Name }
      match wpaDerivePmkR1 env.cr pmkR0 pmkR0Name sm.r1khId sm.ownAddr with
      | none => pure none
      | some (pmkR1, pmkR1Name) => do
        update fun sm => { sm with pmkR1 := pmkR1, pmkR1Name := pmkR1Name }
        pure (wpaPmkR1ToPtk env.cr pmkR1 sm.snonce anonce sm.ownAddr sm.bssid pmkR1Name sm.tptk
          sm.keyMgmt sm.pairwiseCipher sm.kdkLen)

/-- The PTK that `wpa_derive_ptk` computes for AKMs without fast transition. -/
def pairwiseKey (env : Env) (sm : Sm) (anonce : Bytes) : Option Ptk :=
  let z := if sm.keyMgmt = keyMgmtDpp then sm.dppZ.getD [] else []
  let akmp :=
    if sm.owePtkWorkaround ∧ sm.keyMgmt = keyMgmtOwe ∧ sm.pmk.length > 32 then
      sm.keyMgmt ||| keyMgmtPskSha256
    else sm.keyMgmt
  wpaPmkToPtk env.cr sm.pmk sm.ownAddr sm.bssid sm.snonce anonce sm.tptk akmp
    sm.pairwiseCipher z sm.kdkLen

def wpaDerivePtk (anonce : Bytes) : M (Option Ptk) := do
  let env ← ask
  let sm ← get
  if wpaKeyMgmtFt sm.keyMgmt then wpaDerivePtkFt anonce else pure (pairwiseKey env sm anonce)

/-- `wpa_handle_ext_key_id`. -/
def wpaHandleExtKeyId (keyData : Bytes) (ie : EapolIeParse) : M Bool := do
  let sm ← get
  let keyId := ie.keyId.map fun off => keyData.byteAt off % 4
  if sm.extKeyId then
    match keyId with
    | none => do
      update fun sm => { sm with keyidxActive := 0 }
      pure (!sm.useExtKeyId)
    | some id =>
      if id > 1 then pure false
      else do
        update fun sm => { sm with keyidxActive := id, useExtKeyId := true }
        pure true
  else if keyId.getD 0 ≠ 0 then pure false
  else do
    update fun sm => { sm with keyidxActive := 0, useExtKeyId := false }
    pure true

/-- `rsn_set_snonce_cookie`. -/
def rsnSetSnonceCookie (snonce : Bytes) : Bytes :=
  snonce.writeAt (wpaNonceLen - 6) (ofBeNat 0x506f9a 3 ++ ofBeNat 0x000029 3)

def freshSnonce (sm : Sm) (r : Bytes) : Bytes :=
  if wpaSmRsnOverridingSupported sm then rsnSetSnonceCookie r else r

/-- Store a fresh SNonce if one is due; `false` when no random octets were available. -/
def renewSnonceIfDue : M Bool := do
  let env ← ask
  let sm ← get
  if sm.renewSnonce then
    match env.random with
    | none => pure false
    | some r => do
      emit (.renewSnonce (freshSnonce sm r))
      update fun s => { s with snonce := freshSnonce sm r, renewSnonce := false }
      pure true
  else pure true

def dppVersion : ℕ := 2

/-- The KDEs appended to the association element in message 2/4; `none` without channel
information for the OCI KDE. -/
def msg2Of4Kdes (env : Env) (sm : Sm) : Option Bytes := do
  let oci ←
    if wpaSmOcvEnabled sm then if env.channelInfoInsert then env.ocvInsertOciKde else none
    else some []
  let p2p :=
    if sm.p2p then
      [UInt8.ofNat eidVendorSpecific, 5] ++ ofBeNat wfaKeyDataIpAddrReq 4 ++ [1]
    else []
  let flags : UInt8 := if sm.dppPfs = 0 then 1 else if sm.dppPfs = 1 then 3 else 0
  let dpp :=
    if sm.keyMgmt = keyMgmtDpp then
      [UInt8.ofNat eidVendorSpecific, 6] ++ ofBeNat wfaKeyDataDpp 4 ++
        [UInt8.ofNat dppVersion, flags]
    else []
  some (sm.assocWpaIe.getD [] ++ oci ++ sm.assocRsnxe.getD [] ++ p2p ++ dpp)

/-- The TPTK as message 1/4 stores it. -/
def storedTptk (sm : Sm) (ptk : Ptk) : Ptk :=
  if sm.pairwiseCipher = cipherTkip then { ptk with tk := swapMichael ptk.tk } else ptk

/-- Derive the TPTK for the received ANonce, as used until message 3/4 confirms it. -/
def deriveTptk (anonce : Bytes) : M Bool := do
  let ptk? ← wpaDerivePtk anonce
  match ptk? with
  | none => pure false
  | some ptk => do
    let sm ← get
    emit (.derivePtk anonce sm.snonce (storedTptk sm ptk))
    update fun s => { s with tptk := storedTptk sm ptk, tptkSet := true }
    pure true

/-- Message 2/4 and the ANonce it answers. -/
def reply2Of4 (key : EapolKey) (ver : ℕ) : M Unit := do
  let env ← ask
  let sm ← get
  if ¬env.alloc .kdeBuf then failed
  else
    match msg2Of4Kdes env sm with
    | none => failed
    | some kdes => do
      let ok ← wpaSupplicantSend2Of4 sm.bssid key ver sm.snonce kdes sm.tptk
      if ok then update fun sm => { sm with anonce := key.keyNonce } else failed

/-- The part of message 1/4 after `wpa_supplicant_get_pmk`. -/
def derive1Of4 (key : EapolKey) (ver : ℕ) : M Unit := do
  let renewed ← renewSnonceIfDue
  if ¬renewed then failed
  else do
    let derived ← deriveTptk key.keyNonce
    if ¬derived then failed
    else reply2Of4 key ver

/-- Message 1/4 once its PMKID is known. -/
def answer1Of4 (key : EapolKey) (ver : ℕ) (pmkid : Option Bytes) : M Unit := do
  let res ← wpaSupplicantGetPmk pmkid
  match res with
  | .noReply => pure ()
  | .failed => failed
  | .ok => derive1Of4 key ver

/-- The Key Data of message 1/4 is only looked at for RSN and OSEN. -/
def ies1Of4 (sm : Sm) (keyData : Bytes) : Option EapolIeParse :=
  if sm.proto.isRsnOrOsen then wpaSupplicantParseIes keyData else some {}

def wpaSupplicantProcess1Of4 (key : EapolKey) (ver : ℕ) (keyData : Bytes) : M Unit := do
  let sm ← get
  if ¬sm.networkCtx then pure ()
  else if sm.wpaDenyPtk0Rekey ∧ ¬sm.useExtKeyId ∧ sm.wpaState = .completed then wpaSmReconnect
  else do
    wpaSmSetState .fourWayHandshake
    match ies1Of4 sm keyData with
    | none => failed
    | some ie => answer1Of4 key ver (ie.pmkid.map fun off => keyData.slice off pmkidLen)

/-- `wpa_ft_prepare_auth_request` with the octets it draws: the SNonce for the next transition. -/
def wpaFtPrepareAuthRequest (random : Option Bytes) : M Unit :=
  match random with
  | none => pure ()
  | some r => do
    emit (.renewSnonce r)
    update fun sm => { sm with snonce := r }

def wpaSupplicantKeyNegComplete : M Unit := do
  wpaSmSetState .completed
  let env ← ask
  let sm ← get
  when (wpaKeyMgmtFt sm.keyMgmt) (wpaFtPrepareAuthRequest env.random)

/-- The last MDE and FTE of the association response, as `wpa_supplicant_validate_ie_ft` picks
them. -/
def lastElement (eid : ℕ) (ies : Bytes) : ℕ → ℕ → Option Bytes → Option Bytes
  | 0, _, found => found
  | fuel + 1, pos, found =>
    let len := ies.byteAt (pos + 1)
    if ies.length - pos ≤ 2 then found
    else if 2 + len > ies.length - pos then found
    else
      let found := if ies.byteAt pos = eid then some (ies.slice pos (2 + len)) else found
      lastElement eid ies fuel (pos + 2 + len) found

def ftValidateMdie (sm : Sm) (mdie assocRespMdie : Option Bytes) : Bool :=
  match mdie with
  | none => false
  | some m =>
    decide (m.length ≥ 2 + 3) && m.slice 2 2 == sm.mobilityDomain &&
      match assocRespMdie with
      | none => true
      | some a => a == m

def ftValidateFtie (ftie assocRespFtie : Option Bytes) : Bool :=
  match ftie, assocRespFtie with
  | none, _ => false
  | some _, none => true
  | some f, some a => a == f

def ftValidateRsnie (sm : Sm) (rsnIe : Option Bytes) : Bool :=
  match rsnIe with
  | none => true
  | some rsne =>
    match wpaParseWpaIeRsn rsne with
    | .ok rsn => rsn.numPmkid == 1 && rsn.pmkid.any fun off => rsne.slice off 16 == sm.pmkR1Name
    | .error _ => false

def wpaSupplicantValidateIeFt (sm : Sm) (keyData : Bytes) (ie : EapolIeParse) : Bool :=
  let ies := sm.assocRespIes.getD []
  ftValidateMdie sm (kde keyData ie.mdie) (lastElement eidMobilityDomain ies ies.length 0 none) &&
    ftValidateFtie (kde keyData ie.ftie)
      (lastElement eidFastBssTransition ies ies.length 0 none) &&
    ftValidateRsnie sm (kde keyData ie.rsnIe)

/-- Whether an element of message 3/4 differs from the one in Beacon and Probe Response frames,
one of them being absent included. -/
def elementMismatch (ap msg : Option Bytes) : Bool := ap != msg

/-- The comparison of the WPA and RSN elements that ends in `wpa_report_ie_mismatch`. -/
def apIeMismatch (sm : Sm) (wpaIe rsnIe : Option Bytes) : Bool :=
  (wpaIe.isNone && rsnIe.isNone && (sm.ap.wpaIe.isSome || sm.ap.rsnIe.isSome)) ||
    (wpaIe.isSome && sm.ap.wpaIe.isSome && wpaIe != sm.ap.wpaIe) ||
    (match rsnIe, sm.ap.rsnIe with
      | some r, some a => !wpaCompareRsnIe (wpaKeyMgmtFt sm.keyMgmt) a r
      | _, _ => false) ||
    (sm.proto == .wpa && rsnIe.isSome && sm.ap.rsnIe.isNone && sm.rsnEnabled)

/-- The RSNXE and override checks of `wpa_supplicant_validate_ie`. -/
def rsnxeMismatch (sm : Sm) (keyData : Bytes) (ie : EapolIeParse) : Bool :=
  sm.proto == .rsn &&
    (elementMismatch sm.ap.rsnxe (kde keyData ie.rsnxe) ||
      (wpaSmRsnOverridingSupported sm &&
        (elementMismatch sm.ap.rsneOverride (kde keyData ie.rsneOverride) ||
          elementMismatch sm.ap.rsneOverride2 (kde keyData ie.rsneOverride2) ||
          elementMismatch sm.ap.rsnxeOverride (kde keyData ie.rsnxeOverride))))

/-- `wpa_sm_get_beacon_ie` where no element of the AP is known yet. -/
def fetchBeaconIe : M Bool := do
  let env ← ask
  let sm ← get
  if sm.ap.wpaIe.isNone ∧ sm.ap.rsnIe.isNone then
    match env.beaconIe with
    | none => pure false
    | some ap => do
      update fun sm => { sm with ap := ap }
      pure true
  else pure true

def wpaSupplicantValidateIe (keyData : Bytes) (ie : EapolIeParse) : M Bool := do
  let found ← fetchBeaconIe
  if ¬found then pure false
  else do
    let sm ← get
    if apIeMismatch sm (kde keyData ie.wpaIe) (kde keyData ie.rsnIe) ∨
        rsnxeMismatch sm keyData ie then do
      wpaSmDeauthenticate reasonIeIn4wayDiffers
      pure false
    else pure (!wpaKeyMgmtFt sm.keyMgmt || wpaSupplicantValidateIeFt sm keyData ie)

/-- The key data checks that message 3/4 gets before anything is compared with the AP. -/
def keyDataAcceptable (sm : Sm) (keyInfo : ℕ) (ie : EapolIeParse) : Bool :=
  let encr := hasBits keyInfo keyInfoEncrKeyData
  !(ie.gtk.isSome && !encr) && !(ie.igtk.isSome && !encr) &&
    !(ie.igtk.any fun s =>
      sm.mgmtGroupCipher != cipherGtkNotUsed && wpaCipherValidMgmtGroup sm.mgmtGroupCipher &&
        s.len != igtkKdePrefixLen + wpaCipherKeyLen sm.mgmtGroupCipher)

/-- The OCV check of messages 3/4 and 1/2 against the current channel. -/
def ocvAccepts (env : Env) (sm : Sm) (keyData : Bytes) (ie : EapolIeParse) : Bool :=
  !wpaSmOcvEnabled sm ||
    (env.channelInfoVerify && env.ocvVerifyTxParams (kde keyData ie.oci))

/-- The DPP check of message 3/4: a peer that allows PFS while none was negotiated. -/
def dppPfsMissing (sm : Sm) (keyData : Bytes) (ie : EapolIeParse) : Bool :=
  ie.dppKde.any fun s =>
    sm.keyMgmt == keyMgmtDpp && sm.dppPfs != 2 && hasBits (keyData.byteAt (s.off + 1)) 1 &&
      sm.dppZ.isNone

/-- The GTK part of message 3/4. -/
def process3Of4Gtk (key : EapolKey) (gtk : Option Bytes) : M Bool := do
  let sm ← get
  if sm.groupCipher = cipherGtkNotUsed then pure true
  else
    match gtk with
    | none => pure (sm.proto ≠ .rsn)
    | some gtk => wpaSupplicantPairwiseGtk key gtk

/-- The end of message 3/4, after the group keys are in place. -/
def process3Of4Done (gtk : Bool) : M Unit := do
  let sm ← get
  when (sm.groupCipher = cipherGtkNotUsed ∨ gtk) wpaSupplicantKeyNegComplete
  let sm ← get
  when (sm.proto = .rsn ∧ wpaKeyMgmtSuiteB sm.keyMgmt ∧ sm.curPmksa = none) (do
    let sa ← pmksaCacheAdd
    update fun sm => { sm with curPmksa := sm.curPmksa.or sa })
  update fun sm => { sm with msg3Of4Ok := true }

/-- Group keys of message 3/4 and completion, once message 4/4 is out and the PTK installed. -/
def process3Of4GroupKeys (key : EapolKey) (keyData : Bytes) (ie : EapolIeParse) : M Unit := do
  wpaSmSetState .groupHandshake
  let gtkOk ← process3Of4Gtk key (kde keyData ie.gtk)
  if ¬gtkOk then failed
  else do
    let mgmtOk ← ieee80211wSetKeys keyData ie
    if ¬mgmtOk then failed
    else process3Of4Done ie.gtk.isSome

/-- Message 4/4, then the PTK: installed, or activated where it was installed before. -/
def reply4Of4 (key : EapolKey) (ver : ℕ) : M Bool := do
  let sm ← get
  let sent ← wpaSupplicantSend4Of4 sm.bssid key ver key.keyInfo sm.ptk
  if ¬sent then pure false
  else do
    update fun sm => { sm with renewSnonce := true }
    if hasBits key.keyInfo keyInfoInstall then
      if sm.useExtKeyId then wpaSupplicantActivatePtk
      else wpaSupplicantInstallPtk key keyFlagRxTx
    else pure true

/-- The pairwise part of message 3/4; with Extended Key ID the PTK is installed for receiving
before the reply. -/
def process3Of4Pairwise (key : EapolKey) (ver : ℕ) : M Bool := do
  let sm ← get
  if sm.useExtKeyId then do
    let rxOk ← wpaSupplicantInstallPtk key keyFlagRx
    if ¬rxOk then pure false else reply4Of4 key ver
  else reply4Of4 key ver

/-- Message 3/4 from the first effect of its own on. -/
def process3Of4Accepted (key : EapolKey) (ver : ℕ) (keyData : Bytes) (ie : EapolIeParse) :
    M Unit := do
  let sm ← get
  emit (.accept3Of4 sm.anonce sm.ptk)
  let pairwiseOk ← process3Of4Pairwise key ver
  if ¬pairwiseOk then failed
  else process3Of4GroupKeys key keyData ie

/-- The part of message 3/4 between the element checks and the first key operation. -/
def process3Of4Checked (key : EapolKey) (ver : ℕ) (keyData : Bytes) (ie : EapolIeParse) :
    M Unit := do
  let env ← ask
  let sm ← get
  if sm.anonce ≠ key.keyNonce then failed
  else if key.keyLength ≠ wpaCipherKeyLen sm.pairwiseCipher then failed
  else do
    when ie.ipAddrAlloc.isSome (update fun sm =>
      { sm with p2pIpAddr := keyData.slice (ie.ipAddrAlloc.getD 0) 12 })
    -- an OCV failure drops the message without disconnecting
    if ¬ocvAccepts env sm keyData ie then pure ()
    else if dppPfsMissing sm keyData ie then failed
    else process3Of4Accepted key ver keyData ie

def wpaSupplicantProcess3Of4 (key : EapolKey) (ver : ℕ) (keyData : Bytes) : M Unit := do
  wpaSmSetState .fourWayHandshake
  let sm ← get
  match wpaSupplicantParseIes keyData with
  | none => failed
  | some ie =>
    if ¬keyDataAcceptable sm key.keyInfo ie then failed
    else do
      let valid ← wpaSupplicantValidateIe keyData ie
      if ¬valid then failed
      else do
        let extOk ← wpaHandleExtKeyId keyData ie
        if ¬extOk then failed
        else process3Of4Checked key ver keyData ie

/-- The management group keys of the RSN group message, and the GTK to be installed next. -/
def install1Of2Rsn (keyData : Bytes) (ie : EapolIeParse) (gtk : Bytes) : M (Option GtkData) := do
  let sm ← get
  match wpaSupplicantCheckGroupCipher sm.groupCipher (gtk.length - 2) (gtk.length - 2) with
  | none => pure none
  | some (alg, keyRscLen) => do
    let _ ← ieee80211wSetKeys keyData ie
    pure (some
      { alg := alg
        tx := wpaSupplicantGtkTxBitWorkaround sm (hasBits (gtk.byteAt 0) 4)
        keyRscLen := keyRscLen
        keyidx := gtk.byteAt 0 % 4
        gtk := gtk.drop 2 })

def wpaSupplicantProcess1Of2Rsn (keyData : Bytes) (keyInfo : ℕ) : M (Option GtkData) := do
  let env ← ask
  let sm ← get
  match wpaSupplicantParseIes keyData with
  | none => pure none
  | some ie =>
    match kde keyData ie.gtk with
    | none => pure none
    | some gtk =>
      if ¬hasBits keyInfo keyInfoEncrKeyData then pure none
      else if gtk.length < 2 ∨ gtk.length - 2 > gtkMaxLen then pure none
      else if ¬ocvAccepts env sm keyData ie then pure none
      else install1Of2Rsn keyData ie gtk

/-- The decrypted GTK field of a WPA group message, with the length checks of the source. -/
def wpaGroupKeyData (cr : Crypto) (sm : Sm) (key : EapolKey) (ver : ℕ) (keyData : Bytes) :
    Option Bytes :=
  if ver = keyInfoTypeHmacMd5Rc4 ∧ sm.ptk.kek.length = 16 then
    if keyData.length > gtkMaxLen then none else cr.rc4Skip (key.keyIv ++ sm.ptk.kek) keyData
  else if ver = keyInfoTypeHmacSha1Aes then
    if (keyData.length - 8) % 8 ≠ 0 ∨ keyData.length - 8 > gtkMaxLen then none
    else cr.aesUnwrap sm.ptk.kek keyData
  else none

def maxkeylen (ver : ℕ) (keyData : Bytes) : ℕ :=
  if ver = keyInfoTypeHmacSha1Aes then keyData.length - 8 else keyData.length

def wpaSupplicantProcess1Of2Wpa (key : EapolKey) (keyData : Bytes) (keyInfo ver : ℕ) :
    M (Option GtkData) := do
  let env ← ask
  let sm ← get
  let gtkLen := key.keyLength
  if ver = keyInfoTypeHmacSha1Aes ∧ keyData.length < 8 then pure none
  else if gtkLen > maxkeylen ver keyData then pure none
  else
    match wpaSupplicantCheckGroupCipher sm.groupCipher gtkLen (maxkeylen ver keyData) with
    | none => pure none
    | some (alg, keyRscLen) =>
      match wpaGroupKeyData env.cr sm key ver keyData with
      | none => pure none
      | some plain => do
        emit (.decrypted sm.ptk.kek plain)
        pure (some
          { alg := alg
            tx := wpaSupplicantGtkTxBitWorkaround sm (hasBits keyInfo keyInfoTxrx)
            keyRscLen := keyRscLen
            keyidx := (keyInfo &&& keyInfoKeyIndexMask) / 2 ^ keyInfoKeyIndexShift
            gtk := plain.take gtkLen })

/-- The GTK installation and reply of message 1/2. -/
def finish1Of2 (key : EapolKey) (ver : ℕ) (rekey : Bool) (gd : GtkData) : M Unit := do
  let sm ← get
  let installed ← wpaSupplicantInstallGtk gd (relaxedRsc sm key) false
  if ¬installed then failed
  else do
    let sent ← wpaSupplicantSend2Of2 key ver key.keyInfo
    if ¬sent then failed
    else if rekey then wpaSmSetState .completed
    else wpaSupplicantKeyNegComplete

def groupData (key : EapolKey) (keyData : Bytes) (ver : ℕ) : M (Option GtkData) := do
  let sm ← get
  if sm.proto.isRsnOrOsen then wpaSupplicantProcess1Of2Rsn keyData key.keyInfo
  else wpaSupplicantProcess1Of2Wpa key keyData key.keyInfo ver

def wpaSupplicantProcess1Of2 (key : EapolKey) (keyData : Bytes) (ver : ℕ) : M Unit := do
  let sm ← get
  if ¬sm.msg3Of4Ok ∧ ¬sm.filsCompleted then failed
  else do
    let rekey : Bool := sm.wpaState = .completed
    let gd? ← groupData key keyData ver
    wpaSmSetState .groupHandshake
    match gd? with
    | none => failed
    | some gd => finish1Of2 key ver rekey gd

def wpaFtIsCompleted (sm : Sm) : Bool := wpaKeyMgmtFt sm.keyMgmt && sm.ftCompleted

/-- The keys that a new association deletes. -/
def clearKeys (sm : Sm) : Sm :=
  { sm with
    ptkSet := false
    ptk := {}
    tptkSet := false
    tptk := {}
    gtk := []
    gtkWnmSleep := []
    igtk := []
    igtkWnmSleep := [] }

/-- The part of `wpa_sm_notify_assoc` for a fast transition that has set the keys before. -/
def notifyAssocFt : M Unit := do
  let env ← ask
  let sm ← get
  if wpaFtIsCompleted sm then do
    wpaSupplicantKeyNegComplete
    wpaFtPrepareAuthRequest env.randomNext
    update fun sm => { sm with ftProtocol := true }
  else update fun sm => { sm with ftProtocol := false }

def resetReplay (bssid : Bytes) (sm : Sm) : Sm :=
  { sm with
    bssid := bssid
    rxReplayCounter := zeros 8
    rxReplayCounterSet := false
    renewSnonce := true }

def wpaSmNotifyAssoc (bssid : Bytes) : M Unit := do
  let sm ← get
  update (resetReplay bssid)
  notifyAssocFt
  when sm.filsCompleted wpaSupplicantKeyNegComplete
  when (¬wpaFtIsCompleted sm ∧ ¬sm.filsCompleted) (update clearKeys)
  update fun sm => { sm with p2pIpAddr := zeros 12, keyidxActive := 0 }

end Wpa.Rsn
