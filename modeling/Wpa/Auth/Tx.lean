import Wpa.Auth.State

/-! The EAPOL-Key frames that the authenticator sends: `__wpa_send_eapol`, `wpa_send_eapol` and
the Key Data of the messages. -/

namespace Wpa.Auth
open Lib Bytes Prog

/-- The arguments of `wpa_send_eapol`. -/
structure SendArgs where
  keyInfo : ℕ
  keyRsc : Option Bytes := none
  nonce : Option Bytes := none
  kde : Option Bytes := none
  keyidx : ℕ := 0
  encr : Bool := false

/-- The key descriptor version that the AKM and the pairwise cipher call for. -/
def eapolKeyVersion (sm : Sta) : ℕ :=
  if wpaUseAkmDefined sm.wpaKeyMgmt then keyInfoTypeAkmDefined
  else if wpaUseCmac sm.wpaKeyMgmt then keyInfoTypeAes128Cmac
  else if sm.pairwise ≠ cipherTkip then keyInfoTypeHmacSha1Aes
  else keyInfoTypeHmacMd5Rc4

/-- Whether Key Data is encrypted with AES-WRAP. -/
def usesAesWrap (sm : Sta) : Bool :=
  eapolKeyVersion sm == keyInfoTypeHmacSha1Aes || wpaUseAesKeyWrap sm.wpaKeyMgmt ||
    eapolKeyVersion sm == keyInfoTypeAes128Cmac

def padLen (n : ℕ) : ℕ := if n % 8 = 0 then 0 else 8 - n % 8

/-- `key_data_len`: with AES-WRAP, padded and with room for the integrity check. -/
def keyDataLen (sm : Sta) (a : SendArgs) : ℕ :=
  let n := (a.kde.getD []).length
  if usesAesWrap sm ∧ a.encr then n + padLen n + 8 else n

/-- The length of the frame; the AEAD tag is counted on top of the AES-WRAP room. -/
def frameLen (sm : Sta) (a : SendArgs) : ℕ :=
  hdrSize + keyhdrlen sm.micLen + keyDataLen sm a +
    if sm.micLen = 0 ∧ a.encr then aesBlockSize else 0

def frameKeyInfo (sm : Sta) (a : SendArgs) : ℕ :=
  let keyInfo := a.keyInfo ||| eapolKeyVersion sm
  let keyInfo := if a.encr ∧ sm.wpa = .wpa2 then keyInfo ||| keyInfoEncrKeyData else keyInfo
  if sm.wpa ≠ .wpa2 then keyInfo ||| a.keyidx <<< keyInfoKeyIndexShift else keyInfo

def frameKey (conf : Conf) (sm : Sta) (a : SendArgs) (counter keyIv : Bytes) : EapolKey where
  type := if sm.wpa = .wpa2 then eapolKeyTypeRsn else eapolKeyTypeWpa
  keyInfo := frameKeyInfo sm a
  keyLength :=
    if sm.wpa = .wpa2 ∧ ¬hasBits a.keyInfo keyInfoKeyType then 0
    else wpaCipherKeyLen (if hasBits a.keyInfo keyInfoKeyType then sm.pairwise else conf.wpaGroup)
  replayCounter := counter
  keyNonce := a.nonce.getD (zeros 32)
  keyIv := keyIv
  keyRsc := a.keyRsc.getD (zeros 8)
  keyId := zeros 8

/-- Everything in front of the Key MIC field. -/
def frameHeader (conf : Conf) (sm : Sta) (a : SendArgs) (counter keyIv : Bytes) : Bytes :=
  [UInt8.ofNat conf.eapolVersion, UInt8.ofNat ieee8021xTypeEapolKey] ++
    ofBeNat (frameLen sm a - hdrSize) 2 ++ (frameKey conf sm a counter keyIv).write

/-- The IV and the Key Data field, with the group counter used up for RC4, or `none` where the
function gives up. -/
def protectKeyData (env : Env) (ans : Answer) (l : Local) (a : SendArgs) (counter : Bytes) :
    Option (Bytes × Bytes × Bytes) :=
  let sm := l.sta
  let kde := a.kde.getD []
  let n := keyDataLen sm a
  let buf := kde ++ if padLen kde.length = 0 then [] else [0xdd] ++ zeros (padLen kde.length - 1)
  if a.kde = none ∨ ¬a.encr then some (zeros 16, kde, l.group.counter)
  else if sm.micLen = 0 then
    let aad := frameHeader env.conf sm a counter (zeros 16) ++
      ofBeNat (aesBlockSize + kde.length) 2
    (env.cr.aesSivEncrypt sm.ptk.kek kde aad).map (zeros 16, ·, l.group.counter)
  else if ¬ans.alloc .keyDataBuf then none
  else if usesAesWrap sm then
    (env.cr.aesWrap sm.ptk.kek (buf.take (n - 8))).map (zeros 16, ·, l.group.counter)
  else if sm.ptk.kek.length = 16 then
    let iv := l.group.counter.drop (wpaNonceLen - 16)
    (env.cr.rc4Skip (iv ++ sm.ptk.kek) kde).map (iv, ·, incByteArray l.group.counter)
  else none

/-- The frame with an empty Key MIC field, filled with zeros up to the allocated length. -/
def eapolFrame (conf : Conf) (sm : Sta) (a : SendArgs) (counter keyIv keyData : Bytes) : Bytes :=
  let frame := frameHeader conf sm a counter keyIv ++ zeros sm.micLen ++ ofBeNat keyData.length 2 ++
    keyData
  frame ++ zeros (frameLen sm a - frame.length)

/-- The end of `__wpa_send_eapol`: the MIC, if one is asked for, and the transmission. -/
def sendFrame (a : SendArgs) (frame : Bytes) : StaM Unit := do
  let env ← ask
  let sm ← getSta
  let ver := eapolKeyVersion sm
  if hasBits (frameKeyInfo sm a) keyInfoMic then
    if ¬sm.ptkValid ∨ sm.micLen = 0 then pure ()
    else
      match wpaEapolKeyMic env.cr sm.ptk.kck sm.wpaKeyMgmt ver frame with
      | none => pure ()
      | some mic => do
        emit (.mic sm.ptk.kck ver frame)
        emit (.sendEapol (frame.writeAt micOffset mic))
  else emit (.sendEapol frame)

/-- `__wpa_send_eapol`. The replay counter is taken before the frame is known to go out. -/
def wpaSendEapolFrame (ans : Answer) (a : SendArgs) : StaM Unit := do
  let env ← ask
  when (ans.alloc .eapolFrame) (do
    let sm ← getSta
    let counter := nextCounter sm.keyReplay
    emit (.take counter)
    modifySta fun sm => { sm with keyReplay := takeCounter sm.keyReplay }
    let l ← get
    match protectKeyData env ans l a counter with
    | none => pure ()
    | some (keyIv, keyData, groupCounter) => do
      modifyGroup fun g => { g with counter := groupCounter }
      sendFrame a (eapolFrame env.conf l.sta a counter keyIv keyData))

def wpaSendEapol (ans : Answer) (a : SendArgs) : StaM Unit := do
  wpaSendEapolFrame ans a
  let pairwise := hasBits a.keyInfo keyInfoKeyType
  modifySta fun sm =>
    if pairwise ∧ sm.timeoutCtr = 1 ∧ ¬hasBits a.keyInfo keyInfoMic then
      { sm with pending1Of4Timeout := true }
    else sm

/-- The PMKID KDE of message 1/4. -/
def msg1Of4Pmkid (env : Env) (sm : Sta) : Option Bytes :=
  let kde (pmkid : Bytes) := some (wpaAddKde rsnKeyDataPmkid pmkid)
  if sm.wpa = .wpa2 ∧ (wpaKeyMgmtWpaIeee8021x sm.wpaKeyMgmt ∨
      (sm.wpaKeyMgmt = keyMgmtOwe ∧ sm.pmksa.isSome) ∨ wpaKeyMgmtSae sm.wpaKeyMgmt) ∧
      sm.wpaKeyMgmt ≠ keyMgmtOsen then
    match sm.pmksa with
    | some sa => kde sa.pmkid
    | none =>
      if wpaKeyMgmtSuiteB sm.wpaKeyMgmt then none
      else if wpaKeyMgmtFils sm.wpaKeyMgmt then sm.pmkid.bind kde
      else if wpaKeyMgmtFt sm.wpaKeyMgmt ∧ sm.ftCompleted then none
      else if wpaKeyMgmtSae sm.wpaKeyMgmt then sm.pmkid.bind kde
      else kde (rsnPmkid env.cr sm.pmk env.addr sm.addr sm.wpaKeyMgmt)
  else none

/-- The key in the slot that an index selects; the indices of an array start at `base`. -/
def keySlot (keys : List Bytes) (n base : ℕ) : Bytes := keys.getD (n - base) []

/-- `disable_gtk` and OSEN hide the group keys behind random ones. -/
def hidesGroupKeys (conf : Conf) (sm : Sta) : Bool :=
  conf.disableGtk || sm.wpaKeyMgmt == keyMgmtOsen

/-- The packet number of a group management key, known once the keys are set. -/
def groupPn (ans : Answer) (g : Group) (idx : ℕ) : Bytes :=
  if g.state ≠ .setKeysDone then zeros 6 else ((ans.seqnum idx).getD (zeros 6)).take 6

def bigtkKde (env : Env) (ans : Answer) (sm : Sta) (g : Group) : Bytes :=
  let len := wpaCipherKeyLen env.conf.groupMgmtCipher
  let key :=
    if sm.wpaKeyMgmt = keyMgmtOsen then ans.random .stubBigtk
    else some (keySlot g.bigtk g.gnBigtk 6)
  match key with
  | none => []
  | some key => wpaAddKde rsnKeyDataBigtk
      ([UInt8.ofNat g.gnBigtk, 0] ++ groupPn ans g g.gnBigtk ++ key.take len)

/-- `ieee80211w_kde_add`. -/
def ieee80211wKdeAdd (env : Env) (ans : Answer) (sm : Sta) (g : Group) : Bytes :=
  let len := wpaCipherKeyLen env.conf.groupMgmtCipher
  let key :=
    if hidesGroupKeys env.conf sm then ans.random .stubIgtk else some (keySlot g.igtk g.gnIgtk 4)
  if ¬sm.mgmtFrameProt then []
  else
    match key with
    | none => []
    | some key =>
      wpaAddKde rsnKeyDataIgtk
        ([UInt8.ofNat g.gnIgtk, 0] ++ groupPn ans g g.gnIgtk ++ key.take len) ++
      if env.conf.beaconProt then bigtkKde env ans sm g else []

/-- `ocv_oci_add`; `none` is the error return. -/
def ocvOciAdd (ans : Answer) (sm : Sta) : Option Bytes :=
  if sm.ocvEnabled = 0 then some []
  else if ¬ans.channelInfo then none
  else ans.ocvInsertOciKde

/-- The GTK that the station gets. -/
def stationGtk (conf : Conf) (ans : Answer) (sm : Sta) (g : Group) : Option Bytes :=
  let gtk := if hidesGroupKeys conf sm then ans.random .stubGtk else some (keySlot g.gtk g.gn 1)
  gtk.map (·.take g.gtkLen)

def gtkKde (g : Group) (gtk : Bytes) : Bytes :=
  wpaAddKde rsnKeyDataGroupkey ([UInt8.ofNat (g.gn % 4), 0] ++ gtk)

def skipElement (ie : Bytes) : Bytes := ie.drop (ie.byteAt 1 + 2)

/-- The elements of the authenticator for message 3/4; a WPA station gets only the WPA element. -/
def msg3Of4Ie (env : Env) (sm : Sta) : Bytes :=
  let ie := env.wpaIe
  if sm.wpa = .wpa ∧ hasBits env.conf.wpa 2 ∧ ie.length > ie.byteAt 1 + 2 ∧
      ie.byteAt 0 = eidRsn then
    let ie := skipElement ie
    let ie := if ie.byteAt 0 = eidRsnx then skipElement ie else ie
    let ie := if ie.byteAt 0 = eidMobilityDomain then skipElement ie else ie
    ie.take (ie.byteAt 1 + 2)
  else ie

def timeoutInterval (type value : ℕ) : Bytes :=
  [UInt8.ofNat eidTimeoutInterval, 5, UInt8.ofNat type] ++ (ofBeNat value 4).reverse

/-- The FT part of message 3/4; the FTIE of the association response is reused. -/
def msg3Of4Ft (conf : Conf) (ans : Answer) (sm : Sta) : Option Bytes :=
  let ftie := match sm.assocRespFtie with
    | some ftie => some (ftie.take (2 + ftie.byteAt 1))
    | none => ans.writeFtie
  ftie.map (· ++ timeoutInterval 1 conf.reassociationDeadline ++
    timeoutInterval 2 conf.r0KeyLifetime)

/-- `DPP_VERSION` with the PFS flags of the configuration. -/
def dppKde (conf : Conf) : Bytes :=
  wpaAddKde wfaKeyDataDpp
    [2, if conf.dppPfs = 0 then 1 else if conf.dppPfs = 1 then 3 else 0]

/-- The Key Data of message 3/4, or `none` on `goto done`. -/
def msg3Of4Kde (env : Env) (ans : Answer) (l : Local) : Option Bytes := do
  let sm := l.sta
  let conf := env.conf
  let gtk ← if sm.wpa = .wpa2 then (stationGtk conf ans sm l.group).map some else some none
  if ¬ans.alloc .kdeBuf then none
  else
    let ft := wpaKeyMgmtFt sm.wpaKeyMgmt
    let ie := msg3Of4Ie env sm
    let ie ← if ft then wpaInsertPmkid ie sm.pmkR1Name else some ie
    let keyId := if sm.useExtKeyId then
      wpaAddKde rsnKeyDataKeyid [UInt8.ofNat (sm.keyidxActive % 2), 0] else []
    let oci ← ocvOciAdd ans sm
    let ftKde ← if ft then msg3Of4Ft conf ans sm else some []
    let ip := if beNat sm.ipAddr > 0 then
      wpaAddKde wfaKeyDataIpAddrAlloc (sm.ipAddr ++ conf.ipAddrMask ++ conf.ipAddrGo) else []
    let transition := if conf.transitionDisable ≠ 0 then
      wpaAddKde wfaKeyDataTransitionDisable [UInt8.ofNat conf.transitionDisable] else []
    let dpp := if sm.wpaKeyMgmt = keyMgmtDpp then dppKde conf else []
    some (ie ++ keyId ++ (gtk.map (gtkKde l.group)).getD [] ++
      ieee80211wKdeAdd env ans sm l.group ++ oci ++ ftKde ++ ip ++ transition ++ dpp)

def micBit (sm : Sta) : ℕ := if sm.micLen ≠ 0 then keyInfoMic else 0

def msg1Of4Args (env : Env) (sm : Sta) : SendArgs where
  keyInfo := keyInfoAck ||| keyInfoKeyType
  nonce := some sm.anonce
  kde := msg1Of4Pmkid env sm

/-- A WPA station that used the Secure bit first gets it back in message 3/4. -/
def msg3Of4Args (ans : Answer) (l : Local) (kde : Bytes) : SendArgs where
  keyInfo := (if l.sta.wpa = .wpa2 ∨ l.sta.rxEapolKeySecure then keyInfoSecure else 0) |||
    micBit l.sta ||| keyInfoAck ||| keyInfoInstall ||| keyInfoKeyType
  keyRsc := if l.sta.wpa = .wpa2 then some ((ans.seqnum l.group.gn).getD (zeros 8)) else none
  nonce := some l.sta.anonce
  kde := some kde
  encr := l.sta.wpa = .wpa2

/-- The Key Data of group message 1/2; WPA sends the bare GTK. -/
def msg1Of2Kde (env : Env) (ans : Answer) (l : Local) : Option Bytes := do
  let gtk ← stationGtk env.conf ans l.sta l.group
  if l.sta.wpa = .wpa2 then
    if ¬ans.alloc .kdeBuf then none
    else
      let oci ← ocvOciAdd ans l.sta
      some (gtkKde l.group gtk ++ ieee80211wKdeAdd env ans l.sta l.group ++ oci)
  else some gtk

def msg1Of2Args (ans : Answer) (l : Local) (kde : Bytes) : SendArgs where
  keyInfo := keyInfoSecure ||| micBit l.sta ||| keyInfoAck |||
    if l.sta.pair then 0 else keyInfoInstall
  keyRsc := some (if l.group.state = .setKeysDone then
    (ans.seqnum l.group.gn).getD (zeros 8) else zeros 8)
  kde := some kde
  keyidx := l.group.gn
  encr := true

end Wpa.Auth
