import Wpa.Common.KdeBounds
import Wpa.Lib.InPlace
import Wpa.Lib.ReadProg
import Wpa.Rsne.Exact
import Wpa.Tdls.Station

/-! The handlers of TDLS frames with every access checked: they give nothing where an octet outside
the frame is read, where the parser of elements is called on more than the frame, and where a copy
does not fit the array of the entry that it goes to. -/

namespace Wpa.Tdls
open Lib Bytes

/-- The difference of two lengths as a `size_t`. -/
@[irreducible] def sizeSub (n k : ℕ) : ℕ := (n + 2 ^ 32 - k) % 2 ^ 32

/-- `wpa_parse_kde_ies` over the first `len` octets of `mem`: what it has stored when it returns. Where
the element fits, `kdeStep` is the rest of the body of the loop. -/
def storedIesRead (mem : Bytes) (len : ℕ) : ℕ → ℕ → EapolIeParse → Option EapolIeParse
  | 0, _, _ => none
  | fuel + 1, pos, ie =>
    if len - pos ≤ 1 then some ie
    else do
      let eid ← mem.read8 pos
      let n ← mem.read8 (pos + 1)
      if eid = 0xdd ∧ (pos = len - 1 ∨ n = 0) then some ie
      else if 2 + n > len - pos then some ie
      else
        match ← kdeStep mem pos ie with
        | .stop _ => some ie
        | .next pos ie => storedIesRead mem len fuel pos ie

/-- `wpa_supplicant_parse_ies(buf + off, len)`. Every iteration moves on by two octets or more. -/
def parseIesRead (buf : Bytes) (off len : ℕ) : Option EapolIeParse :=
  if off + len ≤ buf.length then storedIesRead (buf.drop off) len (len + 1) 0 {} else none

/-- `os_memcpy` to the start of an array of `cap` octets, as the octets that are in use then. -/
def copyIn (cap : ℕ) (src : Bytes) : Option Bytes := if src.length ≤ cap then some src else none

def maxSuppRates : ℕ := 32

/-- One copy of `merge_byte_arrays`: as much of `src` as there is room for. -/
def mergePart (res : Bytes) (len : ℕ) (src : Bytes) : Option (Bytes × ℕ) :=
  if len + src.length ≥ res.length then do
    let part ← src.readSlice 0 (res.length - len)
    let res ← res.store len part
    return (res, res.length)
  else do
    let res ← res.store len src
    return (res, len + src.length)

/-- A first array that fills the result is returned at once; the second copy would be empty. -/
def mergeByteArrays (resLen : ℕ) (src1 src2 : Option Bytes) : Option (Bytes × ℕ) := do
  let (res, len) ← src1.elim (some (zeros resLen, 0)) (mergePart (zeros resLen) 0)
  src2.elim (some (res, len)) (mergePart res len)

/-- What an entry takes over from M1 and M2 for the driver. -/
structure PeerCapab where
  suppRates : Bytes
  suppRatesLen : ℕ
  htCapabilities : Option Bytes
  vhtCapabilities : Option Bytes
  heCapabilities : Option Bytes
  he6ghzBandCapabilities : Option Bytes
  extCapab : Option Bytes
  suppChannels : Option Bytes
  suppOperClasses : Option Bytes
  qosInfo : ℕ
  wmmCapable : Bool
  aid : ℕ
  deriving DecidableEq

/-- Nothing is read for an element that is not there. -/
def readIf {α β : Type} (o : Option α) (read : α → Option β) : Option (Option β) :=
  o.elim (some none) fun a => (read a).map some

/-- An element without its header. -/
def bodyRead (mem : Bytes) (s : Span) : Option Bytes := mem.readSlice (s.off + 2) (sizeSub s.len 2)

def spanRead (mem : Bytes) (s : Span) : Option Bytes := mem.readSlice s.off s.len

/-- An element whose length is that of its own length octet. -/
def elementRead (mem : Bytes) (off : ℕ) : Option Bytes := do
  let len ← mem.read8 (off + 1)
  mem.readSlice off (2 + len)

/-- `sizeof(struct wmm_information_element)`, of which `qos_info` is the last octet. -/
def wmmSize : ℕ := 7

def wmmFits (kde : EapolIeParse) : Bool := kde.wmm.all fun wmm => decide (wmmSize ≤ wmm.len)

/-- `copy_supp_rates` and the copies that follow it. What they read before one of them fails is
inside what is read here. -/
def copyPeerCapab (env : TdlsEnv) (mem : Bytes) (kde : EapolIeParse) : ReadProg ℕ PeerCapab :=
  match kde.suppRates with
  | none => throw statusUnspecifiedFailure
  | some rates => do
    let rates ← bodyRead mem rates
    let extRates ← readIf kde.extSuppRates (bodyRead mem)
    let (suppRates, suppRatesLen) ← mergeByteArrays maxSuppRates (some rates) extRates
    let ht ← readIf kde.htCapabilities fun off => mem.readSlice off htCapabilitiesSize
    let vht ← readIf kde.vhtCapabilities fun off => mem.readSlice off vhtCapabilitiesSize
    let he ← readIf kde.heCapabilities (spanRead mem)
    let he6ghz ← readIf kde.he6ghzCapabilities fun off => mem.readSlice off he6ghzBandCapSize
    let extCapab ← readIf kde.extCapab (bodyRead mem)
    let suppChannels ← readIf kde.suppChannels (spanRead mem)
    let suppOperClasses ← readIf kde.suppOperClasses (spanRead mem)
    if !(env.copied && wmmFits kde) then throw statusUnspecifiedFailure
    else do
      let qosInfo ← readIf kde.wmm fun wmm => mem.read8 (wmm.off + 6)
      return {
        suppRates, suppRatesLen, htCapabilities := ht, vhtCapabilities := vht
        heCapabilities := he, he6ghzBandCapabilities := he6ghz, extCapab, suppChannels
        suppOperClasses, qosInfo := qosInfo.getD kde.qosinfo, wmmCapable := kde.wmm.isSome
        aid := kde.aid }

/-- An element that a handler needs, with its header. -/
def need {ε : Type} (mem : Bytes) (s : Option Span) (minLen : ℕ) (status : ε) : ReadProg ε Bytes :=
  match s with
  | none => throw status
  | some s => if s.len < minLen then throw status else liftM (spanRead mem s)

def needLnkid {ε : Type} (mem : Bytes) (kde : EapolIeParse) (status : ε) : ReadProg ε Bytes :=
  need mem kde.lnkid (3 * ethAlen) status

def needFtie {ε : Type} (mem : Bytes) (kde : EapolIeParse) (status : ε) : ReadProg ε Ftie := do
  let ie ← need mem kde.ftie ftieSize status
  return Ftie.read ie

def needTimeoutie {ε : Type} (mem : Bytes) (kde : EapolIeParse) (status : ε) : ReadProg ε Bytes :=
  match kde.keyLifetime with
  | none => throw status
  | some off => liftM (elementRead mem off)

/-- An RSN element of at most `TDLS_MAX_IE_LEN` octets. -/
def needRsnIe (mem : Bytes) (kde : EapolIeParse) : ReadProg ℕ Bytes := do
  let rsnIe ← need mem kde.rsnIe 0 statusInvalidParameters
  if rsnIe.length > tdlsMaxIeLen then throw statusInvalidRsnie else return rsnIe

section Handlers
variable {K : Type} (suite : TpkSuite K) (sm : TdlsSm) (env : TdlsEnv)

def m1IesRead (mem : Bytes) (kde : EapolIeParse) : ReadProg ℕ (Bytes × Option TpkIes) := do
  let lnkid ← needLnkid mem kde statusUnspecifiedFailure
  if lnkidBssid lnkid ≠ sm.bssid.1 then throw statusRequestDeclined
  else do
    let _capab ← copyPeerCapab env mem kde
    if sm.tdlsProhibited then throw statusRequestDeclined
    else if !sm.privacy then
      if kde.rsnIe.isSome then throw statusSecurityDisabled else return (lnkid, none)
    else do
      let ftie ← needFtie mem kde statusInvalidParameters
      let rsnIe ← needRsnIe mem kde
      let ie ← ExceptT.adapt (fun _ => statusInvalidRsnie) (Rsne.wpaParseWpaIeRsnRead rsnIe)
      if ie.pairwiseCipher &&& cipherCcmp = 0 then throw statusPairwiseCipherNotValid
      else if ie.capabilities &&& (wpaCapabilityNoPairwise ||| wpaCapabilityPeerkeyEnabled) ≠
          wpaCapabilityPeerkeyEnabled then throw statusInvalidRsnIeCapab
      else do
        let timeoutie ← needTimeoutie mem kde statusUnacceptableLifetime
        if timeoutieValue timeoutie < 300 then throw statusUnacceptableLifetime
        else return (lnkid, some ⟨rsnIe, ftie, timeoutie⟩)

def m1AcceptRead (peer : Peer K) (dtoken : ℕ) : Option TpkIes → Option (Option (Peer K))
  | none =>
    some (some
      { peer with initiator := false, dtoken, rsnieI := [], rsnieP := [], cipher := .none })
  | some ies => do
    let rsnieI ← copyIn tdlsMaxIeLen ies.rsnIe
    match m1Nonces env { peer with initiator := false, dtoken, rsnieI, cipher := .ccmp }
        ies.ftie.snonce with
    | none => return none
    | some peer =>
      let rsnieP ← copyIn tdlsMaxIeLen peer.rsnieI
      return some ({ peer with rsnieP, lifetime := timeoutieValue ies.timeoutie }.generateTpk
        suite sm)

def m1RespondRead (addr : StaAddr) (peer : Peer K) (dtoken : ℕ) (mem : Bytes) (kde : EapolIeParse) :
    Option (Slot K × List (TdlsOut K)) := do
  match ← (m1IesRead sm env mem kde).run with
  | .error status => return m1Error env addr dtoken status
  | .ok (lnkid, ies) =>
    match ← m1AcceptRead suite sm env peer dtoken ies with
    | none => return m1Error env addr dtoken statusUnspecifiedFailure
    | some peer =>
      if !env.addset then return m1Error env addr dtoken statusUnspecifiedFailure
      else
        let (peer, ok, sent) :=
          sendTpkM2 suite sm env { peer with tpkInProgress := true } dtoken lnkid
        if ok then return (some peer, .addset addr true :: sent)
        else
          let (slot, out) := m1Error env addr dtoken statusUnspecifiedFailure
          return (slot, .addset addr true :: sent ++ .disableLink addr :: out)

/-- The length of the elements is kept in a `u16` here. -/
def processTpkM1Read (addr : StaAddr) (buf : Bytes) (slot : Slot K) :
    Option (Slot K × List (TdlsOut K)) :=
  if buf.length < 3 + 3 then some (slot, [])
  else do
    let dtoken ← buf.read8 3
    match addPeer suite env addr slot with
    | none => return m1Error env addr dtoken statusUnspecifiedFailure
    | some peer =>
      match m1Admit suite sm peer with
      | none => return (some peer, [])
      | some (peer, out) =>
        let _capability ← buf.readLe16 4
        let kde ← parseIesRead buf 6 (sizeSub buf.length 6 % 2 ^ 16)
        let (slot, out') ← m1RespondRead suite sm env addr peer dtoken (buf.drop 6) kde
        return (slot, out ++ out')

def m2IesRead (peer : Peer K) (mem : Bytes) (kde : EapolIeParse) :
    ReadProg ℕ (Bytes × Option (Bytes × Ftie)) := do
  let lnkid ← needLnkid mem kde statusUnspecifiedFailure
  if lnkidBssid lnkid ≠ sm.bssid.1 then throw statusNotInSameBss
  else do
    let _capab ← copyPeerCapab env mem kde
    if !sm.privacy then return (lnkid, none)
    else do
      let ftie ← needFtie mem kde statusInvalidParameters
      let rsnIe ← needRsnIe mem kde
      if rsnIe ≠ peer.rsnieI then throw statusInvalidRsnie
      else do
        let ie ← ExceptT.adapt (fun _ => statusInvalidRsnie) (Rsne.wpaParseWpaIeRsnRead rsnIe)
        if ie.pairwiseCipher ≠ cipherCcmp then throw statusPairwiseCipherNotValid
        else return (lnkid, some (rsnIe, ftie))

/-- M2 from the Link Identifier on. -/
def m2ReplyRead (addr : StaAddr) (peer : Peer K) (dtoken : ℕ) (mem : Bytes) (kde : EapolIeParse) :
    Option (Slot K × List (TdlsOut K)) := do
  let error (status : ℕ) : Slot K × List (TdlsOut K) :=
    (none, sendError env addr setupConfirm dtoken true status ++ [.disableLink addr])
  match ← (m2IesRead sm env peer mem kde).run with
  | .error status => return error status
  | .ok (lnkid, none) =>
    return m2Finish suite sm env addr { peer with rsnieP := [], cipher := .none } dtoken lnkid
  | .ok (lnkid, some (rsnIe, ftie)) =>
    if peer.inonce ≠ ftie.snonce then return (some peer, [])
    else
      let rsnieP ← copyIn tdlsMaxIeLen rsnIe
      let peer := { peer with rnonce := ftie.anonce, rsnieP, cipher := .ccmp }
      match ← (needTimeoutie mem kde statusUnacceptableLifetime).run with
      | .error status => return error status
      | .ok timeoutie =>
        if timeoutieValue timeoutie ≠ peer.lifetime then return error statusUnacceptableLifetime
        else
          let peer := peer.generateTpk suite sm
          if !verifyTdlsMic suite 2 peer lnkid timeoutie ftie then
            return (none, [.delKey addr, .disableLink addr])
          else
            let (peer', out) := configureKey env peer
            let (slot, out') := m2Finish suite sm env addr peer' dtoken lnkid
            return (slot, .micVerified peer.tpk.kck :: out ++ out')

def processTpkM2Read (addr : StaAddr) (buf : Bytes) (slot : Slot K) :
    Option (Slot K × List (TdlsOut K)) :=
  match slot with
  | none => some (none, [])
  | some peer =>
    if !peer.initiator then some (some peer, [])
    else if peer.tpkSuccess then some (some peer, [])
    else
      let peer := peer.retryTimeoutCancel setupRequest
      if buf.length < 3 + 2 + 1 then some (disablePeerLink peer)
      else do
        let status ← buf.readLe16 3
        if status ≠ statusSuccess then return disablePeerLink peer
        else
          let dtoken ← buf.read8 5
          if buf.length < 3 + 2 + 1 + 2 then return disablePeerLink peer
          else
            let _capability ← buf.readLe16 6
            let kde ← parseIesRead buf 8 (sizeSub buf.length 8)
            m2ReplyRead suite sm env addr peer dtoken (buf.drop 8) kde

def m3IesRead (peer : Peer K) (mem : Bytes) (kde : EapolIeParse) :
    ReadProg Unit (Bytes × Option TpkIes) := do
  let lnkid ← needLnkid mem kde ()
  if lnkidBssid lnkid ≠ sm.bssid.1 then throw ()
  else if !sm.privacy then return (lnkid, none)
  else do
    let ftie ← needFtie mem kde ()
    let rsnIe ← need mem kde.rsnIe 0 ()
    if rsnIe ≠ peer.rsnieP then throw ()
    else if peer.rnonce ≠ ftie.anonce then throw ()
    else if peer.inonce ≠ ftie.snonce then throw ()
    else do
      let timeoutie ← needTimeoutie mem kde ()
      if timeoutieValue timeoutie ≠ peer.lifetime then throw ()
      else return (lnkid, some ⟨rsnIe, ftie, timeoutie⟩)

/-- M3 from the Link Identifier on. -/
def m3ReplyRead (addr : StaAddr) (peer : Peer K) (mem : Bytes) (kde : EapolIeParse) :
    Option (Slot K × List (TdlsOut K)) := do
  match ← (m3IesRead sm peer mem kde).run with
  | .error _ => return doTeardown suite sm env peer
  | .ok (_, none) => return m3Finish suite sm env addr peer
  | .ok (lnkid, some ies) =>
    if !verifyTdlsMic suite 3 peer lnkid ies.timeoutie ies.ftie then
      let (slot, out) := doTeardown suite sm env peer
      return (slot, .delKey addr :: out)
    else
      let (peer', out) := configureKey env peer
      let (slot, out') := m3Finish suite sm env addr peer'
      return (slot, .micVerified peer.tpk.kck :: out ++ out')

def processTpkM3Read (addr : StaAddr) (buf : Bytes) (slot : Slot K) :
    Option (Slot K × List (TdlsOut K)) :=
  match slot with
  | none => some (none, [])
  | some peer =>
    let peer := peer.retryTimeoutCancel setupResponse
    if buf.length < 3 + 3 then some (doTeardown suite sm env peer)
    else do
      let status ← buf.readLe16 3
      if status ≠ statusSuccess then return doTeardown suite sm env peer
      else
        let kde ← parseIesRead buf 6 (sizeSub buf.length 6)
        m3ReplyRead suite sm env addr peer (buf.drop 6) kde

/-- The elements that prove a teardown, unless there is no key that they could prove. -/
def teardownIesRead (peer : Peer K) (mem : Bytes) (kde : EapolIeParse) :
    ReadProg Unit (Bytes × Option Ftie) := do
  let lnkid ← needLnkid mem kde ()
  if !sm.privacy || !peer.tpkSet || !peer.tpkSuccess then return (lnkid, none)
  else do
    let ftie ← needFtie mem kde ()
    return (lnkid, some ftie)

def teardownReplyRead (peer : Peer K) (reasonCode : ℕ) (mem : Bytes) (kde : EapolIeParse) :
    Option (Slot K × List (TdlsOut K)) := do
  match ← (teardownIesRead sm peer mem kde).run with
  | .error _ => return (some peer, [])
  | .ok (_, none) => return disablePeerLink peer
  | .ok (lnkid, some ftie) =>
    if tdlsKeyMicTeardown suite peer.tpk.kck reasonCode peer.dtoken lnkid ftie ≠ ftie.mic then
      return (some peer, [])
    else return disablePeerLink peer

/-- There is no check of the length before the reason code is read. -/
def recvTeardownRead (buf : Bytes) (slot : Slot K) : Option (Slot K × List (TdlsOut K)) :=
  match slot with
  | none => some (none, [])
  | some peer => do
    let reasonCode ← buf.readLe16 3
    let kde ← parseIesRead buf 5 (sizeSub buf.length 5)
    teardownReplyRead suite sm peer reasonCode (buf.drop 5) kde

/-- The rest of a discovery request is about the entry and the response. -/
def processDiscoveryRequestRead (addr : StaAddr) (buf : Bytes) (slot : Slot K) :
    Option (Slot K × List (TdlsOut K)) :=
  if buf.length < 3 + 1 + lnkidSize then some (slot, [])
  else do
    let dialogToken ← buf.read8 3
    let kde ← parseIesRead buf 4 (sizeSub buf.length 4)
    match ← (need (buf.drop 4) kde.lnkid 0 ()).run with
    | .error _ => return (slot, [])
    | .ok lnkid =>
      return processDiscoveryRequest suite sm env addr
        ⟨buf.length, 0, dialogToken, { lnkid := some lnkid }⟩ slot

/-- `wpa_supplicant_rx_tdls`. -/
def rxTdlsRead (src : StaAddr) (buf : Bytes) (slot : Slot K) : Option (Slot K × List (TdlsOut K)) :=
  if sm.tdlsDisabled || !sm.tdlsSupported then some (slot, [])
  else if src = sm.ownAddr then some (slot, [])
  else if buf.length < 3 then some (slot, [])
  else do
    let payloadtype ← buf.read8 0
    let category ← buf.read8 1
    let action ← buf.read8 2
    if payloadtype ≠ tdlsRftype ∨ category ≠ actionTdls then return (slot, [])
    else if action = setupRequest then processTpkM1Read suite sm env src buf slot
    else if action = setupResponse then processTpkM2Read suite sm env src buf slot
    else if action = setupConfirm then processTpkM3Read suite sm env src buf slot
    else if action = tdlsTeardown then recvTeardownRead suite sm buf slot
    else if action = discoveryRequest then processDiscoveryRequestRead suite sm env src buf slot
    else return (slot, [])

end Handlers

section Station
variable {K : Type} (suite : TpkSuite K) (sm : TdlsSm)

/-- A step of the station: requests and timeouts read no frame. -/
def stationStepRead (peers : Peers K) (input : TdlsInput) : Option (Peers K × List (TdlsOut K)) :=
  match input with
  | .rx env src buf =>
    (rxTdlsRead suite sm env src buf (peers src)).map fun result =>
      (Function.update peers src result.1, result.2)
  | _ => some (stationStep suite sm peers input)

/-- The peer list after the inputs, if every frame among them was processed inside itself. -/
def runRead : Peers K → List TdlsInput → Option (Peers K)
  | peers, [] => some peers
  | peers, input :: inputs => do
    let (peers, _) ← stationStepRead suite sm peers input
    runRead peers inputs

end Station

end Wpa.Tdls
