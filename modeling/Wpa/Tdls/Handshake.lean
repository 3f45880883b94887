import Wpa.Tdls.Peer

/-! The handlers of TDLS frames, requests and timeouts, and a station taking one after another. -/

namespace Wpa.Tdls
open Lib Bytes

section Handlers
variable {K : Type} (suite : TpkSuite K) (sm : TdlsSm) (env : TdlsEnv)

def wpaCapabilityNoPairwise : ℕ := 2 ^ 1
def wpaCapabilityPeerkeyEnabled : ℕ := 2 ^ 9

/-- The elements that the handshake needs. -/
structure TpkIes where
  rsnIe : Bytes
  ftie : Ftie
  timeoutie : Bytes

/-- The checks that M1 has to pass, each with its status code; `none` where privacy is off. -/
def m1Ies (msg : TdlsMsg) : Except ℕ (Bytes × Option TpkIes) := do
  let some lnkid := msg.ies.lnkid | throw statusUnspecifiedFailure
  if lnkidBssid lnkid ≠ sm.bssid.1 then throw statusRequestDeclined
  if !msg.ies.suppRates || !env.copied then throw statusUnspecifiedFailure
  if sm.tdlsProhibited then throw statusRequestDeclined
  if !sm.privacy then
    if msg.ies.rsnIe.isSome then throw statusSecurityDisabled
    return (lnkid, none)
  let some ftie := msg.ies.ftie | throw statusInvalidParameters
  let some rsnIe := msg.ies.rsnIe | throw statusInvalidParameters
  if rsnIe.length > tdlsMaxIeLen then throw statusInvalidRsnie
  let .ok ie := wpaParseWpaIeRsn rsnIe | throw statusInvalidRsnie
  if ie.pairwiseCipher &&& cipherCcmp = 0 then throw statusPairwiseCipherNotValid
  if ie.capabilities &&& (wpaCapabilityNoPairwise ||| wpaCapabilityPeerkeyEnabled) ≠
      wpaCapabilityPeerkeyEnabled then throw statusInvalidRsnIeCapab
  let some timeoutie := msg.ies.keyLifetime | throw statusUnacceptableLifetime
  if timeoutieValue timeoutie < 300 then throw statusUnacceptableLifetime
  return (lnkid, some ⟨rsnIe, ftie, timeoutie⟩)

def nonceSet (nonce : Bytes) : Bool := nonce.any (· ≠ 0)

/-- The entry as M1 finds it: an old link is disabled, and of two requests that cross the one of the
lower address goes on. `none` where the own one does. -/
def m1Admit (peer : Peer K) : Option (Peer K × List (TdlsOut K)) :=
  if peer.tpkSuccess then some (peer.clear suite, [.disableLink peer.addr])
  else if peer.initiator then
    if memcmp sm.ownAddr.1 peer.addr.1 < 0 then none
    else some (peer.clear suite, [.disableLink peer.addr])
  else some (peer, [])

/-- The nonces of M1: a responder nonce is drawn unless the initiator nonce is the one before. -/
def m1Nonces (peer : Peer K) (snonce : Bytes) : Option (Peer K) :=
  if peer.inonce ≠ snonce ∨ !nonceSet peer.inonce then
    env.random.map fun random =>
      { peer with inonce := snonce, rnonce := random, tkSet := false }
  else some peer

/-- The entry with what M1 says, and its key. -/
def m1Accept (peer : Peer K) (dtoken : ℕ) : Option TpkIes → Option (Peer K)
  | none =>
    some { peer with initiator := false, dtoken, rsnieI := [], rsnieP := [], cipher := .none }
  | some ies => do
    let peer ← m1Nonces env
      { peer with initiator := false, dtoken, rsnieI := ies.rsnIe, cipher := .ccmp }
      ies.ftie.snonce
    return { peer with rsnieP := peer.rsnieI, lifetime := timeoutieValue ies.timeoutie }.generateTpk
      suite sm

/-- The `error` label of M1. -/
def m1Error (addr : StaAddr) (dtoken status : ℕ) : Slot K × List (TdlsOut K) :=
  (none, sendError env addr setupResponse dtoken false status)

/-- M1 for the entry that it is admitted to, and the response. -/
def m1Respond (addr : StaAddr) (peer : Peer K) (msg : TdlsMsg) : Slot K × List (TdlsOut K) :=
  match m1Ies sm env msg with
  | .error status => m1Error env addr msg.dtoken status
  | .ok (lnkid, ies) =>
    match m1Accept suite sm env peer msg.dtoken ies with
    | none => m1Error env addr msg.dtoken statusUnspecifiedFailure
    | some peer =>
      if !env.addset then m1Error env addr msg.dtoken statusUnspecifiedFailure
      else
        let (peer, ok, sent) :=
          sendTpkM2 suite sm env { peer with tpkInProgress := true } msg.dtoken lnkid
        if ok then (some peer, .addset addr true :: sent)
        else
          let (slot, out) := m1Error env addr msg.dtoken statusUnspecifiedFailure
          (slot, .addset addr true :: sent ++ .disableLink addr :: out)

def processTpkM1 (addr : StaAddr) (msg : TdlsMsg) (slot : Slot K) : Slot K × List (TdlsOut K) :=
  if msg.len < 3 + 3 then (slot, [])
  else
    match addPeer suite env addr slot with
    | none => m1Error env addr msg.dtoken statusUnspecifiedFailure
    | some peer =>
      match m1Admit suite sm peer with
      | none => (some peer, [])
      | some (peer, out) =>
        let (slot, out') := m1Respond suite sm env addr peer msg
        (slot, out ++ out')

/-- The checks that M2 has to pass before anything of it is stored. -/
def m2Ies (peer : Peer K) (msg : TdlsMsg) : Except ℕ (Bytes × Option (Bytes × Ftie)) := do
  let some lnkid := msg.ies.lnkid | throw statusUnspecifiedFailure
  if lnkidBssid lnkid ≠ sm.bssid.1 then throw statusNotInSameBss
  if !msg.ies.suppRates || !env.copied then throw statusUnspecifiedFailure
  if !sm.privacy then return (lnkid, none)
  let some ftie := msg.ies.ftie | throw statusInvalidParameters
  let some rsnIe := msg.ies.rsnIe | throw statusInvalidParameters
  if rsnIe.length > tdlsMaxIeLen then throw statusInvalidRsnie
  if rsnIe ≠ peer.rsnieI then throw statusInvalidRsnie
  let .ok ie := wpaParseWpaIeRsn rsnIe | throw statusInvalidRsnie
  if ie.pairwiseCipher ≠ cipherCcmp then throw statusPairwiseCipherNotValid
  return (lnkid, some (rsnIe, ftie))

/-- Configure the key, or leave that for later. -/
def configureKey (peer : Peer K) : Peer K × List (TdlsOut K) :=
  let (peer, ok, out) := peer.setKey env.setKey
  if ok then (peer, out) else ({ peer with reconfigKey := true }, out)

/-- From `skip_rsn` on. -/
def m2Finish (addr : StaAddr) (peer : Peer K) (dtoken : ℕ) (lnkid : Bytes) :
    Slot K × List (TdlsOut K) :=
  let peer := { peer with dtoken }
  if !env.addset then
    (none, sendError env addr setupConfirm dtoken true statusUnspecifiedFailure ++
      [.disableLink addr])
  else
    let (peer, ok, sent) := sendTpkM3 suite sm env peer dtoken lnkid
    if !ok then (none, .addset addr false :: sent ++ [.disableLink addr])
    else if peer.tpkSuccess then (some peer, .addset addr false :: sent)
    else
      let (peer, ok, enabled) := enableLink sm env peer
      if ok then (some peer, .addset addr false :: sent ++ enabled)
      else
        (none, .addset addr false :: sent ++ enabled ++ (doTeardown suite sm env peer).2)

def processTpkM2 (addr : StaAddr) (msg : TdlsMsg) (slot : Slot K) : Slot K × List (TdlsOut K) :=
  match slot with
  | none => (none, [])
  | some peer =>
    if !peer.initiator then (some peer, [])
    else if peer.tpkSuccess then (some peer, [])
    else
      let peer := peer.retryTimeoutCancel setupRequest
      if msg.len < 3 + 2 + 1 then disablePeerLink peer
      else if msg.status ≠ statusSuccess then disablePeerLink peer
      else if msg.len < 3 + 2 + 1 + 2 then disablePeerLink peer
      else
        let error (status : ℕ) : Slot K × List (TdlsOut K) :=
          (none, sendError env addr setupConfirm msg.dtoken true status ++ [.disableLink addr])
        match m2Ies sm env peer msg with
        | .error status => error status
        | .ok (lnkid, none) =>
          m2Finish suite sm env addr { peer with rsnieP := [], cipher := .none } msg.dtoken lnkid
        | .ok (lnkid, some (rsnIe, ftie)) =>
          if peer.inonce ≠ ftie.snonce then (some peer, [])
          else
            let peer :=
              { peer with rnonce := ftie.anonce, rsnieP := rsnIe, cipher := .ccmp }
            match msg.ies.keyLifetime with
            | none => error statusUnacceptableLifetime
            | some timeoutie =>
              if timeoutieValue timeoutie ≠ peer.lifetime then error statusUnacceptableLifetime
              else
                let peer := peer.generateTpk suite sm
                if !verifyTdlsMic suite 2 peer lnkid timeoutie ftie then
                  (none, [.delKey addr, .disableLink addr])
                else
                  let (peer', out) := configureKey env peer
                  let (slot, out') := m2Finish suite sm env addr peer' msg.dtoken lnkid
                  (slot, .micVerified peer.tpk.kck :: out ++ out')

/-- The checks of M3, in the order of the source; where one fails the link is torn down. -/
def m3Ies (peer : Peer K) (msg : TdlsMsg) : Option (Bytes × Option TpkIes) := do
  let lnkid ← msg.ies.lnkid
  if lnkidBssid lnkid ≠ sm.bssid.1 then none
  else if !sm.privacy then some (lnkid, none)
  else
    let ftie ← msg.ies.ftie
    let rsnIe ← msg.ies.rsnIe
    if rsnIe ≠ peer.rsnieP then none
    else if peer.rnonce ≠ ftie.anonce then none
    else if peer.inonce ≠ ftie.snonce then none
    else
      let timeoutie ← msg.ies.keyLifetime
      if timeoutieValue timeoutie ≠ peer.lifetime then none
      else some (lnkid, some ⟨rsnIe, ftie, timeoutie⟩)

/-- From `skip_rsn` on. -/
def m3Finish (addr : StaAddr) (peer : Peer K) : Slot K × List (TdlsOut K) :=
  if !env.addset then doTeardown suite sm env peer
  else if peer.tpkSuccess then (some peer, [.addset addr false])
  else
    let (peer, ok, enabled) := enableLink sm env peer
    if ok then (some peer, .addset addr false :: enabled)
    else (none, .addset addr false :: enabled ++ (doTeardown suite sm env peer).2)

def processTpkM3 (addr : StaAddr) (msg : TdlsMsg) (slot : Slot K) : Slot K × List (TdlsOut K) :=
  match slot with
  | none => (none, [])
  | some peer =>
    let peer := peer.retryTimeoutCancel setupResponse
    if msg.len < 3 + 3 then doTeardown suite sm env peer
    else if msg.status ≠ statusSuccess then doTeardown suite sm env peer
    else
      match m3Ies sm peer msg with
      | none => doTeardown suite sm env peer
      | some (_, none) => m3Finish suite sm env addr peer
      | some (lnkid, some ies) =>
        if !verifyTdlsMic suite 3 peer lnkid ies.timeoutie ies.ftie then
          let (slot, out) := doTeardown suite sm env peer
          (slot, .delKey addr :: out)
        else
          let (peer', out) := configureKey env peer
          let (slot, out') := m3Finish suite sm env addr peer'
          (slot, .micVerified peer.tpk.kck :: out ++ out')

def recvTeardown (msg : TdlsMsg) (slot : Slot K) : Slot K × List (TdlsOut K) :=
  match slot with
  | none => (none, [])
  | some peer =>
    match msg.ies.lnkid with
    | none => (some peer, [])
    | some lnkid =>
      if !sm.privacy || !peer.tpkSet || !peer.tpkSuccess then disablePeerLink peer
      else
        match msg.ies.ftie with
        | none => (some peer, [])
        | some ftie =>
          if tdlsKeyMicTeardown suite peer.tpk.kck msg.status peer.dtoken lnkid ftie ≠ ftie.mic then
            (some peer, [])
          else disablePeerLink peer

/-- An entry is made, or its element and lifetime are set anew; the response names no key. -/
def processDiscoveryRequest (addr : StaAddr) (msg : TdlsMsg) (slot : Slot K) :
    Slot K × List (TdlsOut K) :=
  if msg.len < 3 + 1 + lnkidSize then (slot, [])
  else
    match msg.ies.lnkid with
    | none => (slot, [])
    | some lnkid =>
      if lnkidBssid lnkid ≠ sm.bssid.1 then (slot, [])
      else
        match addPeer suite env addr slot with
        | none => (none, [])
        | some peer =>
          let peer := if sm.privacy then { peer with rsnieI := rsnieTpk } else peer
          if !env.alloc then (none, [])
          else
            let peer := if sm.privacy then { peer with lifetime := tpkLifetime } else peer
            let frame : TdlsFrame :=
              { action := discoveryResponse, dtoken := msg.dtoken, status := 0, initiator := false
                rsnIe := if sm.privacy then some peer.rsnieI else none
                timeoutie := if sm.privacy then some (wpaAddTdlsTimeoutie peer.lifetime) else none }
            let (peer, _, out) := peer.tpkSend env frame
            (some peer, out)

/-- `wpa_tdls_send_tpk_m1`: `none` where it has freed the entry itself. -/
def sendTpkM1 (peer : Peer K) : Option (Peer K × Bool × List (TdlsOut K)) :=
  let peer := { peer with rsnieI := if sm.privacy then rsnieTpk else [] }
  if !env.alloc then none
  else if !sm.privacy then
    some (peer.tpkSend env
      { action := setupRequest, dtoken := 1, status := 0, initiator := peer.initiator })
  else
    env.random.map fun random =>
      let peer := { peer with inonce := random, tkSet := false, lifetime := tpkLifetime }
      peer.tpkSend env
        { action := setupRequest, dtoken := 1, status := 0, initiator := peer.initiator
          rsnIe := some peer.rsnieI
          ftie := some (ftieWith (zeros tdlsMicLen) (zeros tdlsNonceLen) random)
          timeoutie := some (wpaAddTdlsTimeoutie peer.lifetime) }

def start (addr : StaAddr) (slot : Slot K) : Slot K × List (TdlsOut K) :=
  if sm.tdlsDisabled || !sm.tdlsSupported || sm.tdlsProhibited then (slot, [])
  else
    match addPeer suite env addr slot with
    | none => (none, [])
    | some peer =>
      if peer.tpkInProgress then (some peer, [])
      else
        let peer := { peer with initiator := true }
        if !env.addset then disablePeerLink peer
        else
          match sendTpkM1 sm env { peer with tpkInProgress := true } with
          | none => (none, [.addset addr true])
          | some (peer, ok, sent) =>
            if ok then (some peer, .addset addr true :: sent)
            else (none, .addset addr true :: sent ++ [.disableLink addr])

def remove (slot : Slot K) : Slot K × List (TdlsOut K) :=
  if sm.tdlsDisabled || !sm.tdlsSupported then (slot, [])
  else
    match slot with
    | none => (none, [])
    | some peer =>
      if peer.tpkSuccess && sm.tdlsExternalSetup then doTeardown suite sm env peer
      else (some peer, [])

def tpkRetryTimeout (slot : Slot K) : Slot K × List (TdlsOut K) :=
  match slot with
  | none => (none, [])
  | some peer =>
    if !peer.retryTimer then (some peer, [])
    else if peer.smTmr.count = 0 then doTeardown suite sm env peer
    else
      let peer := { peer with smTmr := { peer.smTmr with count := peer.smTmr.count - 1 } }
      match peer.smTmr.buf with
      | none => (some { peer with retryTimer := false }, [])
      | some frame =>
        (some peer, if env.send then [.send peer.addr { frame with initiator := peer.initiator }]
          else [])

/-- The initiator of a link whose key has expired asks for a new one; `env'` is for that request. -/
def tpkTimeout (env' : TdlsEnv) (addr : StaAddr) (slot : Slot K) : Slot K × List (TdlsOut K) :=
  match slot with
  | none => (none, [])
  | some peer =>
    if !peer.lifetimeTimer then (some peer, [])
    else if peer.initiator then
      let (slot, out) := doTeardown suite sm env peer
      let (slot, out') := start suite sm env' addr slot
      (slot, out ++ out')
    else doTeardown suite sm env peer

end Handlers

end Wpa.Tdls
