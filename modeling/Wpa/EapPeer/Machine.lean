import Wpa.Eap.Packet

/-! The EAP peer state machine. A method is known to the machine by its table of functions only;
what these functions answer is part of the input of a step, so that a run may take any answers in
any order. Re-authentication with ERP is not part of the machine. -/

namespace Wpa.EapPeer
open Lib Bytes Eap

inductive SmState where
  | initialized | disabled | idle | received | getMethod | method | sendResponse | discard
  | identity | notification | retransmit | success | failure
  deriving DecidableEq

inductive EapMethodState where
  | none | init | cont | mayCont | done
  deriving DecidableEq

inductive EapDecision where
  | fail | condSucc | uncondSucc
  deriving DecidableEq

def eapTypeNone : ℕ := 0
def eapTypeIdentity : ℕ := 1
def eapTypeNotification : ℕ := 2
def eapTypeNak : ℕ := 3
def eapTypeLeap : ℕ := 17

def eapCodeSuccess : ℕ := 3
def eapCodeFailure : ℕ := 4

def eapMaxAuthRounds : ℕ := 100
def eapMaxAuthRoundsShort : ℕ := 50
def eapClientTimeoutDefault : ℕ := 60

/-- `struct eap_method`: its type, and which of the optional functions it has. `hasKey` stands for
`isKeyAvailable` and `getKey`. -/
structure EapMethod where
  vendor : ℕ
  method : ℕ
  hasReauthData : Bool
  hasKey : Bool
  getSessionId : Bool
  deriving DecidableEq

structure EapMethodRet where
  ignore : Bool
  methodState : EapMethodState
  decision : EapDecision
  allowNotifications : Bool
  deriving DecidableEq

/-- What the code outside the state machine answers in one step, if the step calls it. -/
structure Calls where
  hasReauthData : Bool
  /-- `init` or `init_for_reauth` returns method data. -/
  initOk : Bool
  pendingReq : Bool
  process : Bytes → EapMethodRet → EapMethodRet × Option Bytes
  isKeyAvailable : Bool
  getKey : Option Bytes
  getSessionId : Option Bytes
  /-- The two flags the LEAP and PEAP methods set in the state machine. -/
  leapDone : Bool
  peapDone : Bool
  buildIdentity : Option Bytes

structure PeerConfig where
  /-- The entries of `eap_methods` in front of the one that ends it. -/
  eapMethods : Option (List (ℕ × ℕ))
  allowCannedSuccess : Bool
  deriving DecidableEq

/-- What does not change in a run. -/
structure Env where
  methods : List EapMethod
  config : Option PeerConfig
  fastReauth : Bool
  workaround : Bool
  forceDisabled : Bool
  sha1 : Bytes → Bytes

/-- The variables the EAPOL state machine shares with this one. -/
structure Eapol where
  eapReqData : Option Bytes := none
  eapReq : Bool := false
  eapResp : Bool := false
  eapNoResp : Bool := false
  eapSuccess : Bool := false
  eapFail : Bool := false
  eapRestart : Bool := false
  altAccept : Bool := false
  altReject : Bool := false
  portEnabled : Bool := false
  idleWhile : ℕ := 0
  deriving DecidableEq

/-- `struct eap_sm`, as `eap_peer_sm_init` leaves it. -/
structure EapSm where
  eapState : SmState := .initialized
  selectedMethod : ℕ := eapTypeNone
  methodState : EapMethodState := .none
  lastId : ℤ := 0
  lastRespData : Option Bytes := none
  decision : EapDecision := .fail
  rxReq : Bool := false
  rxResp : Bool := false
  rxSuccess : Bool := false
  rxFailure : Bool := false
  reqId : ℕ := 0
  reqMethod : ℕ := eapTypeNone
  reqVendor : ℕ := eapVendorIetf
  reqVendorMethod : ℕ := eapTypeNone
  ignore : Bool := false
  clientTimeout : ℕ := eapClientTimeoutDefault
  allowNotifications : Bool := false
  eapRespData : Option Bytes := none
  eapKeyAvailable : Bool := false
  eapKeyData : Option Bytes := none
  eapSessionId : Option Bytes := none
  m : Option EapMethod := none
  eapMethodPriv : Bool := false
  reauthInit : Bool := false
  leapDone : Bool := false
  peapDone : Bool := false
  reqSha1 : Bytes := List.replicate 20 0
  lastSha1 : Bytes := List.replicate 20 0
  numRounds : ℕ := 0
  numRoundsShort : ℕ := 0
  prevFailure : Bool := false
  lastConfig : Option PeerConfig := none
  eapol : Eapol := {}
  deriving DecidableEq

/-! ### The configured and the registered methods -/

def eapConfigAllowedMethod (config : Option PeerConfig) (vendor method : ℕ) : Bool :=
  match config.bind PeerConfig.eapMethods with
  | none => true
  | some methods =>
    (methods.takeWhile fun m => decide (m ≠ (eapVendorIetf, eapTypeNone))).contains (vendor, method)

def eapPeerGetEapMethod (env : Env) (vendor method : ℕ) : Option EapMethod :=
  env.methods.find? fun m => m.vendor == vendor && m.method == method

def eapSmAllowMethod (env : Env) (vendor method : ℕ) : Bool :=
  eapConfigAllowedMethod env.config vendor method && (eapPeerGetEapMethod env vendor method).isSome

def eapPeerSmAllowCanned (env : Env) : Bool :=
  env.config.any PeerConfig.allowCannedSuccess

/-! ### The packets the machine builds itself -/

def withLen (msg : Bytes) : Bytes := msg.take 2 ++ ofBeNat (msg.length % 65536) 2 ++ msg.drop 4

def eapSmBuildExpandedNak (env : Env) (s : EapSm) : Bytes :=
  let allowed := env.methods.filter fun m =>
    !(s.reqVendor == m.vendor && s.reqVendorMethod == m.method) &&
      eapConfigAllowedMethod env.config m.vendor m.method
  let entry (vendor method : ℕ) : Bytes :=
    UInt8.ofNat eapTypeExpanded :: (ofBeNat vendor 3 ++ ofBeNat method 4)
  withLen (eapMsgAlloc eapVendorIetf eapTypeExpanded 0 eapCodeResponse (UInt8.ofNat s.reqId) ++
    ofBeNat eapVendorIetf 3 ++ ofBeNat eapTypeNak 4 ++
    if allowed = [] then entry eapVendorIetf eapTypeNone
    else allowed.flatMap fun m => entry m.vendor m.method)

/-- The types of a legacy Nak; the vendor methods share one entry. -/
def nakTypes : Bool → List EapMethod → Bytes
  | _, [] => []
  | expandedFound, m :: rest =>
    if m.vendor ≠ eapVendorIetf then
      if expandedFound then nakTypes expandedFound rest
      else UInt8.ofNat eapTypeExpanded :: nakTypes true rest
    else UInt8.ofNat m.method :: nakTypes expandedFound rest

def eapSmBuildNak (env : Env) (s : EapSm) : Option Bytes :=
  if env.methods = [] then none
  else if s.reqMethod = eapTypeExpanded then some (eapSmBuildExpandedNak env s)
  else
    let allowed := env.methods.filter fun m =>
      !(m.vendor == eapVendorIetf && m.method == s.reqMethod) &&
        eapConfigAllowedMethod env.config m.vendor m.method
    let types := nakTypes false allowed
    some (withLen (eapMsgAlloc eapVendorIetf eapTypeNak 0 eapCodeResponse (UInt8.ofNat s.reqId) ++
      if types = [] then [UInt8.ofNat eapTypeNone] else types))

def eapSmBuildNotify (id : ℕ) : Bytes :=
  eapMsgAlloc eapVendorIetf eapTypeNotification 0 eapCodeResponse (UInt8.ofNat id)

/-! ### What entering a state does -/

/-- What a run shows of a step. -/
inductive Output where
  | entered (st : SmState)
  | received (req : Option Bytes)
  | processed (m : EapMethod) (ret : EapMethodRet)
  | gotKey (m : EapMethod) (key : Option Bytes)
  deriving DecidableEq

/-- Method code has been called, and may have set its flags. -/
def EapSm.called (s : EapSm) (calls : Calls) : EapSm :=
  { s with leapDone := calls.leapDone, peapDone := calls.peapDone }

def eapDeinitPrevMethod (s : EapSm) (calls : Calls) : EapSm :=
  if s.m = none ∨ s.eapMethodPriv = false then s
  else { s.called calls with eapMethodPriv := false, m := none }

def smInitialize (env : Env) (calls : Calls) (s : EapSm) : EapSm :=
  let keep := env.fastReauth && s.m.any EapMethod.hasReauthData && calls.hasReauthData &&
    !s.prevFailure && decide (s.lastConfig = env.config)
  let s := if keep then s.called calls
    else eapDeinitPrevMethod { s with lastConfig := env.config } calls
  { s with
    selectedMethod := eapTypeNone
    methodState := .none
    allowNotifications := true
    decision := .fail
    clientTimeout := eapClientTimeoutDefault
    eapKeyData := none
    eapSessionId := none
    eapKeyAvailable := false
    -- a new session: this matches no identifier
    lastId := -1
    ignore := false
    numRounds := 0
    numRoundsShort := 0
    prevFailure := false
    reauthInit := false
    eapol := { s.eapol with
      idleWhile := eapClientTimeoutDefault
      eapSuccess := false
      eapFail := false
      eapRestart := false
      eapResp := false
      eapNoResp := false } }

def smDisabled (s : EapSm) : EapSm :=
  { s with numRounds := 0, numRoundsShort := 0, eapol := { s.eapol with idleWhile := 0 } }

/-- `eap_sm_parseEapReq`. -/
def eapSmParseEapReq (env : Env) (s : EapSm) (req : Option Bytes) : EapSm :=
  let s := { s with
    rxReq := false, rxResp := false, rxSuccess := false, rxFailure := false
    reqId := 0, reqMethod := eapTypeNone, reqVendor := eapVendorIetf
    reqVendorMethod := eapTypeNone }
  match req with
  | none => s
  | some req =>
    let plen := req.be16 2
    if req.length < eapHdrSize ∨ plen > req.length then s
    else
      let s := { s with
        reqId := req.byteAt 1
        reqSha1 := if env.workaround then env.sha1 (req.take plen) else s.reqSha1 }
      let code := req.byteAt 0
      if code = eapCodeRequest.toNat then
        if plen < eapHdrSize + 1 then s
        else
          let s := { s with rxReq := true, reqMethod := req.byteAt eapHdrSize }
          if s.reqMethod = eapTypeExpanded ∧ ¬ plen < eapHdrSize + 8 then
            { s with
              reqVendor := req.be24 (eapHdrSize + 1)
              reqVendorMethod := req.be32 (eapHdrSize + 4) }
          else s
      else if code = eapCodeResponse.toNat then
        -- LEAP swaps the roles in the middle of an authentication
        if s.selectedMethod = eapTypeLeap ∧ ¬ plen < eapHdrSize + 1 then
          { s with rxResp := true, reqMethod := req.byteAt eapHdrSize }
        else s
      else if code = eapCodeSuccess then { s with rxSuccess := true }
      else if code = eapCodeFailure then { s with rxFailure := true }
      else s

def smReceived (env : Env) (s : EapSm) : EapSm :=
  let req := s.eapol.eapReqData
  let s := eapSmParseEapReq env s req
  { s with
    numRounds := s.numRounds + 1
    numRoundsShort := if req.all fun req => decide (req.length < 20) then s.numRoundsShort + 1
      else 0 }

def nak (env : Env) (s : EapSm) : EapSm := { s with eapRespData := eapSmBuildNak env s }

/-- The second half of GET_METHOD, with the method found. -/
def initializeMethod (env : Env) (calls : Calls) (s : EapSm) : EapSm :=
  let s := { s.called calls with
    clientTimeout := eapClientTimeoutDefault
    eapMethodPriv := calls.initOk }
  if calls.initOk then { s with methodState := .init }
  else
    let s := { s with m := none, methodState := .none, selectedMethod := eapTypeNone }
    -- a pending request for a PIN leaves the packet unanswered, so that it can be tried again
    if s.reqMethod = eapTypeTls ∧ env.config.isSome ∧ calls.pendingReq then s else nak env s

def smGetMethod (env : Env) (calls : Calls) (s : EapSm) : EapSm :=
  let method := if s.reqMethod = eapTypeExpanded then s.reqVendorMethod else s.reqMethod
  let eapMethod := eapPeerGetEapMethod env s.reqVendor method
  if ¬ eapSmAllowMethod env s.reqVendor method then nak env s
  else
    let reinit := env.fastReauth &&
      s.m.any (fun m => m.vendor == s.reqVendor && m.method == method && m.hasReauthData) &&
      calls.hasReauthData
    let s := if reinit then s else eapDeinitPrevMethod s calls
    let s : EapSm := { s with selectedMethod := s.reqMethod, m := s.m.or eapMethod }
    if s.m = none then nak env s else initializeMethod env calls s

/-- The request the method is given: LEAP takes an EAP-Success, which has no payload. -/
def methodReq (s : EapSm) (m : EapMethod) : Option Bytes :=
  let minLen := if m.vendor = eapVendorIetf ∧ m.method = eapTypeLeap then 0 else 1
  s.eapol.eapReqData.filter fun req => eapHdrLenValid req minLen

/-- What the method returns starts from the machine's own values. -/
def methodRet (s : EapSm) : EapMethodRet :=
  ⟨s.ignore, s.methodState, s.decision, s.allowNotifications⟩

def smMethod (calls : Calls) (s : EapSm) : EapSm × List Output :=
  match s.m with
  | none => (s, [])
  | some m =>
    match methodReq s m with
    | none => (s, [])
    | some req =>
      let ret := (calls.process req (methodRet s)).1
      let s := { s.called calls with
        eapRespData := (calls.process req (methodRet s)).2
        ignore := ret.ignore }
      if ret.ignore then (s, [.processed m ret])
      else
        let s := { s with
          methodState := ret.methodState
          decision := ret.decision
          allowNotifications := ret.allowNotifications }
        if m.hasKey && calls.isKeyAvailable then
          ({ s with
              eapKeyData := calls.getKey
              eapSessionId := if m.getSessionId then calls.getSessionId else none },
            [.processed m ret, .gotKey m calls.getKey])
        else (s, [.processed m ret])

def smSendResponse (env : Env) (s : EapSm) : EapSm :=
  let s := match s.eapRespData with
    | some resp => { s with
        numRoundsShort := if resp.length ≥ 20 then 0 else s.numRoundsShort
        lastSha1 := if env.workaround then s.reqSha1 else s.lastSha1
        lastId := s.reqId
        lastRespData := some resp
        eapol := { s.eapol with eapResp := true } }
    | none => { s with lastRespData := none }
  { s with
    reauthInit := false
    eapol := { s.eapol with eapReq := false, idleWhile := s.clientTimeout } }

def smDiscard (s : EapSm) : EapSm :=
  { s with eapol := { s.eapol with eapReq := false, eapNoResp := true } }

def smIdentity (calls : Calls) (s : EapSm) : EapSm :=
  if s.eapol.eapReqData.any fun req => eapHdrLenValid req 1 then
    { s with eapRespData := calls.buildIdentity }
  else s

def smNotification (s : EapSm) : EapSm :=
  if s.eapol.eapReqData.any fun req => eapHdrLenValid req 1 then
    { s with eapRespData := some (eapSmBuildNotify s.reqId) }
  else s

def smRetransmit (s : EapSm) : EapSm := { s with eapRespData := s.lastRespData }

def smSuccess (s : EapSm) : EapSm :=
  { s with
    eapKeyAvailable := if s.eapKeyData.isSome then true else s.eapKeyAvailable
    eapol := { s.eapol with eapSuccess := true, eapReq := false, eapNoResp := true } }

def smFailure (s : EapSm) : EapSm :=
  { s with
    prevFailure := true
    eapol := { s.eapol with eapFail := true, eapReq := false, eapNoResp := true } }

/-- `SM_ENTER`: the new state, and what its entry does. -/
def enter (env : Env) (calls : Calls) (st : SmState) (s : EapSm) : EapSm × List Output :=
  let s := { s with eapState := st }
  match st with
  | .initialized => (smInitialize env calls s, [.entered st])
  | .disabled => (smDisabled s, [.entered st])
  | .idle => (s, [.entered st])
  | .received => (smReceived env s, [.entered st, .received s.eapol.eapReqData])
  | .getMethod => (smGetMethod env calls s, [.entered st])
  | .method => ((smMethod calls s).1, .entered st :: (smMethod calls s).2)
  | .sendResponse => (smSendResponse env s, [.entered st])
  | .discard => (smDiscard s, [.entered st])
  | .identity => (smIdentity calls s, [.entered st])
  | .notification => (smNotification s, [.entered st])
  | .retransmit => (smRetransmit s, [.entered st])
  | .success => (smSuccess s, [.entered st])
  | .failure => (smFailure s, [.entered st])

/-! ### Transitions -/

def eapSuccessWorkaround (env : Env) (reqId : ℕ) (lastId : ℤ) : Bool :=
  env.workaround &&
    (decide ((reqId : ℤ) = (lastId + 1) % 256) || decide ((reqId : ℤ) = (lastId + 2) % 256))

def eapPeerSmStepIdle (s : EapSm) : Option SmState :=
  if s.eapol.eapReq then some .received
  else if (s.eapol.altAccept ∧ s.decision ≠ .fail) ∨
      (s.eapol.idleWhile = 0 ∧ s.decision = .uncondSucc) then some .success
  else if s.eapol.altReject ∨ (s.eapol.idleWhile = 0 ∧ s.decision ≠ .uncondSucc) ∨
      (s.eapol.altAccept ∧ s.methodState ≠ .cont ∧ s.decision = .fail) then some .failure
  else if s.selectedMethod = eapTypeLeap ∧ s.leapDone ∧ s.decision ≠ .fail ∧
      s.methodState = .done then some .success
  else if s.selectedMethod = eapTypePeap ∧ s.peapDone ∧ s.decision ≠ .fail ∧
      s.methodState = .done then some .success
  else none

def eapPeerReqIsDuplicate (env : Env) (s : EapSm) : Bool :=
  decide ((s.reqId : ℤ) = s.lastId) && s.rxReq &&
    !(env.workaround && decide (s.reqSha1 ≠ s.lastSha1))

def eapPeerSmStepReceived (env : Env) (s : EapSm) : SmState :=
  let duplicate := eapPeerReqIsDuplicate env s
  let idOk := decide ((s.reqId : ℤ) = s.lastId) || eapSuccessWorkaround env s.reqId s.lastId
  let canned := eapPeerSmAllowCanned env
  if s.rxSuccess ∧ s.decision ≠ .fail ∧ idOk then .success
  else if env.workaround ∧ s.lastId = -1 ∧ s.rxSuccess ∧ ¬ s.rxFailure ∧ ¬ s.rxReq ∧ canned then
    .success
  else if env.workaround ∧ s.lastId = -1 ∧ s.rxFailure ∧ ¬ s.rxReq ∧ s.methodState ≠ .cont ∧
      canned then .failure
  else if env.workaround ∧ s.rxSuccess ∧ ¬ s.rxFailure ∧ ¬ s.rxReq ∧ s.methodState ≠ .cont ∧
      canned then .success
  else if s.methodState ≠ .cont ∧ ((s.rxFailure ∧ s.decision ≠ .uncondSucc) ∨
      (s.rxSuccess ∧ s.decision = .fail ∧
        (s.selectedMethod ≠ eapTypeLeap ∨ s.methodState ≠ .mayCont))) ∧ idOk then .failure
  else if s.rxReq ∧ duplicate then .retransmit
  else if s.rxReq ∧ ¬ duplicate ∧ s.reqMethod = eapTypeNotification ∧ s.allowNotifications then
    .notification
  else if s.rxReq ∧ ¬ duplicate ∧ s.selectedMethod = eapTypeNone ∧
      s.reqMethod = eapTypeIdentity then .identity
  else if s.rxReq ∧ ¬ duplicate ∧ s.selectedMethod = eapTypeNone ∧
      s.reqMethod ≠ eapTypeIdentity ∧ s.reqMethod ≠ eapTypeNotification then .getMethod
  else if s.rxReq ∧ ¬ duplicate ∧ s.reqMethod = s.selectedMethod ∧ s.methodState ≠ .done then
    .method
  else if s.selectedMethod = eapTypeLeap ∧ (s.rxSuccess ∨ s.rxResp) then .method
  else if s.reauthInit then .sendResponse
  else .discard

def eapPeerSmStepLocal (env : Env) (s : EapSm) : Option SmState :=
  match s.eapState with
  | .initialized => some .idle
  | .disabled =>
    if s.eapol.portEnabled ∧ ¬ env.forceDisabled then some .initialized else none
  | .idle => eapPeerSmStepIdle s
  | .received => some (eapPeerSmStepReceived env s)
  | .getMethod => if s.selectedMethod = s.reqMethod then some .method else some .sendResponse
  | .method =>
    if s.ignore then some .discard
    else if s.methodState = .done ∧ s.decision = .fail ∧ s.eapRespData = none then some .failure
    else some .sendResponse
  | .sendResponse => some .idle
  | .discard => some .idle
  | .identity => some .sendResponse
  | .notification => some .sendResponse
  | .retransmit => some .sendResponse
  | .success => none
  | .failure => none

/-- `SM_STEP`. -/
def smStep (env : Env) (calls : Calls) (s : EapSm) : EapSm × List Output :=
  if s.eapol.eapRestart ∧ s.eapol.portEnabled then enter env calls .initialized s
  else if ¬ s.eapol.portEnabled ∨ env.forceDisabled then enter env calls .disabled s
  else if s.numRounds > eapMaxAuthRounds then
    if s.numRounds = eapMaxAuthRounds + 1 then
      enter env calls .failure { s with numRounds := s.numRounds + 1 }
    else (s, [])
  else if s.numRoundsShort > eapMaxAuthRoundsShort then
    if s.numRoundsShort = eapMaxAuthRoundsShort + 1 then
      enter env calls .failure { s with numRoundsShort := s.numRoundsShort + 1 }
    else (s, [])
  else
    match eapPeerSmStepLocal env s with
    | some st => enter env calls st s
    | none => (s, [])

/-! ### Runs -/

/-- `eap_sm_abort`. -/
def eapSmAbort (s : EapSm) : EapSm :=
  { s with
    lastRespData := none
    eapRespData := none
    eapKeyData := none
    eapSessionId := none
    eapol := { s.eapol with eapSuccess := false } }

/-- What the EAPOL side does to the machine, and one round of the loop in `eap_peer_sm_step`. -/
inductive Input where
  | packet (req : Option Bytes)
  | tick
  | altAccept (value : Bool)
  | altReject (value : Bool)
  | restart
  | portEnabled (value : Bool)
  | abort
  | step (calls : Calls)

def step (env : Env) (s : EapSm) : Input → EapSm × List Output
  | .packet req => ({ s with eapol := { s.eapol with eapReqData := req, eapReq := true } }, [])
  | .tick => ({ s with eapol := { s.eapol with idleWhile := s.eapol.idleWhile - 1 } }, [])
  | .altAccept value => ({ s with eapol := { s.eapol with altAccept := value } }, [])
  | .altReject value => ({ s with eapol := { s.eapol with altReject := value } }, [])
  | .restart => ({ s with eapol := { s.eapol with eapRestart := true } }, [])
  | .portEnabled value => ({ s with eapol := { s.eapol with portEnabled := value } }, [])
  | .abort => (eapSmAbort s, [])
  | .step calls => smStep env calls s

end Wpa.EapPeer
