import Wpa.Common.RsnIe
import Wpa.Auth.GroupKeys
import Wpa.Auth.Rx

/-! The state machines `WPA_PTK` and `WPA_PTK_GROUP` of a station, that of its group, and
`wpa_sm_step`, which runs all three until nothing changes any more. -/

namespace Wpa.Auth
open Lib Bytes Prog

/-- `SM_ENTRY_MA` of `WPA_PTK`. The states are never entered with `SM_ENTER_GLOBAL`. -/
def enter (s : PtkState) : StaM Unit := do
  modifySta fun sm => { sm with ptkState := s, changed := true }
  emit (.enter s)

def enterGroup (s : PtkGroupState) : StaM Unit := do
  modifySta fun sm => { sm with ptkGroupState := s, changed := true }
  emit (.enterGroup s)

def Sta.forgetPtk (sm : Sta) : Sta := { sm with ptkValid := false, ptk := {} }

def wpaRemovePtk : StaM Unit := do
  modifySta Sta.forgetPtk
  let sm ← getSta
  emit (.removeKey 0)
  when sm.useExtKeyId (emit (.removeKey 1))
  modifySta fun sm => { sm with pairwiseSet := false }

/-- The station no longer counts among those that the group waits for. -/
def dropGroupUpdate : StaM Unit := do
  let sm ← getSta
  when sm.gUpdateStationKeys
    (modifyGroup fun g => { g with gKeyDoneStations := g.gKeyDoneStations - 1 })
  modifySta fun sm => { sm with gUpdateStationKeys := false }

/-- `WPA_DEAUTH` and `WPA_DISASSOC` of `wpa_auth_sm_event`, up to the step that follows. -/
def deauthenticated : StaM Unit := do
  modifySta fun sm =>
    { sm.forgetPtk with
      deauthenticationRequest := true
      pmk := []
      xxkey := []
      pmkR1 := []
      ftCompleted := false }
  wpaRemovePtk

/-- `wpa_sta_disconnect` while `wpa_sm_step` runs. -/
def wpaStaDisconnect (ans : Answer) (reason : ℕ) : StaM Unit := do
  emit (.disconnect reason)
  when ans.deauth (do
    deauthenticated
    modifySta fun sm => { sm with changed := true })
  when ans.deinit (modifySta fun sm => { sm with pendingDeinit := true })

/-- The AKMs that open the port without an EAPOL exchange. -/
def Sta.authorizesPort (sm : Sta) : Bool :=
  wpaKeyMgmtWpaPsk sm.wpaKeyMgmt || sm.wpaKeyMgmt == keyMgmtDpp || sm.wpaKeyMgmt == keyMgmtOwe

/-- The Init flag is not cleared in the initial states, so the entry does not count as a
change. -/
def Sta.quietInit (sm : Sta) : Sta := if sm.init then { sm with changed := false } else sm

def ptkInitialize : StaM Unit := do
  enter .init
  modifySta Sta.quietInit
  dropGroupUpdate
  modifySta fun sm => { sm with pInitAKeys := sm.pInitAKeys && sm.wpa != .wpa, pair := true }
  emit (.setEapol .portEnabled false)
  wpaRemovePtk
  emit (.setEapol .portValid false)
  modifySta fun sm => { sm with timeoutCtr := 0 }
  let sm ← getSta
  when sm.authorizesPort (emit (.setEapol .authorized false))

def ptkDisconnect (ans : Answer) : StaM Unit := do
  let sm ← getSta
  enter .disconnect
  modifySta fun sm => { sm with disconnect := false, disconnectReason := 0 }
  wpaStaDisconnect ans
    (if sm.disconnectReason = 0 then reasonPrevAuthNotValid else sm.disconnectReason)

def ptkDisconnected : StaM Unit := do
  enter .disconnected
  modifySta fun sm => { sm with deauthenticationRequest := false }

def ptkAuthentication : StaM Unit := do
  enter .authentication
  modifySta Sta.forgetPtk
  emit (.setEapol .portControlAuto true)
  emit (.setEapol .portEnabled true)
  modifySta fun sm => { sm with authenticationRequest := false }

/-- A new ANonce; without random data the station is to be disconnected. -/
def drawAnonce (ans : Answer) : StaM Bool :=
  match ans.random .anonce with
  | none => do
    modifySta fun sm => { sm with disconnect := true }
    pure false
  | some a => do
    emit (.anonce a)
    modifySta fun sm => { sm with anonce := a, timeoutCtr := 0 }
    pure true

def ptkAuthentication2 (ans : Answer) : StaM Unit := do
  enter .authentication2
  let env ← ask
  let g ← getGroup
  modifyGroup fun _ => (ensureInit env ans g).1
  emitAll (ensureInit env ans g).2
  modifySta fun sm => { sm with reAuthenticationRequest := false }
  let _ ← drawAnonce ans
  pure ()

/-- The PMK from the PMKSA cache or the EAP exchange. -/
def Sta.takePmk (ans : Answer) (sm : Sta) : Option Sta :=
  match sm.pmksa with
  | some sa => some { sm with pmk := sa.pmk }
  | none =>
    let sha384 := wpaKeyMgmtSha384 sm.wpaKeyMgmt
    let len := if sha384 then pmkLenSuiteB192 else pmkLen
    if sm.wpaKeyMgmt = keyMgmtDpp then none
    else
      match ans.msk with
      | none => none
      | some msk =>
        if msk.length < len then none
        else some { sm with
          pmk := msk.take len
          xxkey := if msk.length < 2 * pmkLen then sm.xxkey
            else if sha384 then msk.take 48 else msk.slice pmkLen pmkLen }

def ptkInitPmk (ans : Answer) : StaM Unit := do
  enter .initPmk
  modifySta fun sm => { sm with xxkey := [] }
  let sm ← getSta
  match sm.takePmk ans with
  | none => modifySta fun sm =>
    { sm with
      disconnect := true
      disconnectReason := if sm.pmksa = none ∧ sm.wpaKeyMgmt = keyMgmtDpp then reasonInvalidPmkid
        else sm.disconnectReason }
  | some sm => do
    modifySta fun _ => { sm with reqReplayCounterUsed := false }
    emit (.setEapol .keyRun false)

/-- The PMK of INITPSK: the first PSK, and then that of the PMKSA for SAE. -/
def Sta.takePsk (ans : Answer) (sm : Sta) : Sta :=
  let sm := match ans.psks.head? with
    | some p => { sm with pmk := p.pmk, xxkey := p.pmk.take pmkLen }
    | none => sm
  match sm.pmksa with
  | some sa => if wpaKeyMgmtSae sm.wpaKeyMgmt then { sm with pmk := sa.pmk, xxkey := sa.pmk } else sm
  | none => sm

def ptkInitPsk (ans : Answer) : StaM Unit := do
  enter .initPsk
  modifySta fun sm => { sm.takePsk ans with reqReplayCounterUsed := false }

def ptkStart (ans : Answer) : StaM Unit := do
  enter .ptkStart
  let env ← ask
  modifySta fun sm =>
    { sm with
      ptkRequest := false
      timeoutEvt := false
      altSnonceValid := false
      timeoutCtr := sm.timeoutCtr + 1 }
  let sm ← getSta
  when (sm.timeoutCtr ≤ env.conf.wpaPairwiseUpdateCount) (wpaSendEapol ans (msg1Of4Args env sm))

inductive Verdict where
  | ignored
  | disconnect
  | accepted
  deriving DecidableEq

/-- The element of the association that a station repeats in message 2/4. -/
def msg2Of4Ie (keyData : Bytes) (ie : EapolIeParse) : Option Bytes :=
  kde keyData ((ie.rsnIe <|> ie.osen) <|> ie.wpaIe)

/-- The operating channel check of message 2/4; `none` is the early return. -/
def msg2Of4Oci (ans : Answer) (sm : Sta) (oci : Option Bytes) : Option Sta :=
  if sm.ocvEnabled = 0 then some sm
  else if ¬ans.channelInfo ∨ ¬ans.getStaTxParameters then none
  else
    match ans.ocvVerifyTxParams oci with
    | .success => some sm
    | .notFound => if sm.ocvEnabled = 2 then some { sm with ocvEnabled := 0 } else none
    | .failed => none

/-- `ft_check_msg_2_of_4`; the PMKR1Name of the station is stored in any case. -/
def ftCheckMsg2Of4 (conf : Conf) (sm : Sta) (keyData : Bytes) (ie : EapolIeParse) : Sta × Bool :=
  let rsnIe := (kde keyData ie.rsnIe).getD []
  match wpaParseWpaIeRsn rsnIe with
  | .error _ => (sm, false)
  | .ok d =>
    match d.pmkid with
    | none => (sm, false)
    | some off =>
      if d.numPmkid ≠ 1 then (sm, false)
      else
        let sm := { sm with supPmkR1Name := rsnIe.slice off pmkidLen }
        match kde keyData ie.mdie, kde keyData ie.ftie with
        | some mdie, some ftie =>
          (sm, decide (3 ≤ mdie.byteAt 1) && conf.mobilityDomain == mdie.slice 2 2 &&
            sm.assocRespFtie.all fun own =>
              ftie.byteAt 1 == own.byteAt 1 && ftie.take (2 + own.byteAt 1) ==
                own.take (2 + own.byteAt 1))
        | _, _ => (sm, false)

/-- An address from the pool, if the station asked for one and has none. -/
def assignIpAddr (conf : Conf) (ans : Answer) (sm : Sta) (keyData : Bytes) (ie : EapolIeParse) :
    Sta :=
  match ie.ipAddrReq, ans.ipPool with
  | some off, some idx =>
    if keyData.byteAt off ≠ 0 ∧ beNat sm.ipAddr = 0 then
      { sm with ipAddr := ofBeNat (conf.ipAddrStart + idx) 4 }
    else sm
  | _, _ => sm

/-- The peer could have used PFS with DPP, and the configuration wants that. -/
def dppPfsMissed (conf : Conf) (sm : Sta) (keyData : Bytes) (ie : EapolIeParse) : Bool :=
  (kde keyData ie.dppKde).any fun b =>
    sm.wpaKeyMgmt == keyMgmtDpp && conf.dppPfs != 2 && hasBits (b.byteAt 1) 1 && sm.dppZ.isNone

/-- The elements of message 2/4 are those of the association. -/
def sameElements (ft : Bool) (sm : Sta) (keyData : Bytes) (ie : EapolIeParse) : Bool :=
  (match sm.wpaIe, msg2Of4Ie keyData ie with
    | some own, some sent => wpaCompareRsnIe ft own sent
    | _, _ => false) && sm.rsnxe == kde keyData ie.rsnxe

/-- The checks of message 2/4 that follow those of FT, whose result is `r`. -/
def checkMsg2Of4End (env : Env) (ans : Answer) (ft : Bool) (r : Sta × Bool) (vlanId : ℤ)
    (keyData : Bytes) (ie : EapolIeParse) : Sta × Verdict :=
  let sm := assignIpAddr env.conf ans r.1 keyData ie
  if ¬r.2 then (r.1, .disconnect)
  else if dppPfsMissed env.conf sm keyData ie then (sm, .disconnect)
  else if ft ∧ sm.supPmkR1Name ≠ sm.pmkR1Name then (sm, .ignored)
  else if vlanId ≠ 0 ∧ wpaKeyMgmtWpaPsk sm.wpaKeyMgmt ∧ ¬ans.updateVlan then (sm, .disconnect)
  else (sm, .accepted)

/-- What PTKCALCNEGOTIATING checks once it has found the key of message 2/4, with the fields that
it stores on the way. -/
def checkMsg2Of4 (env : Env) (ans : Answer) (sm : Sta) (m : Match) : Sta × Verdict :=
  let n := keyDataLength m.data sm.micLen
  let keyData := m.data.slice (keyDataOffset sm.micLen) n
  let ft := sm.wpa == .wpa2 && wpaKeyMgmtFt sm.wpaKeyMgmt
  if n > m.data.length - keyDataOffset sm.micLen then (sm, .ignored)
  else
    match wpaParseKdeIes keyData with
    | none => (sm, .ignored)
    | some ie =>
      if ¬sameElements ft sm keyData ie then (sm, .disconnect)
      else
        match msg2Of4Oci ans sm (kde keyData ie.oci) with
        | none => (sm, .ignored)
        | some sm =>
          checkMsg2Of4End env ans ft
            (if ft then ftCheckMsg2Of4 env.conf sm keyData ie else (sm, true)) m.candidate.vlanId
            keyData ie

/-- The PTK of message 2/4 comes into use. -/
def Sta.acceptPtk (sm : Sta) (m : Match) : Sta :=
  { sm with
    pending1Of4Timeout := false
    pmk := if wpaKeyMgmtWpaPsk sm.wpaKeyMgmt ∧ ¬m.candidate.own then m.candidate.pmk.take pmkLen
      else sm.pmk
    micVerified := true
    ptk := m.ptk
    ptkValid := true }

/-- The frame as it was verified, and the PMK that the MIC was verified with. -/
def Sta.matched (sm : Sta) (m : Match) : Sta :=
  { sm with
    lastRxEapolKey := m.data
    pmk := if sm.micLen = 0 ∨ m.candidate.own then sm.pmk else m.candidate.pmk }

def ptkCalcNegotiating (ans : Answer) : StaM Unit := do
  let env ← ask
  enter .ptkCalcNegotiating
  modifySta fun sm => { sm with eapolKeyReceived := false, updateSnonce := false }
  let sm ← getSta
  let r := search env ans sm.snonce sm.lastRxEapolKey sm {} (candidates env ans sm)
  emitAll r.acts
  modifySta fun _ => r.sta
  match r.result with
  | none => pure ()
  | some m => do
    let v := checkMsg2Of4 env ans (r.sta.matched m) m
    modifySta fun _ => v.1
    match v.2 with
    | .ignored => pure ()
    | .disconnect => wpaStaDisconnect ans reasonPrevAuthNotValid
    | .accepted => modifySta fun sm => sm.acceptPtk m

def ptkCalcNegotiating2 : StaM Unit := do
  enter .ptkCalcNegotiating2
  modifySta fun sm => { sm with timeoutCtr := 0 }

def retryLimitReached (conf : Conf) (ctr limit : ℕ) : Bool :=
  decide (ctr > limit) || (conf.wpaDisableEapolKeyRetries && decide (ctr > 1))

/-- Message 3/4 is not sent again where retries are disabled, nor after the last retry. -/
def ptkInitNegotiating (ans : Answer) : StaM Unit := do
  enter .ptkInitNegotiating
  let env ← ask
  modifySta fun sm => { sm with timeoutEvt := false, timeoutCtr := sm.timeoutCtr + 1 }
  let l ← get
  let sm := l.sta
  let rx := sm.wpa == .wpa2 && sm.useExtKeyId && sm.timeoutCtr == 1
  if retryLimitReached env.conf sm.timeoutCtr env.conf.wpaPairwiseUpdateCount then pure ()
  else do
    when rx (emit (.setPairwise .ptkRx sm.keyidxActive sm.ptk.tk))
    if rx ∧ ¬ans.setKey .ptkRx then wpaStaDisconnect ans reasonPrevAuthNotValid
    else
      match msg3Of4Kde env ans l with
      | none => pure ()
      | some kde => wpaSendEapol ans (msg3Of4Args ans l kde)

/-- The end of PTKINITDONE, with the pairwise key in the driver. -/
def handshakeCompleted : StaM Unit := do
  emit (.setEapol .portValid true)
  emit (.setEapol .keyAvailable false)
  emit (.setEapol .keyDone true)
  modifySta fun sm =>
    { sm with pInitAKeys := sm.pInitAKeys || sm.wpa == .wpa, hasGtk := sm.hasGtk || sm.wpa != .wpa }

def ptkInitDone (ans : Answer) : StaM Unit := do
  enter .ptkInitDone
  modifySta fun sm => { sm with eapolKeyReceived := false }
  let sm ← getSta
  if ¬sm.pair then handshakeCompleted
  else do
    emit (if sm.useExtKeyId then .setPairwise .ptkActivate sm.keyidxActive []
      else .installPtk (wpaCipherToAlg sm.pairwise) sm.ptk.tk)
    if ¬ans.setKey (if sm.useExtKeyId then .ptkActivate else .ptk) then
      wpaStaDisconnect ans reasonPrevAuthNotValid
    else do
      modifySta fun sm => { sm with pairwiseSet := true }
      when sm.authorizesPort (emit (.setEapol .authorized true))
      handshakeCompleted

/-- The handshake ran out of retries. -/
def giveUp (ans : Answer) : StaM Unit := do
  modifySta fun sm => { sm with disconnectReason := reason4wayHandshakeTimeout }
  ptkDisconnect ans

/-- The transitions of `WPA_PTK` that depend on the state it is in. -/
def ptkStateStep (ans : Answer) (conf : Conf) (sm : Sta) : StaM Unit :=
  match sm.ptkState with
  | .init => pure ()
  | .disconnect => ptkDisconnected
  | .disconnected => ptkInitialize
  | .authentication => ptkAuthentication2 ans
  | .authentication2 =>
    if wpaKeyMgmtWpaIeee8021x sm.wpaKeyMgmt ∧ ans.keyRun then ptkInitPmk ans
    else if wpaKeyMgmtWpaPsk sm.wpaKeyMgmt ∨ sm.wpaKeyMgmt = keyMgmtOwe then ptkInitPsk ans
    else when (sm.wpaKeyMgmt = keyMgmtDpp) (ptkInitPmk ans)
  | .initPmk =>
    if ans.keyAvailable ∨ (sm.wpaKeyMgmt = keyMgmtDpp ∧ sm.pmksa.isSome) then ptkStart ans
    else ptkDisconnect ans
  | .initPsk =>
    if ans.psks ≠ [] ∨ (wpaKeyMgmtSae sm.wpaKeyMgmt ∧ sm.pmksa.isSome) then ptkStart ans
    else ptkDisconnect ans
  | .ptkStart =>
    if sm.pairwiseReceived then ptkCalcNegotiating ans
    else if sm.timeoutCtr > conf.wpaPairwiseUpdateCount then giveUp ans
    else when sm.timeoutEvt (ptkStart ans)
  | .ptkCalcNegotiating =>
    if sm.micVerified then ptkCalcNegotiating2
    else if sm.pairwiseReceived then ptkCalcNegotiating ans
    else when sm.timeoutEvt (ptkStart ans)
  | .ptkCalcNegotiating2 => ptkInitNegotiating ans
  | .ptkInitNegotiating =>
    if sm.updateSnonce then ptkCalcNegotiating ans
    else if sm.pairwiseReceived ∧ sm.micVerified then ptkInitDone ans
    else if retryLimitReached conf sm.timeoutCtr conf.wpaPairwiseUpdateCount then giveUp ans
    else when sm.timeoutEvt (ptkInitNegotiating ans)
  | .ptkInitDone => pure ()

/-- `wpa_auth_sm_ptk_update` and the state that follows it. -/
def ptkUpdate (ans : Answer) : StaM Unit := do
  let ok ← drawAnonce ans
  if ok then ptkStart ans else ptkDisconnected

/-- `SM_STEP(WPA_PTK)`. -/
def ptkStep : StaM Unit := do
  let env ← ask
  let ans ← query
  let sm ← getSta
  if sm.init then ptkInitialize
  else if sm.disconnect then ptkDisconnect ans
  else if sm.deauthenticationRequest then ptkDisconnected
  else if sm.authenticationRequest then ptkAuthentication
  else if sm.reAuthenticationRequest then ptkAuthentication2 ans
  else if sm.ptkRequest then ptkUpdate ans
  else ptkStateStep ans env.conf sm

def groupIdle : StaM Unit := do
  enterGroup .idle
  modifySta Sta.quietInit
  modifySta fun sm => { sm with gTimeoutCtr := 0 }

def groupRekeyNegotiating (ans : Answer) : StaM Unit := do
  enterGroup .rekeyNegotiating
  let env ← ask
  modifySta fun sm => { sm with gTimeoutCtr := sm.gTimeoutCtr + 1 }
  let sm ← getSta
  if retryLimitReached env.conf sm.gTimeoutCtr env.conf.wpaGroupUpdateCount then pure ()
  else do
    modifySta fun sm => { sm with pInitAKeys := sm.pInitAKeys && sm.wpa != .wpa, timeoutEvt := false }
    let l ← get
    match msg1Of2Kde env ans l with
    | none => pure ()
    | some kde => wpaSendEapol ans (msg1Of2Args ans l kde)

/-- What REKEYESTABLISHED checks in message 2/2. -/
def checkMsg2Of2 (ans : Answer) (sm : Sta) : Bool :=
  let data := sm.lastRxEapolKey
  let n := keyDataLength data sm.micLen
  let keyData := data.slice (keyDataOffset sm.micLen) n
  decide (n ≤ data.length - keyDataOffset sm.micLen) &&
    match wpaParseKdeIes keyData with
    | none => false
    | some ie =>
      sm.ocvEnabled == 0 || (ans.channelInfo && ans.getStaTxParameters &&
        ans.ocvVerifyTxParams (kde keyData ie.oci) == .success)

def groupRekeyEstablished (ans : Answer) : StaM Unit := do
  enterGroup .rekeyEstablished
  modifySta fun sm => { sm with eapolKeyReceived := false }
  let sm ← getSta
  when (checkMsg2Of2 ans sm) (do
    dropGroupUpdate
    modifySta fun sm => { sm with gTimeoutCtr := 0, hasGtk := true })

def groupKeyError : StaM Unit := do
  enterGroup .keyError
  dropGroupUpdate
  modifySta fun sm =>
    { sm with disconnect := true, disconnectReason := reasonGroupKeyUpdateTimeout }

/-- `SM_STEP(WPA_PTK_GROUP)`. -/
def ptkGroupStep : StaM Unit := do
  let env ← ask
  let ans ← query
  let sm ← getSta
  if sm.init ∨ sm.ptkGroupInit then do
    groupIdle
    modifySta fun sm => { sm with ptkGroupInit := false }
  else
    match sm.ptkGroupState with
    | .idle =>
      when (sm.gUpdateStationKeys ∨ (sm.wpa = .wpa ∧ sm.pInitAKeys)) (groupRekeyNegotiating ans)
    | .rekeyNegotiating =>
      if sm.groupReceived ∧ sm.micVerified then groupRekeyEstablished ans
      else if retryLimitReached env.conf sm.gTimeoutCtr env.conf.wpaGroupUpdateCount then groupKeyError
      else when sm.timeoutEvt (groupRekeyNegotiating ans)
    | .keyError => groupIdle
    | .rekeyEstablished => groupIdle

/-- What happens to the group and to other groups around one step of the group: the other stations
are told before and after this one, and each may change the group. -/
structure Around where
  before : Group → Group := id
  after : Group → Group := id
  /-- Another group waits for stations to acknowledge their group keys. -/
  rekeyInProcess : Bool := false

/-- `wpa_group_update_sta`; `step` is the call of `wpa_sm_step` at its end. -/
def wpaGroupUpdateSta (step : StaM Unit) : StaM Unit := do
  let sm ← getSta
  if sm.ptkState ≠ .ptkInitDone then modifySta fun sm => { sm with gUpdateStationKeys := false }
  else
    when (¬sm.isWnmsleep) (do
      modifyGroup fun g => { g with gKeyDoneStations := g.gKeyDoneStations + 1 }
      modifySta fun sm => { sm with gUpdateStationKeys := true }
      step)

def wpaGroupSetkeys (ans : Answer) (a : Around) (step : StaM Unit) : StaM Unit := do
  let env ← ask
  modifyGroup (setKeysGroup env ans)
  modifyGroup a.before
  wpaGroupUpdateSta step
  modifyGroup a.after

def wpaGroupFatalFailure : StaM Unit := do
  modifyGroup fun g => { g with changed := true, state := .fatalFailure }
  modifySta fun sm => { sm with disconnect := true }

def wpaGroupSetkeysdone (ans : Answer) : StaM Unit := do
  let env ← ask
  modifyGroup fun g => { g with changed := true, state := .setKeysDone }
  let g ← getGroup
  emitAll (wpaGroupConfigGroupKeys env ans g).1
  when (¬(wpaGroupConfigGroupKeys env ans g).2) wpaGroupFatalFailure

/-- `wpa_group_sm_step`. -/
def wpaGroupSmStep (a : Around) (step : StaM Unit) : StaM Unit := do
  let env ← ask
  let ans ← query
  let g ← getGroup
  if g.gInit then modifyGroup (gtkInit env ans)
  else
    match g.state with
    | .fatalFailure => pure ()
    | .gtkInit => when g.gtkAuthenticator (wpaGroupSetkeysdone ans)
    | .setKeysDone => when g.gtkReKey (wpaGroupSetkeys ans a step)
    | .setKeys =>
      if g.gKeyDoneStations = 0 then wpaGroupSetkeysdone ans
      else when g.gtkReKey (wpaGroupSetkeys ans a step)

/-- The group whose `changed` flag the loop looks at is the first one of the authenticator. -/
def clearChanged (l : Local) : Local :=
  { l with
    sta := { l.sta with changed := false }
    group := { l.group with changed := l.group.changed && l.sta.group != 0 } }

/-- The body of the loop of `wpa_sm_step`; a call of `wpa_sm_step` from within it does nothing. -/
def smPass (a : Around) : StaM Unit := do
  update clearChanged
  ptkStep
  let sm ← getSta
  when (¬sm.pendingDeinit) (do
    ptkGroupStep
    let sm ← getSta
    when (¬sm.pendingDeinit) (wpaGroupSmStep a (pure ())))

/-- The loop of `wpa_sm_step`, with what happens around each pass; it also ends with the list. -/
def smLoop : List Around → StaM Unit
  | [] => pure ()
  | a :: as => do
    let sm ← getSta
    when (¬sm.pendingDeinit) (do
      smPass a
      let l ← get
      when (l.sta.changed ∨ (l.sta.group = 0 ∧ l.group.changed)) (smLoop as))

/-- `wpa_sm_step`. A station that is to be removed is freed at the end. -/
def wpaSmStep (passes : List Around) : StaM Unit := do
  smLoop passes
  let sm ← getSta
  when sm.pendingDeinit dropGroupUpdate

end Wpa.Auth
