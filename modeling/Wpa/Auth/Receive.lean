import Wpa.Auth.Machine

/-! `wpa_receive`, `wpa_auth_sm_event` and everything else that drives the state machine of one
station after its association, as the inputs of one machine. -/

namespace Wpa.Auth
open Lib Bytes Prog

/-- `wpa_request_new_ptk`. -/
def Sta.requestNewPtk (conf : Conf) (sm : Sta) : Sta :=
  if ¬sm.useExtKeyId ∧ conf.wpaDenyPtk0Rekey then
    { sm with disconnect := true, disconnectReason := reasonClass3FrameFromNonassocSta }
  else
    { sm with
      keyidxActive := if sm.useExtKeyId then sm.keyidxActive ^^^ 1 else sm.keyidxActive
      ptkRequest := true
      ptkValid := false }

/-- One step of the group and what surrounds it, with the passes of the step that the station takes
when it is told to update its group keys. -/
structure GroupPass where
  around : Around := {}
  station : List Around := []

/-- The loop of `wpa_rekey_gtk` over the group of the station. -/
def rekeyLoop : List GroupPass → StaM Unit
  | [] => pure ()
  | p :: ps => do
    modifyGroup fun g => { g with changed := false }
    wpaGroupSmStep p.around (wpaSmStep p.station)
    let g ← getGroup
    when g.changed (rekeyLoop ps)

def wpaRekeyGtk (passes : List GroupPass) : StaM Unit := do
  modifyGroup fun g => { g with gtkReKey := true }
  rekeyLoop passes

/-- `wpa_auth_gtk_rekey_in_process`, given whether another group is rekeying. -/
def wpaAuthGtkRekeyInProcess (other : Bool) (g : Group) : Bool := other || g.gKeyDoneStations != 0

/-- A KDE with a MAC address asks for a station link, which is not supported. -/
def asksForStakey (sm : Sta) (data : Bytes) : Bool :=
  let n := keyDataLength data sm.micLen
  n != 0 && ((wpaParseKdeIes (data.slice (keyDataOffset sm.micLen) n)).any fun ie =>
    ie.macAddr.isSome)

/-- What goes on elsewhere while a frame is received. -/
structure RxAround where
  rekeyInProcess : Bool := false
  rekey : List GroupPass := []
  step : List Around := []

/-- `wpa_receive_error_report`; `true` stands for a station entry that was removed. -/
def wpaReceiveErrorReport (ans : Answer) (group : Bool) : StaM Bool := do
  let env ← ask
  let sm ← getSta
  let cipher := if group then env.conf.wpaGroup else sm.pairwise
  if cipher = cipherTkip ∧ ans.micFailureReport then do
    modifySta fun sm => { sm with pendingDeinit := true }
    pure true
  else do
    modifySta (·.requestNewPtk env.conf)
    pure false

/-- The handling of a request; `true` stands for a station entry that was removed. -/
def rxRequest (ans : Answer) (a : RxAround) (key : EapolKey) (data : Bytes) : StaM Bool := do
  let env ← ask
  modifySta fun sm =>
    { sm with reqReplayCounterUsed := true, reqReplayCounter := key.replayCounter }
  let sm ← getSta
  if key.has keyInfoError then wpaReceiveErrorReport ans (¬key.has keyInfoKeyType)
  else if key.has keyInfoKeyType then do
    modifySta (·.requestNewPtk env.conf)
    pure false
  else if asksForStakey sm data then pure false
  else do
    let g ← getGroup
    when (¬wpaAuthGtkRekeyInProcess a.rekeyInProcess g) (wpaRekeyGtk a.rekey)
    pure false

/-- The end of `wpa_receive`. The counter is used up even if there is no memory for the frame. -/
def rxDeliver (ans : Answer) (a : RxAround) (msg : Msg) (key : EapolKey) (data : Bytes) :
    StaM Unit := do
  when (msg ≠ .request) (modifySta (·.consumeCounter msg key.replayCounter))
  if ans.alloc .rxCopy then do
    emit (.received msg key.replayCounter)
    modifySta (·.receive key data)
    wpaSmStep a.step
  else modifySta fun sm => { sm with lastRxEapolKey := [] }

/-- From the MIC of a frame on. -/
def rxProcess (ans : Answer) (a : RxAround) (msg : Msg) (key : EapolKey) (data : Bytes) :
    StaM Unit := do
  match ← rxAuthenticate ans msg data with
  | none => pure ()
  | some data => do
    let sm ← getSta
    if msg ≠ .request then rxDeliver ans a msg key data
    else if ¬sm.micVerified then pure ()
    else do
      let removed ← rxRequest ans a key data
      when (¬removed) (rxDeliver ans a msg key data)

/-- The first 4-way handshakes only collect entropy. -/
def rejectForEntropy (ans : Answer) (a : RxAround) : StaM Unit := do
  emit (.disconnect reasonPrevAuthNotValid)
  when ans.deauth (do
    deauthenticated
    wpaSmStep a.step)
  when ans.deinit (modifySta fun sm => { sm with pendingDeinit := true })

def wpaReceive (a : RxAround) (data : Bytes) : StaM Unit := do
  let env ← ask
  let ans ← query
  let l ← get
  let key := EapolKey.read data
  let msg := l.sta.rxMsg data
  if env.conf.wpa = 0 ∨ ¬rxFormOk l.sta data then pure ()
  else
    match rxCounter l.sta msg key with
    | none => pure ()
    | some sm => do
      modifySta fun _ => sm
      if ¬rxEncrOk sm key ∨ ¬rxExpected sm msg then pure ()
      else if msg = .pairwise2 ∧ l.group.reject4wayHsForEntropy then rejectForEntropy ans a
      else if ¬rxFlagsOk sm key then pure ()
      else rxProcess ans a msg key data

/-- The events of `wpa_auth_sm_event` that end neither in another handshake nor in a new
association. -/
inductive WpaEvent where
  | deauth
  | disassoc
  | reauth
  | reauthEapol
  | drvStaRemoved
  deriving DecidableEq

/-- `WPA_REAUTH` and `WPA_REAUTH_EAPOL` of a station whose state machine was started, given the
station before its pending group key update was cancelled. -/
def Sta.reauthenticate (sm : Sta) (conf : Conf) (before : Sta) : Sta :=
  if ¬sm.useExtKeyId ∧ conf.wpaDenyPtk0Rekey then
    { sm with disconnect := true, disconnectReason := reasonClass3FrameFromNonassocSta }
  else
    { sm with
      keyidxActive := if sm.useExtKeyId then sm.keyidxActive ^^^ 1 else sm.keyidxActive
      ptkGroupInit := sm.ptkGroupInit || before.gUpdateStationKeys
      reAuthenticationRequest := true }

/-- The start of a state machine: a step in the initial states, and then AUTHENTICATION. -/
def startMachine (passes : List Around) : StaM Unit := do
  modifySta fun sm => { sm with started := true, init := true }
  wpaSmStep passes
  modifySta fun sm => { sm with init := false, authenticationRequest := true }

/-- `wpa_auth_sm_event`; `first` are the passes of the step that starts the state machine. -/
def wpaAuthSmEvent (e : WpaEvent) (first passes : List Around) : StaM Unit := do
  let env ← ask
  let sm ← getSta
  match e with
  | .drvStaRemoved => modifySta fun sm => { sm with tkAlreadySet := false }
  | .deauth => do
    deauthenticated
    wpaSmStep passes
  | .disassoc => do
    deauthenticated
    wpaSmStep passes
  | _ => do
    if ¬sm.started then startMachine first
    else when (sm.gUpdateStationKeys ∧ (sm.useExtKeyId ∨ ¬env.conf.wpaDenyPtk0Rekey)) dropGroupUpdate
    let now ← getSta
    when (¬now.pendingDeinit) (do
      modifySta fun now =>
        { (if sm.started then now.reauthenticate env.conf sm else now).forgetPtk with
          ftCompleted := false }
      when (e = .reauth) wpaRemovePtk
      wpaSmStep passes)

/-- `wpa_auth_sta_associated`. -/
def wpaAuthStaAssociated (first passes : List Around) : StaM Unit := do
  let env ← ask
  let sm ← getSta
  if env.conf.wpa = 0 then pure ()
  else if sm.ftCompleted ∨ sm.filsCompleted then
    modifySta fun sm => { sm with ptkState := .ptkInitDone, pair := true }
  else if sm.started then do
    modifySta fun sm => { sm with keyReplay := clearedCounters, reAuthenticationRequest := true }
    wpaSmStep passes
  else do
    startMachine first
    let sm ← getSta
    when (¬sm.pendingDeinit) (wpaSmStep passes)

inductive Input where
  | receive (a : RxAround) (data : Bytes)
  /-- `wpa_send_eapol_timeout`. -/
  | timeout (passes : List Around)
  /-- `wpa_rekey_ptk`. -/
  | rekeyPtk (passes : List Around)
  | event (e : WpaEvent) (first passes : List Around)
  /-- `wpa_sm_call_step`, which `wpa_auth_sm_notify` schedules. -/
  | callStep (passes : List Around)
  /-- `wpa_group_update_sta`, on behalf of the group or at the end of WNM-Sleep Mode. -/
  | groupUpdate (passes : List Around)
  /-- `wpa_group_disconnect_cb`. -/
  | groupDisconnect
  /-- Everything else that changes the group. -/
  | group (f : Group → Group)

def Input.prog : Input → StaM Unit
  | .receive a data => wpaReceive a data
  | .timeout passes => do
    modifySta fun sm => { sm with pending1Of4Timeout := false, timeoutEvt := true }
    wpaSmStep passes
  | .rekeyPtk passes => do
    let env ← ask
    modifySta (·.requestNewPtk env.conf)
    wpaSmStep passes
  | .event e first passes => wpaAuthSmEvent e first passes
  | .callStep passes => wpaSmStep passes
  | .groupUpdate passes => wpaGroupUpdateSta (wpaSmStep passes)
  | .groupDisconnect => modifySta fun sm => { sm with disconnect := true }
  | .group f => modifyGroup f

/-- One input of a station; nothing reaches a station entry that was removed. -/
def staStep (env : Env) (c : Cfg Local Act) (i : Input) : Cfg Local Act :=
  if c.st.sta.pendingDeinit then c else (i.prog env c).2

/-- A station from its association on, with all that was observed of it. -/
def associationRun (env : Env) (l : Local) (first passes : List Around) (inputs : List Input) :
    Cfg Local Act :=
  inputs.foldl (staStep env) (wpaAuthStaAssociated first passes env ⟨l, []⟩).2

section Samples

def sampleRsne : Bytes :=
  [0x30, 20, 1, 0, 0, 0x0f, 0xac, 4, 1, 0, 0, 0x0f, 0xac, 4, 1, 0, 0, 0x0f, 0xac, 2, 0, 0]

def sampleEnv : Env where
  cr := default
  wpaIe := sampleRsne
  answer t :=
    { psks := [⟨List.replicate 32 3, 0⟩]
      random := fun _ => some (List.replicate 32 (UInt8.ofNat t)) }

def sampleLocal : Local where
  sta := { wpa := .wpa2, wpaKeyMgmt := keyMgmtPsk, pairwise := cipherCcmp, wpaIe := some sampleRsne }
  group :=
    { gn := 1, gtkLen := 16, gtk := [List.replicate 16 7, []], state := .setKeysDone,
      firstStaSeen := true }

/-- A frame with the MIC that the sample primitives give. -/
def sampleFrame (keyInfo keyLength counter nonce : ℕ) (keyData : Bytes) : Bytes :=
  EapolFrame.write
    { version := 2
      key :=
        { type := eapolKeyTypeRsn
          keyInfo := keyInfo
          keyLength := keyLength
          replayCounter := ofBeNat counter 8
          keyNonce := List.replicate 32 (UInt8.ofNat nonce)
          keyIv := zeros 16
          keyRsc := zeros 8
          keyId := zeros 8 }
      mic := zeros 16
      keyData := keyData }

def sampleSteps : List Around := List.replicate 8 {}

end Samples
end Wpa.Auth
