import Wpa.Sae.Keys
import Wpa.Lib.Runs

/-! The SAE state machine of an AP or mesh STA for one station: `handle_auth_sae`, `sae_sm_step`
and `auth_sae_retransmit_timer` of `ap/ieee802_11.c`, with the functions between them and
`common/sae.c`. -/

namespace Wpa.Sae
open Lib Bytes

/-- The status codes of Authentication frames that are told apart. -/
inductive AuthStatus where
  | success
  | saeHashToElement
  | saePk
  | antiCloggingTokenReq
  | finiteCyclicGroupNotSupported
  | other
  deriving DecidableEq

/-- `struct sae_password_entry`; `pt` tells that a PT was derived for the password, and `peerAddr`
is empty for the broadcast address. -/
structure PasswordEntry where
  password : Bytes
  identifier : Option Bytes := none
  peerAddr : Option Bytes := none
  vlanId : ℕ := 0
  pt : Bool := true

structure Conf where
  mesh : Bool := false
  saePwe : ℕ := 2
  saePasswords : List PasswordEntry := []
  wpaPassphrase : Option Bytes := none
  ssidPt : Bool := true
  saeGroups : Option (List ℕ) := none
  saeConfirmImmediate : Bool := false
  saeSync : ℕ := 5

def Conf.groups (conf : Conf) : List ℕ := conf.saeGroups.getD [19]

structure Env (E : Type) where
  conf : Conf
  ownAddr : Bytes
  addr : Bytes
  /-- The passphrase of the first `sta->psk` entry that has one. -/
  psk : Option Bytes := none
  lib : ℕ → Option (Group E)
  ops : Ops E
  cr : Crypto

/-- The own commit values that a failed preparation leaves behind. -/
structure OwnCommit (E : Type) where
  pwe : Option (Pwe E) := none
  saeRand : Option ℕ := none
  ownCommitScalar : Option ℕ := none
  ownCommitElement : Option E := none
  ownRejectedGroups : Option Bytes := none
  ownAddrHigher : Bool := false
  h2e : Bool := false
  pk : Bool := false

/-- What the allocator, the random pool, the driver and the checks for tokens and VLANs answer
during one call. -/
structure Answer (E : Type) where
  saeAlloc : Bool := true
  scalarAlloc : Bool := true
  pwIdAlloc : Bool := true
  rejectedAlloc : Bool := true
  tokenAlloc : Bool := true
  pwe : PweOrigin → Option E
  draws : List (Option ℕ × Option ℕ) := []
  failed : OwnCommit E := {}
  commitAlloc : Bool := true
  confirmAlloc : Bool := true
  sendCommit : Bool := true
  sendConfirm : Bool := true
  /-- `check_comeback_token`. -/
  comebackToken : Bytes → Bool := fun _ => true
  useAntiClogging : Bool := false
  /-- The VLAN of the password entry is valid and can be assigned. -/
  vlan : Bool := true

/-- What a call does that matters to others. -/
inductive Act (E : Type) where
  /-- `sae_process_commit` derived keys. -/
  | process (pre post : Data E)
  /-- `sae_check_confirm` returned 0. -/
  | checkConfirm (sae : Data E) (msg : Bytes)
  /-- `sae_accept_sta` was called. -/
  | accept (sae : Data E)

structure Step (E : Type) where
  sae : Data E
  acts : List (Act E) := []
  resp : Status := .success
  staRemoved : Bool := false

section Commit
variable {E : Type} [DecidableEq E] (env : Env E) (ans : Answer E)

def entryMatches (addr : Bytes) (rxId : Option Bytes) (pw : PasswordEntry) : Bool :=
  (pw.peerAddr.all fun a => a == addr) && rxId.map cString == pw.identifier

/-- The password, whether there is a PT for it, and the VLAN of the entry. -/
def saeGetPassword (rxId : Option Bytes) : Option (Bytes × Bool × ℕ) :=
  match env.conf.saePasswords.find? (entryMatches env.addr rxId) with
  | some pw => some (pw.password, pw.pt, pw.vlanId)
  | none =>
    match env.conf.wpaPassphrase with
    | some password => some (password, env.conf.ssidPt, 0)
    | none => env.psk.map fun password => (password, false, 0)

/-- `hostapd_sae_pw_id_in_use`. -/
def saePwIdInUse (conf : Conf) : ℕ :=
  let withId := conf.saePasswords.any fun pw => pw.identifier.isSome
  let withoutId := conf.wpaPassphrase.isSome || conf.saePasswords.any fun pw => pw.identifier.isNone
  if withId && !withoutId then 2 else if withId then 1 else 0

def saeStatusSuccess (conf : Conf) (status : AuthStatus) : Bool :=
  let idInUse := saePwIdInUse conf
  let saePwe :=
    if idInUse = 2 ∧ conf.saePwe ≠ 3 then 1
    else if idInUse = 1 ∧ conf.saePwe = 0 then 2
    else conf.saePwe
  ((saePwe == 0 || saePwe == 3) && status == .success) ||
    (saePwe == 1 && status == .saeHashToElement) ||
    (saePwe == 2 && (status == .success || status == .saeHashToElement))

def isH2e (status : AuthStatus) : Bool := status == .saeHashToElement || status == .saePk

/-- `use_pt`; the retransmissions come without a status code. -/
def saeUsePt (conf : Conf) (sae : Data E) (status : Option AuthStatus) : Bool :=
  if sae.pwId.isSome ∧ conf.saePwe ≠ 3 then true
  else if status = some .success then false
  else if status.any isH2e then true
  else sae.tmp.isSome && sae.h2e

/-- `sae_prepare_commit_pt` or `sae_prepare_commit`, also where they fail. -/
def prepareCommit (usePt : Bool) (password : Bytes) (sae : Data E) : Data E × Bool :=
  let origin : PweOrigin := { group := sae.group, h2e := usePt, password }
  let pwe := (ans.pwe origin).map fun element => ({ element, origin } : Pwe E)
  let prepared :=
    if usePt then saePrepareCommitPt env.ops ans.draws pwe env.ownAddr env.addr none sae
    else saePrepareCommit env.ops ans.draws pwe sae
  match prepared with
  | some sae' => (sae', true)
  | none =>
    let f := ans.failed
    ({ sae with
        h2e := f.h2e
        pk := f.pk
        tmp := sae.tmp.map fun tmp => { tmp with
          pwe := f.pwe
          saeRand := f.saeRand
          ownCommitScalar := f.ownCommitScalar
          ownCommitElement := f.ownCommitElement
          ownRejectedGroups := f.ownRejectedGroups
          ownAddrHigher := f.ownAddrHigher } }, false)

/-- The end of `auth_build_sae_commit`: the VLAN of the password and the frame. -/
def writeSaeCommit (identifier : Option Bytes) (vlanId : ℕ) (sae : Data E) : Data E × Bool :=
  if vlanId ≠ 0 ∧ sae.tmp = none then (sae, false)
  else
    let sae := if vlanId ≠ 0 then sae.modifyTmp fun tmp => { tmp with vlanId } else sae
    if !ans.commitAlloc then (sae, false)
    else
      match saeWriteCommit (sae.tmp.bind Tmp.antiCloggingToken) identifier sae with
      | some (_, sae') => (sae', true)
      | none => (sae, false)

/-- The instance and whether there is a frame to send. -/
def authBuildSaeCommit (update : Bool) (status : Option AuthStatus) (sae : Data E) :
    Data E × Bool :=
  let rxId := sae.pwId
  let usePt := saeUsePt env.conf sae status
  match saeGetPassword env rxId with
  | none => (sae, false)
  | some (password, pt, vlanId) =>
    if usePt && !pt then (sae, false)
    else
      let r := if update then prepareCommit env ans usePt password sae else (sae, true)
      if !r.2 then r else writeSaeCommit ans (rxId.map cString) vlanId r.1

def authSaeSendCommit (update : Bool) (status : Option AuthStatus) (sae : Data E) :
    Data E × Status :=
  let r := authBuildSaeCommit env ans update status sae
  if !r.2 then
    (r.1, if r.1.pwId.isSome then .unknownPasswordIdentifier else .unspecifiedFailure)
  else (r.1, if ans.sendCommit then .success else .unspecifiedFailure)

def authSaeSendConfirm (sae : Data E) : Data E × Status :=
  if !ans.confirmAlloc then (sae, .unspecifiedFailure)
  else
    let r := saeWriteConfirm env.cr sae
    (r.1, if r.2.isSome && ans.sendConfirm then .success else .unspecifiedFailure)

end Commit

section StateMachine
variable {E : Type} [DecidableEq E] (env : Env E) (ans : Answer E)

/-- `sae_check_big_sync`; the instance goes back to the start. -/
def saeCheckBigSync (conf : Conf) (sae : Data E) : Option (Data E) :=
  if sae.sync > conf.saeSync then some { sae with state := .nothing, sync := 0 } else none

/-- The VLAN is checked before anything is stored. -/
def saeAcceptSta (sae : Data E) : Data E :=
  if (sae.tmp.any fun tmp => decide (tmp.vlanId > 0)) && !ans.vlan then sae
  else
    { sae with
      state := .accepted
      peerCommitScalarAccepted := sae.peerCommitScalar
      peerCommitScalar := none }

/-- SAE_NOTHING with a commit. -/
def smNothing (status : AuthStatus) (allowReuse : Bool) (sae : Data E) : Step E :=
  let sae :=
    if sae.tmp.isSome then { sae with h2e := isH2e status, pk := status == .saePk } else sae
  let r := authSaeSendCommit env ans (!allowReuse) (some status) sae
  if r.2 ≠ .success then { sae := r.1, resp := r.2 }
  else
    let sae := { r.1 with state := .committed }
    match saeProcessCommit env.cr env.ops sae with
    | none => { sae := sae, resp := .unspecifiedFailure }
    | some sae' =>
      let acts := [.process sae sae']
      if env.conf.mesh || env.conf.saeConfirmImmediate then
        let r := authSaeSendConfirm env ans sae'
        if r.2 ≠ .success then { sae := r.1, acts := acts, resp := r.2 }
        else { sae := { r.1 with state := .confirmed, sync := 0 }, acts := acts }
      else { sae := { sae' with sync := 0 }, acts := acts }

/-- SAE_CONFIRMED. -/
def smConfirmedCommit (status : AuthStatus) (sae : Data E) : Step E :=
  match saeCheckBigSync env.conf sae with
  | some sae => { sae := sae }
  | none =>
    let r := authSaeSendCommit env ans true (some status) { sae with sync := sae.sync + 1 }
    if r.2 ≠ .success then { sae := r.1, resp := r.2 }
    else
      match saeProcessCommit env.cr env.ops r.1 with
      | none => { sae := r.1, resp := .unspecifiedFailure }
      | some sae' =>
        let c := authSaeSendConfirm env ans sae'
        { sae := c.1, acts := [.process r.1 sae'], resp := c.2 }

def smConfirmedConfirm (sae : Data E) : Step E :=
  let sae := { sae with sendConfirm := 0xffff }
  { sae := saeAcceptSta ans sae, acts := [.accept sae] }

/-- SAE_COMMITTED. -/
def smCommittedCommit (sae : Data E) : Step E :=
  match saeProcessCommit env.cr env.ops sae with
  | none => { sae := sae, resp := .unspecifiedFailure }
  | some sae' =>
    let r := authSaeSendConfirm env ans sae'
    if r.2 ≠ .success then { sae := r.1, acts := [.process sae sae'], resp := r.2 }
    else { sae := { r.1 with state := .confirmed, sync := 0 }, acts := [.process sae sae'] }

/-- A confirm of an infrastructure BSS takes two steps at once. -/
def smCommittedConfirm (status : AuthStatus) (sae : Data E) : Step E :=
  if env.conf.mesh then
    match saeCheckBigSync env.conf sae with
    | some sae => { sae := sae }
    | none =>
      let r := authSaeSendCommit env ans false (some status) { sae with sync := sae.sync + 1 }
      { sae := r.1, resp := r.2 }
  else
    let r := authSaeSendConfirm env ans sae
    if r.2 ≠ .success then { sae := r.1, resp := r.2 }
    else smConfirmedConfirm ans { r.1 with state := .confirmed }

/-- SAE_ACCEPTED. -/
def smAcceptedCommit (status : AuthStatus) (sae : Data E) : Step E :=
  if env.conf.mesh then { sae := sae, staRemoved := true }
  else
    let r := authSaeSendCommit env ans true (some status) sae
    if r.2 ≠ .success then { sae := r.1, resp := r.2 }
    else
      let sae := { r.1 with state := .committed }
      match saeProcessCommit env.cr env.ops sae with
      | none => { sae := sae, resp := .unspecifiedFailure }
      | some sae' => { sae := { sae' with sync := 0 }, acts := [.process sae sae'] }

def smAcceptedConfirm (sae : Data E) : Step E :=
  match saeCheckBigSync env.conf sae with
  | some sae => { sae := sae }
  | none =>
    let r := authSaeSendConfirm env ans { sae with sync := sae.sync + 1 }
    { sae := saeClearTempData r.1, resp := r.2 }

/-- `sae_sm_step` for a commit. -/
def saeSmStepCommit (status : AuthStatus) (allowReuse : Bool) (sae : Data E) : Step E :=
  match sae.state with
  | .nothing => smNothing env ans status allowReuse sae
  | .committed => smCommittedCommit env ans sae
  | .confirmed => smConfirmedCommit env ans status sae
  | .accepted => smAcceptedCommit env ans status sae

/-- `sae_sm_step` for a confirm. -/
def saeSmStepConfirm (status : AuthStatus) (sae : Data E) : Step E :=
  match sae.state with
  | .nothing => { sae := sae }
  | .committed => smCommittedConfirm env ans status sae
  | .confirmed => smConfirmedConfirm ans sae
  | .accepted => smAcceptedConfirm env ans sae

end StateMachine

section Handle
variable {E : Type} [DecidableEq E] (env : Env E) (ans : Answer E)

structure Frame where
  transaction : ℕ
  status : AuthStatus
  body : Bytes

def parseArgs (frame : Frame) : ParseArgs where
  allowedGroups := some env.conf.groups
  h2e := isH2e frame.status
  scalarAlloc := ans.scalarAlloc
  pwIdAlloc := ans.pwIdAlloc
  rejectedAlloc := ans.rejectedAlloc

/-- In an infrastructure BSS a commit starts again from SAE_COMMITTED, with the old PWE if the
group is the same. -/
def restartCommit (frame : Frame) (sae : Data E) : Data E × Bool :=
  if !env.conf.mesh ∧ sae.state = .committed then
    let r := saeGroupAllowed env.lib (some env.conf.groups) (frame.body.le16 0) sae
    if 2 ≤ frame.body.length ∧ r.2 = .success then ({ r.1 with state := .nothing }, true)
    else (saeClearData, false)
  else (sae, false)

/-- `check_sae_rejected_groups`. -/
def saeRejectsEnabledGroup (sae : Data E) : Bool :=
  (sae.tmp.bind Tmp.peerRejectedGroups).any fun b =>
    (List.range (b.length / 2)).any fun i => env.conf.groups.contains (b.le16 (2 * i))

def handleCommit (frame : Frame) (sae : Data E) : Step E :=
  let restarted := restartCommit env frame sae
  let r := saeParseCommit env.lib (parseArgs env ans frame) frame.body restarted.1
  let sae := r.1.sae
  if r.2 = .silentlyDiscard then { sae := sae, resp := r.2 }
  else if r.2 = .unknownPasswordIdentifier then
    { sae := { sae with state := .nothing }, resp := r.2 }
  else if r.1.token.any fun token => !ans.comebackToken token then
    { sae := sae, resp := .unspecifiedFailure }
  else if r.2 ≠ .success then { sae := sae, resp := r.2 }
  else if saeRejectsEnabledGroup env sae then { sae := sae, resp := .unspecifiedFailure }
  else if r.1.token.isNone && ans.useAntiClogging && !restarted.2 then
    { sae := if env.conf.mesh then { sae with state := .nothing } else sae
      resp := .antiCloggingTokenReq }
  else saeSmStepCommit env ans frame.status restarted.2 sae

/-- The anti-clogging token request of a mesh peer. -/
def handleTokenRequest (frame : Frame) (sae : Data E) : Step E :=
  if frame.body.length < 2 then { sae := sae, resp := .unspecifiedFailure }
  else
    let r := saeGroupAllowed env.lib (some env.conf.groups) (frame.body.le16 0) sae
    if r.2 ≠ .success then { sae := r.1, resp := r.2 }
    else if !ans.tokenAlloc then
      { sae := r.1.modifyTmp fun tmp => { tmp with antiCloggingToken := none }
        resp := .unspecifiedFailure }
    else
      let sae := r.1.modifyTmp fun tmp => { tmp with antiCloggingToken := some (frame.body.drop 2) }
      let r := authSaeSendCommit env ans false (some frame.status) sae
      if r.2 ≠ .success then { sae := r.1, resp := r.2 }
      else { sae := { r.1 with state := .committed, sync := 0 } }

/-- `sae_set_group` for the first of the groups that is supported. -/
def saeSetFirstGroup (lib : ℕ → Option (Group E)) : List ℕ → Data E → Data E
  | [], sae => sae
  | group :: groups, sae =>
    let r := saeSetGroup lib group sae
    if r.2 then r.1 else saeSetFirstGroup lib groups r.1

def saePickNextGroup (sae : Data E) : Data E :=
  if sae.state ≠ .committed then sae
  else
    saeSetFirstGroup env.lib ((env.conf.groups.dropWhile fun group => group != sae.group).drop 1) sae

def handleConfirm (frame : Frame) (sae : Data E) : Step E :=
  if frame.status ≠ .success then { sae := sae }
  else if env.conf.mesh ∧ sae.state ≠ .confirmed ∧ sae.state ≠ .accepted then
    saeSmStepConfirm env ans frame.status sae
  else if frame.body.length < 2 then { sae := sae, resp := .unspecifiedFailure }
  else
    let peerSendConfirm := frame.body.le16 0
    if sae.state = .accepted ∧ (peerSendConfirm ≤ sae.rc ∨ peerSendConfirm = 0xffff) then
      { sae := sae }
    else if !saeCheckConfirm env.cr sae frame.body then { sae := sae, resp := .unspecifiedFailure }
    else
      let step := saeSmStepConfirm env ans frame.status { sae with rc := peerSendConfirm }
      { step with acts := .checkConfirm sae frame.body :: step.acts }

/-- `handle_auth_sae` for a station with an instance. -/
def handleAuthSaeInstance (frame : Frame) (sae : Data E) : Step E :=
  if frame.transaction = 1 then
    if env.conf.mesh ∧ frame.status = .antiCloggingTokenReq ∧ sae.tmp.isSome then
      handleTokenRequest env ans frame sae
    else if env.conf.mesh ∧ frame.status = .finiteCyclicGroupNotSupported ∧ sae.tmp.isSome then
      { sae := saePickNextGroup env sae }
    else if !saeStatusSuccess env.conf frame.status then { sae := sae }
    else handleCommit env ans frame sae
  else if frame.transaction = 2 then handleConfirm env ans frame sae
  else { sae := sae, resp := if frame.status = .success then .unknownAuthTransaction else .success }

/-- The instance of the station, which a first commit creates. -/
def handleAuthSae (frame : Frame) (sae : Option (Data E)) : Option (Data E) × List (Act E) :=
  let start :=
    match sae with
    | some sae => some sae
    | none =>
      if frame.transaction = 1 ∧ saeStatusSuccess env.conf frame.status ∧ ans.saeAlloc then some {}
      else none
  match start with
  | none => (none, [])
  | some sae =>
    let step := handleAuthSaeInstance env ans frame sae
    (if step.staRemoved then none else some step.sae, step.acts)

def authSaeRetransmitTimer (sae : Data E) : Data E :=
  match saeCheckBigSync env.conf sae with
  | some sae => sae
  | none =>
    let sae := { sae with sync := sae.sync + 1 }
    match sae.state with
    | .committed => (authSaeSendCommit env ans false none sae).1
    | .confirmed => (authSaeSendConfirm env ans sae).1
    | _ => sae

inductive Input (E : Type) where
  | frame (ans : Answer E) (frame : Frame)
  | timer (ans : Answer E)

/-- One step of a run. The timer runs for a station with an instance only. -/
def apStep (sae : Option (Data E)) : Input E → Option (Data E) × List (Act E)
  | .frame ans frame => handleAuthSae env ans frame sae
  | .timer ans => (sae.map (authSaeRetransmitTimer env ans), [])

end Handle

section Station

/-- The first octets of a MAC are those of the message. -/
def echoCrypto : Crypto :=
  { (default : Crypto) with
    mac := fun alg k m => some ((m ++ k ++ zeros alg.size).take alg.size)
    mac_length := by
      rintro alg k m out h
      cases h
      rw [List.length_take, List.length_append, zeros_length]
      omega }

/-- An AP with one passphrase and both ways to derive the PWE. -/
def stationEnv (conf : Conf) : Env (ZMod 11) where
  conf := { conf with wpaPassphrase := some [112, 97, 115, 115, 119, 111, 114, 100] }
  ownAddr := [1]
  addr := [2]
  lib _ := some cyclicGroup
  ops := cyclicOps
  cr := echoCrypto

def stationAnswer : Answer (ZMod 11) := { pwe := fun _ => some 1, draws := [(some 2, some 3)] }

def stationCommit (status : AuthStatus) (scalar element : UInt8) (elements : Bytes) :
    Input (ZMod 11) :=
  .frame stationAnswer
    { transaction := 1, status, body := [19, 0, scalar, element, 0] ++ elements }

def stationConfirm (body : Bytes) : Input (ZMod 11) :=
  .frame stationAnswer { transaction := 2, status := .success, body }

end Station
end Wpa.Sae
