import Wpa.Lib.Prog
import Wpa.Common.Crypto
import Wpa.Common.RsnIe

/-! The authenticator's `struct wpa_state_machine` and `struct wpa_group`, the answers of the code
around it and the actions that can be observed from outside. A program on one station sees that
station and its group. -/

namespace Wpa.Auth
open Lib Bytes Prog

inductive PtkState where
  | init
  | disconnect
  | disconnected
  | authentication
  | authentication2
  | initPmk
  | initPsk
  | ptkStart
  | ptkCalcNegotiating
  | ptkCalcNegotiating2
  | ptkInitNegotiating
  | ptkInitDone
  deriving DecidableEq

inductive PtkGroupState where
  | idle
  | rekeyNegotiating
  | rekeyEstablished
  | keyError
  deriving DecidableEq

inductive GroupState where
  | gtkInit
  | setKeys
  | setKeysDone
  | fatalFailure
  deriving DecidableEq

inductive WpaVersion where
  | noWpa
  | wpa
  | wpa2
  deriving DecidableEq

/-- `struct wpa_key_replay_counter`. -/
structure KeyReplayCounter where
  counter : Bytes := zeros 8
  valid : Bool := false
  deriving DecidableEq

def rsnaMaxEapolRetries : ℕ := 4

def clearedCounters : List KeyReplayCounter := List.replicate rsnaMaxEapolRetries {}

/-- `wpa_replay_counter_valid`. The search ends at the first slot that is not valid. -/
def wpaReplayCounterValid (ctr : List KeyReplayCounter) (replayCounter : Bytes) : Bool :=
  (ctr.takeWhile (·.valid)).any (·.counter == replayCounter)

/-- `wpa_replay_counter_mark_invalid`; without a counter, every slot. -/
def wpaReplayCounterMarkInvalid (ctr : List KeyReplayCounter) (replayCounter : Option Bytes) :
    List KeyReplayCounter :=
  ctr.map fun r =>
    if r.valid ∧ (replayCounter = none ∨ replayCounter = some r.counter) then
      { r with valid := false }
    else r

/-- The counter that the next frame takes. -/
def nextCounter (ctr : List KeyReplayCounter) : Bytes := incByteArray (ctr.headD {}).counter

/-- The register after a frame took the next counter. -/
def takeCounter (ctr : List KeyReplayCounter) : List KeyReplayCounter :=
  { counter := nextCounter ctr, valid := true } :: ctr.take (rsnaMaxEapolRetries - 1)

/-- `struct wpa_state_machine`. Key arrays with a length field are octet strings of that length;
`group` is the number of the group in the group list. -/
structure Sta where
  group : ℕ := 0
  addr : Bytes := zeros 6
  ptkState : PtkState := .init
  ptkGroupState : PtkGroupState := .idle
  init : Bool := false
  deauthenticationRequest : Bool := false
  authenticationRequest : Bool := false
  reAuthenticationRequest : Bool := false
  disconnect : Bool := false
  disconnectReason : ℕ := 0
  timeoutCtr : ℕ := 0
  gTimeoutCtr : ℕ := 0
  timeoutEvt : Bool := false
  eapolKeyReceived : Bool := false
  eapolKeyPairwise : Bool := false
  eapolKeyRequest : Bool := false
  micVerified : Bool := false
  gUpdateStationKeys : Bool := false
  anonce : Bytes := zeros 32
  snonce : Bytes := zeros 32
  altSnonce : Bytes := zeros 32
  altReplayCounter : Bytes := zeros 8
  pmk : Bytes := []
  pmkid : Option Bytes := none
  ptk : Ptk := {}
  keyidxActive : ℕ := 0
  useExtKeyId : Bool := false
  ptkValid : Bool := false
  pairwiseSet : Bool := false
  tkAlreadySet : Bool := false
  pair : Bool := false
  keyReplay : List KeyReplayCounter := clearedCounters
  prevKeyReplay : List KeyReplayCounter := clearedCounters
  pInitAKeys : Bool := false
  ptkRequest : Bool := false
  hasGtk : Bool := false
  ptkGroupInit : Bool := false
  lastRxEapolKey : Bytes := []
  changed : Bool := false
  inStepLoop : Bool := false
  pendingDeinit : Bool := false
  started : Bool := false
  mgmtFrameProt : Bool := false
  rxEapolKeySecure : Bool := false
  updateSnonce : Bool := false
  altSnonceValid : Bool := false
  ftCompleted : Bool := false
  isWnmsleep : Bool := false
  ocvEnabled : ℕ := 0
  reqReplayCounter : Bytes := zeros 8
  reqReplayCounterUsed : Bool := false
  wpaIe : Option Bytes := none
  rsnxe : Option Bytes := none
  wpa : WpaVersion := .noWpa
  pairwise : ℕ := 0
  wpaKeyMgmt : ℕ := 0
  pmksa : Option Pmksa := none
  xxkey : Bytes := []
  pmkR1 : Bytes := []
  pmkR1Name : Bytes := zeros 16
  supPmkR1Name : Bytes := zeros 16
  assocRespFtie : Option Bytes := none
  pending1Of4Timeout : Bool := false
  ipAddr : Bytes := zeros 4
  filsCompleted : Bool := false
  dppZ : Option Bytes := none

/-- `struct wpa_group`. Of the two slots of each key array, the one in use is selected by the
`GN` index of the array. -/
structure Group where
  vlanId : ℤ := 0
  gInit : Bool := false
  gKeyDoneStations : ℤ := 0
  gtkReKey : Bool := false
  gtkLen : ℕ := 0
  gn : ℕ := 0
  gm : ℕ := 0
  gtkAuthenticator : Bool := false
  counter : Bytes := zeros 32
  state : GroupState := .gtkInit
  gmk : Bytes := zeros 32
  gtk : List Bytes := [[], []]
  gnonce : Bytes := zeros 32
  changed : Bool := false
  firstStaSeen : Bool := false
  reject4wayHsForEntropy : Bool := false
  igtk : List Bytes := [[], []]
  bigtk : List Bytes := [[], []]
  gnIgtk : ℕ := 0
  gmIgtk : ℕ := 0
  gnBigtk : ℕ := 0
  gmBigtk : ℕ := 0
  references : ℕ := 0
  numSetupIface : ℕ := 0

/-- `struct wpa_auth_config`. -/
structure Conf where
  wpa : ℕ := 2
  wpaGroup : ℕ := cipherCcmp
  groupMgmtCipher : ℕ := cipherAes128Cmac
  wpaGroupUpdateCount : ℕ := 4
  wpaPairwiseUpdateCount : ℕ := 4
  wpaDisableEapolKeyRetries : Bool := false
  eapolVersion : ℕ := 2
  ieee80211w : ℕ := 0
  beaconProt : Bool := false
  disableGtk : Bool := false
  wpaDenyPtk0Rekey : Bool := false
  transitionDisable : ℕ := 0
  owePtkWorkaround : Bool := false
  forceKdkDerivation : Bool := false
  secureLtf : Bool := false
  ssid : Bytes := []
  mobilityDomain : Bytes := zeros 2
  r0KeyHolder : Bytes := []
  r1KeyHolder : Bytes := zeros 6
  reassociationDeadline : ℕ := 1000
  r0KeyLifetime : ℕ := 0
  ipAddrStart : ℕ := 0
  ipAddrMask : Bytes := zeros 4
  ipAddrGo : Bytes := zeros 4
  dppPfs : ℕ := 0

inductive RandomSite where
  | anonce
  | gmk
  | counter
  | gtk
  | igtk
  | bigtk
  | stubGtk
  | stubIgtk
  | stubBigtk
  deriving DecidableEq

inductive AllocSite where
  | eapolFrame
  | keyDataBuf
  | kdeBuf
  | aeadBuf
  | rxCopy
  | sta
  | group
  deriving DecidableEq

inductive KeySite where
  | ptk
  | ptkRx
  | ptkActivate
  | gtk
  | igtk
  | bigtk
  deriving DecidableEq

inductive OciVerifyResult where
  | success
  | notFound
  | failed
  deriving DecidableEq

/-- A PSK that `wpa_auth_get_psk` offers, with the VLAN it assigns. -/
structure Psk where
  pmk : Bytes
  vlanId : ℤ := 0
  deriving DecidableEq

/-- What the callbacks of `struct wpa_auth_callbacks`, the allocator and the random pool answer
while one state is entered or one frame is looked at. -/
structure Answer where
  random : RandomSite → Option Bytes := fun _ => some (zeros 32)
  time : RandomSite → Bytes := fun _ => zeros 8
  randomPoolReady : Bool := true
  alloc : AllocSite → Bool := fun _ => true
  setKey : KeySite → Bool := fun _ => true
  seqnum : ℕ → Option Bytes := fun _ => some (zeros 8)
  psks : List Psk := []
  msk : Option Bytes := none
  keyRun : Bool := false
  keyAvailable : Bool := false
  /-- `disconnect` reports the deauthentication back before it returns. -/
  deauth : Bool := true
  /-- `disconnect` also removes the station entry. -/
  deinit : Bool := false
  /-- `mic_failure_report` started countermeasures, which remove every station. -/
  micFailureReport : Bool := false
  updateVlan : Bool := true
  channelInfo : Bool := true
  getStaTxParameters : Bool := true
  ocvVerifyTxParams : Option Bytes → OciVerifyResult := fun _ => .success
  ocvInsertOciKde : Option Bytes := none
  ftGetVlan : Bool := true
  writeFtie : Option Bytes := none
  ipPool : Option ℕ := none

structure Env where
  cr : Crypto
  conf : Conf := {}
  addr : Bytes := zeros 6
  wpaIe : Bytes := []
  answer : ℕ → Answer := fun _ => {}

inductive EapolVar where
  | portEnabled
  | portValid
  | authorized
  | portControlAuto
  | keyRun
  | keyAvailable
  | keyDone
  deriving DecidableEq

inductive Msg where
  | pairwise2
  | pairwise4
  | group2
  | request
  deriving DecidableEq

/-- A PTK with what it was derived from. -/
structure Derivation where
  pmk : Bytes
  anonce : Bytes
  snonce : Bytes
  ptk : Ptk
  deriving DecidableEq

inductive Act where
  | enter (s : PtkState)
  | enterGroup (s : PtkGroupState)
  /-- A new ANonce was stored. -/
  | anonce (a : Bytes)
  | derive (d : Derivation)
  /-- The replay counter that a frame takes while it is built. -/
  | take (counter : Bytes)
  /-- A MIC was computed over an outgoing frame. -/
  | mic (kck : Bytes) (ver : ℕ) (frame : Bytes)
  | sendEapol (frame : Bytes)
  /-- The MIC of a received frame matched under `kck`. -/
  | micVerified (kck frame : Bytes)
  /-- `EAPOLKeyReceived` was set for a received frame. -/
  | received (msg : Msg) (counter : Bytes)
  /-- `wpa_auth_set_key` for the pairwise key on entry into PTKINITDONE. -/
  | installPtk (alg : WpaAlg) (tk : Bytes)
  /-- The other calls of `wpa_auth_set_key` for the station. -/
  | setPairwise (site : KeySite) (keyIdx : ℕ) (tk : Bytes)
  | removeKey (keyIdx : ℕ)
  | setGroupKey (vlanId : ℤ) (site : KeySite) (keyIdx : ℕ) (key : Bytes)
  | setEapol (var : EapolVar) (value : Bool)
  | disconnect (reason : ℕ)
  deriving DecidableEq

/-- What a program on one station sees and changes, with the number of questions asked so far. -/
structure Local where
  sta : Sta
  group : Group
  tick : ℕ := 0

abbrev StaM := Prog Env Local Act

/-- Ask the surroundings. -/
def query : StaM Answer := do
  let env ← ask
  let l ← get
  update fun l => { l with tick := l.tick + 1 }
  pure (env.answer l.tick)

def getSta : StaM Sta := do
  let l ← get
  pure l.sta

def getGroup : StaM Group := do
  let l ← get
  pure l.group

def modifySta (f : Sta → Sta) : StaM Unit := update fun l => { l with sta := f l.sta }

def modifyGroup (f : Group → Group) : StaM Unit := update fun l => { l with group := f l.group }

def Sta.micLen (sm : Sta) : ℕ := wpaMicLen sm.wpaKeyMgmt sm.pmk.length

def reasonPrevAuthNotValid : ℕ := 2
def reasonClass3FrameFromNonassocSta : ℕ := 7
def reason4wayHandshakeTimeout : ℕ := 15
def reasonGroupKeyUpdateTimeout : ℕ := 16
def reasonInvalidPmkid : ℕ := 49

/-- `sm->PMK` is used for the AKMs with EAP, OWE and SAE; the others go through the PSKs. -/
def Sta.usesPsks (sm : Sta) : Bool := wpaKeyMgmtWpaPsk sm.wpaKeyMgmt && !wpaKeyMgmtSae sm.wpaKeyMgmt

/-- A pairwise EAPOL-Key frame that is not a request waits to be processed. -/
def Sta.pairwiseReceived (sm : Sta) : Bool :=
  sm.eapolKeyReceived && !sm.eapolKeyRequest && sm.eapolKeyPairwise

/-- A group EAPOL-Key frame that is not a request waits to be processed. -/
def Sta.groupReceived (sm : Sta) : Bool :=
  sm.eapolKeyReceived && !sm.eapolKeyRequest && !sm.eapolKeyPairwise

end Wpa.Auth
