import Wpa.Lib.Prog
import Wpa.Common.Crypto
import Wpa.Common.RsnIe

/-! The supplicant's `struct wpa_sm`, the answers of the code around it, the actions that can be
observed from outside, and the callbacks of `struct wpa_sm_ctx` as commands. -/

namespace Wpa.Rsn
open Lib Bytes Prog

inductive RsnOverride where
  | notUsed
  | rsne
  | rsneOverride
  | rsneOverride2
  deriving DecidableEq

/-- The elements of the AP as known from Beacon and Probe Response frames. -/
structure ApIes where
  wpaIe : Option Bytes := none
  rsnIe : Option Bytes := none
  rsnxe : Option Bytes := none
  rsneOverride : Option Bytes := none
  rsneOverride2 : Option Bytes := none
  rsnxeOverride : Option Bytes := none
  deriving DecidableEq

/-- `struct wpa_sm`. Key arrays with a length field are octet strings of that length, and an
erased array is the empty string. -/
structure Sm where
  pmk : Bytes := []
  ptk : Ptk := {}
  tptk : Ptk := {}
  ptkSet : Bool := false
  tptkSet : Bool := false
  msg3Of4Ok : Bool := false
  snonce : Bytes := zeros 32
  anonce : Bytes := zeros 32
  renewSnonce : Bool := false
  rxReplayCounter : Bytes := zeros 8
  rxReplayCounterSet : Bool := false
  requestCounter : Bytes := zeros 8
  gtk : Bytes := []
  gtkWnmSleep : Bytes := []
  igtk : Bytes := []
  igtkWnmSleep : Bytes := []
  bigtk : Bytes := []
  bigtkWnmSleep : Bytes := []
  eapol : Bool := false
  curPmksa : Option Pmksa := none
  networkCtx : Bool := false
  ssid : Bytes := []
  wpaDenyPtk0Rekey : Bool := false
  p2p : Bool := false
  wpaRscRelaxation : Bool := false
  owePtkWorkaround : Bool := false
  beaconProt : Bool := false
  extKeyId : Bool := false
  useExtKeyId : Bool := false
  keyidxActive : ℕ := 0
  forceKdkDerivation : Bool := false
  ownAddr : Bytes := zeros 6
  bssid : Bytes := zeros 6
  dot11RSNA4WayHandshakeFailures : ℕ := 0
  proto : Proto := .rsn
  pairwiseCipher : ℕ := 0
  groupCipher : ℕ := 0
  keyMgmt : ℕ := 0
  mgmtGroupCipher : ℕ := 0
  rsnEnabled : Bool := false
  ocv : Bool := false
  secureLtf : Bool := false
  assocWpaIe : Option Bytes := none
  assocRsnxe : Option Bytes := none
  ap : ApIes := {}
  xxkey : Bytes := []
  pmkR0 : Bytes := []
  pmkR0Name : Bytes := []
  pmkR1 : Bytes := []
  pmkR1Name : Bytes := []
  mobilityDomain : Bytes := zeros 2
  r0khId : Bytes := []
  r1khId : Bytes := zeros 6
  ftCompleted : Bool := false
  ftProtocol : Bool := false
  ftReassocCompleted : Bool := false
  assocRespIes : Option Bytes := none
  p2pIpAddr : Bytes := zeros 12
  filsCompleted : Bool := false
  dppZ : Option Bytes := none
  dppPfs : ℕ := 0
  rsnOverrideSupport : Bool := false
  rsnOverride : RsnOverride := .notUsed
  /-- `wpa_s->wpa_state` behind `wpa_sm_get_state` and `wpa_sm_set_state`. -/
  wpaState : WpaState := .disconnected

inductive KeyKind where
  | ptk
  /-- `wpa_supplicant_activate_ptk`: no key octets are passed. -/
  | ptkActivate
  | gtk
  | igtk
  | bigtk
  deriving DecidableEq

/-- The arguments of `wpa_sm_set_key`. -/
structure SetKey where
  kind : KeyKind
  alg : WpaAlg
  addr : Option Bytes
  keyIdx : ℕ
  setTx : Bool
  seq : Bytes
  key : Bytes
  keyFlag : ℕ
  deriving DecidableEq

inductive Act where
  | setKey (k : SetKey)
  | setState (s : WpaState)
  | deauthenticate (reason : ℕ)
  | reconnect
  | etherSend (dst frame : Bytes)
  /-- A MIC was computed over an outgoing frame. -/
  | mic (kck : Bytes) (ver : ℕ) (frame : Bytes)
  /-- The MIC of the received frame matched under `kck`. -/
  | micVerified (kck counter : Bytes)
  /-- The AES-SIV tag of the received frame matched under `kek`. -/
  | aeadVerified (kek counter : Bytes)
  /-- The received Key Data was decrypted with `kek`. -/
  | decrypted (kek keyData : Bytes)
  /-- A new SNonce was stored. -/
  | renewSnonce (snonce : Bytes)
  /-- A PTK was derived from the nonces. -/
  | derivePtk (anonce snonce : Bytes) (ptk : Ptk)
  /-- The 4-way handshake was accepted: message 3/4 passed every check before the reply. -/
  | accept3Of4 (anonce : Bytes) (ptk : Ptk)
  deriving DecidableEq

inductive AllocSite where
  | rxCopy
  | kdeBuf
  | rsnIeBuf
  | overrideBuf
  | eapolFrame
  | eapolStart
  | unwrapBuf
  | aeadBuf
  | sivBuf
  deriving DecidableEq

/-- Result of `pmksa_cache_add`, with what its `free_cb` does to the current entry. -/
structure PmksaAdd where
  entry : Option Pmksa := none
  currentReplaced : Bool := false
  currentRemoved : Bool := false
  deriving DecidableEq

/-- The answers that the rest of the system gives during one call. Each is asked for at most
once on every path, per site where a call has several. -/
structure Env where
  cr : Crypto
  eapolVersion : ℕ := 2
  alloc : AllocSite → Bool := fun _ => true
  random : Option Bytes := none
  /-- `random_get_bytes` where a call draws a second time. -/
  randomNext : Option Bytes := none
  setKey : KeyKind → Bool := fun _ => true
  etherSend : Bool := true
  getBssid : Option Bytes := none
  beaconIe : Option ApIes := none
  /-- `wpa_sm_channel_info` when an OCI is verified, and when one is inserted. -/
  channelInfoVerify : Bool := true
  channelInfoInsert : Bool := true
  ocvVerifyTxParams : Option Bytes → Bool := fun _ => true
  ocvInsertOciKde : Option Bytes := none
  pmksaGet : Option Pmksa := none
  pmksaGetAfterAdd : Bool := false
  pmksaAdd : PmksaAdd := {}
  eapolGetKey : ℕ → Option Bytes := fun _ => none

abbrev M := Prog Env Sm Act

def reasonUnspecified : ℕ := 1
def reasonIeIn4wayDiffers : ℕ := 17

def Sm.micLen (sm : Sm) : ℕ := wpaMicLen sm.keyMgmt sm.pmk.length

/-- `wpa_sm_get_ap_rsne`. -/
def Sm.apRsne (sm : Sm) : Option Bytes :=
  match sm.rsnOverride with
  | .rsneOverride => sm.ap.rsneOverride
  | .rsneOverride2 => sm.ap.rsneOverride2
  | _ => sm.ap.rsnIe

def wpaSmRsnOverridingSupported (sm : Sm) : Bool := sm.rsnOverrideSupport && sm.apRsne.isSome

def wpaSmOcvEnabled (sm : Sm) : Bool :=
  match sm.apRsne with
  | none => false
  | some rsne =>
    sm.ocv && match wpaParseWpaIeRsn rsne with
      | .ok rsn => hasBits rsn.capabilities capabilityOcvc
      | .error _ => false

/-- `wpa_sm_drop_sa`. The BIGTK is the one key that stays. -/
def wpaSmDropSa (sm : Sm) : Sm :=
  { sm with
    ptkSet := false
    tptkSet := false
    pmk := []
    ptk := {}
    tptk := {}
    gtk := []
    gtkWnmSleep := []
    igtk := []
    igtkWnmSleep := []
    xxkey := []
    pmkR0 := []
    pmkR1 := [] }

def wpaSmNotifyDisassoc (sm : Sm) : Sm :=
  let failures := if sm.wpaState = .fourWayHandshake then 1 else 0
  { wpaSmDropSa sm with
    curPmksa := none
    dot11RSNA4WayHandshakeFailures := sm.dot11RSNA4WayHandshakeFailures + failures
    filsCompleted := false
    ftReassocCompleted := false
    ftProtocol := false
    keyidxActive := 0
    msg3Of4Ok := false
    bssid := zeros 6 }

/-- `wpa_sm_set_config` without a configuration. -/
def wpaSmSetConfigNull (sm : Sm) : Sm :=
  { sm with
    networkCtx := false
    ssid := []
    p2p := false
    wpaRscRelaxation := false
    owePtkWorkaround := false
    beaconProt := false
    forceKdkDerivation := false }

/-- What `wpa_supplicant_deauthenticate` does to the state machine before it returns: the
deauthentication event is processed and the connection cleared within the call. -/
def disconnect (sm : Sm) : Sm :=
  { wpaSmSetConfigNull (wpaSmNotifyDisassoc sm) with wpaState := .disconnected }

def wpaSmSetState (s : WpaState) : M Unit := do
  emit (.setState s)
  update fun sm => { sm with wpaState := s }

def wpaSmDeauthenticate (reason : ℕ) : M Unit := do
  emit (.deauthenticate reason)
  update disconnect

def wpaSmReconnect : M Unit := do
  emit .reconnect
  update disconnect

/-- `wpa_sm_set_key`; `false` is a negative return value. -/
def wpaSmSetKey (k : SetKey) : M Bool := do
  let env ← ask
  emit (.setKey k)
  pure (env.setKey k.kind)

/-- `pmksa_cache_add` together with `wpa_sm_pmksa_free_cb`. -/
def pmksaCacheAdd : M (Option Pmksa) := do
  let env ← ask
  when env.pmksaAdd.currentReplaced (update fun sm => { sm with curPmksa := none })
  when env.pmksaAdd.currentRemoved (do
    update fun sm => { sm with curPmksa := none, pmk := [] }
    wpaSmDeauthenticate reasonUnspecified)
  pure env.pmksaAdd.entry

/-- `wpa_sm_set_pmk_from_pmksa`: the PMK of the current entry, erased if there is none. -/
def wpaSmSetPmkFromPmksa (sm : Sm) : Sm := { sm with pmk := (sm.curPmksa.map Pmksa.pmk).getD [] }

end Wpa.Rsn
