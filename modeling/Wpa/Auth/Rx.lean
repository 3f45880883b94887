import Wpa.Common.Kde
import Wpa.Auth.Tx

/-! What `wpa_receive` looks at before it changes the state machine: the form of the frame, its
replay counter, the state it belongs to, and the key that authenticates it. -/

namespace Wpa.Auth
open Lib Bytes Prog

/-- The message that a frame is taken for. -/
def rxMsg (key : EapolKey) (micLen keyDataLen : ℕ) : Msg :=
  if key.has keyInfoRequest then .request
  else if ¬key.has keyInfoKeyType then .group2
  else if keyDataLen = 0 ∨ (micLen = 0 ∧ key.has keyInfoEncrKeyData ∧ keyDataLen = aesBlockSize) then
    .pairwise4
  else .pairwise2

def Sta.rxMsg (sm : Sta) (data : Bytes) : Msg :=
  Auth.rxMsg (EapolKey.read data) sm.micLen (keyDataLength data sm.micLen)

/-- The key descriptor version is the one that the AKM and the pairwise cipher call for. -/
def rxVersionOk (sm : Sta) (ver : ℕ) : Bool :=
  let akmDefined := wpaUseAkmDefined sm.wpaKeyMgmt
  if (sm.pairwise = cipherCcmp ∨ sm.pairwise = cipherGcmp) ∧ ¬akmDefined then
    ver == if wpaUseCmac sm.wpaKeyMgmt then keyInfoTypeAes128Cmac else keyInfoTypeHmacSha1Aes
  else !akmDefined || ver == keyInfoTypeAkmDefined

/-- The lengths, the descriptor type and the descriptor version of a frame. A WPA2 station may use
the WPA type as well. -/
def rxFormOk (sm : Sta) (data : Bytes) : Bool :=
  let key := EapolKey.read data
  decide (hdrSize + keyhdrlen sm.micLen ≤ data.length) &&
    decide (keyDataLength data sm.micLen ≤ data.length - hdrSize - keyhdrlen sm.micLen) &&
    (key.type == eapolKeyTypeWpa || (sm.wpa == .wpa2 && key.type == eapolKeyTypeRsn)) &&
    !key.has keyInfoSmkMessage && rxVersionOk sm key.ver

/-- A request takes its counter from a sequence of its own. -/
def requestReplayed (sm : Sta) (key : EapolKey) : Bool :=
  sm.reqReplayCounterUsed && decide (memcmp key.replayCounter sm.reqReplayCounter ≤ 0)

/-- Message 2/4 for an older message 1/4 brings another SNonce after message 3/4 went out. -/
def snonceUpdate (sm : Sta) (msg : Msg) (key : EapolKey) : Bool :=
  msg == .pairwise2 && wpaReplayCounterValid sm.prevKeyReplay key.replayCounter &&
    sm.ptkState == .ptkInitNegotiating && sm.snonce != key.keyNonce

/-- Message 4/4 for the message 3/4 that was sent before an SNonce update. -/
def altConfirm (sm : Sta) (msg : Msg) (key : EapolKey) : Bool :=
  msg == .pairwise4 && sm.altSnonceValid && sm.ptkState == .ptkInitNegotiating &&
    key.replayCounter == sm.altReplayCounter

def Sta.noteSnonceUpdate (sm : Sta) : Sta :=
  { sm with
    updateSnonce := true
    altSnonce := sm.snonce
    altSnonceValid := true
    altReplayCounter := (sm.keyReplay.headD {}).counter }

/-- The replay counter checks; `none` is a dropped frame, and the state is that in which the frame
is looked at further. -/
def rxCounter (sm : Sta) (msg : Msg) (key : EapolKey) : Option Sta :=
  if msg = .request then if requestReplayed sm key then none else some sm
  else if wpaReplayCounterValid sm.keyReplay key.replayCounter then some sm
  else if snonceUpdate sm msg key then some sm.noteSnonceUpdate
  else if altConfirm sm msg key then some sm
  else none

/-- With an AEAD cipher, Key Data has to be encrypted. -/
def rxEncrOk (sm : Sta) (key : EapolKey) : Bool :=
  !(sm.wpa == .wpa2 && sm.micLen == 0 && !key.has keyInfoEncrKeyData)

/-- The state machine is waiting for the message. -/
def rxExpected (sm : Sta) : Msg → Bool
  | .pairwise2 =>
    sm.ptkState == .ptkStart || sm.ptkState == .ptkCalcNegotiating ||
      (sm.updateSnonce && sm.ptkState == .ptkInitNegotiating)
  | .pairwise4 => sm.ptkState == .ptkInitNegotiating && sm.ptkValid
  | .group2 => sm.ptkGroupState == .rekeyNegotiating && sm.ptkValid
  | .request => true

/-- The Key Ack bit is for the authenticator alone; a MIC is used exactly outside FILS. -/
def rxFlagsOk (sm : Sta) (key : EapolKey) : Bool :=
  !key.has keyInfoAck && (key.has keyInfoMic != wpaKeyMgmtFils sm.wpaKeyMgmt)

/-- `wpa_verify_key_mic`. -/
def wpaVerifyKeyMic (cr : Crypto) (akmp pmkLen : ℕ) (ptk : Ptk) (data : Bytes) : Bool :=
  let micLen := wpaMicLen akmp pmkLen
  micMatches cr ptk.kck akmp (EapolKey.read data).ver micLen data (data.slice micOffset micLen)

/-- `wpa_aead_decrypt`: the frame with its Key Data decrypted in place. -/
def wpaAeadDecrypt (cr : Crypto) (ans : Answer) (ptk : Ptk) (buf : Bytes) : Option Bytes :=
  let n := keyDataLength buf 0
  if n < aesBlockSize ∨ n > buf.length - hdrSize - keySize - 2 ∨ ¬ans.alloc .aeadBuf then none
  else
    (cr.aesSivDecrypt ptk.kek (buf.slice (keyDataOffset 0) n) (buf.take (keyDataOffset 0))).map
      fun plain =>
        (buf.writeAt (keyDataOffset 0) (plain.take (n - aesBlockSize))).writeAt micOffset
          (ofBeNat (n - aesBlockSize) 2)

/-- The key of a PTK that authenticates EAPOL-Key frames: the KEK where they carry no MIC. -/
def Sta.authKey (sm : Sta) (ptk : Ptk) : Bytes := if sm.micLen = 0 then ptk.kek else ptk.kck

/-- The frame, once a PTK authenticates it; an AEAD cipher decrypts its Key Data on the way. -/
def authenticate (env : Env) (ans : Answer) (sm : Sta) (pmkLen : ℕ) (ptk : Ptk) (data : Bytes) :
    Option Bytes :=
  if sm.micLen = 0 then wpaAeadDecrypt env.cr ans ptk data
  else if wpaVerifyKeyMic env.cr sm.wpaKeyMgmt pmkLen ptk data then some data
  else none

def kdkLen (conf : Conf) (sm : Sta) : ℕ :=
  if conf.forceKdkDerivation ∨ (conf.secureLtf ∧ ieee80211RsnxCapab sm.rsnxe rsnxCapabSecureLtf) then
    wpaKdkMaxLen
  else 0

/-- `wpa_auth_derive_ptk_ft`, without the PMK-R0 and PMK-R1 that it stores for other access
points. The PMKR1Name stays behind in the state machine. -/
def wpaAuthDerivePtkFt (env : Env) (ans : Answer) (sm : Sta) (ptk : Ptk) : Sta × Option Ptk :=
  let conf := env.conf
  let mpmk := if sm.xxkey ≠ [] then some sm.xxkey else sm.pmksa.map (·.pmk)
  let keys := do
    let mpmk ← mpmk
    if ¬ans.ftGetVlan then none
    else
      let (r0, r0Name) ← wpaDerivePmkR0 env.cr mpmk conf.ssid conf.mobilityDomain conf.r0KeyHolder
        sm.addr (wpaKeyMgmtSha384 sm.wpaKeyMgmt)
      wpaDerivePmkR1 env.cr r0 r0Name conf.r1KeyHolder sm.addr
  match keys with
  | none => (sm, none)
  | some (r1, r1Name) =>
    ({ sm with pmkR1Name := r1Name },
      wpaPmkR1ToPtk env.cr r1 sm.snonce sm.anonce sm.addr env.addr r1Name ptk sm.wpaKeyMgmt
        sm.pairwise 0)

/-- `wpa_derive_ptk`. With FT the SNonce of the state machine is used, whatever `snonce` is. -/
def wpaDerivePtk (env : Env) (ans : Answer) (sm : Sta) (snonce pmk : Bytes) (ptk : Ptk)
    (forceSha256 : Bool) : Sta × Option Ptk :=
  if wpaKeyMgmtFt sm.wpaKeyMgmt then
    if sm.ftCompleted then
      (sm, wpaPmkR1ToPtk env.cr sm.pmkR1 sm.snonce sm.anonce sm.addr env.addr sm.pmkR1Name ptk
        sm.wpaKeyMgmt sm.pairwise (kdkLen env.conf sm))
    else wpaAuthDerivePtkFt env ans sm ptk
  else
    let z := if sm.wpaKeyMgmt = keyMgmtDpp then sm.dppZ.getD [] else []
    let akmp := if forceSha256 then sm.wpaKeyMgmt ||| keyMgmtPskSha256 else sm.wpaKeyMgmt
    (sm, wpaPmkToPtk env.cr pmk env.addr sm.addr sm.anonce snonce ptk akmp sm.pairwise z
      (kdkLen env.conf sm))

/-- One attempt to find the PMK of a frame. -/
structure Candidate where
  pmk : Bytes
  /-- The PSK that `wpa_auth_get_psk` returned. -/
  psk : Option Bytes := none
  /-- The PMK is the one in the state machine itself. -/
  own : Bool := false
  vlanId : ℤ := 0
  forceSha256 : Bool := false

/-- The PMKs that PTKCALCNEGOTIATING tries, in order: the PSKs of the station, or its PMK, the
latter once more with SHA-256 for OWE. An empty PMK gives way to that of the PMKSA. -/
def candidates (env : Env) (ans : Answer) (sm : Sta) : List Candidate :=
  let orPmksa (c : Candidate) : Candidate :=
    match sm.pmksa with
    | some sa => if c.pmk = [] then { c with pmk := sa.pmk, own := false } else c
    | none => c
  if sm.usesPsks then
    ans.psks.map fun p => orPmksa { pmk := p.pmk, psk := some p.pmk, vlanId := p.vlanId }
  else
    let c := orPmksa { pmk := sm.pmk, own := true }
    if sm.wpaKeyMgmt = keyMgmtOwe ∧ c.pmk.length > 32 ∧ env.conf.owePtkWorkaround then
      [c, { c with forceSha256 := true }]
    else [c]

/-- The PMKs that `wpa_try_alt_snonce` tries. -/
def altCandidates (ans : Answer) (sm : Sta) : List Candidate :=
  if sm.usesPsks then ans.psks.map fun p => { pmk := p.pmk, psk := some p.pmk, vlanId := p.vlanId }
  else [{ pmk := sm.pmk, own := true }]

/-- A candidate that authenticates the frame, with its PTK and the frame from there on. -/
structure Match where
  candidate : Candidate
  ptk : Ptk
  data : Bytes

structure Search where
  sta : Sta
  acts : List Act := []
  result : Option Match := none

def Sta.tryPsk (sm : Sta) (c : Candidate) : Sta :=
  if wpaKeyMgmtFtPsk sm.wpaKeyMgmt then { sm with xxkey := c.psk.getD sm.xxkey } else sm

/-- The SNonce that `wpa_derive_ptk` really uses. -/
def Sta.derivationSnonce (sm : Sta) (snonce : Bytes) : Bytes :=
  if wpaKeyMgmtFt sm.wpaKeyMgmt then sm.snonce else snonce

/-- The loop of PTKCALCNEGOTIATING and of `wpa_try_alt_snonce`; `ptk` is the local variable `PTK`,
which every derivation writes into. -/
def search (env : Env) (ans : Answer) (snonce data : Bytes) :
    Sta → Ptk → List Candidate → Search
  | sm, _, [] => { sta := sm }
  | sm, ptk, c :: cs =>
    let r := wpaDerivePtk env ans (sm.tryPsk c) snonce c.pmk ptk c.forceSha256
    match r.2 with
    | none => { sta := r.1 }
    | some ptk =>
      let derive := Act.derive ⟨c.pmk, sm.anonce, sm.derivationSnonce snonce, ptk⟩
      match authenticate env ans sm c.pmk.length ptk data with
      | some data' =>
        { sta := r.1
          acts := [derive, .micVerified (sm.authKey ptk) data]
          result := some ⟨c, ptk, data'⟩ }
      | none =>
        let rest := search env ans snonce data r.1 ptk cs
        { rest with acts := derive :: rest.acts }

/-- `wpa_try_alt_snonce`; `true` stands for the return value zero. -/
def wpaTryAltSnonce (ans : Answer) (data : Bytes) : StaM Bool := do
  let env ← ask
  let sm ← getSta
  let r := search env ans sm.altSnonce data sm {} (altCandidates ans sm)
  emitAll r.acts
  modifySta fun _ => r.sta
  match r.result with
  | none => pure false
  | some m => do
    modifySta fun sm => { sm with pmk := m.candidate.pmk, altSnonceValid := false }
    if m.candidate.vlanId ≠ 0 ∧ wpaKeyMgmtWpaPsk sm.wpaKeyMgmt ∧ ¬ans.updateVlan then pure false
    else do
      modifySta fun sm => { sm with snonce := sm.altSnonce, ptk := m.ptk, ptkValid := true }
      pure true

/-- The MIC of a received frame, which is looked at only while there is a PTK and no new SNonce
waits to be taken over; `none` is a dropped frame. -/
def rxAuthenticate (ans : Answer) (msg : Msg) (data : Bytes) : StaM (Option Bytes) := do
  let env ← ask
  modifySta fun sm => { sm with micVerified := false }
  let sm ← getSta
  if sm.ptkValid ∧ ¬sm.updateSnonce then do
    let verified := fun sm : Sta => { sm with micVerified := true, pending1Of4Timeout := false }
    match authenticate env ans sm sm.pmk.length sm.ptk data with
    | some data' => do
      emit (.micVerified (sm.authKey sm.ptk) data)
      modifySta verified
      pure (some data')
    | none =>
      if sm.micLen ≠ 0 ∧ msg = .pairwise4 ∧ sm.altSnonceValid then do
        let ok ← wpaTryAltSnonce ans data
        when ok (modifySta verified)
        pure (if ok then some data else none)
      else pure none
  else pure (some data)

/-- The counters after a message other than a request was accepted: none that was waiting is
accepted once more, but message 2/4 leaves those of the other copies of message 1/4 behind. -/
def Sta.consumeCounter (sm : Sta) (msg : Msg) (counter : Bytes) : Sta :=
  let keyReplay := wpaReplayCounterMarkInvalid sm.keyReplay (some counter)
  { sm with
    prevKeyReplay := if msg = .pairwise2 then keyReplay else clearedCounters
    keyReplay := wpaReplayCounterMarkInvalid keyReplay none }

/-- The frame is handed to the state machines. -/
def Sta.receive (sm : Sta) (key : EapolKey) (data : Bytes) : Sta :=
  { sm with
    lastRxEapolKey := data
    rxEapolKeySecure := key.has keyInfoSecure
    eapolKeyReceived := true
    eapolKeyPairwise := key.has keyInfoKeyType
    eapolKeyRequest := key.has keyInfoRequest
    snonce := key.keyNonce }

end Wpa.Auth
