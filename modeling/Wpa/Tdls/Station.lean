import Wpa.Lib.Runs
import Wpa.Tdls.Handshake

/-! A station that takes frames, requests and timeouts one after the other, and what an entry goes
through: it asks with a nonce of its own, or answers with one, and then has a key. -/

namespace Wpa.Tdls
open Lib Bytes

/-- What happens to the entry of an address. -/
inductive TdlsAction where
  | tpkM1 (msg : TdlsMsg)
  | tpkM2 (msg : TdlsMsg)
  | tpkM3 (msg : TdlsMsg)
  | teardown (msg : TdlsMsg)
  | discovery (msg : TdlsMsg)
  | ignored
  | start
  | remove
  | tpkRetryTimeout
  | tpkTimeout (env' : TdlsEnv)

section Station
variable {K : Type} (suite : TpkSuite K) (sm : TdlsSm)

def act (env : TdlsEnv) (addr : StaAddr) (slot : Slot K) : TdlsAction → Slot K × List (TdlsOut K)
  | .tpkM1 msg => processTpkM1 suite sm env addr msg slot
  | .tpkM2 msg => processTpkM2 suite sm env addr msg slot
  | .tpkM3 msg => processTpkM3 suite sm env addr msg slot
  | .teardown msg => recvTeardown suite sm msg slot
  | .discovery msg => processDiscoveryRequest suite sm env addr msg slot
  | .ignored => (slot, [])
  | .start => start suite sm env addr slot
  | .remove => remove suite sm env slot
  | .tpkRetryTimeout => tpkRetryTimeout suite sm env slot
  | .tpkTimeout env' => tpkTimeout suite sm env env' addr slot

/-- `wpa_supplicant_rx_tdls`, up to the handler that it calls. -/
def rxAction (src : StaAddr) (buf : Bytes) : TdlsAction :=
  if sm.tdlsDisabled || !sm.tdlsSupported then .ignored
  else if src = sm.ownAddr then .ignored
  else if buf.length < 3 then .ignored
  else if buf.byteAt 0 ≠ tdlsRftype ∨ buf.byteAt 1 ≠ actionTdls then .ignored
  else if buf.byteAt 2 = setupRequest then .tpkM1 (readTpkM1 buf)
  else if buf.byteAt 2 = setupResponse then .tpkM2 (readTpkM2 buf)
  else if buf.byteAt 2 = setupConfirm then .tpkM3 (readTpkM3 buf)
  else if buf.byteAt 2 = tdlsTeardown then .teardown (readTeardown buf)
  else if buf.byteAt 2 = discoveryRequest then .discovery (readDiscoveryRequest buf)
  else .ignored

/-- What a station is given: a received frame, or a request or a timeout for a peer. -/
inductive TdlsInput where
  | rx (env : TdlsEnv) (src : StaAddr) (buf : Bytes)
  | start (env : TdlsEnv) (addr : StaAddr)
  | remove (env : TdlsEnv) (addr : StaAddr)
  | tpkRetryTimeout (env : TdlsEnv) (addr : StaAddr)
  | tpkTimeout (env env' : TdlsEnv) (addr : StaAddr)

namespace TdlsInput

def addr : TdlsInput → StaAddr
  | rx _ src _ => src
  | start _ addr | remove _ addr | tpkRetryTimeout _ addr | tpkTimeout _ _ addr => addr

def env : TdlsInput → TdlsEnv
  | rx env _ _ | start env _ | remove env _ | tpkRetryTimeout env _ | tpkTimeout env _ _ => env

def action (sm : TdlsSm) : TdlsInput → TdlsAction
  | rx _ src buf => rxAction sm src buf
  | start _ _ => .start
  | remove _ _ => .remove
  | tpkRetryTimeout _ _ => .tpkRetryTimeout
  | tpkTimeout _ env' _ => .tpkTimeout env'

end TdlsInput

/-- The list `sm->tdls`, as the entry of each address. -/
abbrev Peers (K : Type) := StaAddr → Slot K

def stationStep (peers : Peers K) (input : TdlsInput) : Peers K × List (TdlsOut K) :=
  let result := act suite sm input.env input.addr (peers input.addr) (input.action sm)
  (Function.update peers input.addr result.1, result.2)

end Station

end Wpa.Tdls
