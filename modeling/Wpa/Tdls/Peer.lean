import Wpa.Common.RsnIe
import Wpa.Tdls.Frame

/-! TDLS peers and the TPK handshake of `tdls.c`. A handler concerns the entry of one address, so it
is given that entry, or `none`, and returns what becomes of it with the calls it makes. -/

namespace Wpa.Tdls
open Lib Bytes

structure Tpk (K : Type) where
  kck : K
  tk : K
  deriving DecidableEq

/-- The key derivation from the two nonces and the context, the MIC, and sixteen zero octets. -/
structure TpkSuite (K : Type) where
  derive : Bytes → Bytes → Bytes → Tpk K
  omac1 : K → Bytes → Bytes
  zero : K

/-- What a station's `struct wpa_sm` says about TDLS. -/
structure TdlsSm where
  ownAddr : StaAddr
  bssid : StaAddr
  privacy : Bool
  tdlsSupported : Bool
  tdlsDisabled : Bool
  tdlsProhibited : Bool
  tdlsExternalSetup : Bool

inductive PeerCipher where
  | unset
  | none
  | ccmp
  deriving DecidableEq

/-- `sm_tmr`: the message to be sent again. -/
structure SmTmr where
  count : ℕ
  actionCode : ℕ
  buf : Option TdlsFrame

/-- `struct wpa_tdls_peer`, with its two timers. -/
structure Peer (K : Type) where
  addr : StaAddr
  reconfigKey : Bool
  initiator : Bool
  inonce : Bytes
  rnonce : Bytes
  rsnieI : Bytes
  rsnieP : Bytes
  lifetime : ℕ
  cipher : PeerCipher
  dtoken : ℕ
  tpk : Tpk K
  tpkSet : Bool
  tkSet : Bool
  tpkSuccess : Bool
  tpkInProgress : Bool
  smTmr : SmTmr
  retryTimer : Bool
  lifetimeTimer : Bool

/-- How the calls to the driver, the allocator and the random number generator turn out. -/
structure TdlsEnv where
  addPeer : Bool
  alloc : Bool
  dup : Bool
  copied : Bool
  random : Option Bytes
  setKey : Bool
  setKeyAgain : Bool
  addset : Bool
  send : Bool
  enable : Bool

inductive TdlsOut (K : Type) where
  /-- The key has been handed to the driver. -/
  | setKey (addr : StaAddr) (tk : K)
  | delKey (addr : StaAddr)
  /-- The MIC of the frame being processed is the one under this key. -/
  | micVerified (kck : K)
  | send (addr : StaAddr) (frame : TdlsFrame)
  | addset (addr : StaAddr) (add : Bool)
  | enableLink (addr : StaAddr)
  | disableLink (addr : StaAddr)

abbrev Slot (K : Type) := Option (Peer K)

section Handlers
variable {K : Type} (suite : TpkSuite K) (sm : TdlsSm) (env : TdlsEnv)

namespace Peer
variable (peer : Peer K)

def generateTpk : Peer K :=
  let nonces :=
    if memcmp peer.inonce peer.rnonce < 0 then (peer.inonce, peer.rnonce)
    else (peer.rnonce, peer.inonce)
  let addrs :=
    if memcmp sm.ownAddr.1 peer.addr.1 < 0 then sm.ownAddr.1 ++ peer.addr.1
    else peer.addr.1 ++ sm.ownAddr.1
  { peer with tpk := suite.derive nonces.1 nonces.2 (addrs ++ sm.bssid.1), tpkSet := true }

/-- Free or not, nothing of the old link stays. -/
def clear : Peer K :=
  { peer with
    reconfigKey := false, initiator := false, tpkInProgress := false
    smTmr := { peer.smTmr with buf := none }
    rsnieI := [], rsnieP := [], cipher := .unset
    tkSet := false, tpkSet := false, tpkSuccess := false
    tpk := ⟨suite.zero, suite.zero⟩
    inonce := zeros tdlsNonceLen, rnonce := zeros tdlsNonceLen
    retryTimer := false, lifetimeTimer := false }

def retryTimeoutCancel (actionCode : ℕ) : Peer K :=
  if actionCode = peer.smTmr.actionCode then
    { peer with smTmr := ⟨0, 0xff, none⟩, retryTimer := false }
  else peer

def setKey (driverOk : Bool) : Peer K × Bool × List (TdlsOut K) :=
  if peer.tkSet then (peer, false, [])
  else
    match peer.cipher with
    | .ccmp =>
      if driverOk then ({ peer with tkSet := true }, true, [.setKey peer.addr peer.tpk.tk])
      else (peer, false, [])
    | _ => (peer, false, [])

/-- `wpa_tdls_tpk_send`: a request or a response is kept to be sent again. -/
def tpkSend (frame : TdlsFrame) : Peer K × Bool × List (TdlsOut K) :=
  if !env.send then (peer, false, [])
  else if frame.action = setupRequest ∨ frame.action = setupResponse then
    let count := if frame.action = setupResponse then 10 else 3
    if env.dup then
      ({ peer with smTmr := ⟨count, frame.action, some frame⟩, retryTimer := true }, true,
        [.send peer.addr frame])
    else
      ({ peer with smTmr := ⟨count, frame.action, none⟩, retryTimer := false }, false,
        [.send peer.addr frame])
  else (peer, true, [.send peer.addr frame])

end Peer

/-- `os_zalloc` of an entry. -/
def newPeer (addr : StaAddr) : Peer K where
  addr := addr
  reconfigKey := false
  initiator := false
  inonce := zeros tdlsNonceLen
  rnonce := zeros tdlsNonceLen
  rsnieI := []
  rsnieP := []
  lifetime := 0
  cipher := .unset
  dtoken := 0
  tpk := ⟨suite.zero, suite.zero⟩
  tpkSet := false
  tkSet := false
  tpkSuccess := false
  tpkInProgress := false
  smTmr := ⟨0, 0, none⟩
  retryTimer := false
  lifetimeTimer := false

def addPeer (addr : StaAddr) (slot : Slot K) : Slot K :=
  match slot with
  | some peer => some peer
  | none => if env.addPeer then some (newPeer suite addr) else none

/-- Computed with the MIC field set to zero. -/
def tdlsFtieMic (kck : K) (transSeq : UInt8) (lnkid rsnie timeoutie : Bytes) (ftie : Ftie) : Bytes :=
  suite.omac1 kck (lnkidInitSta lnkid ++ lnkidRespSta lnkid ++ [transSeq] ++ lnkid ++ rsnie ++
    timeoutie ++ { ftie with mic := zeros tdlsMicLen }.octets)

def verifyTdlsMic (transSeq : UInt8) (peer : Peer K) (lnkid timeoutie : Bytes) (ftie : Ftie) : Bool :=
  peer.tpkSet && tdlsFtieMic suite peer.tpk.kck transSeq lnkid peer.rsnieP timeoutie ftie == ftie.mic

def tdlsKeyMicTeardown (kck : K) (reason dtoken : ℕ) (lnkid : Bytes) (ftie : Ftie) : Bytes :=
  suite.omac1 kck (lnkid ++ [UInt8.ofNat reason, UInt8.ofNat (reason / 256), UInt8.ofNat dtoken, 4] ++
    { ftie with mic := zeros tdlsMicLen }.octets)

def tdlsLinkid (peer : Peer K) : Bytes :=
  [101, 18] ++ sm.bssid.1 ++
    if peer.initiator then sm.ownAddr.1 ++ peer.addr.1 else peer.addr.1 ++ sm.ownAddr.1

/-- `wpa_tdls_send_teardown`: with an element that proves the key if there is one. -/
def sendTeardown (peer : Peer K) (reason : ℕ) : List (TdlsOut K) :=
  if sm.tdlsDisabled || !sm.tdlsSupported || !env.alloc || !env.send then []
  else
    let blank := ftieWith (zeros tdlsMicLen) peer.rnonce peer.inonce
    let mic := tdlsKeyMicTeardown suite peer.tpk.kck reason peer.dtoken (tdlsLinkid sm peer) blank
    let ftie :=
      if sm.privacy && peer.tpkSet && peer.tpkSuccess then
        some (ftieWith mic peer.rnonce peer.inonce)
      else none
    [.send peer.addr
      { action := tdlsTeardown, dtoken := 0, status := reason, initiator := peer.initiator, ftie }]

def disablePeerLink (peer : Peer K) : Slot K × List (TdlsOut K) :=
  (none, [.disableLink peer.addr])

def doTeardown (peer : Peer K) : Slot K × List (TdlsOut K) :=
  (none, sendTeardown suite sm env peer reasonTdlsTeardownUnspecified ++ [.disableLink peer.addr])

/-- `wpa_tdls_send_error`. -/
def sendError (addr : StaAddr) (action dtoken : ℕ) (initiator : Bool) (status : ℕ) :
    List (TdlsOut K) :=
  if env.send then [.send addr { action, dtoken, status, initiator }] else []

/-- The message that answers with the nonces of the entry, under its key. -/
def tpkFrame (peer : Peer K) (action dtoken : ℕ) (transSeq : UInt8) (lnkid : Bytes) : TdlsFrame :=
  if !sm.privacy then { action, dtoken, status := 0, initiator := peer.initiator }
  else
    let timeoutie := wpaAddTdlsTimeoutie peer.lifetime
    let blank := ftieWith (zeros tdlsMicLen) peer.rnonce peer.inonce
    let mic := tdlsFtieMic suite peer.tpk.kck transSeq lnkid peer.rsnieP timeoutie blank
    { action, dtoken, status := 0, initiator := peer.initiator
      rsnIe := some peer.rsnieP
      ftie := some (ftieWith mic peer.rnonce peer.inonce)
      timeoutie := some timeoutie }

def sendTpkM2 (peer : Peer K) (dtoken : ℕ) (lnkid : Bytes) : Peer K × Bool × List (TdlsOut K) :=
  if !env.alloc then (peer, false, [])
  else peer.tpkSend env (tpkFrame suite sm peer setupResponse dtoken 2 lnkid)

def sendTpkM3 (peer : Peer K) (dtoken : ℕ) (lnkid : Bytes) : Peer K × Bool × List (TdlsOut K) :=
  if !env.alloc then (peer, false, [])
  else peer.tpkSend env (tpkFrame suite sm peer setupConfirm dtoken 3 lnkid)

/-- `wpa_tdls_enable_link`. -/
def enableLink (peer : Peer K) : Peer K × Bool × List (TdlsOut K) :=
  let peer := { peer with tpkSuccess := true, tpkInProgress := false, lifetimeTimer := sm.privacy }
  if peer.reconfigKey then
    let (peer, ok, out) := peer.setKey env.setKeyAgain
    if !ok then (peer, false, out)
    else ({ peer with reconfigKey := false }, env.enable, out ++ [.enableLink peer.addr])
  else ({ peer with reconfigKey := false }, env.enable, [.enableLink peer.addr])

end Handlers

end Wpa.Tdls
