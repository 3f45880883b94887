import Wpa.Tdls.Station

/-! The phases of an entry, and that the handlers move it from phase to phase as the handshake
means it: each key that is installed belongs to nonces of which the own one was drawn for it. -/

namespace Wpa.Tdls
open Lib Bytes

section Tpk
variable {K : Type} (suite : TpkSuite K) (sm : TdlsSm)

def sortNonces (x y : Bytes) : Bytes × Bytes := if memcmp x y < 0 then (x, y) else (y, x)

def tpkContext (addr : StaAddr) : Bytes :=
  (if memcmp sm.ownAddr.1 addr.1 < 0 then sm.ownAddr.1 ++ addr.1 else addr.1 ++ sm.ownAddr.1) ++
    sm.bssid.1

/-- The key of two nonces with the station at the address. -/
def tpkOf (addr : StaAddr) (x y : Bytes) : Tpk K :=
  suite.derive (sortNonces x y).1 (sortNonces x y).2 (tpkContext sm addr)

/-- Different nonces, addresses or networks give different keys. -/
structure TpkSuite.Injective (suite : TpkSuite K) : Prop where
  tk_inj {a b c a' b' c' : Bytes} (h : (suite.derive a b c).tk = (suite.derive a' b' c').tk) :
    a = a' ∧ b = b' ∧ c = c'

variable {suite sm}

theorem Peer.generateTpk_eq (peer : Peer K) :
    peer.generateTpk suite sm =
      { peer with tpk := tpkOf suite sm peer.addr peer.inonce peer.rnonce, tpkSet := true } := rfl

theorem sortNonces_inj {x y x' y' : Bytes} (h : sortNonces x y = sortNonces x' y') :
    (x = x' ∧ y = y') ∨ (x = y' ∧ y = x') := by
  unfold sortNonces at h
  split_ifs at h
  · exact .inl (Prod.mk.inj h)
  · exact .inr (Prod.mk.inj h)
  · exact .inr (Prod.mk.inj h).symm
  · exact .inl (Prod.mk.inj h).symm

theorem tpkContext_inj {addr addr' : StaAddr} (h : tpkContext sm addr = tpkContext sm addr') :
    addr = addr' := by
  have hown := sm.ownAddr.2
  have hlen := addr.2
  have hlen' := addr'.2
  have hpair := List.append_cancel_right h
  apply Subtype.ext
  split_ifs at hpair
  · exact List.append_cancel_left hpair
  · obtain ⟨hfst, hsnd⟩ := List.append_inj hpair (hown.trans hlen'.symm)
    exact hsnd.trans hfst
  · obtain ⟨hfst, hsnd⟩ := List.append_inj hpair (hlen.trans hown.symm)
    exact hfst.trans hsnd
  · exact List.append_cancel_right hpair

theorem tpkOf_inj (hinj : suite.Injective) {addr addr' : StaAddr} {x y x' y' : Bytes}
    (h : (tpkOf suite sm addr x y).tk = (tpkOf suite sm addr' x' y').tk) :
    addr = addr' ∧ ((x = x' ∧ y = y') ∨ (x = y' ∧ y = x')) := by
  obtain ⟨hlo, hhi, hctx⟩ := hinj.tk_inj h
  exact ⟨tpkContext_inj hctx, sortNonces_inj (Prod.ext hlo hhi)⟩

end Tpk

/-- The nonces in a message of the handshake. -/
structure TpkNonces where
  action : ℕ
  snonce : Bytes
  anonce : Bytes

def TdlsFrame.nonces (frame : TdlsFrame) : Option TpkNonces :=
  if frame.action = setupRequest ∨ frame.action = setupResponse ∨ frame.action = setupConfirm then
    frame.ftie.map fun ftie => ⟨frame.action, ftie.snonce, ftie.anonce⟩
  else none

def TdlsMsg.nonces (msg : TdlsMsg) (action : ℕ) : Option TpkNonces :=
  msg.ies.ftie.map fun ftie => ⟨action, ftie.snonce, ftie.anonce⟩

def TdlsAction.heard : TdlsAction → Option TpkNonces
  | .tpkM1 msg => msg.nonces setupRequest
  | .tpkM2 msg => msg.nonces setupResponse
  | .tpkM3 msg => msg.nonces setupConfirm
  | _ => none

section Outs
variable {K : Type}

def installed (out : List (TdlsOut K)) : List (StaAddr × K) :=
  out.filterMap fun
    | .setKey addr tk => some (addr, tk)
    | _ => none

def said (out : List (TdlsOut K)) : List TpkNonces :=
  out.filterMap fun
    | .send _ frame => frame.nonces
    | _ => none

@[simp] theorem installed_append (out out' : List (TdlsOut K)) :
    installed (out ++ out') = installed out ++ installed out' := List.filterMap_append

@[simp] theorem said_append (out out' : List (TdlsOut K)) :
    said (out ++ out') = said out ++ said out' := List.filterMap_append

@[simp] theorem installed_nil : installed ([] : List (TdlsOut K)) = [] := rfl
@[simp] theorem said_nil : said ([] : List (TdlsOut K)) = [] := rfl

@[simp] theorem installed_setKey (addr : StaAddr) (tk : K) (out : List (TdlsOut K)) :
    installed (.setKey addr tk :: out) = (addr, tk) :: installed out := rfl
@[simp] theorem installed_delKey (addr : StaAddr) (out : List (TdlsOut K)) :
    installed (.delKey addr :: out) = installed out := rfl
@[simp] theorem installed_micVerified (kck : K) (out : List (TdlsOut K)) :
    installed (.micVerified kck :: out) = installed out := rfl
@[simp] theorem installed_send (addr : StaAddr) (frame : TdlsFrame) (out : List (TdlsOut K)) :
    installed (.send addr frame :: out) = installed out := rfl
@[simp] theorem installed_addset (addr : StaAddr) (add : Bool) (out : List (TdlsOut K)) :
    installed (.addset addr add :: out) = installed out := rfl
@[simp] theorem installed_enableLink (addr : StaAddr) (out : List (TdlsOut K)) :
    installed (.enableLink addr :: out) = installed out := rfl
@[simp] theorem installed_disableLink (addr : StaAddr) (out : List (TdlsOut K)) :
    installed (.disableLink addr :: out) = installed out := rfl

@[simp] theorem said_setKey (addr : StaAddr) (tk : K) (out : List (TdlsOut K)) :
    said (.setKey addr tk :: out) = said out := rfl
@[simp] theorem said_delKey (addr : StaAddr) (out : List (TdlsOut K)) :
    said (.delKey addr :: out) = said out := rfl
@[simp] theorem said_micVerified (kck : K) (out : List (TdlsOut K)) :
    said (.micVerified kck :: out) = said out := rfl
@[simp] theorem said_send (addr : StaAddr) (frame : TdlsFrame) (out : List (TdlsOut K)) :
    said (.send addr frame :: out) = frame.nonces.toList ++ said out := by
  cases hnonces : frame.nonces <;> simp [said, hnonces]
@[simp] theorem said_addset (addr : StaAddr) (add : Bool) (out : List (TdlsOut K)) :
    said (.addset addr add :: out) = said out := rfl
@[simp] theorem said_enableLink (addr : StaAddr) (out : List (TdlsOut K)) :
    said (.enableLink addr :: out) = said out := rfl
@[simp] theorem said_disableLink (addr : StaAddr) (out : List (TdlsOut K)) :
    said (.disableLink addr :: out) = said out := rfl

end Outs

/-- What the entry of an address is in the middle of; nonces are the own one and the peer's. -/
inductive TpkPhase where
  | idle
  | asking (own : Bytes)
  | answering (own peer : Bytes)
  | connected (initiator : Bool) (own peer : Bytes)

namespace TpkPhase
variable {K : Type} (suite : TpkSuite K) (sm : TdlsSm) (addr : StaAddr)

/-- The message that may be sent again. -/
def resends : TpkPhase → List TpkNonces
  | idle => []
  | asking own | connected true own _ => [⟨setupRequest, own, zeros tdlsNonceLen⟩]
  | answering own peer | connected false own peer => [⟨setupResponse, peer, own⟩]

/-- The part of an entry that all phases share. -/
structure Entry (φ : TpkPhase) (peer : Peer K) : Prop where
  addr_eq : peer.addr = addr
  buf : ∀ frame, peer.smTmr.buf = some frame → ∀ n ∈ frame.nonces, n ∈ φ.resends

/-- Without privacy an entry stays idle: there are no nonces and no key. -/
def Stands (slot : Slot K) : TpkPhase → Prop
  | idle => ∀ peer, slot = some peer → Entry addr idle peer ∧ peer.tpkSet = false ∧
      peer.reconfigKey = false ∧ nonceSet peer.inonce = false ∧
      (sm.privacy → peer.initiator = false ∧ peer.tpkSuccess = false)
  | asking own => sm.privacy ∧ ∃ peer, slot = some peer ∧ Entry addr (asking own) peer ∧
      peer.initiator = true ∧ peer.inonce = own ∧ peer.tpkSet = false ∧ peer.tkSet = false ∧
      peer.tpkSuccess = false ∧ peer.tpkInProgress = true ∧ peer.reconfigKey = false
  | answering own other => sm.privacy ∧ ∃ peer, slot = some peer ∧
      Entry addr (answering own other) peer ∧ peer.initiator = false ∧ peer.rnonce = own ∧
      peer.inonce = other ∧ peer.tpkSet = true ∧ peer.tpk = tpkOf suite sm addr other own ∧
      peer.tkSet = false ∧ peer.tpkSuccess = false ∧ peer.tpkInProgress = true ∧
      peer.reconfigKey = false
  | connected initiator own other => sm.privacy ∧ ∃ peer, slot = some peer ∧
      Entry addr (connected initiator own other) peer ∧ peer.initiator = initiator ∧
      peer.inonce = (if initiator then own else other) ∧
      peer.rnonce = (if initiator then other else own) ∧ peer.tpkSet = true ∧
      peer.tpk = tpkOf suite sm addr peer.inonce peer.rnonce ∧ peer.tkSet = true ∧
      peer.tpkSuccess = true

/-- The moves of an entry: what has been heard and drawn, the calls made, and the phases. -/
inductive Moves (heard : Option TpkNonces) (random : Option Bytes) (out : List (TdlsOut K)) :
    TpkPhase → TpkPhase → Prop where
  | stay (φ : TpkPhase) (hkeys : installed out = []) (hsaid : ∀ n ∈ said out, n ∈ φ.resends) :
      Moves heard random out φ φ
  | drop (φ : TpkPhase) (hkeys : installed out = []) (hsaid : ∀ n ∈ said out, n ∈ φ.resends) :
      Moves heard random out φ idle
  | ask (φ : TpkPhase) (own : Bytes) (hrandom : random = some own) (hkeys : installed out = [])
      (hsaid : said out = [⟨setupRequest, own, zeros tdlsNonceLen⟩]) :
      Moves heard random out φ (asking own)
  | askFailed (φ : TpkPhase) (own : Bytes) (hrandom : random = some own) (hkeys : installed out = [])
      (hsaid : said out = [⟨setupRequest, own, zeros tdlsNonceLen⟩]) :
      Moves heard random out φ idle
  | answer (φ : TpkPhase) (own : Bytes) (n : TpkNonces) (hrandom : random = some own)
      (hheard : heard = some n) (hrequest : n.action = setupRequest) (hkeys : installed out = [])
      (hsaid : said out = [⟨setupResponse, n.snonce, own⟩]) :
      Moves heard random out φ (answering own n.snonce)
  | answerFailed (φ : TpkPhase) (own : Bytes) (n : TpkNonces) (hrandom : random = some own)
      (hheard : heard = some n) (hrequest : n.action = setupRequest) (hkeys : installed out = [])
      (hsaid : said out = [⟨setupResponse, n.snonce, own⟩]) :
      Moves heard random out φ idle
  | confirm (own other : Bytes) (hheard : heard = some ⟨setupResponse, own, other⟩)
      (hkeys : installed out = [(addr, (tpkOf suite sm addr own other).tk)])
      (hsaid : said out = [⟨setupConfirm, own, other⟩]) :
      Moves heard random out (asking own) (connected true own other)
  | confirmFailed (own other : Bytes) (hheard : heard = some ⟨setupResponse, own, other⟩)
      (hkeys : installed out = [] ∨
        installed out = [(addr, (tpkOf suite sm addr own other).tk)])
      (hsaid : ∀ n ∈ said out, n = ⟨setupConfirm, own, other⟩) :
      Moves heard random out (asking own) idle
  | complete (own other : Bytes) (hheard : heard = some ⟨setupConfirm, other, own⟩)
      (hkeys : installed out = [(addr, (tpkOf suite sm addr other own).tk)])
      (hsaid : said out = []) :
      Moves heard random out (answering own other) (connected false own other)
  | completeFailed (own other : Bytes) (hheard : heard = some ⟨setupConfirm, other, own⟩)
      (hkeys : installed out = [] ∨
        installed out = [(addr, (tpkOf suite sm addr other own).tk)])
      (hsaid : said out = []) :
      Moves heard random out (answering own other) idle

end TpkPhase

end Wpa.Tdls
