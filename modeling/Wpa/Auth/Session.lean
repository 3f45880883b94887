import Wpa.Auth.State

/-! The authenticator of one station as an abstract machine. A session keeps what decides which
pairwise key comes into use and which replay counters are accepted; its moves say all that the
state machines can do to it. The invariants of this file are those of the moves. -/

namespace Wpa.Auth
open Lib Bytes Prog

namespace PtkState

/-- A handshake is being prepared or under way; the ANonce is the one it uses. -/
def keyed : PtkState → Bool
  | initPmk => true
  | initPsk => true
  | ptkStart => true
  | ptkCalcNegotiating => true
  | ptkCalcNegotiating2 => true
  | ptkInitNegotiating => true
  | _ => false

/-- The PTK of the handshake may be in place and a frame verified under it. -/
def confirming : PtkState → Bool
  | ptkCalcNegotiating => true
  | ptkCalcNegotiating2 => true
  | ptkInitNegotiating => true
  | _ => false

/-- No handshake is under way. -/
def idle : PtkState → Bool
  | init => true
  | disconnect => true
  | disconnected => true
  | authentication => true
  | ptkInitDone => true
  | _ => false

end PtkState

/-- The Key Ack bit, which only an authenticator sets. -/
def hasAck (frame : Bytes) : Bool := (EapolKey.read frame).has keyInfoAck

theorem hasAck_writeAt (b t : Bytes) {off : ℕ} (h : 6 < off) : hasAck (b.writeAt off t) = hasAck b := by
  simp only [hasAck, EapolKey.has, EapolKey.read, be16_writeAt_of_lt b t h]

structure Session where
  state : PtkState
  anonce : Bytes
  ptk : Ptk
  valid : Bool
  /-- A verified pairwise frame that is not a request waits to be processed. -/
  confirmed : Bool
  disconnect : Bool
  /-- Another handshake is to start with a new ANonce. -/
  renew : Bool
  /-- One of the flags is set that every state gives way to. -/
  requested : Bool
  keyReplay : List KeyReplayCounter
  prevKeyReplay : List KeyReplayCounter
  altValid : Bool
  altCounter : Bytes
  /-- The frame that waits to be processed has the Key Ack bit. -/
  ack : Bool

def Sta.session (sm : Sta) : Session where
  state := sm.ptkState
  anonce := sm.anonce
  ptk := sm.ptk
  valid := sm.ptkValid
  confirmed := sm.pairwiseReceived && sm.micVerified
  disconnect := sm.disconnect
  renew := sm.reAuthenticationRequest || sm.ptkRequest
  requested := sm.init || sm.disconnect || sm.deauthenticationRequest || sm.authenticationRequest ||
    sm.reAuthenticationRequest || sm.ptkRequest
  keyReplay := sm.keyReplay
  prevKeyReplay := sm.prevKeyReplay
  altValid := sm.altSnonceValid
  altCounter := sm.altReplayCounter
  ack := hasAck sm.lastRxEapolKey

namespace Act

def derivation : Act → Option Derivation
  | derive d => some d
  | _ => none

def drawnAnonce : Act → Option Bytes
  | anonce a => some a
  | _ => none

/-- The temporal key that PTKINITDONE hands to the driver. -/
def installedTk : Act → Option Bytes
  | installPtk _ tk => some tk
  | _ => none

def taken : Act → Option Bytes
  | take counter => some counter
  | _ => none

/-- The counter of an accepted reply; a request has a counter of its own sequence. -/
def accepted : Act → Option Bytes
  | received msg counter => if msg = .request then none else some counter
  | _ => none

/-- A MIC is computed or found right. -/
def protects : Act → Bool
  | mic _ _ _ => true
  | micVerified _ _ => true
  | _ => false

/-- Actions that say nothing about keys and counters. -/
def quiet (a : Act) : Bool :=
  a.derivation.isNone && a.drawnAnonce.isNone && a.installedTk.isNone && a.taken.isNone &&
    a.accepted.isNone && !a.protects

end Act

def derivations (out : List Act) : List Derivation := out.filterMap Act.derivation

def drawnAnonces (out : List Act) : List Bytes := out.filterMap Act.drawnAnonce

def installedTks (out : List Act) : List Bytes := out.filterMap Act.installedTk

def takenCounters (out : List Act) : List Bytes := out.filterMap Act.taken

def acceptedCounters (out : List Act) : List Bytes := out.filterMap Act.accepted

/-- A received frame was authenticated with the key of the derivation: with its KCK, or with its
KEK where an AEAD cipher takes the place of the MIC. -/
def Derivation.Verified (d : Derivation) (out : List Act) : Prop :=
  ∃ frame, Act.micVerified d.ptk.kck frame ∈ out ∨ Act.micVerified d.ptk.kek frame ∈ out

namespace Session

/-- The frame that waits and the counters, up to the counter of an SNonce update that is given
up. -/
structure Kept (s t : Session) : Prop where
  key : t.keyReplay = s.keyReplay
  prev : t.prevKeyReplay = s.prevKeyReplay
  altCounter : t.altCounter = s.altCounter
  altValid : t.altValid → s.altValid
  ack : t.ack = s.ack

/-- Something is asked of the state machine, and the PTK may be lost for it. -/
structure Demands (s t : Session) : Prop where
  state : t.state = s.state
  anonce : t.anonce = s.anonce
  kept : s.Kept t
  valid : t.valid → s.valid ∧ t.ptk = s.ptk
  confirmed : t.confirmed → s.confirmed
  disconnect : s.disconnect → t.disconnect
  renew : t.renew → s.renew ∨ t.valid = false
  requested : s.requested → t.requested
  lost : s.valid → t.valid = false → s.state.confirming → t.requested

/-- The handshake is left. Without random data AUTHENTICATION2 is left again at once. -/
structure Leaves (s t : Session) : Prop where
  state : t.state.idle ∨ (t.state = .authentication2 ∧ t.disconnect)
  anonce : t.anonce = s.anonce
  kept : s.Kept t
  valid : t.valid → s.valid ∧ t.ptk = s.ptk
  renew : t.renew → s.renew ∨ t.valid = false
  authentication : t.state = .authentication → t.valid = false

/-- A handshake starts with a new ANonce. -/
structure Redraws (s t : Session) (a : Bytes) : Prop where
  cause : s.renew ∨ s.state = .authentication
  state : t.state = .authentication2 ∨ t.state = .ptkStart
  anonce : t.anonce = a
  kept : s.Kept t
  key : t.valid = s.valid ∧ t.ptk = s.ptk

/-- The handshake goes on with the ANonce that it has. -/
structure Advances (s t : Session) : Prop where
  origin : s.state.keyed ∨ (s.state = .authentication2 ∧ s.disconnect = false)
  state : t.state.keyed
  anonce : t.anonce = s.anonce
  kept : s.Kept t
  key : t.valid = s.valid ∧ t.ptk = s.ptk
  renew : t.renew → s.renew
  requested : s.requested → t.requested
  confirmed : t.confirmed → s.confirmed
  confirming : t.state.confirming → t.confirmed → s.state.confirming

/-- A PTK comes into use: it was derived with the ANonce of the handshake, and a frame was
verified under it. -/
structure Accepts (out : List Act) (s t : Session) : Prop where
  keyed : s.state.keyed
  state : t.state = s.state
  anonce : t.anonce = s.anonce
  kept : s.Kept t
  renew : t.renew = s.renew ∧ (s.renew = false ∨ s.valid)
  source : ∃ d ∈ derivations out, d.ptk = t.ptk ∧ d.anonce = s.anonce ∧ d.Verified out
  valid : t.valid

/-- The replay counter of a reply is one that may be accepted. -/
structure Admits (out : List Act) (s : Session) (msg : Msg) (counter : Bytes) : Prop where
  reply : msg ≠ .request
  counter : wpaReplayCounterValid s.keyReplay counter ∨
    (msg = .pairwise2 ∧ wpaReplayCounterValid s.prevKeyReplay counter) ∨
    (msg = .pairwise4 ∧ counter ∈ takenCounters out)

/-- The counters after a reply was accepted. -/
def consume (s : Session) (msg : Msg) (counter : Bytes) (confirmed : Bool) : Session :=
  let keyReplay := wpaReplayCounterMarkInvalid s.keyReplay (some counter)
  { s with
    prevKeyReplay := if msg = .pairwise2 then keyReplay else clearedCounters
    keyReplay := wpaReplayCounterMarkInvalid keyReplay none
    confirmed := confirmed }

inductive Move : Cfg Session Act → Cfg Session Act → Prop
  | quiet {s : Session} {out : List Act} (acts : List Act) (h : ∀ a ∈ acts, a.quiet) :
      Move ⟨s, out⟩ ⟨s, out ++ acts⟩
  | demand {s t : Session} {out : List Act} (h : s.Demands t) : Move ⟨s, out⟩ ⟨t, out⟩
  | leave {s t : Session} {out : List Act} (h : s.Leaves t) : Move ⟨s, out⟩ ⟨t, out⟩
  | redraw {s t : Session} {out : List Act} {a : Bytes} (h : s.Redraws t a) :
      Move ⟨s, out⟩ ⟨t, out ++ [.anonce a]⟩
  | advance {s t : Session} {out : List Act} (h : s.Advances t) : Move ⟨s, out⟩ ⟨t, out⟩
  | derive {s : Session} {out : List Act} {d : Derivation} (h : s.state.keyed)
      (hd : d.anonce = s.anonce) : Move ⟨s, out⟩ ⟨s, out ++ [.derive d]⟩
  | accept {s t : Session} {out : List Act} (h : s.Accepts out t) : Move ⟨s, out⟩ ⟨t, out⟩
  | confirm {s : Session} {out : List Act} {b : Bool} (h : b → s.valid) :
      Move ⟨s, out⟩ ⟨{ s with confirmed := b }, out⟩
  | hear {s : Session} {out : List Act} {b : Bool} (h : b → s.ack) :
      Move ⟨s, out⟩ ⟨{ s with ack := b }, out⟩
  | verify {s : Session} {out : List Act} {k frame : Bytes} (h : hasAck frame → s.ack) :
      Move ⟨s, out⟩ ⟨s, out ++ [.micVerified k frame]⟩
  | mic {s : Session} {out : List Act} {ver : ℕ} {frame : Bytes} (hv : s.valid)
      (h : hasAck frame) : Move ⟨s, out⟩ ⟨s, out ++ [.mic s.ptk.kck ver frame]⟩
  | install {s : Session} {out : List Act} {alg : WpaAlg} (hstate : s.state = .ptkInitNegotiating)
      (hconfirmed : s.confirmed) (hfree : s.requested = false) :
      Move ⟨s, out⟩ ⟨{ s with state := .ptkInitDone, confirmed := false },
        out ++ [.installPtk alg s.ptk.tk]⟩
  | take {s : Session} {out : List Act} :
      Move ⟨s, out⟩ ⟨{ s with keyReplay := takeCounter s.keyReplay },
        out ++ [.take (nextCounter s.keyReplay)]⟩
  | note {s : Session} {out : List Act} {counter : Bytes}
      (h : wpaReplayCounterValid s.prevKeyReplay counter) :
      Move ⟨s, out⟩
        ⟨{ s with altValid := true, altCounter := (s.keyReplay.headD {}).counter }, out⟩
  | waste {s : Session} {out : List Act} {msg : Msg} {counter : Bytes} :
      Move ⟨s, out⟩ ⟨s.consume msg counter s.confirmed, out⟩
  | receive {s : Session} {out : List Act} {msg : Msg} {counter : Bytes} {b : Bool}
      (h : s.Admits out msg counter) (hb : b → s.valid) :
      Move ⟨s, out⟩ ⟨s.consume msg counter b, out ++ [.received msg counter]⟩

end Session

section Lists
variable {out new : List Act}

@[simp] theorem derivations_append : derivations (out ++ new) = derivations out ++ derivations new :=
  List.filterMap_append

@[simp] theorem drawnAnonces_append :
    drawnAnonces (out ++ new) = drawnAnonces out ++ drawnAnonces new := List.filterMap_append

@[simp] theorem installedTks_append :
    installedTks (out ++ new) = installedTks out ++ installedTks new := List.filterMap_append

@[simp] theorem takenCounters_append :
    takenCounters (out ++ new) = takenCounters out ++ takenCounters new := List.filterMap_append

@[simp] theorem acceptedCounters_append :
    acceptedCounters (out ++ new) = acceptedCounters out ++ acceptedCounters new :=
  List.filterMap_append

/-- What quiet actions leave out. -/
structure Quiet (new : List Act) : Prop where
  derivations : derivations new = []
  drawn : drawnAnonces new = []
  installed : installedTks new = []
  taken : takenCounters new = []
  accepted : acceptedCounters new = []
  protects : ∀ a ∈ new, a.protects = false

theorem quiet_lists (h : ∀ a ∈ new, a.quiet) : Quiet new := by
  simp only [Act.quiet, Bool.and_eq_true, Option.isNone_iff_eq_none, Bool.not_eq_true'] at h
  constructor
  · exact List.filterMap_eq_nil_iff.mpr fun a ha => (h a ha).1.1.1.1.1
  · exact List.filterMap_eq_nil_iff.mpr fun a ha => (h a ha).1.1.1.1.2
  · exact List.filterMap_eq_nil_iff.mpr fun a ha => (h a ha).1.1.1.2
  · exact List.filterMap_eq_nil_iff.mpr fun a ha => (h a ha).1.1.2
  · exact List.filterMap_eq_nil_iff.mpr fun a ha => (h a ha).1.2
  · exact fun a ha => (h a ha).2

theorem quiet_singleton {a : Act} (h : a.quiet) : ∀ b ∈ [a], b.quiet := by
  simpa using h

theorem Derivation.Verified.append {d : Derivation} (h : d.Verified out) (new : List Act) :
    d.Verified (out ++ new) := by
  obtain ⟨frame, hframe⟩ := h
  exact ⟨frame, hframe.imp (List.mem_append_left _) (List.mem_append_left _)⟩

end Lists
end Wpa.Auth
