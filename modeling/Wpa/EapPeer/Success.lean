import Wpa.EapPeer.Machine
import Wpa.Lib.Runs

/-! When the peer accepts. The decision is only ever taken over from a method, so that SUCCESS is
entered after a method agreed in the same session. The key is the method's own as long as the
machine does not call a method it has not selected. -/

namespace Wpa.EapPeer
open Lib Bytes Eap

/-- The session a run is in: the last call of a method that was not ignored, the keys taken, and
the packet received last. -/
structure Session where
  lastCall : Option (EapMethod × EapDecision) := none
  keys : List (EapMethod × Bytes) := []
  received : Option Bytes := none

def Session.after (h : Session) : Output → Session
  | .entered .initialized => { received := h.received }
  | .entered _ => h
  | .received req => { h with received := req }
  | .processed m ret => if ret.ignore then h else { h with lastCall := some (m, ret.decision) }
  | .gotKey m key => { h with keys := (key.map fun k => (m, k)).toList ++ h.keys }

def session (out : List Output) : Session := out.foldl Session.after {}

/-- The identifier of an EAP-Success packet is the one expected, or one the workaround takes. -/
def SuccessIdOk (env : Env) (id : ℕ) (lastId : ℤ) : Prop :=
  (id : ℤ) = lastId ∨
    (env.workaround = true ∧ ((id : ℤ) = (lastId + 1) % 256 ∨ (id : ℤ) = (lastId + 2) % 256))

/-- The method of the last call that was not ignored agreed, was allowed, and gave the key. -/
def MethodAgreed (env : Env) (h : Session) (key : Option Bytes) : Prop :=
  ∃ m decision, h.lastCall = some (m, decision) ∧ decision ≠ .fail ∧
    eapConfigAllowedMethod env.config m.vendor m.method = true ∧ ∀ k ∈ key, (m, k) ∈ h.keys

/-- SUCCESS is entered in `t` after the session `h`: from RECEIVED it takes an EAP-Success packet
with the right identifier. -/
def SuccessOk (env : Env) (h : Session) (t : Event EapSm Input Output) : Prop :=
  .entered .success ∈ t.out →
    MethodAgreed env h t.post.eapKeyData ∧
      (t.pre.eapState = .received → ∃ req, h.received = some req ∧
        req.byteAt 0 = eapCodeSuccess ∧ SuccessIdOk env (req.byteAt 1) t.pre.lastId)

/-! ### What the states do to the part of the machine that decides -/

section Entries
variable {env : Env} {calls : Calls} {h : Session} {s s' : EapSm}

/-- The method, the decision, the key and the packet, as the machine has them, are those of the
session. A key is only there while the method that gave it is selected. -/
structure Inv (env : Env) (h : Session) (s : EapSm) : Prop where
  decided : s.decision ≠ .fail → ∃ m, h.lastCall = some (m, s.decision)
  allowed : ∀ m ∈ s.m, eapConfigAllowedMethod env.config m.vendor m.method = true
  called : ∀ c ∈ h.lastCall, eapConfigAllowedMethod env.config c.1.vendor c.1.method = true
  keyed : ∀ k ∈ s.eapKeyData, s.selectedMethod ≠ eapTypeNone ∧
    ∃ m decision, s.m = some m ∧ h.lastCall = some (m, decision) ∧ (m, k) ∈ h.keys
  parsed : s.rxSuccess = true → ∃ req, h.received = some req ∧
    req.byteAt 0 = eapCodeSuccess ∧ req.byteAt 1 = s.reqId

/-- The part of the machine the invariant is about. -/
def EapSm.core (s : EapSm) :
    EapDecision × Option EapMethod × Option Bytes × ℕ × Bool × ℕ :=
  (s.decision, s.m, s.eapKeyData, s.selectedMethod, s.rxSuccess, s.reqId)

theorem Inv.of_core (hinv : Inv env h s) (hcore : s'.core = s.core) : Inv env h s' := by
  obtain ⟨hdecision, hm, hkey, hselected, hsuccess, hid⟩ :
      s'.decision = s.decision ∧ s'.m = s.m ∧ s'.eapKeyData = s.eapKeyData ∧
        s'.selectedMethod = s.selectedMethod ∧ s'.rxSuccess = s.rxSuccess ∧
        s'.reqId = s.reqId := by
    simpa [EapSm.core] using hcore
  constructor
  · rw [hdecision]
    exact hinv.decided
  · rw [hm]
    exact hinv.allowed
  · exact hinv.called
  · rw [hkey, hselected, hm]
    exact hinv.keyed
  · rw [hsuccess, hid]
    exact hinv.parsed

theorem smSendResponse_core : (smSendResponse env s).core = s.core := by
  unfold smSendResponse
  cases s.eapRespData <;> rfl

theorem smIdentity_core : (smIdentity calls s).core = s.core := by
  unfold smIdentity
  split <;> rfl

theorem smNotification_core : (smNotification s).core = s.core := by
  unfold smNotification
  split <;> rfl

theorem eapDeinitPrevMethod_core (s : EapSm) (calls : Calls) :
    ∃ m, (m = s.m ∨ m = none) ∧ (eapDeinitPrevMethod s calls).core =
      (s.decision, m, s.eapKeyData, s.selectedMethod, s.rxSuccess, s.reqId) := by
  unfold eapDeinitPrevMethod
  split
  · exact ⟨s.m, Or.inl rfl, rfl⟩
  · exact ⟨none, Or.inr rfl, rfl⟩

theorem smInitialize_core (env : Env) (calls : Calls) (s : EapSm) :
    ∃ m, (m = s.m ∨ m = none) ∧ (smInitialize env calls s).core =
      (.fail, m, none, eapTypeNone, s.rxSuccess, s.reqId) := by
  simp only [smInitialize]
  split
  · exact ⟨s.m, Or.inl rfl, rfl⟩
  · obtain ⟨m, hm, hcore⟩ := eapDeinitPrevMethod_core { s with lastConfig := env.config } calls
    refine ⟨m, hm, ?_⟩
    simp only [EapSm.core, Prod.mk.injEq] at hcore ⊢
    simp [hcore]

theorem smInitialize_inv (hinv : Inv env h s) :
    Inv env (h.after (.entered .initialized)) (smInitialize env calls s) := by
  obtain ⟨m, hm, hcore⟩ := smInitialize_core env calls s
  have hnew : Inv env (h.after (.entered .initialized)) { s with
      decision := .fail
      m := m
      eapKeyData := none
      selectedMethod := eapTypeNone } := by
    refine ⟨fun hne => absurd rfl hne, ?_, by simp [Session.after], by simp, hinv.parsed⟩
    rcases hm with rfl | rfl
    · exact hinv.allowed
    · simp
  exact hnew.of_core hcore

theorem eapSmAllowMethod_allowed {vendor method : ℕ} {m : EapMethod}
    (hallow : eapSmAllowMethod env vendor method = true)
    (hget : eapPeerGetEapMethod env vendor method = some m) :
    eapConfigAllowedMethod env.config m.vendor m.method = true := by
  have hfound := List.find?_some hget
  simp only [Bool.and_eq_true, beq_iff_eq] at hfound
  rw [hfound.1, hfound.2]
  exact (Bool.and_eq_true_iff.mp hallow).1

theorem initializeMethod_core (env : Env) (calls : Calls) (s : EapSm) :
    ∃ m selected, (m = s.m ∨ m = none) ∧ (initializeMethod env calls s).core =
      (s.decision, m, s.eapKeyData, selected, s.rxSuccess, s.reqId) := by
  simp only [initializeMethod]
  split
  · exact ⟨s.m, s.selectedMethod, Or.inl rfl, rfl⟩
  · split
    · exact ⟨none, eapTypeNone, Or.inr rfl, rfl⟩
    · exact ⟨none, eapTypeNone, Or.inr rfl, rfl⟩

/-- The method of the machine, if it is not the old one, was found and is allowed. -/
theorem smGetMethod_core (env : Env) (calls : Calls) (s : EapSm) :
    ∃ m selected, (∀ x ∈ m, s.m = some x ∨
        eapConfigAllowedMethod env.config x.vendor x.method = true) ∧
      (smGetMethod env calls s).core =
        (s.decision, m, s.eapKeyData, selected, s.rxSuccess, s.reqId) := by
  simp only [smGetMethod]
  generalize hmethod : (if s.reqMethod = eapTypeExpanded then s.reqVendorMethod
    else s.reqMethod) = method
  by_cases hallow : eapSmAllowMethod env s.reqVendor method
  swap
  · rw [if_pos hallow]
    exact ⟨s.m, s.selectedMethod, fun x hx => Or.inl hx, rfl⟩
  rw [if_neg (not_not.mpr hallow)]
  -- the method data is kept, or the old method is gone
  obtain ⟨s₁, hs₁, m₁, hm₁, hcore⟩ : ∃ s₁, (if (env.fastReauth &&
      s.m.any (fun m => m.vendor == s.reqVendor && m.method == method && m.hasReauthData) &&
      calls.hasReauthData) = true then s else eapDeinitPrevMethod s calls) = s₁ ∧
      ∃ m, (m = s.m ∨ m = none) ∧ s₁.core =
        (s.decision, m, s.eapKeyData, s.selectedMethod, s.rxSuccess, s.reqId) := by
    split
    · exact ⟨s, rfl, s.m, Or.inl rfl, rfl⟩
    · exact ⟨_, rfl, eapDeinitPrevMethod_core s calls⟩
  rw [hs₁]
  simp only [EapSm.core, Prod.mk.injEq] at hcore
  obtain ⟨hdecision, hm, hkey, -, hsuccess, hid⟩ := hcore
  have hfound : ∀ x ∈ s₁.m.or (eapPeerGetEapMethod env s.reqVendor method), s.m = some x ∨
      eapConfigAllowedMethod env.config x.vendor x.method = true := by
    intro x hx
    rcases Option.or_eq_some_iff.mp hx with hold | ⟨-, hget⟩
    · rcases hm₁ with rfl | rfl
      · exact Or.inl (hm.symm.trans hold)
      · rw [hm] at hold
        cases hold
    · exact Or.inr (eapSmAllowMethod_allowed hallow hget)
  split
  · refine ⟨_, s₁.reqMethod, hfound, ?_⟩
    rw [← hdecision, ← hkey, ← hsuccess, ← hid]
    rfl
  · obtain ⟨m, selected, hm', hcore'⟩ := initializeMethod_core env calls { s₁ with
      selectedMethod := s₁.reqMethod
      m := s₁.m.or (eapPeerGetEapMethod env s.reqVendor method) }
    refine ⟨m, selected, ?_, ?_⟩
    · rcases hm' with rfl | rfl
      · exact hfound
      · simp
    · rw [hcore', ← hdecision, ← hkey, ← hsuccess, ← hid]

/-- A method is looked for while none is selected, so that there is no key of another method. -/
theorem smGetMethod_inv (hinv : Inv env h s) (hselected : s.selectedMethod = eapTypeNone) :
    Inv env h (smGetMethod env calls s) := by
  obtain ⟨m, selected, hm, hcore⟩ := smGetMethod_core env calls s
  have hnokey : s.eapKeyData = none := by
    cases hkey : s.eapKeyData with
    | none => rfl
    | some k => exact absurd hselected (hinv.keyed k hkey).1
  have hnew : Inv env h { s with m := m, selectedMethod := selected } := by
    refine ⟨hinv.decided, ?_, hinv.called, by simp [hnokey], hinv.parsed⟩
    intro x hx
    rcases hm x hx with hold | hallowed
    · exact hinv.allowed x hold
    · exact hallowed
  exact hnew.of_core hcore

/-- No key is taken from a method, or one is selected. -/
theorem smMethod_inv (hinv : Inv env h s)
    (hkey : s.selectedMethod ≠ eapTypeNone ∨
      ∀ m ∈ s.m, (m.hasKey && calls.isKeyAvailable) = false) :
    Inv env ((smMethod calls s).2.foldl Session.after h) (smMethod calls s).1 := by
  unfold smMethod
  cases hm : s.m with
  | none => exact hinv
  | some m =>
    simp only
    cases hreq : methodReq s m with
    | none => exact hinv
    | some req =>
      simp only
      generalize hret : calls.process req (methodRet s) = ret
      by_cases hignore : ret.1.ignore = true
      · rw [if_pos hignore]
        simp only [List.foldl_cons, List.foldl_nil, Session.after, if_pos hignore]
        exact hinv.of_core rfl
      rw [if_neg hignore]
      have hallowed := hinv.allowed m hm
      by_cases htake : (m.hasKey && calls.isKeyAvailable) = true
      · rw [if_pos htake]
        have hselected : s.selectedMethod ≠ eapTypeNone := by
          rcases hkey with hselected | hnone
          · exact hselected
          · exact absurd htake (by simp [hnone m hm])
        simp only [List.foldl_cons, List.foldl_nil, Session.after, if_neg hignore]
        refine ⟨fun _ => ⟨m, rfl⟩, ?_, ?_, ?_, hinv.parsed⟩
        · exact hinv.allowed
        · rintro c ⟨⟩
          exact hallowed
        · intro k hk
          have hget : calls.getKey = some k := hk
          exact ⟨hselected, m, ret.1.decision, hm, rfl, by simp [hget]⟩
      · rw [if_neg htake]
        simp only [List.foldl_cons, List.foldl_nil, Session.after, if_neg hignore]
        refine ⟨fun _ => ⟨m, rfl⟩, ?_, ?_, ?_, hinv.parsed⟩
        · exact hinv.allowed
        · rintro c ⟨⟩
          exact hallowed
        · intro k hk
          obtain ⟨hselected, m', decision, hm', -, hmem⟩ := hinv.keyed k hk
          obtain rfl : m = m' := Option.some.inj (hm.symm.trans hm')
          exact ⟨hselected, m, ret.1.decision, hm, rfl, hmem⟩

/-- An EAP-Success is seen exactly if the packet has that code, with its identifier. -/
theorem eapSmParseEapReq_core (env : Env) (s : EapSm) (req : Option Bytes) :
    ∃ rx id, (rx = true → ∃ r, req = some r ∧ r.byteAt 0 = eapCodeSuccess ∧ r.byteAt 1 = id) ∧
      (eapSmParseEapReq env s req).core =
        (s.decision, s.m, s.eapKeyData, s.selectedMethod, rx, id) := by
  unfold eapSmParseEapReq
  cases req with
  | none => exact ⟨false, 0, by simp, rfl⟩
  | some req =>
    simp only
    split
    · exact ⟨false, 0, by simp, rfl⟩
    split
    · split
      · exact ⟨false, req.byteAt 1, by simp, rfl⟩
      · split
        · exact ⟨false, req.byteAt 1, by simp, rfl⟩
        · exact ⟨false, req.byteAt 1, by simp, rfl⟩
    split
    · split
      · exact ⟨false, req.byteAt 1, by simp, rfl⟩
      · exact ⟨false, req.byteAt 1, by simp, rfl⟩
    split
    next _ _ _ hcode => exact ⟨true, req.byteAt 1, fun _ => ⟨req, rfl, hcode, rfl⟩, rfl⟩
    next =>
      split
      · exact ⟨false, req.byteAt 1, by simp, rfl⟩
      · exact ⟨false, req.byteAt 1, by simp, rfl⟩

theorem smReceived_inv (hinv : Inv env h s) :
    Inv env (h.after (.received s.eapol.eapReqData)) (smReceived env s) := by
  obtain ⟨rx, id, hrx, hcore⟩ := eapSmParseEapReq_core env s s.eapol.eapReqData
  have hnew : Inv env (h.after (.received s.eapol.eapReqData))
      { s with rxSuccess := rx, reqId := id } :=
    ⟨hinv.decided, hinv.allowed, hinv.called, hinv.keyed, hrx⟩
  exact hnew.of_core hcore

/-- Entering a state keeps the invariant, if a method is looked for only while none is selected
and a key is taken only from one that is. -/
theorem enter_inv (hinv : Inv env h s) {st : SmState}
    (hget : st = .getMethod → s.selectedMethod = eapTypeNone)
    (hkey : st = .method → s.selectedMethod ≠ eapTypeNone ∨
      ∀ m ∈ s.m, (m.hasKey && calls.isKeyAvailable) = false) :
    Inv env ((enter env calls st s).2.foldl Session.after h) (enter env calls st s).1 := by
  have hstate : Inv env h { s with eapState := st } := hinv.of_core rfl
  cases st with
  | initialized => exact smInitialize_inv hstate
  | received => exact smReceived_inv hstate
  | getMethod => exact smGetMethod_inv hstate (hget rfl)
  | method => exact smMethod_inv hstate (hkey rfl)
  | disabled => exact hinv.of_core rfl
  | idle => exact hinv.of_core rfl
  | sendResponse => exact hstate.of_core smSendResponse_core
  | discard => exact hinv.of_core rfl
  | identity => exact hstate.of_core smIdentity_core
  | notification => exact hstate.of_core smNotification_core
  | retransmit => exact hinv.of_core rfl
  | success => exact hinv.of_core rfl
  | failure => exact hinv.of_core rfl

end Entries

/-! ### Transitions -/

section Transitions
variable {env : Env} {calls : Calls} {h : Session} {s : EapSm}

/-- What has to hold for the machine to leave a state for `st`. -/
def TargetOk (env : Env) (s : EapSm) : SmState → Prop
  | .getMethod => s.selectedMethod = eapTypeNone
  | .method => s.selectedMethod ≠ eapTypeNone ∨
      (s.eapState = .getMethod ∧ s.reqMethod = eapTypeNone)
  | .success => s.decision ≠ .fail ∧
      (s.eapState = .received → s.rxSuccess = true ∧ SuccessIdOk env s.reqId s.lastId)
  | _ => True

theorem targetOk_ite {p : Prop} [Decidable p] {a b : SmState} (ha : p → TargetOk env s a)
    (hb : ¬ p → TargetOk env s b) : TargetOk env s (if p then a else b) :=
  iteInduction ha hb

theorem successIdOk_of (hid : (decide ((s.reqId : ℤ) = s.lastId) ||
    eapSuccessWorkaround env s.reqId s.lastId) = true) : SuccessIdOk env s.reqId s.lastId := by
  simpa [SuccessIdOk, eapSuccessWorkaround] using hid

/-- Without canned successes, an EAP-Success is taken with a decision and an identifier only. A
method is called in RECEIVED only while one is selected, as GET_METHOD takes the other requests. -/
theorem eapPeerSmStepReceived_ok (hcanned : eapPeerSmAllowCanned env = false) :
    TargetOk env s (eapPeerSmStepReceived env s) := by
  dsimp only [eapPeerSmStepReceived]
  have hno {p : Prop} (h : eapPeerSmAllowCanned env = true) : p := by simp [hcanned] at h
  refine targetOk_ite (fun hp => ⟨hp.2.1, fun _ => ⟨hp.1, successIdOk_of hp.2.2⟩⟩) fun _ => ?_
  refine targetOk_ite (fun hp => hno hp.2.2.2.2.2) fun _ => ?_
  refine targetOk_ite (fun _ => trivial) fun _ => ?_
  refine targetOk_ite (fun hp => hno hp.2.2.2.2.2) fun _ => ?_
  refine targetOk_ite (fun _ => trivial) fun _ => ?_
  refine targetOk_ite (fun _ => trivial) fun _ => ?_
  refine targetOk_ite (fun _ => trivial) fun _ => ?_
  refine targetOk_ite (fun _ => trivial) fun _ => ?_
  refine targetOk_ite (fun hp => hp.2.2.1) fun hget => ?_
  refine targetOk_ite (fun hp => Or.inl fun hselected => ?_) fun _ => ?_
  · have hmethod : s.reqMethod = eapTypeNone := hp.2.2.1.trans hselected
    exact hget ⟨hp.1, hp.2.1, hselected, by rw [hmethod]; decide, by rw [hmethod]; decide⟩
  refine targetOk_ite (fun hp => Or.inl ?_) fun _ => ?_
  · rw [hp.1]
    decide
  exact targetOk_ite (fun _ => trivial) fun _ => trivial

theorem eapPeerSmStepIdle_ok (hidle : s.eapState = .idle) {st : SmState}
    (htarget : eapPeerSmStepIdle s = some st) : TargetOk env s st := by
  have hsuccess (hdecision : s.decision ≠ .fail) : TargetOk env s .success :=
    ⟨hdecision, fun hreceived => absurd (hidle.symm.trans hreceived) (by decide)⟩
  unfold eapPeerSmStepIdle at htarget
  split_ifs at htarget with h₁ h₂ h₃ h₄ h₅
  · cases htarget
    trivial
  · cases htarget
    refine hsuccess ?_
    rcases h₂ with h₂ | h₂
    · exact h₂.2
    · rw [h₂.2]
      decide
  · cases htarget
    trivial
  · cases htarget
    exact hsuccess h₄.2.2.1
  · cases htarget
    exact hsuccess h₅.2.2.1

theorem eapPeerSmStepLocal_ok (hcanned : eapPeerSmAllowCanned env = false) {st : SmState}
    (htarget : eapPeerSmStepLocal env s = some st) : TargetOk env s st := by
  unfold eapPeerSmStepLocal at htarget
  cases hstate : s.eapState with
  | idle =>
    rw [hstate] at htarget
    exact eapPeerSmStepIdle_ok hstate htarget
  | received =>
    rw [hstate] at htarget
    cases htarget
    exact eapPeerSmStepReceived_ok hcanned
  | getMethod =>
    rw [hstate] at htarget
    simp only at htarget
    split at htarget
    next hselected =>
      cases htarget
      by_cases hnone : s.selectedMethod = eapTypeNone
      · exact Or.inr ⟨hstate, hselected.symm.trans hnone⟩
      · exact Or.inl hnone
    next =>
      cases htarget
      trivial
  | disabled =>
    rw [hstate] at htarget
    simp only at htarget
    split at htarget <;> cases htarget
    trivial
  | method =>
    rw [hstate] at htarget
    simp only at htarget
    split at htarget
    · cases htarget
      trivial
    · split at htarget <;> cases htarget <;> trivial
  | success =>
    rw [hstate] at htarget
    cases htarget
  | failure =>
    rw [hstate] at htarget
    cases htarget
  | _ =>
    rw [hstate] at htarget
    cases htarget
    trivial

theorem smStep_cases (calls : Calls) (s : EapSm) (hcanned : eapPeerSmAllowCanned env = false) :
    smStep env calls s = (s, []) ∨ ∃ st s₁, smStep env calls s = enter env calls st s₁ ∧
      s₁.core = s.core ∧ TargetOk env s st := by
  unfold smStep
  split
  · exact Or.inr ⟨_, s, rfl, rfl, trivial⟩
  split
  · exact Or.inr ⟨_, s, rfl, rfl, trivial⟩
  split
  · split
    · exact Or.inr ⟨_, _, rfl, rfl, trivial⟩
    · exact Or.inl rfl
  split
  · split
    · exact Or.inr ⟨_, _, rfl, rfl, trivial⟩
    · exact Or.inl rfl
  cases hlocal : eapPeerSmStepLocal env s with
  | none => exact Or.inl rfl
  | some st => exact Or.inr ⟨st, s, rfl, rfl, eapPeerSmStepLocal_ok hcanned hlocal⟩

theorem entered_mem_enter {st st' : SmState} (hmem : .entered st' ∈ (enter env calls st s).2) :
    st = st' := by
  have hmethod : ∀ s : EapSm, .entered st' ∉ (smMethod calls s).2 := by
    intro s
    unfold smMethod
    cases s.m with
    | none => simp
    | some m =>
      simp only
      cases methodReq s m with
      | none => simp
      | some req =>
        simp only
        split
        · simp
        · split <;> simp
  unfold enter at hmem
  cases st <;> simp_all

end Transitions

/-! ### Runs -/

/-- A method kept from an earlier session gives a key for a request of type 0, which is the type of
no method at all: GET_METHOD refuses it, and the machine goes on to METHOD, as the type it has
selected, none, is the one requested. -/
def StaleKey (s : EapSm) (calls : Calls) : Prop :=
  s.eapState = .getMethod ∧ s.selectedMethod = eapTypeNone ∧ s.reqMethod = eapTypeNone ∧
    (∃ m ∈ s.m, m.hasKey = true) ∧ calls.isKeyAvailable = true

instance (s : EapSm) (calls : Calls) : Decidable (StaleKey s calls) :=
  inferInstanceAs (Decidable (_ ∧ _ ∧ _ ∧ _ ∧ _))

def StepOk (s : EapSm) : Input → Prop
  | .step calls => ¬ StaleKey s calls
  | _ => True

instance (s : EapSm) : (i : Input) → Decidable (StepOk s i)
  | .step calls => inferInstanceAs (Decidable (¬ StaleKey s calls))
  | .packet _ => inferInstanceAs (Decidable True)
  | .tick => inferInstanceAs (Decidable True)
  | .altAccept _ => inferInstanceAs (Decidable True)
  | .altReject _ => inferInstanceAs (Decidable True)
  | .restart => inferInstanceAs (Decidable True)
  | .portEnabled _ => inferInstanceAs (Decidable True)
  | .abort => inferInstanceAs (Decidable True)

section Runs
open Lib.Runs
variable {env : Env} {h : Session} {s : EapSm}

theorem smStep_inv (hcanned : eapPeerSmAllowCanned env = false) {calls : Calls}
    (hinv : Inv env h s) (hok : ¬ StaleKey s calls) :
    Inv env ((smStep env calls s).2.foldl Session.after h) (smStep env calls s).1 := by
  rcases smStep_cases calls s hcanned with hsame | ⟨st, s₁, henter, hcore, htarget⟩
  · rw [hsame]
    exact hinv
  have hselected : s₁.selectedMethod = s.selectedMethod := by
    simp only [EapSm.core, Prod.mk.injEq] at hcore
    exact hcore.2.2.2.1
  have hm : s₁.m = s.m := by
    simp only [EapSm.core, Prod.mk.injEq] at hcore
    exact hcore.2.1
  rw [henter]
  refine enter_inv (hinv.of_core hcore) ?_ ?_
  · rintro rfl
    exact hselected.trans htarget
  · rintro rfl
    rw [hselected, hm]
    by_cases hnone : s.selectedMethod = eapTypeNone
    · rcases htarget with hne | ⟨hstate, hreq⟩
      · exact absurd hnone hne
      refine Or.inr fun m hmem => ?_
      by_contra htake
      rw [Bool.not_eq_false, Bool.and_eq_true] at htake
      exact hok ⟨hstate, hnone, hreq, ⟨m, hmem, htake.1⟩, htake.2⟩
    · exact Or.inl hnone

theorem step_inv (hcanned : eapPeerSmAllowCanned env = false) (i : Input) (hinv : Inv env h s)
    (hok : StepOk s i) : Inv env ((step env s i).2.foldl Session.after h) (step env s i).1 := by
  cases i with
  | step calls => exact smStep_inv hcanned hinv hok
  | abort =>
    refine ⟨hinv.decided, hinv.allowed, hinv.called, ?_, hinv.parsed⟩
    rintro k ⟨⟩
  | _ => exact hinv.of_core rfl

theorem session_append (out out' : List Output) :
    session (out ++ out') = out'.foldl Session.after (session out) :=
  List.foldl_append

/-- The invariant holds all along a run. -/
theorem run_inv (hcanned : eapPeerSmAllowCanned env = false) (inputs : List Input)
    (hok : ∀ t ∈ trace (step env) {} inputs, StepOk t.pre t.input) :
    Inv env (session (outputs (trace (step env) {} inputs))) (final (step env) {} inputs) := by
  refine history_induction (I := fun past s => Inv env (session (outputs past)) s) ?_ ?_ inputs hok
  · exact ⟨by simp, by simp, by simp [session], by simp, by simp⟩
  · intro past s i hinv hstep
    rw [outputs_concat, session_append]
    exact step_inv hcanned i hinv hstep

theorem step_successOk (hcanned : eapPeerSmAllowCanned env = false) (i : Input)
    (hinv : Inv env h s) : SuccessOk env h (event (step env) s i) := by
  intro hmem
  cases i with
  | step calls =>
    change .entered .success ∈ (smStep env calls s).2 at hmem
    change MethodAgreed env h (smStep env calls s).1.eapKeyData ∧ _
    rcases smStep_cases calls s hcanned with hsame | ⟨st, s₁, henter, hcore, htarget⟩
    · rw [hsame] at hmem
      cases hmem
    rw [henter] at hmem ⊢
    obtain rfl := entered_mem_enter hmem
    obtain ⟨hdecision, hreceived⟩ := htarget
    have hkey : s₁.eapKeyData = s.eapKeyData := by
      simp only [EapSm.core, Prod.mk.injEq] at hcore
      exact hcore.2.2.1
    obtain ⟨m, hlast⟩ := hinv.decided hdecision
    constructor
    · refine ⟨m, s.decision, hlast, hdecision, hinv.called _ hlast, ?_⟩
      intro k hk
      change s₁.eapKeyData = some k at hk
      obtain ⟨-, m', decision, -, hlast', hgiven⟩ := hinv.keyed k (hkey.symm.trans hk)
      obtain ⟨rfl, -⟩ := Prod.mk.inj (Option.some.inj (hlast.symm.trans hlast'))
      exact hgiven
    · intro hstate
      obtain ⟨hrx, hid⟩ := hreceived hstate
      obtain ⟨req, hreq, hcode, hident⟩ := hinv.parsed hrx
      exact ⟨req, hreq, hcode, by rw [hident]; exact hid⟩
  | _ => cases hmem

/-- A method that keeps its data for fast re-authentication, and one that has no key. -/
def peapMethod : EapMethod := ⟨eapVendorIetf, eapTypePeap, true, true, true⟩

def gtcMethod : EapMethod := ⟨eapVendorIetf, 6, false, false, false⟩

def reauthEnv : Env where
  methods := [peapMethod, gtcMethod]
  config := some ⟨none, false⟩
  fastReauth := true
  workaround := false
  forceDisabled := false
  sha1 := id

/-- Any method called agrees, with this key. -/
def agree (key : Option Bytes) : Input := .step {
  hasReauthData := true
  initOk := true
  pendingReq := false
  process := fun _ _ => (⟨false, .mayCont, .condSucc, false⟩, some [2, 1, 0, 5, 25])
  isKeyAvailable := key.isSome
  getKey := key
  getSessionId := none
  leapDone := false
  peapDone := false
  buildIdentity := none }

def eapRequest (id type : UInt8) : Input := .packet (some [1, id, 0, 5, type])

/-- The states from IDLE over RECEIVED, GET_METHOD, METHOD and SEND_RESPONSE back to IDLE. -/
def newMethod (id type : UInt8) (key : Option Bytes) : List Input :=
  eapRequest id type :: List.replicate 5 (agree key)

def startSession : List Input := [.restart, agree none, agree none]

def peapRun : List Input :=
  .portEnabled true :: (startSession ++ newMethod 1 25 (some [7]) ++
    [.packet (some [3, 1, 0, 4]), agree none])

/-- The data of the first session is kept, gives a key for a request of type 0, and the method that
is then selected has none: SUCCESS is entered with the key of the other method. -/
def staleKeyRun : List Input :=
  .portEnabled true :: (startSession ++ newMethod 1 25 (some [7]) ++ startSession ++
    newMethod 2 0 (some [7]) ++ newMethod 3 6 none ++ [.packet (some [3, 3, 0, 4]), agree none])

end Runs

end Wpa.EapPeer
