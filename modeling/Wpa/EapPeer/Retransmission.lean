import Wpa.EapPeer.Machine
import Wpa.Lib.Runs

/-! Copies of a request that has been answered. Besides the inputs of the machine, a run has EAPOL
take the response, which leaves the machine with the copy that it keeps for retransmissions. -/

namespace Wpa.EapPeer
open Lib Bytes Eap Runs

/-- `eap_get_eapRespData`. -/
def eapGetEapRespData (s : EapSm) : EapSm × Option Bytes :=
  ({ s with eapRespData := none }, s.eapRespData)

inductive Act where
  | input (i : Input)
  | getEapRespData

/-- A run so far: the machine, the packet it has parsed last, and the requests that it has answered
since, each with the response, until another one takes their place. -/
structure Track where
  sm : EapSm := {}
  req : Option Bytes := none
  answered : List (Bytes × Bytes) := []

/-- The request that a response is sent for. -/
def answersTo (s : EapSm) (req : Option Bytes) : List (Bytes × Bytes) :=
  if s.rxReq then (req.bind fun q => s.eapRespData.map fun r => (q, r)).toList else []

/-- What an output of a step to `s` says about the answers. A response that is sent again is one for
all requests that it has been sent for. -/
def Track.note (s : EapSm) (t : Track) : Output → Track
  | .received req => { t with req := req }
  | .entered .initialized => { t with answered := [] }
  | .entered .sendResponse =>
    { t with
      answered := if s.eapRespData = none then []
        else answersTo s t.req ++ if t.sm.eapState = .retransmit then t.answered else [] }
  | _ => t

/-- One step of a run. Nothing is answered any more where the machine is aborted. -/
def Track.step (env : Env) (t : Track) : Act → Track × List Output
  | .getEapRespData => ({ t with sm := (eapGetEapRespData t.sm).1 }, [])
  | .input .abort => ({ t with sm := eapSmAbort t.sm, answered := [] }, [])
  | .input i =>
    let (s, out) := EapPeer.step env t.sm i
    ({ out.foldl (Track.note s) t with sm := s }, out)

/-- A packet that `eap_sm_parseEapReq` takes for a request. -/
structure IsRequest (q : Bytes) : Prop where
  hdr : eapHdrSize ≤ q.length
  whole : q.be16 2 ≤ q.length
  code : q.byteAt 0 = eapCodeRequest.toNat
  type : eapHdrSize + 1 ≤ q.be16 2

/-- The hash of the request, as the machine takes it. -/
def reqHash (env : Env) (q : Bytes) : Bytes := env.sha1 (q.take (q.be16 2))

/-- The machine has the response and tells the request again. -/
structure Answered (env : Env) (s : EapSm) (q r : Bytes) : Prop where
  isRequest : IsRequest q
  lastId : s.lastId = q.byteAt 1
  lastSha1 : env.workaround = true → s.lastSha1 = reqHash env q
  lastRespData : s.lastRespData = some r

/-- The machine has parsed this request. -/
structure Parsed (env : Env) (s : EapSm) (q : Bytes) : Prop where
  isRequest : IsRequest q
  reqId : s.reqId = q.byteAt 1
  reqSha1 : env.workaround = true → s.reqSha1 = reqHash env q

structure Track.Inv (env : Env) (t : Track) : Prop where
  parsed : t.sm.rxReq = true → ∃ q, t.req = some q ∧ Parsed env t.sm q
  answered : ∀ q r, (q, r) ∈ t.answered → Answered env t.sm q r
  retransmit : t.sm.eapState = .retransmit → t.sm.eapRespData = none ∨
    (t.sm.eapRespData = t.sm.lastRespData ∧ (t.sm.reqId : ℤ) = t.sm.lastId ∧
      (env.workaround = true → t.sm.reqSha1 = t.sm.lastSha1))

section Parse
variable {env : Env} {s : EapSm} {q : Bytes}

/-- A request is parsed, whatever method it is for. -/
theorem eapSmParseEapReq_request (env : Env) (s : EapSm) (hq : IsRequest q) :
    ∃ method vendor vendorMethod, eapSmParseEapReq env s (some q) = { s with
      rxReq := true, rxResp := false, rxSuccess := false, rxFailure := false
      reqId := q.byteAt 1, reqMethod := method, reqVendor := vendor
      reqVendorMethod := vendorMethod
      reqSha1 := if env.workaround then reqHash env q else s.reqSha1 } := by
  have hbad : ¬ (q.length < eapHdrSize ∨ q.be16 2 > q.length) :=
    not_or.mpr ⟨Nat.not_lt.mpr hq.hdr, Nat.not_lt.mpr hq.whole⟩
  have htype : ¬ q.be16 2 < eapHdrSize + 1 := Nat.not_lt.mpr hq.type
  unfold eapSmParseEapReq
  simp only [if_neg hbad, if_pos hq.code, if_neg htype]
  split
  · exact ⟨_, _, _, rfl⟩
  · exact ⟨_, _, _, rfl⟩

/-- Only a request is taken for one. -/
theorem isRequest_of_rxReq {req : Option Bytes}
    (h : (eapSmParseEapReq env s req).rxReq = true) : ∃ q, req = some q ∧ IsRequest q := by
  unfold eapSmParseEapReq at h
  cases req with
  | none => cases h
  | some q =>
    simp only at h
    split at h
    · cases h
    · rename_i hbad
      rw [not_or, Nat.not_lt, Nat.not_lt] at hbad
      split at h
      · rename_i hcode
        split at h
        · cases h
        · rename_i htype
          exact ⟨q, rfl, hbad.1, hbad.2, hcode, Nat.not_lt.mp htype⟩
      · split at h
        · split at h <;> cases h
        · split at h
          · cases h
          · split at h <;> cases h

end Parse

/-! ### What a step does to the part of the machine that tells requests apart -/

section Memory
variable {env : Env} {calls : Calls} {s s' : EapSm} {st : SmState} {t : Track}

/-- The request parsed last, and the one answered last. -/
def EapSm.memory (s : EapSm) : Bool × ℕ × Bytes × ℤ × Bytes × Option Bytes :=
  (s.rxReq, s.reqId, s.reqSha1, s.lastId, s.lastSha1, s.lastRespData)

/-- What most states leave alone. -/
def EapSm.frame (s : EapSm) : SmState × Bool × ℕ × Bytes × ℤ × Bytes × Option Bytes :=
  (s.eapState, s.memory)

theorem eapDeinitPrevMethod_frame (s : EapSm) (calls : Calls) :
    (eapDeinitPrevMethod s calls).frame = s.frame := by
  unfold eapDeinitPrevMethod
  split <;> rfl

theorem initializeMethod_frame (env : Env) (calls : Calls) (s : EapSm) :
    (initializeMethod env calls s).frame = s.frame := by
  unfold initializeMethod
  simp only
  split
  · rfl
  · split <;> rfl

theorem smGetMethod_frame (env : Env) (calls : Calls) (s : EapSm) :
    (smGetMethod env calls s).frame = s.frame := by
  simp only [smGetMethod]
  generalize (if s.reqMethod = eapTypeExpanded then s.reqVendorMethod else s.reqMethod) = method
  by_cases hallow : eapSmAllowMethod env s.reqVendor method
  · rw [if_neg (not_not.mpr hallow)]
    obtain ⟨s₁, hs₁, hframe⟩ : ∃ s₁, (if (env.fastReauth &&
        s.m.any (fun m => m.vendor == s.reqVendor && m.method == method && m.hasReauthData) &&
        calls.hasReauthData) = true then s else eapDeinitPrevMethod s calls) = s₁ ∧
        s₁.frame = s.frame := by
      split
      · exact ⟨s, rfl, rfl⟩
      · exact ⟨_, rfl, eapDeinitPrevMethod_frame s calls⟩
    rw [hs₁]
    split
    · exact hframe
    · exact (initializeMethod_frame env calls _).trans hframe
  · rw [if_pos hallow]
    rfl

theorem smMethod_frame (calls : Calls) (s : EapSm) : (smMethod calls s).1.frame = s.frame := by
  unfold smMethod
  cases s.m with
  | none => rfl
  | some m =>
    simp only
    cases methodReq s m with
    | none => rfl
    | some req =>
      simp only
      split
      · rfl
      · split <;> rfl

theorem smIdentity_frame (calls : Calls) (s : EapSm) : (smIdentity calls s).frame = s.frame := by
  unfold smIdentity
  split <;> rfl

theorem smNotification_frame (s : EapSm) : (smNotification s).frame = s.frame := by
  unfold smNotification
  split <;> rfl

/-- Only a packet and a response change what the machine remembers, and a new session. -/
theorem enter_memory (hreceived : st ≠ .received) (hsend : st ≠ .sendResponse)
    (hinit : st ≠ .initialized) : (enter env calls st s).1.memory = s.memory := by
  cases st with
  | received => exact absurd rfl hreceived
  | sendResponse => exact absurd rfl hsend
  | initialized => exact absurd rfl hinit
  | getMethod => exact congrArg Prod.snd (smGetMethod_frame env calls _)
  | method => exact congrArg Prod.snd (smMethod_frame calls _)
  | identity => exact congrArg Prod.snd (smIdentity_frame calls _)
  | notification => exact congrArg Prod.snd (smNotification_frame _)
  | _ => rfl

theorem smInitialize_state (env : Env) (calls : Calls) (s : EapSm) :
    (smInitialize env calls s).eapState = s.eapState := by
  unfold smInitialize
  simp only
  split
  · rfl
  · exact congrArg Prod.fst (eapDeinitPrevMethod_frame _ calls)

theorem smInitialize_memory (env : Env) (calls : Calls) (s : EapSm) :
    (smInitialize env calls s).rxReq = s.rxReq ∧ (smInitialize env calls s).reqId = s.reqId ∧
      (smInitialize env calls s).reqSha1 = s.reqSha1 := by
  unfold smInitialize
  simp only
  split
  · exact ⟨rfl, rfl, rfl⟩
  · have hkept := eapDeinitPrevMethod_frame { s with lastConfig := env.config } calls
    simp only [EapSm.frame, EapSm.memory, Prod.mk.injEq] at hkept
    exact ⟨hkept.2.1, hkept.2.2.1, hkept.2.2.2.1⟩

theorem eapSmParseEapReq_state (env : Env) (s : EapSm) (req : Option Bytes) :
    (eapSmParseEapReq env s req).eapState = s.eapState := by
  unfold eapSmParseEapReq
  cases req with
  | none => rfl
  | some q =>
    simp only
    split
    · rfl
    split
    · split
      · rfl
      · split <;> rfl
    split
    · split <;> rfl
    split
    · rfl
    · split <;> rfl

/-- Entering a state leads there. -/
theorem enter_state : (enter env calls st s).1.eapState = st := by
  cases st with
  | initialized => exact smInitialize_state env calls _
  | received => exact eapSmParseEapReq_state env _ _
  | getMethod => exact congrArg Prod.fst (smGetMethod_frame env calls _)
  | method => exact congrArg Prod.fst (smMethod_frame calls _)
  | sendResponse =>
    simp only [enter, smSendResponse]
    cases s.eapRespData <;> rfl
  | identity => exact congrArg Prod.fst (smIdentity_frame calls _)
  | notification => exact congrArg Prod.fst (smNotification_frame _)
  | _ => rfl

theorem retransmit_ite {p q : Prop} [Decidable p] {a b : SmState} (ha : p → a = .retransmit → q)
    (hb : b = .retransmit → q) : (if p then a else b) = .retransmit → q :=
  iteInduction (motive := fun st : SmState => st = .retransmit → q) ha fun _ => hb

theorem eapPeerSmStepReceived_retransmit :
    eapPeerSmStepReceived env s = .retransmit → eapPeerReqIsDuplicate env s = true := by
  dsimp only [eapPeerSmStepReceived]
  refine retransmit_ite nofun ?_
  refine retransmit_ite nofun ?_
  refine retransmit_ite nofun ?_
  refine retransmit_ite nofun ?_
  refine retransmit_ite nofun ?_
  refine retransmit_ite (fun hduplicate _ => hduplicate.2) ?_
  refine retransmit_ite nofun ?_
  refine retransmit_ite nofun ?_
  refine retransmit_ite nofun ?_
  refine retransmit_ite nofun ?_
  refine retransmit_ite nofun ?_
  exact retransmit_ite nofun nofun

theorem eapPeerSmStepIdle_retransmit : eapPeerSmStepIdle s ≠ some .retransmit := by
  unfold eapPeerSmStepIdle
  repeat' split
  all_goals exact fun h => by cases h

/-- RETRANSMIT is entered for a duplicate, and from nowhere else than RECEIVED. -/
theorem eapPeerSmStepLocal_retransmit (h : eapPeerSmStepLocal env s = some .retransmit) :
    eapPeerReqIsDuplicate env s = true := by
  unfold eapPeerSmStepLocal at h
  cases hstate : s.eapState with
  | received =>
    rw [hstate] at h
    exact eapPeerSmStepReceived_retransmit (Option.some.inj h)
  | idle =>
    rw [hstate] at h
    exact absurd h eapPeerSmStepIdle_retransmit
  | disabled =>
    rw [hstate] at h
    simp only at h
    split at h <;> cases h
  | getMethod =>
    rw [hstate] at h
    simp only at h
    split at h <;> cases h
  | method =>
    rw [hstate] at h
    simp only at h
    split at h
    · cases h
    · split at h <;> cases h
  | _ =>
    rw [hstate] at h
    cases h

/-- A step does nothing, or it enters a state: RETRANSMIT for a duplicate, and SEND_RESPONSE from the
machine as it is. -/
theorem smStep_enters (env : Env) (calls : Calls) (s : EapSm) :
    smStep env calls s = (s, []) ∨ ∃ st s₁, smStep env calls s = enter env calls st s₁ ∧
      s₁.memory = s.memory ∧ (st = .retransmit → eapPeerReqIsDuplicate env s = true) ∧
      (st = .sendResponse → s₁ = s) := by
  unfold smStep
  split
  · exact .inr ⟨_, s, rfl, rfl, nofun, nofun⟩
  split
  · exact .inr ⟨_, s, rfl, rfl, nofun, nofun⟩
  split
  · split
    · exact .inr ⟨_, _, rfl, rfl, nofun, nofun⟩
    · exact .inl rfl
  split
  · split
    · exact .inr ⟨_, _, rfl, rfl, nofun, nofun⟩
    · exact .inl rfl
  cases hlocal : eapPeerSmStepLocal env s with
  | none => exact .inl rfl
  | some st =>
    refine .inr ⟨st, s, rfl, rfl, ?_, fun _ => rfl⟩
    rintro rfl
    exact eapPeerSmStepLocal_retransmit hlocal

theorem Parsed.of_memory {q : Bytes} (h : Parsed env s q) (hmem : s'.memory = s.memory) :
    Parsed env s' q := by
  simp only [EapSm.memory, Prod.mk.injEq] at hmem
  exact ⟨h.isRequest, hmem.2.1.trans h.reqId, fun hw => hmem.2.2.1.trans (h.reqSha1 hw)⟩

theorem Answered.of_memory {q r : Bytes} (h : Answered env s q r) (hmem : s'.memory = s.memory) :
    Answered env s' q r := by
  simp only [EapSm.memory, Prod.mk.injEq] at hmem
  exact ⟨h.isRequest, hmem.2.2.2.1.trans h.lastId, fun hw => hmem.2.2.2.2.1.trans (h.lastSha1 hw),
    hmem.2.2.2.2.2.trans h.lastRespData⟩

/-- What only moves the machine on keeps the invariant. -/
theorem Track.Inv.of_memory (h : t.Inv env) (hmem : s'.memory = t.sm.memory)
    (hstate : s'.eapState = .retransmit → s'.eapRespData = none ∨
      (s'.eapRespData = s'.lastRespData ∧ (s'.reqId : ℤ) = s'.lastId ∧
        (env.workaround = true → s'.reqSha1 = s'.lastSha1))) :
    Track.Inv env { t with sm := s' } := by
  refine ⟨?_, ?_, hstate⟩
  · intro hrx
    have hrx' : t.sm.rxReq = true := (congrArg Prod.fst hmem).symm.trans hrx
    obtain ⟨q, hreq, hparsed⟩ := h.parsed hrx'
    exact ⟨q, hreq, hparsed.of_memory hmem⟩
  · intro q r hqr
    exact (h.answered q r hqr).of_memory hmem

theorem eapSmParseEapReq_last (env : Env) (s : EapSm) (req : Option Bytes) :
    (eapSmParseEapReq env s req).lastId = s.lastId ∧
      (eapSmParseEapReq env s req).lastSha1 = s.lastSha1 ∧
      (eapSmParseEapReq env s req).lastRespData = s.lastRespData := by
  unfold eapSmParseEapReq
  cases req with
  | none => exact ⟨rfl, rfl, rfl⟩
  | some q =>
    simp only
    split
    · exact ⟨rfl, rfl, rfl⟩
    split
    · split
      · exact ⟨rfl, rfl, rfl⟩
      · split <;> exact ⟨rfl, rfl, rfl⟩
    split
    · split <;> exact ⟨rfl, rfl, rfl⟩
    split
    · exact ⟨rfl, rfl, rfl⟩
    · split <;> exact ⟨rfl, rfl, rfl⟩

/-- What is not about packets, responses and sessions leaves the answers as they are. -/
theorem foldl_note {out : List Output} (h : ∀ o ∈ out, Track.note s' t o = t) :
    out.foldl (Track.note s') t = t := by
  induction out with
  | nil => rfl
  | cons o out ih =>
    rw [List.foldl_cons, h o List.mem_cons_self]
    exact ih fun o ho => h o (List.mem_cons_of_mem _ ho)

theorem smMethod_note (calls : Calls) (s : EapSm) :
    ∀ o ∈ (smMethod calls s).2, Track.note s' t o = t := by
  unfold smMethod
  cases s.m with
  | none => simp
  | some m =>
    simp only
    cases methodReq s m with
    | none => simp
    | some req =>
      simp only
      split
      · simp [Track.note]
      · split <;> simp [Track.note]

theorem Track.Inv.parsed_of (h : t.Inv env) (hrx : s'.rxReq = t.sm.rxReq)
    (hid : s'.reqId = t.sm.reqId) (hsha1 : s'.reqSha1 = t.sm.reqSha1) (hrx' : s'.rxReq = true) :
    ∃ q, t.req = some q ∧ Parsed env s' q := by
  obtain ⟨q, hreq, hparsed⟩ := h.parsed (hrx.symm.trans hrx')
  exact ⟨q, hreq, hparsed.isRequest, hid.trans hparsed.reqId,
    fun hw => hsha1.trans (hparsed.reqSha1 hw)⟩

/-- A packet is parsed, and what has been answered before stays so. -/
theorem Track.Inv.received (h : t.Inv env) (hmem : s.memory = t.sm.memory)
    (hstate : s.eapState = .received) :
    Track.Inv env { t with sm := smReceived env s, req := s.eapol.eapReqData } := by
  obtain ⟨hid, hsha1, hresp⟩ := eapSmParseEapReq_last env s s.eapol.eapReqData
  refine ⟨?_, ?_, ?_⟩
  · intro hrx
    obtain ⟨q, hreq, hq⟩ := isRequest_of_rxReq hrx
    obtain ⟨method, vendor, vendorMethod, hparse⟩ := eapSmParseEapReq_request env s hq
    refine ⟨q, hreq, hq, ?_, ?_⟩
    · simp only [smReceived, hreq, hparse]
    · intro hw
      simp only [smReceived, hreq, hparse, if_pos hw]
  · intro q r hqr
    obtain ⟨hq, hlast, hhash, hdata⟩ := (h.answered q r hqr).of_memory hmem
    exact ⟨hq, hid.trans hlast, fun hw => hsha1.trans (hhash hw), hresp.trans hdata⟩
  · intro hretransmit
    have hsame : (smReceived env s).eapState = s.eapState := eapSmParseEapReq_state env s _
    rw [hsame, hstate] at hretransmit
    cases hretransmit

/-- A response is kept with what tells the request, which is the one that a response sent again
belongs to. -/
theorem Track.Inv.sendResponse (h : t.Inv env) :
    Track.Inv env { Track.note (smSendResponse env { t.sm with eapState := .sendResponse }) t
      (.entered .sendResponse) with
        sm := smSendResponse env { t.sm with eapState := .sendResponse } } := by
  cases hresp : t.sm.eapRespData with
  | none =>
    have hsend : smSendResponse env { t.sm with eapState := .sendResponse } =
        { t.sm with
          eapState := .sendResponse
          lastRespData := none
          reauthInit := false
          eapol := { t.sm.eapol with eapReq := false, idleWhile := t.sm.clientTimeout } } := by
      simp only [smSendResponse, hresp]
    rw [hsend]
    refine ⟨h.parsed_of rfl rfl rfl, ?_, nofun⟩
    intro q r hqr
    simp only [Track.note, hresp, if_true, List.not_mem_nil] at hqr
  | some resp =>
    have hsend : smSendResponse env { t.sm with eapState := .sendResponse } =
        { t.sm with
          eapState := .sendResponse
          numRoundsShort := if resp.length ≥ 20 then 0 else t.sm.numRoundsShort
          lastSha1 := if env.workaround then t.sm.reqSha1 else t.sm.lastSha1
          lastId := t.sm.reqId
          lastRespData := some resp
          reauthInit := false
          eapol := { t.sm.eapol with
            eapResp := true, eapReq := false, idleWhile := t.sm.clientTimeout } } := by
      simp only [smSendResponse, hresp]
    rw [hsend]
    refine ⟨h.parsed_of rfl rfl rfl, ?_, nofun⟩
    intro q r hqr
    simp only [Track.note, hresp, reduceCtorEq, if_false, List.mem_append, answersTo] at hqr
    obtain hnew | hold := hqr
    · by_cases hrx : t.sm.rxReq = true
      · obtain ⟨q', hreq, hq, hid, hsha1⟩ := h.parsed hrx
        rw [if_pos hrx, hreq] at hnew
        simp only [Option.bind_some, Option.map_some, Option.toList_some, List.mem_singleton,
          Prod.mk.injEq] at hnew
        obtain ⟨rfl, rfl⟩ := hnew
        refine ⟨hq, congrArg Nat.cast hid, ?_, rfl⟩
        intro hw
        exact (if_pos hw).trans (hsha1 hw)
      · rw [if_neg hrx] at hnew
        cases hnew
    · split at hold
      · rename_i hstate
        obtain ⟨hq, hlast, hhash, hdata⟩ := h.answered q r hold
        obtain hnone | ⟨hsame, hid, hdup⟩ := h.retransmit hstate
        · rw [hresp] at hnone
          cases hnone
        · rw [hresp, hdata] at hsame
          refine ⟨hq, hid.trans hlast, ?_, hsame⟩
          intro hw
          exact (if_pos hw).trans ((hdup hw).trans (hhash hw))
      · cases hold

/-- Every step keeps the invariant. -/
theorem Track.Inv.step (h : t.Inv env) (a : Act) : (t.step env a).1.Inv env := by
  cases a with
  | getEapRespData => exact h.of_memory rfl fun _ => .inl rfl
  | input i =>
    cases i with
    | abort =>
      exact ⟨h.parsed_of rfl rfl rfl, fun q r hqr => absurd hqr List.not_mem_nil,
        fun _ => .inl rfl⟩
    | step calls =>
      obtain hsame | ⟨st, s₁, henter, hmem, hdup, hsend⟩ := smStep_enters env calls t.sm
      · have hstep : (t.step env (.input (.step calls))).1 = t := by
          simp only [Track.step, EapPeer.step, hsame, List.foldl_nil]
        rw [hstep]
        exact h
      · have hstep : (t.step env (.input (.step calls))).1 =
            { (enter env calls st s₁).2.foldl (Track.note (enter env calls st s₁).1) t with
              sm := (enter env calls st s₁).1 } := by
          simp only [Track.step, EapPeer.step, henter]
        rw [hstep]
        cases st with
        | received =>
          have hnext := @Track.Inv.received env { s₁ with eapState := .received } t h hmem rfl
          exact hnext
        | sendResponse =>
          obtain rfl := hsend rfl
          exact h.sendResponse
        | initialized =>
          obtain ⟨hrx, hid, hsha1⟩ := smInitialize_memory env calls { s₁ with eapState := .initialized }
          simp only [EapSm.memory, Prod.mk.injEq] at hmem
          refine ⟨h.parsed_of (hrx.trans hmem.1) (hid.trans hmem.2.1) (hsha1.trans hmem.2.2.1),
            fun q r hqr => absurd hqr List.not_mem_nil, ?_⟩
          intro hstate
          have hinit := smInitialize_state env calls { s₁ with eapState := .initialized }
          exact absurd (hinit.symm.trans hstate)
            (show ¬ SmState.initialized = .retransmit by decide)
        | retransmit =>
          refine h.of_memory hmem fun _ => .inr ⟨rfl, ?_⟩
          have hduplicate := hdup rfl
          simp only [EapSm.memory, Prod.mk.injEq] at hmem
          simp only [eapPeerReqIsDuplicate, Bool.and_eq_true, decide_eq_true_eq, Bool.not_eq_true',
            Bool.and_eq_false_iff, decide_eq_false_iff_not, not_not] at hduplicate
          obtain ⟨⟨hid, -⟩, hsha1⟩ := hduplicate
          refine ⟨?_, ?_⟩
          · show (s₁.reqId : ℤ) = s₁.lastId
            rw [hmem.2.1, hmem.2.2.2.1]
            exact hid
          · intro hw
            show s₁.reqSha1 = s₁.lastSha1
            rw [hmem.2.2.1, hmem.2.2.2.2.1]
            exact hsha1.resolve_left fun hfalse => by rw [hw] at hfalse; cases hfalse
        | method =>
          have hmethod (s' : EapSm) : (smMethod calls { s₁ with eapState := .method }).2.foldl
              (Track.note s') t = t := foldl_note (smMethod_note calls _)
          have hfold : (enter env calls .method s₁).2.foldl
              (Track.note (enter env calls .method s₁).1) t = t := hmethod _
          rw [hfold]
          refine h.of_memory ((enter_memory (by decide) (by decide) (by decide)).trans hmem) ?_
          intro hstate
          exact absurd (enter_state.symm.trans hstate) (by decide)
        | _ =>
          refine h.of_memory ((enter_memory (by decide) (by decide) (by decide)).trans hmem) ?_
          intro hstate
          exact absurd (enter_state.symm.trans hstate) (by decide)
    | _ => exact h.of_memory rfl h.retransmit

theorem Track.Inv.init (env : Env) : Track.Inv env {} :=
  ⟨nofun, fun _ _ hqr => absurd hqr List.not_mem_nil, nofun⟩

theorem run_answered (env : Env) (acts : List Act) :
    (final (Track.step env) {} acts).Inv env :=
  history_induction (I := fun _ (t : Track) => t.Inv env) (p := fun _ _ => True) (.init env)
    (fun _ _ a h _ => h.step a) acts fun _ _ => trivial

end Memory

/-! ### Copies of a request -/

/-- No global transition is taken. -/
structure Running (env : Env) (s : EapSm) : Prop where
  portEnabled : s.eapol.portEnabled = true
  eapRestart : s.eapol.eapRestart = false
  forceDisabled : env.forceDisabled = false

/-- One more packet does not exceed the limits on rounds. -/
structure WithinRounds (q : Bytes) (s : EapSm) : Prop where
  rounds : s.numRounds < eapMaxAuthRounds
  short : s.numRoundsShort ≤ eapMaxAuthRoundsShort
  next : q.length < 20 → s.numRoundsShort < eapMaxAuthRoundsShort

/-- A packet, and the rounds of the loop in `eap_peer_sm_step` that it takes. -/
def copyInputs (q : Bytes) (c₁ c₂ c₃ c₄ : Calls) : List Input :=
  [.packet (some q), .step c₁, .step c₂, .step c₃, .step c₄]

/-- The states that a copy leads through. -/
def copyOutputs (q : Bytes) : List Output :=
  [.entered .received, .received (some q), .entered .retransmit, .entered .sendResponse,
    .entered .idle]

/-- What a session has come to. -/
structure SameSession (s s' : EapSm) : Prop where
  selectedMethod : s'.selectedMethod = s.selectedMethod
  methodState : s'.methodState = s.methodState
  decision : s'.decision = s.decision
  allowNotifications : s'.allowNotifications = s.allowNotifications
  lastId : s'.lastId = s.lastId
  eapKeyData : s'.eapKeyData = s.eapKeyData
  eapSessionId : s'.eapSessionId = s.eapSessionId
  m : s'.m = s.m
  eapMethodPriv : s'.eapMethodPriv = s.eapMethodPriv
  leapDone : s'.leapDone = s.leapDone
  peapDone : s'.peapDone = s.peapDone

section Copy
variable {env : Env} {calls : Calls} {s s' s'' : EapSm} {st : SmState} {q r : Bytes}

theorem SameSession.refl (s : EapSm) : SameSession s s :=
  ⟨rfl, rfl, rfl, rfl, rfl, rfl, rfl, rfl, rfl, rfl, rfl⟩

theorem SameSession.trans (h : SameSession s s') (h' : SameSession s' s'') : SameSession s s'' :=
  ⟨h'.selectedMethod.trans h.selectedMethod, h'.methodState.trans h.methodState,
    h'.decision.trans h.decision, h'.allowNotifications.trans h.allowNotifications,
    h'.lastId.trans h.lastId, h'.eapKeyData.trans h.eapKeyData,
    h'.eapSessionId.trans h.eapSessionId, h'.m.trans h.m, h'.eapMethodPriv.trans h.eapMethodPriv,
    h'.leapDone.trans h.leapDone, h'.peapDone.trans h.peapDone⟩

theorem smStep_local (hrun : Running env s) (hrounds : s.numRounds ≤ eapMaxAuthRounds)
    (hshort : s.numRoundsShort ≤ eapMaxAuthRoundsShort)
    (hlocal : eapPeerSmStepLocal env s = some st) : smStep env calls s = enter env calls st s := by
  have hrestart : ¬ (s.eapol.eapRestart = true ∧ s.eapol.portEnabled = true) := by
    rw [hrun.eapRestart]
    exact fun h => Bool.false_ne_true h.1
  have hdisabled : ¬ (¬ s.eapol.portEnabled = true ∨ env.forceDisabled = true) := by
    rw [hrun.portEnabled, hrun.forceDisabled]
    decide
  rw [smStep, if_neg hrestart, if_neg hdisabled, if_neg (Nat.not_lt.mpr hrounds),
    if_neg (Nat.not_lt.mpr hshort), hlocal]

/-- A duplicate is sent its response again. -/
theorem eapPeerSmStepReceived_duplicate (hrx : s.rxReq = true) (hsuccess : s.rxSuccess = false)
    (hfailure : s.rxFailure = false) (hduplicate : eapPeerReqIsDuplicate env s = true) :
    eapPeerSmStepReceived env s = .retransmit := by
  simp [eapPeerSmStepReceived, hrx, hsuccess, hfailure, hduplicate]

/-- The machine after a copy of the request that it has answered. -/
def resent (env : Env) (s : EapSm) (q r : Bytes) (method vendor vendorMethod : ℕ) : EapSm :=
  { s with
    eapState := .idle
    rxReq := true, rxResp := false, rxSuccess := false, rxFailure := false
    reqId := q.byteAt 1, reqMethod := method, reqVendor := vendor, reqVendorMethod := vendorMethod
    reqSha1 := if env.workaround then reqHash env q else s.reqSha1
    lastId := q.byteAt 1
    lastSha1 := if env.workaround then reqHash env q else s.lastSha1
    lastRespData := some r, eapRespData := some r
    numRounds := s.numRounds + 1
    numRoundsShort := if r.length ≥ 20 then 0
      else if q.length < 20 then s.numRoundsShort + 1 else 0
    reauthInit := false
    eapol := { s.eapol with
      eapReqData := some q, eapReq := false, eapResp := true, idleWhile := s.clientTimeout } }

/-- Whatever other code answers, a copy of a request that has been answered leads back to IDLE with
the same response. -/
theorem copy_eq (hans : Answered env s q r) (hidle : s.eapState = .idle) (hrun : Running env s)
    (hrounds : WithinRounds q s) (c₁ c₂ c₃ c₄ : Calls) : ∃ method vendor vendorMethod,
      final (step env) s (copyInputs q c₁ c₂ c₃ c₄) = resent env s q r method vendor vendorMethod ∧
        outputs (trace (step env) s (copyInputs q c₁ c₂ c₃ c₄)) = copyOutputs q := by
  obtain ⟨method, vendor, vendorMethod, hparse⟩ := eapSmParseEapReq_request env
    { s with
      eapState := .received
      eapol := { s.eapol with eapReqData := some q, eapReq := true } } hans.isRequest
  obtain ⟨short, hshort⟩ : ∃ short, short = if q.length < 20 then s.numRoundsShort + 1 else 0 :=
    ⟨_, rfl⟩
  have hlimit : short ≤ eapMaxAuthRoundsShort := by
    rw [hshort]
    split
    · rename_i hlen
      exact hrounds.next hlen
    · exact Nat.zero_le _
  -- the machine in RECEIVED, and what it becomes in each state
  obtain ⟨s₁, hs₁⟩ : ∃ s₁, s₁ = { s with
      eapState := .received
      rxReq := true, rxResp := false, rxSuccess := false, rxFailure := false
      reqId := q.byteAt 1, reqMethod := method, reqVendor := vendor
      reqVendorMethod := vendorMethod
      reqSha1 := if env.workaround then reqHash env q else s.reqSha1
      numRounds := s.numRounds + 1
      numRoundsShort := short
      eapol := { s.eapol with eapReqData := some q, eapReq := true } } := ⟨_, rfl⟩
  obtain ⟨s₀, hs₀⟩ : ∃ s₀, s₀ = { s with
      eapol := { s.eapol with eapReqData := some q, eapReq := true } } := ⟨_, rfl⟩
  have hreceived : smStep env c₁ s₀ = (s₁, [.entered .received, .received (some q)]) := by
    have hrun₀ : Running env s₀ := by
      rw [hs₀]
      exact ⟨hrun.portEnabled, hrun.eapRestart, hrun.forceDisabled⟩
    have htarget : eapPeerSmStepLocal env s₀ = some .received := by
      rw [hs₀]
      simp [eapPeerSmStepLocal, hidle, eapPeerSmStepIdle]
    rw [smStep_local hrun₀ (by rw [hs₀]; exact hrounds.rounds.le) (by rw [hs₀]; exact hrounds.short)
      htarget, hs₀]
    simp only [enter, smReceived, hparse, hs₁, Option.all_some, decide_eq_true_iff, hshort]
  have hduplicate : eapPeerReqIsDuplicate env s₁ = true := by
    have hsha1 : ¬ (env.workaround = true ∧
        (if env.workaround then reqHash env q else s.reqSha1) ≠ s.lastSha1) := by
      rintro ⟨hw, hne⟩
      exact hne ((if_pos hw).trans (hans.lastSha1 hw).symm)
    rw [hs₁]
    simp only [eapPeerReqIsDuplicate, Bool.and_true, Bool.and_eq_true, decide_eq_true_eq,
      Bool.not_eq_true', Bool.and_eq_false_iff, decide_eq_false_iff_not]
    refine ⟨hans.lastId.symm, ?_⟩
    by_cases hw : env.workaround = true
    · exact .inr fun hne => hsha1 ⟨hw, hne⟩
    · exact .inl (Bool.not_eq_true _ ▸ hw)
  have hretransmit : smStep env c₂ s₁ =
      ({ s₁ with eapState := .retransmit, eapRespData := some r }, [.entered .retransmit]) := by
    have htarget : eapPeerSmStepLocal env s₁ = some .retransmit := by
      have hreceived : eapPeerSmStepReceived env s₁ = .retransmit :=
        eapPeerSmStepReceived_duplicate (by rw [hs₁]) (by rw [hs₁]) (by rw [hs₁]) hduplicate
      rw [eapPeerSmStepLocal, hs₁]
      rw [hs₁] at hreceived
      exact congrArg some hreceived
    have hlast : s₁.lastRespData = some r := by rw [hs₁]; exact hans.lastRespData
    have hrun₁ : Running env s₁ := by
      rw [hs₁]
      exact ⟨hrun.portEnabled, hrun.eapRestart, hrun.forceDisabled⟩
    rw [smStep_local hrun₁ (by rw [hs₁]; exact hrounds.rounds) (by rw [hs₁]; exact hlimit) htarget]
    simp only [enter, smRetransmit, hlast]
  obtain ⟨s₃, hs₃⟩ : ∃ s₃, s₃ = { s₁ with
      eapState := .sendResponse
      eapRespData := some r
      numRoundsShort := if r.length ≥ 20 then 0 else s₁.numRoundsShort
      lastSha1 := if env.workaround then s₁.reqSha1 else s₁.lastSha1
      lastId := s₁.reqId
      lastRespData := some r
      reauthInit := false
      eapol := { s₁.eapol with
        eapResp := true, eapReq := false, idleWhile := s₁.clientTimeout } } := ⟨_, rfl⟩
  have hsend : smStep env c₃ { s₁ with eapState := .retransmit, eapRespData := some r } =
      (s₃, [.entered .sendResponse]) := by
    have hrun₂ : Running env { s₁ with eapState := .retransmit, eapRespData := some r } := by
      rw [hs₁]
      exact ⟨hrun.portEnabled, hrun.eapRestart, hrun.forceDisabled⟩
    have htarget : eapPeerSmStepLocal env
        { s₁ with eapState := .retransmit, eapRespData := some r } = some .sendResponse := rfl
    rw [smStep_local hrun₂ (by rw [hs₁]; exact hrounds.rounds) (by rw [hs₁]; exact hlimit) htarget,
      hs₃]
    simp only [enter, smSendResponse]
  have hback : smStep env c₄ s₃ = ({ s₃ with eapState := .idle }, [.entered .idle]) := by
    have hrun₃ : Running env s₃ := by
      rw [hs₃, hs₁]
      exact ⟨hrun.portEnabled, hrun.eapRestart, hrun.forceDisabled⟩
    have hlow : s₃.numRoundsShort ≤ eapMaxAuthRoundsShort := by
      rw [hs₃, hs₁]
      show (if r.length ≥ 20 then 0 else short) ≤ _
      split
      · exact Nat.zero_le _
      · exact hlimit
    have htarget : eapPeerSmStepLocal env s₃ = some .idle := by
      rw [hs₃]
      rfl
    rw [smStep_local hrun₃ (by rw [hs₃, hs₁]; exact hrounds.rounds) hlow htarget]
    rfl
  refine ⟨method, vendor, vendorMethod, ?_, ?_⟩
  · simp only [final, copyInputs, List.foldl_cons, List.foldl_nil, step, ← hs₀, hreceived,
      hretransmit, hsend, hback]
    rw [hs₃, hs₁, hshort, resent]
    simp only
    congr 1
    split <;> rfl
  · simp only [outputs, trace, event, copyInputs, List.flatMap_cons, List.flatMap_nil, step,
      ← hs₀, hreceived, hretransmit, hsend, hback]
    rfl

/-- Copies of a request, one after another; EAPOL may take the response at any time between them. -/
inductive Copies (env : Env) (q : Bytes) (s : EapSm) : List Output → EapSm → Prop
  | none : Copies env q s [] s
  | copy {out : List Output} {s' : EapSm} (h : Copies env q s out s') (hrounds : WithinRounds q s')
      (c₁ c₂ c₃ c₄ : Calls) :
      Copies env q s (out ++ outputs (trace (step env) s' (copyInputs q c₁ c₂ c₃ c₄)))
        (final (step env) s' (copyInputs q c₁ c₂ c₃ c₄))
  | taken {out : List Output} {s' : EapSm} (h : Copies env q s out s') :
      Copies env q s out (eapGetEapRespData s').1

/-- A machine in IDLE that can send a response again. -/
structure Ready (env : Env) (s : EapSm) (q r : Bytes) : Prop where
  answered : Answered env s q r
  idle : s.eapState = .idle
  running : Running env s

theorem Ready.resent (h : Ready env s q r) (method vendor vendorMethod : ℕ) :
    Ready env (resent env s q r method vendor vendorMethod) q r :=
  ⟨⟨h.answered.isRequest, rfl, fun hw => if_pos hw, rfl⟩, rfl,
    h.running.portEnabled, h.running.eapRestart, h.running.forceDisabled⟩

theorem Ready.sameSession (h : Ready env s q r) (method vendor vendorMethod : ℕ) :
    SameSession s (EapPeer.resent env s q r method vendor vendorMethod) :=
  ⟨rfl, rfl, rfl, rfl, h.answered.lastId.symm, rfl, rfl, rfl, rfl, rfl, rfl⟩

/-- Where nothing else was to be done before a copy, nothing is after it. -/
theorem resent_rests (hidle : eapPeerSmStepIdle s = none) (htimeout : s.clientTimeout ≠ 0)
    (method vendor vendorMethod : ℕ) :
    eapPeerSmStepIdle (resent env s q r method vendor vendorMethod) = none := by
  unfold eapPeerSmStepIdle at hidle
  split at hidle
  · cases hidle
  split at hidle
  · cases hidle
  rename_i hsuccess
  split at hidle
  · cases hidle
  rename_i hfailure
  refine (if_neg Bool.false_ne_true).trans ((if_neg ?_).trans ((if_neg ?_).trans hidle))
  · rintro (haccept | ⟨hzero, -⟩)
    · exact hsuccess (.inl haccept)
    · exact htimeout hzero
  · rintro (hreject | ⟨hzero, -⟩ | haccept)
    · exact hfailure (.inl hreject)
    · exact htimeout hzero
    · exact hfailure (.inr (.inr haccept))

/-- No copy calls a method or leaves the session. -/
theorem Copies.ready {out : List Output} (h : Copies env q s out s') (hs : Ready env s q r) :
    Ready env s' q r ∧ SameSession s s' ∧ ∀ o ∈ out, o ∈ copyOutputs q := by
  induction h with
  | none => exact ⟨hs, .refl s, fun o ho => absurd ho List.not_mem_nil⟩
  | taken _ ih =>
    obtain ⟨⟨hans, hidle, hrun⟩, hsame, hout⟩ := ih
    refine ⟨⟨⟨hans.isRequest, hans.lastId, hans.lastSha1, hans.lastRespData⟩, hidle,
      hrun.portEnabled, hrun.eapRestart, hrun.forceDisabled⟩, ?_, hout⟩
    exact hsame.trans ⟨rfl, rfl, rfl, rfl, rfl, rfl, rfl, rfl, rfl, rfl, rfl⟩
  | copy _ hrounds c₁ c₂ c₃ c₄ ih =>
    obtain ⟨hready, hsame, hout⟩ := ih
    obtain ⟨method, vendor, vendorMethod, hfinal, houtputs⟩ :=
      copy_eq hready.answered hready.idle hready.running hrounds c₁ c₂ c₃ c₄
    rw [hfinal, houtputs]
    refine ⟨hready.resent method vendor vendorMethod,
      hsame.trans (hready.sameSession method vendor vendorMethod), ?_⟩
    intro o ho
    obtain ho | ho := List.mem_append.mp ho
    · exact hout o ho
    · exact ho

/-- However a run came to a request that it has answered, and however many copies of the request
have come since: none of them calls a method, the session is as it was, and one more copy within the
limits leads back to IDLE with the same response. -/
theorem retransmission_idempotent (env : Env) (acts : List Act) {q r : Bytes}
    (hans : (q, r) ∈ (final (Track.step env) {} acts).answered)
    (hidle : (final (Track.step env) {} acts).sm.eapState = .idle)
    (hrun : Running env (final (Track.step env) {} acts).sm) {out : List Output} {s : EapSm}
    (hcopies : Copies env q (final (Track.step env) {} acts).sm out s) :
    (∀ m ret, .processed m ret ∉ out) ∧ SameSession (final (Track.step env) {} acts).sm s ∧
      s.eapState = .idle ∧
      (WithinRounds q s → ∀ c₁ c₂ c₃ c₄,
        outputs (trace (step env) s (copyInputs q c₁ c₂ c₃ c₄)) = copyOutputs q ∧
        SameSession s (final (step env) s (copyInputs q c₁ c₂ c₃ c₄)) ∧
        (final (step env) s (copyInputs q c₁ c₂ c₃ c₄)).eapState = .idle ∧
        (final (step env) s (copyInputs q c₁ c₂ c₃ c₄)).eapRespData = some r ∧
        (final (step env) s (copyInputs q c₁ c₂ c₃ c₄)).eapol.eapResp = true ∧
        (eapPeerSmStepIdle s = none → s.clientTimeout ≠ 0 →
          eapPeerSmStepIdle (final (step env) s (copyInputs q c₁ c₂ c₃ c₄)) = none)) := by
  obtain ⟨hready, hsame, hout⟩ := hcopies.ready
    ⟨(run_answered env acts).answered q r hans, hidle, hrun⟩
  refine ⟨?_, hsame, hready.idle, ?_⟩
  · intro m ret hprocessed
    have hmem := hout _ hprocessed
    simp [copyOutputs] at hmem
  · intro hrounds c₁ c₂ c₃ c₄
    obtain ⟨method, vendor, vendorMethod, hfinal, houtputs⟩ :=
      copy_eq hready.answered hready.idle hready.running hrounds c₁ c₂ c₃ c₄
    rw [hfinal, houtputs]
    exact ⟨rfl, hready.sameSession method vendor vendorMethod, rfl, rfl, rfl,
      fun hrest htimeout => resent_rests hrest htimeout method vendor vendorMethod⟩

/-- No method, and an identity of one octet. -/
def identityCalls : Calls where
  hasReauthData := false
  initOk := false
  pendingReq := false
  process := fun _ ret => (ret, none)
  isKeyAvailable := false
  getKey := none
  getSessionId := none
  leapDone := false
  peapDone := false
  buildIdentity := some [2, 7, 0, 6, 1, 97]

def identityEnv : Env where
  methods := []
  config := none
  fastReauth := false
  workaround := true
  forceDisabled := false
  sha1 := id

/-- The identity is asked for and sent, and EAPOL takes the response. -/
def identityRun : List Act :=
  [.input (.portEnabled true), .input (.step identityCalls), .input (.packet (some [1, 7, 0, 5, 1])),
    .input (.step identityCalls), .input (.step identityCalls), .input (.step identityCalls),
    .input (.step identityCalls), .getEapRespData]

/-- Two copies of the request. -/
theorem identity_resent :
    (final (step identityEnv) (final (step identityEnv)
        (final (Track.step identityEnv) {} identityRun).sm
        (copyInputs [1, 7, 0, 5, 1] identityCalls identityCalls identityCalls identityCalls))
      (copyInputs [1, 7, 0, 5, 1] identityCalls identityCalls identityCalls
        identityCalls)).eapRespData = some [2, 7, 0, 6, 1, 97] := by
  have hcopies : Copies identityEnv [1, 7, 0, 5, 1]
      (final (Track.step identityEnv) {} identityRun).sm _ _ :=
    .copy .none ⟨by decide, by decide, by decide⟩ identityCalls identityCalls identityCalls
      identityCalls
  obtain ⟨-, -, -, hcopy⟩ := retransmission_idempotent identityEnv identityRun
    (show ([1, 7, 0, 5, 1], [2, 7, 0, 6, 1, 97]) ∈ _ by decide) (by decide)
    ⟨by decide, by decide, by decide⟩ hcopies
  exact (hcopy ⟨by decide, by decide, by decide⟩ identityCalls identityCalls identityCalls
    identityCalls).2.2.2.1

end Copy

end Wpa.EapPeer
