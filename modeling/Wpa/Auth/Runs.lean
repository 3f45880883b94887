import Wpa.Auth.Receive
import Wpa.Auth.SessionCounters
import Wpa.Auth.SessionKeys
import Wpa.Auth.StepPaths

/-! Whole runs of a station: every frame, timer and event after an association is a path of the
abstract machine, whose invariants the authenticator therefore keeps. -/

namespace Wpa.Auth
open Lib Bytes Prog Relation

section Requests
variable {e : Env} {ans : Answer} {c c' : Cfg Local Act}

theorem requestNewPtk_demand (conf : Conf) (sm : Sta) :
    sm.session.Demands (sm.requestNewPtk conf).session := by
  unfold Sta.requestNewPtk
  split
  · exact disconnect_demand sm _
  · exact
      { state := rfl
        anonce := rfl
        kept := ⟨rfl, rfl, rfl, id, rfl⟩
        valid := fun hv => by cases hv
        confirmed := id
        disconnect := id
        renew := fun _ => .inr rfl
        requested := fun _ => by simp [Sta.session]
        lost := fun _ _ _ => by simp [Sta.session] }

theorem rekeyLoop_path (passes : List GroupPass) : Keeps Path (rekeyLoop passes) e := by
  induction passes with
  | nil => exact Keeps.pure _
  | cons p ps ih =>
    refine Keeps.bind (still_path group_still) fun _ => ?_
    refine Keeps.bind (wpaGroupSmStep_path (wpaSmStep_path p.station)) fun _ => ?_
    exact Keeps.bind (still_path getGroup_still) fun _ => Keeps.when fun _ => ih

theorem wpaRekeyGtk_path {passes : List GroupPass} : Keeps Path (wpaRekeyGtk passes) e :=
  Keeps.bind (still_path group_still) fun _ => rekeyLoop_path passes

theorem wpaReceiveErrorReport_still {group : Bool} :
    Keeps Still (wpaReceiveErrorReport ans group) e := by
  refine Keeps.ask_bind (Keeps.bind getSta_still fun sm => Keeps.ite (fun _ => ?_) fun _ => ?_)
  · exact Keeps.bind (sta_still fun _ => rfl) fun _ => Keeps.pure _
  · exact Keeps.bind (demand_sta (requestNewPtk_demand e.conf)) fun _ => Keeps.pure _

theorem rxRequest_path {a : RxAround} {key : EapolKey} {data : Bytes} :
    Keeps Path (rxRequest ans a key data) e := by
  refine Keeps.ask_bind (Keeps.bind (still_path (sta_still fun _ => rfl)) fun _ => ?_)
  refine Keeps.bind (still_path getSta_still) fun sm => Keeps.ite
    (fun _ => still_path wpaReceiveErrorReport_still) fun _ => Keeps.ite (fun _ => ?_) fun _ => ?_
  · exact Keeps.bind (still_path (demand_sta (requestNewPtk_demand e.conf))) fun _ => Keeps.pure _
  · refine Keeps.ite (fun _ => Keeps.pure _) fun _ => ?_
    exact Keeps.bind (still_path getGroup_still) fun _ =>
      Keeps.bind (Keeps.when fun _ => wpaRekeyGtk_path) fun _ => Keeps.pure _

end Requests

section Verification
variable {e : Env} {ans : Answer} {c c' : Cfg Local Act} {msg : Msg} {data : Bytes}

theorem confirm_path {b : Bool} (h : c'.st.sta.session = { c.st.sta.session with confirmed := b })
    (hout : c'.out = c.out) (hb : b → c.st.sta.ptkValid) : Path c c' := by
  have heq : session c' = ⟨{ c.st.sta.session with confirmed := b }, c.out⟩ := by
    rw [session, h, hout]
  rw [Path, heq]
  exact .single (.confirm hb)

/-- What the look at the MIC of a frame leaves behind. -/
structure Looked (c c' : Cfg Local Act) : Prop where
  path : Path c c'
  key : c'.st.sta.keyReplay = c.st.sta.keyReplay
  prev : c'.st.sta.prevKeyReplay = c.st.sta.prevKeyReplay
  verified : c'.st.sta.micVerified → c'.st.sta.ptkValid

def verifiedFrame (sm : Sta) : Sta := { sm with micVerified := true, pending1Of4Timeout := false }

theorem verifiedFrame_path (h : c.st.sta.ptkValid) :
    Path c ⟨{ c.st with sta := verifiedFrame c.st.sta }, c.out⟩ :=
  confirm_path (b := c.st.sta.pairwiseReceived) (by simp [Sta.session, verifiedFrame,
    Sta.pairwiseReceived]) rfl fun _ => h

/-- The frame was not looked at yet. -/
def unverifiedFrame (sm : Sta) : Sta := { sm with micVerified := false }

theorem unverifiedFrame_path : Path c ⟨{ c.st with sta := unverifiedFrame c.st.sta }, c.out⟩ :=
  confirm_path (b := false) (by simp [Sta.session, unverifiedFrame, Sta.pairwiseReceived]) rfl
    fun h => by cases h

theorem wpaTryAltSnonce_apply (r : Search)
    (h : search e ans c.st.sta.altSnonce data c.st.sta {} (altCandidates ans c.st.sta) = r) :
    wpaTryAltSnonce ans data e c = (match r.result with
      | none => pure false
      | some m => do
        modifySta fun sm => { sm with pmk := m.candidate.pmk, altSnonceValid := false }
        if m.candidate.vlanId ≠ 0 ∧ wpaKeyMgmtWpaPsk c.st.sta.wpaKeyMgmt ∧ ¬ans.updateVlan then
          pure false
        else do
          modifySta fun sm => { sm with snonce := sm.altSnonce, ptk := m.ptk, ptkValid := true }
          pure true : StaM Bool) e ⟨{ c.st with sta := r.sta }, c.out ++ r.acts⟩ := by
  subst h
  rfl

/-- The trial of the earlier SNonce. If it fails, the frame is dropped. -/
theorem wpaTryAltSnonce_looked (ans : Answer) (hack : hasAck data = false)
    (hkeyed : c.st.sta.ptkState.keyed) (hvalid : c.st.sta.ptkValid) :
    Path c (wpaTryAltSnonce ans data e c).2 ∧ ((wpaTryAltSnonce ans data e c).1 →
      (wpaTryAltSnonce ans data e c).2.st.sta.keyReplay = c.st.sta.keyReplay ∧
      (wpaTryAltSnonce ans data e c).2.st.sta.prevKeyReplay = c.st.sta.prevKeyReplay ∧
      (wpaTryAltSnonce ans data e c).2.st.sta.ptkValid) := by
  let r := search e ans c.st.sta.altSnonce data c.st.sta {} (altCandidates ans c.st.sta)
  have hr : Searched c.st.sta data r := search_spec ..
  let found : Cfg Local Act := ⟨{ c.st with sta := r.sta }, c.out ++ r.acts⟩
  have hsearch : Path c found := by
    have hmoves := searched_moves (s := c.st.sta.session) hkeyed
      (fun h => by simp [hack] at h) hr.acts c.out
    rw [Path, session, session, hr.sta]
    exact hmoves
  have hkey : r.sta.keyReplay = c.st.sta.keyReplay := congrArg Session.keyReplay hr.sta
  have hprev : r.sta.prevKeyReplay = c.st.sta.prevKeyReplay :=
    congrArg Session.prevKeyReplay hr.sta
  rw [wpaTryAltSnonce_apply r rfl]
  cases hresult : r.result with
  | none => exact ⟨hsearch, fun h => by cases h⟩
  | some m =>
    -- the PMK is taken before the VLAN is looked at, also where that fails
    let left : Cfg Local Act := ⟨{ found.st with
      sta := { r.sta with pmk := m.candidate.pmk, altSnonceValid := false } }, found.out⟩
    have hdemand : found.st.sta.session.Demands left.st.sta.session :=
      { state := rfl
        anonce := rfl
        kept := ⟨rfl, rfl, rfl, (fun h => by cases h), rfl⟩
        valid := fun h => ⟨h, rfl⟩
        confirmed := id
        disconnect := id
        renew := .inl
        requested := id
        lost := fun hs ht => absurd (hs.symm.trans ht) (by decide) }
    have hleft : Path found left := (demand_still hdemand rfl).path
    change Path c ((if m.candidate.vlanId ≠ 0 ∧ wpaKeyMgmtWpaPsk c.st.sta.wpaKeyMgmt ∧
        ¬ans.updateVlan then pure false
      else do
        modifySta fun sm => { sm with snonce := sm.altSnonce, ptk := m.ptk, ptkValid := true }
        pure true : StaM Bool) e left).2 ∧ (((if m.candidate.vlanId ≠ 0 ∧
          wpaKeyMgmtWpaPsk c.st.sta.wpaKeyMgmt ∧ ¬ans.updateVlan then pure false
      else do
        modifySta fun sm => { sm with snonce := sm.altSnonce, ptk := m.ptk, ptkValid := true }
        pure true : StaM Bool) e left).1 → _)
    by_cases hvlan : m.candidate.vlanId ≠ 0 ∧ wpaKeyMgmtWpaPsk c.st.sta.wpaKeyMgmt ∧
        ¬ans.updateVlan
    · simp only [if_pos hvlan]
      exact ⟨hsearch.trans hleft, fun h => by cases h⟩
    · simp only [if_neg hvlan]
      refine ⟨(hsearch.trans hleft).trans (.single (.accept ?_)), fun _ => ⟨hkey, hprev, rfl⟩⟩
      obtain ⟨-, d, hmem, hptk, hanonce, hver⟩ := hr.found m hresult
      have hsession := hr.sta
      exact
        { keyed := by
            have hstate := congrArg Session.state hsession
            change r.sta.ptkState = _ at hstate
            change r.sta.ptkState.keyed
            rw [hstate]
            exact hkeyed
          state := rfl
          anonce := rfl
          kept := ⟨rfl, rfl, rfl, id, rfl⟩
          renew := ⟨rfl, .inr ((congrArg Session.valid hsession).trans hvalid)⟩
          source := by
            refine ⟨d, ?_, hptk, hanonce.trans (congrArg Session.anonce hsession).symm, ?_⟩
            · rw [derivations_append]
              exact List.mem_append_right _ (List.mem_filterMap.mpr ⟨_, hmem, rfl⟩)
            · obtain ⟨frame, hframe⟩ := hver
              exact ⟨frame, hframe.imp (List.mem_append_right _) (List.mem_append_right _)⟩
          valid := rfl }

theorem rxAuthenticate_apply (sm : Sta) (h : unverifiedFrame c.st.sta = sm) :
    rxAuthenticate ans msg data e c = (if sm.ptkValid ∧ ¬sm.updateSnonce then do
      match authenticate e ans sm sm.pmk.length sm.ptk data with
      | some data' => do
        emit (.micVerified (sm.authKey sm.ptk) data)
        modifySta verifiedFrame
        pure (some data')
      | none =>
        if sm.micLen ≠ 0 ∧ msg = .pairwise4 ∧ sm.altSnonceValid then do
          let ok ← wpaTryAltSnonce ans data
          when ok (modifySta verifiedFrame)
          pure (if ok then some data else none)
        else pure none
    else pure (some data) : StaM (Option Bytes)) e ⟨{ c.st with sta := sm }, c.out⟩ := by
  subst h
  rfl

theorem rxAuthenticate_looked (ans : Answer) (hack : hasAck data = false)
    (h4 : msg = .pairwise4 → c.st.sta.ptkState.keyed) :
    Path c (rxAuthenticate ans msg data e c).2 ∧
      ∀ d, (rxAuthenticate ans msg data e c).1 = some d →
        hasAck d = false ∧ Looked c (rxAuthenticate ans msg data e c).2 := by
  let opened : Cfg Local Act := ⟨{ c.st with sta := unverifiedFrame c.st.sta }, c.out⟩
  have hopen : Path c opened := unverifiedFrame_path
  let sm := opened.st.sta
  rw [rxAuthenticate_apply sm rfl]
  by_cases hptk : sm.ptkValid ∧ ¬sm.updateSnonce
  · rw [if_pos hptk]
    cases hauth : authenticate e ans sm sm.pmk.length sm.ptk data with
    | some data' =>
      let emitted : Cfg Local Act :=
        ⟨opened.st, opened.out ++ [.micVerified (sm.authKey sm.ptk) data]⟩
      have hemit : Path opened emitted := .single (.verify fun h => by simp [hack] at h)
      have hpath := (hopen.trans hemit).trans (verifiedFrame_path (c := emitted) hptk.1)
      refine ⟨hpath, fun d hd => ⟨?_, hpath, rfl, rfl, fun _ => hptk.1⟩⟩
      cases hd
      exact (hasAck_of_authenticate hauth).trans hack
    | none =>
      by_cases halt : sm.micLen ≠ 0 ∧ msg = .pairwise4 ∧ sm.altSnonceValid
      · simp only [if_pos halt]
        obtain ⟨hpath, hfacts⟩ := wpaTryAltSnonce_looked (e := e) (c := opened) ans
          hack (h4 halt.2.1) hptk.1
        let tried := wpaTryAltSnonce ans data e opened
        change Path c (when tried.1 (modifySta verifiedFrame) e tried.2).2 ∧
          ∀ d, (if tried.1 then some data else none) = some d → hasAck d = false ∧
            Looked c (when tried.1 (modifySta verifiedFrame) e tried.2).2
        rw [when_apply]
        by_cases hok : tried.1
        · obtain ⟨hkey, hprev, hvalid⟩ := hfacts hok
          have hend := (hopen.trans hpath).trans (verifiedFrame_path hvalid)
          rw [if_pos hok]
          refine ⟨hend, fun d hd => ⟨?_, hend, hkey, hprev, fun _ => hvalid⟩⟩
          rw [if_pos hok] at hd
          cases hd
          exact hack
        · rw [if_neg hok, if_neg hok]
          exact ⟨hopen.trans hpath, fun d hd => by cases hd⟩
      · simp only [if_neg halt]
        exact ⟨hopen, fun d hd => by cases hd⟩
  · rw [if_neg hptk]
    refine ⟨hopen, fun d hd => ⟨?_, hopen, rfl, rfl, fun hv => by cases hv⟩⟩
    cases hd
    exact hack

end Verification

section Delivery
variable {e : Env} {ans : Answer} {c : Cfg Local Act} {sm : Sta} {a : RxAround} {msg : Msg}
  {key : EapolKey} {data : Bytes}

theorem Path.counted {c c' : Cfg Local Act} (h : Path c c') :
    Preserves (fun _ => True) Counted (session c) (session c') :=
  path_induction (R := Preserves (fun _ => True) Counted) (fun _ _ => Session.Move.counted) h

/-- A reply uses up the counters, whether or not there is memory for it. -/
theorem rxDeliver_reply (hack : hasAck data = false) (hadmits : c.st.sta.session.Admits c.out msg key.replayCounter)
    (hverified : c.st.sta.micVerified → c.st.sta.ptkValid) :
    Path c (rxDeliver ans a msg key data e c).2 := by
  let consumed : Cfg Local Act :=
    ⟨{ c.st with sta := c.st.sta.consumeCounter msg key.replayCounter }, c.out⟩
  have hrun : rxDeliver ans a msg key data e c = (if ans.alloc .rxCopy then do
        emit (.received msg key.replayCounter)
        modifySta (·.receive key data)
        wpaSmStep a.step
      else modifySta fun sm => { sm with lastRxEapolKey := [] } : StaM Unit) e consumed := by
    rw [rxDeliver, bind_apply, when_apply, if_pos hadmits.reply]
    rfl
  rw [hrun]
  by_cases halloc : ans.alloc .rxCopy
  · rw [if_pos halloc]
    let received : Cfg Local Act :=
      ⟨{ consumed.st with sta := consumed.st.sta.receive key data },
        consumed.out ++ [.received msg key.replayCounter]⟩
    have hreceive : Path c received := by
      refine .head (.receive (b := received.st.sta.pairwiseReceived && c.st.sta.micVerified)
        hadmits fun hb => ?_) (.single (.hear (b := hasAck data) fun h => by simp [hack] at h))
      rw [Bool.and_eq_true] at hb
      exact hverified hb.2
    exact hreceive.trans (wpaSmStep_path a.step received)
  · rw [if_neg halloc]
    exact .head .waste (.single (.hear (b := hasAck []) fun h => by cases h))

theorem hear_path {c' : Cfg Local Act} {b : Bool} (hb : b → c.st.sta.session.ack)
    (h : c'.st.sta.session = { c.st.sta.session with ack := b }) (hout : c'.out = c.out) :
    Path c c' := by
  have heq : session c' = ⟨{ c.st.sta.session with ack := b }, c.out⟩ := by rw [session, h, hout]
  rw [Path, heq]
  exact .single (.hear hb)

/-- A request leaves the counters of the replies alone. -/
theorem rxDeliver_request (hack : hasAck data = false) (hreq : key.has keyInfoRequest) :
    Keeps Path (rxDeliver ans a .request key data) e := by
  refine Keeps.bind (Keeps.when fun h => absurd rfl h) fun _ => Keeps.ite (fun _ => ?_) fun _ => ?_
  · refine Keeps.bind (still_path (emit_still rfl)) fun _ => Keeps.bind (fun c => ?_) fun _ =>
      wpaSmStep_path a.step
    let quiet : Cfg Local Act :=
      ⟨{ c.st with sta := { c.st.sta with eapolKeyReceived := false } }, c.out⟩
    let heard : Cfg Local Act := ⟨{ c.st with sta := c.st.sta.receive key data }, c.out⟩
    have hquiet : Path c quiet := confirm_path (b := false)
      (by simp [quiet, Sta.session, Sta.pairwiseReceived]) rfl fun h => by cases h
    have hheard : Path quiet heard := hear_path (b := hasAck data) (fun h => by simp [hack] at h)
      (by simp [quiet, heard, Sta.session, Sta.receive, Sta.pairwiseReceived, hreq]) rfl
    exact hquiet.trans hheard
  · exact fun c => hear_path (b := hasAck []) (fun h => by cases h) rfl rfl

theorem rxProcess_none {r : Option Bytes × Cfg Local Act}
    (h : rxAuthenticate ans msg data e c = r) (hr : r.1 = none) :
    rxProcess ans a msg key data e c = ((), r.2) := by
  subst h
  rw [rxProcess, bind_apply, hr]
  rfl

theorem rxProcess_some {r : Option Bytes × Cfg Local Act} {data' : Bytes}
    (h : rxAuthenticate ans msg data e c = r) (hr : r.1 = some data') :
    rxProcess ans a msg key data e c = (if msg ≠ .request then rxDeliver ans a msg key data'
      else if ¬r.2.st.sta.micVerified then pure ()
      else do
        let removed ← rxRequest ans a key data'
        when (¬removed) (rxDeliver ans a msg key data') : StaM Unit) e r.2 := by
  subst h
  rw [rxProcess, bind_apply, hr]
  rfl

theorem rxProcess_path (hack : hasAck data = false) (hreq : msg = .request → key.has keyInfoRequest)
    (h4 : msg = .pairwise4 → c.st.sta.ptkState.keyed)
    (hadmits : msg ≠ .request → c.st.sta.session.Admits c.out msg key.replayCounter) :
    Path c (rxProcess ans a msg key data e c).2 := by
  obtain ⟨hpath, hlooked⟩ := rxAuthenticate_looked (e := e) ans hack h4
  let r := rxAuthenticate ans msg data e c
  cases hresult : r.1 with
  | none =>
    rw [rxProcess_none rfl hresult]
    exact hpath
  | some data' =>
    obtain ⟨hack', hl⟩ := hlooked data' hresult
    rw [rxProcess_some rfl hresult]
    -- a reply goes on with its counter still taken; a request only if its MIC was right
    refine hpath.trans ?_
    refine path_if (fun hmsg => ?_) fun hmsg => path_if (fun _ => .refl) fun _ => ?_
    · refine rxDeliver_reply hack' ⟨hmsg, ?_⟩ hl.verified
      have htaken : takenCounters c.out ⊆ takenCounters r.2.out :=
        (hpath.counted.1.filterMap Act.taken).subset
      change wpaReplayCounterValid r.2.st.sta.keyReplay _ ∨
        (_ ∧ wpaReplayCounterValid r.2.st.sta.prevKeyReplay _) ∨ _
      rw [hl.key, hl.prev]
      exact (hadmits hmsg).counter.imp_right (.imp_right fun ⟨hm, hmem⟩ => ⟨hm, htaken hmem⟩)
    · have hmsg : msg = .request := not_not.mp hmsg
      subst hmsg
      have hrest : Keeps Path (do
          let removed ← rxRequest ans a key data'
          when (¬removed) (rxDeliver ans a .request key data') : StaM Unit) e :=
        Keeps.bind rxRequest_path fun _ => Keeps.when fun _ => rxDeliver_request hack' (hreq rfl)
      exact hrest _

theorem rxCounter_cases (h : rxCounter c.st.sta msg key = some sm) :
    sm = c.st.sta ∨ (snonceUpdate c.st.sta msg key ∧ sm = c.st.sta.noteSnonceUpdate) := by
  unfold rxCounter at h
  split_ifs at h with hreq hrep hkey hnote halt
  · exact .inl (Option.some.inj h).symm
  · exact .inl (Option.some.inj h).symm
  · exact .inr ⟨hnote, (Option.some.inj h).symm⟩
  · exact .inl (Option.some.inj h).symm

/-- An SNonce update is noted for a counter of an earlier message 1/4 only. -/
theorem rxCounter_path (h : rxCounter c.st.sta msg key = some sm) :
    Path c ⟨{ c.st with sta := sm }, c.out⟩ := by
  rcases rxCounter_cases h with rfl | ⟨hnote, rfl⟩
  · exact .refl
  · simp only [snonceUpdate, Bool.and_eq_true] at hnote
    exact .single (.note hnote.1.1.2)

/-- A reply that passes has a counter that may be accepted. -/
theorem rxCounter_admits (h : rxCounter c.st.sta msg key = some sm) (hmsg : msg ≠ .request)
    (hc : Counted c.out c.st.sta.session) : sm.session.Admits c.out msg key.replayCounter := by
  refine ⟨hmsg, ?_⟩
  unfold rxCounter at h
  rw [if_neg hmsg] at h
  split_ifs at h with hkey hnote halt
  · cases h
    exact .inl hkey
  · cases h
    simp only [snonceUpdate, Bool.and_eq_true, beq_iff_eq] at hnote
    exact .inr (.inl ⟨hnote.1.1.1, hnote.1.1.2⟩)
  · cases h
    simp only [altConfirm, Bool.and_eq_true, beq_iff_eq] at halt
    refine .inr (.inr ⟨halt.1.1.1, ?_⟩)
    rw [halt.2]
    exact hc.alt halt.1.1.2

theorem rejectForEntropy_path : Keeps Path (rejectForEntropy ans a) e := by
  refine Keeps.bind (still_path (emit_still rfl)) fun _ => Keeps.bind (Keeps.when fun _ => ?_)
    fun _ => Keeps.when fun _ => still_path (sta_still fun _ => rfl)
  exact Keeps.bind (still_path deauthenticated_still) fun _ => wpaSmStep_path a.step

theorem request_of_rxMsg {micLen n : ℕ} (h : rxMsg key micLen n = .request) :
    key.has keyInfoRequest := by
  unfold rxMsg at h
  split_ifs at h with hreq
  exact hreq

theorem wpaReceive_apply : wpaReceive a data e c =
    (if e.conf.wpa = 0 ∨ ¬rxFormOk c.st.sta data then pure ()
      else
        match rxCounter c.st.sta (c.st.sta.rxMsg data) (EapolKey.read data) with
        | none => pure ()
        | some sm => do
          modifySta fun _ => sm
          if ¬rxEncrOk sm (EapolKey.read data) ∨ ¬rxExpected sm (c.st.sta.rxMsg data) then pure ()
          else if c.st.sta.rxMsg data = .pairwise2 ∧ c.st.group.reject4wayHsForEntropy then
            rejectForEntropy (query e c).1 a
          else if ¬rxFlagsOk sm (EapolKey.read data) then pure ()
          else rxProcess (query e c).1 a (c.st.sta.rxMsg data) (EapolKey.read data) data :
        StaM Unit) e (query e c).2 := rfl

theorem wpaReceive_unread (h : (e.conf.wpa = 0 ∨ ¬rxFormOk c.st.sta data) ∨
    rxCounter c.st.sta (c.st.sta.rxMsg data) (EapolKey.read data) = none) :
    wpaReceive a data e c = ((), (query e c).2) := by
  rw [wpaReceive_apply]
  by_cases hform : e.conf.wpa = 0 ∨ ¬rxFormOk c.st.sta data
  · rw [if_pos hform]
    rfl
  · rw [if_neg hform, h.resolve_left hform]
    rfl

theorem wpaReceive_noted (hform : ¬(e.conf.wpa = 0 ∨ ¬rxFormOk c.st.sta data))
    (h : rxCounter c.st.sta (c.st.sta.rxMsg data) (EapolKey.read data) = some sm) :
    wpaReceive a data e c = (if ¬rxEncrOk sm (EapolKey.read data) ∨
          ¬rxExpected sm (c.st.sta.rxMsg data) then pure ()
      else if c.st.sta.rxMsg data = .pairwise2 ∧ c.st.group.reject4wayHsForEntropy then
        rejectForEntropy (query e c).1 a
      else if ¬rxFlagsOk sm (EapolKey.read data) then pure ()
      else rxProcess (query e c).1 a (c.st.sta.rxMsg data) (EapolKey.read data) data : StaM Unit) e
        ⟨{ (query e c).2.st with sta := sm }, (query e c).2.out⟩ := by
  rw [wpaReceive_apply, if_neg hform, h]
  rfl

theorem wpaReceive_path (hc : Counted c.out c.st.sta.session) :
    Path c (wpaReceive a data e c).2 := by
  let ans := (query e c).1
  let asked := (query e c).2
  have hasked : Path c asked := (query_still c).path
  let key := EapolKey.read data
  let msg := c.st.sta.rxMsg data
  by_cases hform : e.conf.wpa = 0 ∨ ¬rxFormOk c.st.sta data
  · rw [wpaReceive_unread (.inl hform)]
    exact hasked
  cases hcounter : rxCounter c.st.sta msg key with
  | none =>
    rw [wpaReceive_unread (.inr hcounter)]
    exact hasked
  | some sm =>
    let noted : Cfg Local Act := ⟨{ asked.st with sta := sm }, asked.out⟩
    have hnoted : Path asked noted := rxCounter_path (c := asked) hcounter
    rw [wpaReceive_noted hform hcounter]
    -- whatever is checked from here on, the counter was noted
    refine (hasked.trans hnoted).trans ?_
    refine path_if (fun _ => .refl) fun hexpected => path_if (fun _ => rejectForEntropy_path _)
      fun _ => path_if (fun _ => .refl) fun hflags => rxProcess_path ?_ request_of_rxMsg
        (fun hmsg => ?_) fun hmsg => rxCounter_admits (c := asked) hcounter hmsg hc
    · rw [not_not, rxFlagsOk, Bool.and_eq_true, Bool.not_eq_true'] at hflags
      exact hflags.1
    rw [hmsg] at hexpected
    have hexp : rxExpected sm .pairwise4 := by
      rw [not_or, not_not, not_not] at hexpected
      exact hexpected.2
    simp only [rxExpected, Bool.and_eq_true, beq_iff_eq] at hexp
    change sm.ptkState.keyed
    rw [hexp.1]
    rfl

end Delivery

/-- The state of the handshakes of a station. -/
structure Handshake where
  ptkState : PtkState
  ptkGroupState : PtkGroupState
  ptk : Ptk
  ptkValid : Bool
  anonce : Bytes
  snonce : Bytes
  updateSnonce : Bool
  altSnonce : Bytes
  altSnonceValid : Bool
  altReplayCounter : Bytes
  keyReplay : List KeyReplayCounter
  prevKeyReplay : List KeyReplayCounter
  reqReplayCounter : Bytes
  deriving DecidableEq

def Sta.handshake (sm : Sta) : Handshake where
  ptkState := sm.ptkState
  ptkGroupState := sm.ptkGroupState
  ptk := sm.ptk
  ptkValid := sm.ptkValid
  anonce := sm.anonce
  snonce := sm.snonce
  updateSnonce := sm.updateSnonce
  altSnonce := sm.altSnonce
  altSnonceValid := sm.altSnonceValid
  altReplayCounter := sm.altReplayCounter
  keyReplay := sm.keyReplay
  prevKeyReplay := sm.prevKeyReplay
  reqReplayCounter := sm.reqReplayCounter

/-- Nothing that was asked for fails, and the report of a MIC failure removes no station. -/
structure Answer.Grants (ans : Answer) : Prop where
  rxCopy : ans.alloc .rxCopy
  updateVlan : ans.updateVlan
  micFailureReport : ans.micFailureReport = false

/-- The frame reaches the state machines. -/
def Act.isReceived : Act → Bool
  | received _ _ => true
  | _ => false

section Dropped
variable {e : Env} {ans : Answer} {c : Cfg Local Act} {a : RxAround} {msg : Msg} {key : EapolKey}
  {data : Bytes}

/-- The trial of the earlier SNonce fails only where no key is found. -/
theorem wpaTryAltSnonce_dropped (h : ans.Grants) (hfalse : (wpaTryAltSnonce ans data e c).1 = false) :
    (wpaTryAltSnonce ans data e c).2.st.sta.handshake = c.st.sta.handshake := by
  let r := search e ans c.st.sta.altSnonce data c.st.sta {} (altCandidates ans c.st.sta)
  rw [wpaTryAltSnonce_apply r rfl] at hfalse ⊢
  cases hresult : r.result with
  | none =>
    obtain ⟨xxkey, name, hsta⟩ := search_sta (e := e) ans c.st.sta.altSnonce data
      c.st.sta {} (altCandidates ans c.st.sta)
    change r.sta.handshake = _
    rw [show r.sta = _ from hsta]
    rfl
  | some m => simp [hresult, h.updateVlan] at hfalse

/-- A frame that is not authenticated, and every request, leaves the handshake alone here. -/
theorem rxAuthenticate_dropped (data : Bytes) (h : ans.Grants)
    (hdrop : (rxAuthenticate ans msg data e c).1 = none ∨ msg = .request) :
    (rxAuthenticate ans msg data e c).2.st.sta.handshake = c.st.sta.handshake := by
  let opened : Cfg Local Act := ⟨{ c.st with sta := unverifiedFrame c.st.sta }, c.out⟩
  let sm := opened.st.sta
  rw [rxAuthenticate_apply sm rfl] at hdrop ⊢
  by_cases hptk : sm.ptkValid ∧ ¬sm.updateSnonce
  · rw [if_pos hptk] at hdrop ⊢
    cases hauth : authenticate e ans sm sm.pmk.length sm.ptk data with
    | some data' => rfl
    | none =>
      by_cases halt : sm.micLen ≠ 0 ∧ msg = .pairwise4 ∧ sm.altSnonceValid
      · simp only [hauth, if_pos halt] at hdrop ⊢
        let tried := wpaTryAltSnonce ans data e opened
        have hok : tried.1 = false := by
          rcases hdrop with hnone | hreq
          · change (if tried.1 then some data else none) = none at hnone
            simpa using hnone
          · exact absurd (hreq.symm.trans halt.2.1) (by decide)
        change (when tried.1 (modifySta verifiedFrame) e tried.2).2.st.sta.handshake = _
        rw [when_apply, if_neg (by rw [hok]; decide)]
        exact wpaTryAltSnonce_dropped (c := opened) h hok
      · simp only [if_neg halt]
        rfl
  · rw [if_neg hptk]
    rfl

theorem rxDeliver_received (h : ans.Grants) :
    .received msg key.replayCounter ∈ (rxDeliver ans a msg key data e c).2.out := by
  simp only [rxDeliver, bind_apply, when_apply, h.rxCopy, if_true]
  refine (wpaSmStep_path a.step _).counted.1.subset ?_
  exact List.mem_append_right _ (List.mem_singleton_self _)

theorem rxRequest_kept (h : ans.Grants) : (rxRequest ans a key data e c).1 = false := by
  simp only [rxRequest, wpaReceiveErrorReport, bind_apply, Prog.ite_apply,
    h.micFailureReport, Bool.false_eq_true, and_false, if_false]
  split_ifs <;> rfl

theorem rxProcess_dropped (h : ans.Grants)
    (hdrop : ∀ x ∈ (rxProcess ans a msg key data e c).2.out, x.isReceived = false) :
    (rxProcess ans a msg key data e c).2.st.sta.handshake = c.st.sta.handshake := by
  let r := rxAuthenticate ans msg data e c
  cases hresult : r.1 with
  | none =>
    rw [rxProcess_none rfl hresult]
    exact rxAuthenticate_dropped data h (.inl hresult)
  | some data' =>
    rw [rxProcess_some rfl hresult] at hdrop ⊢
    by_cases hmsg : msg ≠ .request
    · rw [if_pos hmsg] at hdrop
      cases hdrop _ (rxDeliver_received h)
    · have hreq := not_not.mp hmsg
      rw [if_neg hmsg] at hdrop
      by_cases hmic : ¬r.2.st.sta.micVerified
      · have hkept := rxAuthenticate_dropped (e := e) (c := c) data h (.inr hreq)
        rw [if_neg hmsg, if_pos hmic]
        exact hkept
      · rw [if_neg hmic, bind_apply, rxRequest_kept h, when_apply, if_pos (by decide)] at hdrop
        cases hdrop _ (rxDeliver_received h)

/-- A station that was sent message 3/4 after two copies of message 1/4. -/
def waitingLocal : Local where
  sta :=
    { sampleLocal.sta with
      ptkState := .ptkInitNegotiating
      prevKeyReplay := [⟨ofBeNat 1 8, true⟩] }
  group := sampleLocal.group

end Dropped

section Events
variable {e : Env} {c : Cfg Local Act}

/-- Something is asked of the state machine with a flag that every state gives way to. -/
theorem request_demand {sm sm' : Sta} (hstate : sm'.ptkState = sm.ptkState)
    (hanonce : sm'.anonce = sm.anonce) (hkept : sm.session.Kept sm'.session)
    (hvalid : sm'.ptkValid → sm.ptkValid ∧ sm'.ptk = sm.ptk)
    (hconfirmed : sm'.session.confirmed → sm.session.confirmed)
    (hdisconnect : sm.disconnect → sm'.disconnect)
    (hrenew : sm'.session.renew → sm.session.renew ∨ sm'.ptkValid = false)
    (hrequested : sm'.session.requested) : sm.session.Demands sm'.session :=
  { state := hstate
    anonce := hanonce
    kept := hkept
    valid := hvalid
    confirmed := hconfirmed
    disconnect := hdisconnect
    renew := hrenew
    requested := fun _ => hrequested
    lost := fun _ _ _ => hrequested }

theorem startMachine_path {passes : List Around} : Keeps Path (startMachine passes) e := by
  refine Keeps.bind (still_path (demand_sta fun sm => ?_)) fun _ =>
    Keeps.bind (wpaSmStep_path passes) fun _ => still_path (demand_sta fun sm => ?_)
  · exact request_demand rfl rfl ⟨rfl, rfl, rfl, id, rfl⟩ (fun h => ⟨h, rfl⟩) id id .inl
      (by simp [Sta.session])
  · exact request_demand rfl rfl ⟨rfl, rfl, rfl, id, rfl⟩ (fun h => ⟨h, rfl⟩) id id .inl
      (by simp [Sta.session])

/-- The station that another authentication was asked of. -/
def restarted (conf : Conf) (sm now : Sta) : Sta :=
  { (if sm.started then now.reauthenticate conf sm else now).forgetPtk with ftCompleted := false }

theorem restarted_requested {conf : Conf} {sm now : Sta}
    (h : sm.started = false → now.session.requested) :
    (restarted conf sm now).session.requested := by
  unfold restarted
  cases hstarted : sm.started with
  | false => exact h hstarted
  | true =>
    rw [if_pos rfl]
    unfold Sta.reauthenticate
    split_ifs <;> simp [Sta.session, Sta.forgetPtk]

theorem restarted_demand {conf : Conf} {sm now : Sta}
    (h : sm.started = false → now.session.requested) :
    now.session.Demands (restarted conf sm now).session := by
  refine request_demand ?_ ?_ ?_ (fun hv => by cases hv) ?_ ?_ (fun _ => .inr rfl)
    (restarted_requested h)
  all_goals unfold restarted Sta.reauthenticate
  all_goals split_ifs
  all_goals first | rfl | exact ⟨rfl, rfl, rfl, id, rfl⟩ | exact id | exact fun _ => rfl

theorem wpaAuthSmEvent_path {ev : WpaEvent} {first passes : List Around} :
    Path c (wpaAuthSmEvent ev first passes e c).2 := by
  have hdeauth : Keeps Path (do
      deauthenticated
      wpaSmStep passes : StaM Unit) e :=
    Keeps.bind (still_path deauthenticated_still) fun _ => wpaSmStep_path passes
  have hreauth (p : Prop) [Decidable p] : Path c (((do
      let sm ← getSta
      if ¬sm.started then startMachine first
      else
        when (sm.gUpdateStationKeys ∧ (sm.useExtKeyId ∨ ¬e.conf.wpaDenyPtk0Rekey)) dropGroupUpdate
      let now ← getSta
      when (¬now.pendingDeinit) (do
        modifySta (restarted e.conf sm)
        when p wpaRemovePtk
        wpaSmStep passes) : StaM Unit)) e c).2 := by
    have hrest (now : Cfg Local Act) (hnow : Path c now)
        (h : c.st.sta.started = false → now.st.sta.session.requested) : Path c (((do
          let sm ← getSta
          when (¬sm.pendingDeinit) (do
            modifySta (restarted e.conf c.st.sta)
            when p wpaRemovePtk
            wpaSmStep passes) : StaM Unit)) e now).2 := by
      refine hnow.trans (path_when (c := now) fun _ => ?_)
      let again : Cfg Local Act :=
        ⟨{ now.st with sta := restarted e.conf c.st.sta now.st.sta }, now.out⟩
      have hstill : Still now again := demand_still (restarted_demand h) rfl
      have hagain : Path now again := hstill.path
      have hremove : Path again (when p wpaRemovePtk e again).2 := path_when fun _ =>
        (wpaRemovePtk_still (.inl (restarted_requested h))).path
      exact (hagain.trans hremove).trans (wpaSmStep_path passes _)
    change Path c ((if ¬c.st.sta.started then _ else _ : StaM Unit) e c).2
    refine path_if (fun _ => hrest _ (startMachine_path c) fun _ => ?_) fun hs => hrest _
      (path_when fun _ => (dropGroupUpdate_still c).path) fun hs' => absurd hs' (by simpa using hs)
    simp [startMachine, modifySta, Sta.session]
  cases ev with
  | deauth => exact hdeauth c
  | disassoc => exact hdeauth c
  | reauth => exact hreauth (WpaEvent.reauth = .reauth)
  | reauthEapol => exact hreauth (WpaEvent.reauthEapol = .reauth)
  | drvStaRemoved => exact (sta_still (e := e) (f := fun sm => { sm with tkAlreadySet := false })
      (fun _ => rfl) c).path

theorem staStep_path (i : Input) (hc : Counted c.out c.st.sta.session) :
    Path c (staStep e c i) := by
  unfold staStep
  split
  · exact .refl
  · cases i with
    | receive a data => exact wpaReceive_path hc
    | timeout passes =>
      exact Keeps.bind (still_path (sta_still (f := fun sm =>
        { sm with pending1Of4Timeout := false, timeoutEvt := true }) fun _ => rfl))
        (fun _ => wpaSmStep_path passes) c
    | rekeyPtk passes =>
      exact Keeps.ask_bind (Keeps.bind (still_path (demand_sta (requestNewPtk_demand e.conf)))
        fun _ => wpaSmStep_path passes) c
    | event ev first passes => exact wpaAuthSmEvent_path
    | callStep passes => exact wpaSmStep_path passes c
    | groupUpdate passes => exact wpaGroupUpdateSta_path (wpaSmStep_path passes) c
    | groupDisconnect =>
      exact still_path (demand_sta fun sm => disconnect_demand sm sm.disconnectReason) c
    | group f => exact still_path (group_still) c

/-- Any run of inputs is a path, which keeps the counters in order on its way. -/
theorem inputs_path (inputs : List Input) (hc : Counted c.out c.st.sta.session) :
    Path c (inputs.foldl (staStep e) c) := by
  induction inputs generalizing c with
  | nil => exact .refl
  | cons i inputs ih =>
    have hstep := staStep_path (e := e) i hc
    exact hstep.trans (ih (hstep.counted.2 (fun _ _ => trivial) hc))

end Events

/-- An association with no PTK in place and no handshake under way, to which no counter of an
earlier handshake is left open. -/
structure Associating (env : Env) (l : Local) : Prop where
  valid : l.sta.ptkValid = false
  idle : l.sta.ptkState.idle
  frame : hasAck l.sta.lastRxEapolKey = false
  prev : ∀ r ∈ l.sta.prevKeyReplay, r.valid = false
  alt : l.sta.altSnonceValid = false
  /-- The counters are those of a new station, or the association clears them. -/
  counters : l.sta.keyReplay = clearedCounters ∨
    (env.conf.wpa ≠ 0 ∧ l.sta.started ∧ ¬(l.sta.ftCompleted ∨ l.sta.filsCompleted))

/-- Where a path of an association starts. -/
structure Starting (s : Session) : Prop extends Unused s where
  valid : s.valid = false
  idle : s.state.idle
  ack : s.ack = false

section Association
variable {env : Env} {l : Local} {first passes : List Around}

theorem wpaAuthStaAssociated_path (first passes : List Around) (h : Associating env l) :
    ∃ s, Starting s ∧ ReflTransGen Session.Move ⟨s, []⟩
      (session (wpaAuthStaAssociated first passes env ⟨l, []⟩).2) := by
  have hstart (hc : l.sta.keyReplay = clearedCounters) : Starting l.sta.session :=
    ⟨⟨hc, h.prev, h.alt⟩, h.valid, h.idle, h.frame⟩
  have hrun : wpaAuthStaAssociated first passes env ⟨l, []⟩ = ((if env.conf.wpa = 0 then pure ()
      else if l.sta.ftCompleted ∨ l.sta.filsCompleted then
        modifySta fun sm => { sm with ptkState := .ptkInitDone, pair := true }
      else if l.sta.started then do
        modifySta fun sm => { sm with keyReplay := clearedCounters, reAuthenticationRequest := true }
        wpaSmStep passes
      else do
        startMachine first
        let sm ← getSta
        when (¬sm.pendingDeinit) (wpaSmStep passes) : StaM Unit) env ⟨l, []⟩) := rfl
  rw [hrun]
  by_cases hwpa : env.conf.wpa = 0
  · rw [if_pos hwpa]
    exact ⟨_, hstart (h.counters.resolve_right fun hr => hr.1 hwpa), .refl⟩
  rw [if_neg hwpa]
  by_cases hfast : l.sta.ftCompleted ∨ l.sta.filsCompleted
  · rw [if_pos hfast]
    have hc := h.counters.resolve_right fun hr => hr.2.2 hfast
    exact ⟨_, ⟨⟨hc, h.prev, h.alt⟩, h.valid, rfl, h.frame⟩, .refl⟩
  rw [if_neg hfast]
  by_cases hstarted : l.sta.started
  · rw [if_pos hstarted]
    exact ⟨_, ⟨⟨rfl, h.prev, h.alt⟩, h.valid, h.idle, h.frame⟩, wpaSmStep_path (e := env) passes
      ⟨{ l with sta := { l.sta with
        keyReplay := clearedCounters
        reAuthenticationRequest := true } }, []⟩⟩
  · rw [if_neg hstarted]
    have hrest : Keeps Path (do
        startMachine first
        let sm ← getSta
        when (¬sm.pendingDeinit) (wpaSmStep passes) : StaM Unit) env :=
      Keeps.bind startMachine_path fun _ => Keeps.bind (still_path getSta_still) fun _ =>
        Keeps.when fun _ => wpaSmStep_path passes
    exact ⟨_, hstart (h.counters.resolve_right fun hr => hstarted hr.2.1), hrest ⟨l, []⟩⟩

/-- All that happens to a station from its association on is a path of the abstract machine. -/
theorem associationRun_path (first passes : List Around) (h : Associating env l)
    (inputs : List Input) :
    ∃ s, Starting s ∧ ReflTransGen Session.Move ⟨s, []⟩
      (session (associationRun env l first passes inputs)) := by
  obtain ⟨s, hs, hpath⟩ := wpaAuthStaAssociated_path first passes h
  have hcounted : Preserves (fun _ => True) Counted _ _ :=
    path_induction (R := Preserves (fun _ => True) Counted) (fun _ _ => Session.Move.counted) hpath
  exact ⟨s, hs, hpath.trans (inputs_path inputs
    (hcounted.2 (fun _ _ => trivial) hs.toUnused.counted))⟩

theorem associationRun_keyInv (first passes : List Around) (h : Associating env l)
    (inputs : List Input)
    (hfresh : Fresh (associationRun env l first passes inputs).out) :
    KeyInv (associationRun env l first passes inputs).out
      (associationRun env l first passes inputs).st.sta.session := by
  obtain ⟨s, hs, hpath⟩ := associationRun_path first passes h inputs
  exact keyInv_of_path hs.valid hs.idle hpath hfresh

/-- Two handshakes with a PSK. -/
def sampleInputs : List Input :=
  [.receive { step := sampleSteps } (sampleFrame 0x010a 0 1 101 sampleRsne),
    .receive { step := sampleSteps } (sampleFrame 0x030a 0 2 0 []), .rekeyPtk sampleSteps,
    .receive { step := sampleSteps } (sampleFrame 0x010a 0 3 102 sampleRsne),
    .receive { step := sampleSteps } (sampleFrame 0x030a 0 4 0 [])]

def sampleOut : List Act :=
  (associationRun sampleEnv sampleLocal sampleSteps sampleSteps sampleInputs).out

theorem sample_associating : Associating sampleEnv sampleLocal :=
  ⟨rfl, rfl, rfl, by decide, rfl, .inl rfl⟩

theorem sample_fresh : Fresh sampleOut := ⟨by decide +kernel, by decide +kernel⟩

/-- Within one association the authenticator hands no temporal key to the driver twice, whatever
frames, timeouts and requests come in whatever order, if no ANonce is drawn twice and keys from
different ANonces differ. -/
theorem pairwise_keys_nodup (h : Associating env l) (inputs : List Input)
    (hfresh : Fresh (associationRun env l first passes inputs).out) :
    (installedTks (associationRun env l first passes inputs).out).Nodup :=
  (associationRun_keyInv first passes h inputs hfresh).installed

theorem pairwise_keys_nodup_sample :
    (installedTks sampleOut).length = 2 ∧ (installedTks sampleOut).Nodup :=
  ⟨by decide +kernel, pairwise_keys_nodup sample_associating sampleInputs sample_fresh⟩

/-- A key that the authenticator installs was derived with the ANonce that was drawn last, and a
frame of the station was verified with it before. -/
theorem pairwise_keys_verified (h : Associating env l) (inputs : List Input)
    (hfresh : Fresh (associationRun env l first passes inputs).out) :
    Each InstallsVerified (associationRun env l first passes inputs).out :=
  (associationRun_keyInv first passes h inputs hfresh).verified

theorem pairwise_keys_verified_sample :
    (installedTks sampleOut).length = 2 ∧ Each InstallsVerified sampleOut :=
  ⟨by decide +kernel, pairwise_keys_verified sample_associating sampleInputs sample_fresh⟩

/-- The frames of an association take the counters 1, 2, 3 and so on. A reply is accepted only with
a counter that was taken before and, unless it is message 4/4, only if no reply with that counter
was accepted before. -/
theorem replies_counted (h : Associating env l) (inputs : List Input)
    (hrange : InRange (associationRun env l first passes inputs).out) :
    takenCounters (associationRun env l first passes inputs).out =
        numbered (takenCounters (associationRun env l first passes inputs).out).length ∧
      Each AcceptsOnce (associationRun env l first passes inputs).out := by
  obtain ⟨s, hs, hpath⟩ := associationRun_path first passes h inputs
  have hinv := counterInv_of_path hs.toUnused hpath hrange
  exact ⟨hinv.taken, hinv.once⟩

theorem replies_counted_sample :
    (acceptedCounters sampleOut).length = 4 ∧
      takenCounters sampleOut = numbered (takenCounters sampleOut).length ∧
      Each AcceptsOnce sampleOut :=
  ⟨by decide +kernel, replies_counted sample_associating sampleInputs (by
    have hlength : (takenCounters sampleOut).length = 4 := by decide +kernel
    change (takenCounters sampleOut).length < _
    rw [hlength]
    decide)⟩

end Association
end Wpa.Auth
