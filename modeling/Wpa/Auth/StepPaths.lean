import Wpa.Auth.Machine
import Wpa.Auth.Session

/-! `wpa_sm_step` refines the abstract machine: whatever the state machines of a station and of its
group do is a path of session moves. -/

namespace Wpa.Auth
open Lib Bytes Prog Relation

/-- What the abstract machine sees of a configuration. -/
def session (c : Cfg Local Act) : Cfg Session Act := ⟨c.st.sta.session, c.out⟩

def Path (c c' : Cfg Local Act) : Prop := ReflTransGen Session.Move (session c) (session c')

instance : Std.Refl Path where
  refl _ := .refl

instance : IsTrans _ Path where
  trans _ _ _ := ReflTransGen.trans

/-- A path that stays in the state of `WPA_PTK`. -/
structure Still (c c' : Cfg Local Act) : Prop where
  path : Path c c'
  state : c'.st.sta.ptkState = c.st.sta.ptkState

instance : Std.Refl Still where
  refl c := ⟨refl c, rfl⟩

instance : IsTrans _ Still where
  trans _ _ _ h h' := ⟨h.path.trans h'.path, h'.state.trans h.state⟩

theorem still_path {α : Type} {x : StaM α} {e : Env} (h : Keeps Still x e) : Keeps Path x e :=
  h.mono fun _ _ => Still.path

section Elementary
variable {e : Env} {c c' : Cfg Local Act} {a : Act} {acts : List Act}

theorem still_same (h : c'.st.sta.session = c.st.sta.session) (hout : c'.out = c.out) :
    Still c c' := by
  refine ⟨?_, congrArg Session.state h⟩
  have heq : session c' = session c := by rw [session, session, h, hout]
  rw [Path, heq]

theorem still_quiet (h : c'.st.sta.session = c.st.sta.session) (hout : c'.out = c.out ++ acts)
    (hacts : ∀ a ∈ acts, a.quiet) : Still c c' := by
  refine ⟨?_, congrArg Session.state h⟩
  have heq : session c' = ⟨c.st.sta.session, c.out ++ acts⟩ := by rw [session, h, hout]
  rw [Path, heq]
  exact .single (.quiet acts hacts)

theorem demand_still (h : c.st.sta.session.Demands c'.st.sta.session) (hout : c'.out = c.out) :
    Still c c' := by
  refine ⟨?_, h.state⟩
  have heq : session c' = ⟨c'.st.sta.session, c.out⟩ := by rw [session, hout]
  rw [Path, heq]
  exact .single (.demand h)

theorem leave_path (acts : List Act) (h : c.st.sta.session.Leaves c'.st.sta.session) (hout : c'.out = c.out ++ acts)
    (hacts : ∀ a ∈ acts, a.quiet) : Path c c' := by
  have heq : session c' = ⟨c'.st.sta.session, c.out ++ acts⟩ := by rw [session, hout]
  rw [Path, heq]
  exact .head (.leave h) (.single (.quiet acts hacts))

theorem advance_path (acts : List Act) (h : c.st.sta.session.Advances c'.st.sta.session)
    (hout : c'.out = c.out ++ acts) (hacts : ∀ a ∈ acts, a.quiet) : Path c c' := by
  have heq : session c' = ⟨c'.st.sta.session, c.out ++ acts⟩ := by rw [session, hout]
  rw [Path, heq]
  exact .head (.advance h) (.single (.quiet acts hacts))

theorem sta_still {f : Sta → Sta} (h : ∀ sm, (f sm).session = sm.session) :
    Keeps Still (modifySta f) e :=
  fun c => still_same (h c.st.sta) rfl

theorem group_still {f : Group → Group} : Keeps Still (modifyGroup f) e :=
  fun _ => still_same rfl rfl

theorem emit_still (h : a.quiet) : Keeps Still (emit a : StaM Unit) e :=
  fun _ => still_quiet rfl rfl (quiet_singleton h)

theorem emitAll_still (h : ∀ a ∈ acts, a.quiet) : Keeps Still (emitAll acts : StaM Unit) e :=
  fun _ => still_quiet rfl rfl h

theorem demand_sta {f : Sta → Sta} (h : ∀ sm : Sta, sm.session.Demands (f sm).session) :
    Keeps Still (modifySta f) e :=
  fun c => demand_still (h c.st.sta) rfl

theorem query_still : Keeps Still query e := fun _ => still_same rfl rfl

theorem getSta_still : Keeps Still getSta e := fun c => refl c

theorem getGroup_still : Keeps Still getGroup e := fun c => refl c

/-- The state machine is asked to disconnect the station. -/
theorem disconnect_demand (sm : Sta) (reason : ℕ) :
    sm.session.Demands { sm with disconnect := true, disconnectReason := reason }.session :=
  { state := rfl
    anonce := rfl
    kept := ⟨rfl, rfl, rfl, id, rfl⟩
    valid := fun h => ⟨h, rfl⟩
    confirmed := id
    disconnect := fun _ => rfl
    renew := .inl
    requested := fun _ => by simp [Sta.session]
    lost := fun hs ht => absurd hs (by rw [show sm.session.valid = false from ht]; decide) }

/-- The station forgets its PTK where nothing depends on it any more. -/
theorem forget_demand {sm : Sta}
    (h : sm.session.requested ∨ sm.ptkState.confirming = false) :
    sm.session.Demands sm.forgetPtk.session :=
  { state := rfl
    anonce := rfl
    kept := ⟨rfl, rfl, rfl, id, rfl⟩
    valid := fun hv => absurd hv (by simp [Sta.session, Sta.forgetPtk])
    confirmed := id
    disconnect := id
    renew := .inl
    requested := id
    lost := fun _ _ hc => h.resolve_right fun hnot => by
      rw [show sm.session.state.confirming = false from hnot] at hc
      cases hc }

theorem wpaRemovePtk_still
    (h : c.st.sta.session.requested ∨ c.st.sta.ptkState.confirming = false) :
    Still c (wpaRemovePtk e c).2 := by
  have hrest : Keeps Still (do
      let sm ← getSta
      emit (.removeKey 0)
      when sm.useExtKeyId (emit (.removeKey 1))
      modifySta fun sm => { sm with pairwiseSet := false } : StaM Unit) e :=
    Keeps.bind getSta_still fun _ => Keeps.bind (emit_still rfl) fun _ =>
      Keeps.bind (Keeps.when fun _ => emit_still rfl) fun _ => sta_still fun _ => rfl
  have hfirst : Still c (modifySta Sta.forgetPtk e c).2 := demand_still (forget_demand h) rfl
  exact IsTrans.trans _ _ _ hfirst (hrest _)

theorem dropGroupUpdate_still : Keeps Still dropGroupUpdate e :=
  Keeps.bind getSta_still fun _ => Keeps.bind (Keeps.when fun _ => group_still) fun _ =>
    sta_still fun _ => rfl

theorem deauthenticated_still : Keeps Still deauthenticated e := by
  intro c
  have hfirst : Still c (modifySta (fun sm =>
      { sm.forgetPtk with
        deauthenticationRequest := true
        pmk := []
        xxkey := []
        pmkR1 := []
        ftCompleted := false }) e c).2 := demand_still
    { state := rfl
      anonce := rfl
      kept := ⟨rfl, rfl, rfl, id, rfl⟩
      valid := fun hv => absurd hv (by simp [Sta.session, Sta.forgetPtk, modifySta])
      confirmed := id
      disconnect := id
      renew := .inl
      requested := fun _ => by simp [Sta.session, modifySta]
      lost := fun _ _ _ => by simp [Sta.session, modifySta] } rfl
  refine IsTrans.trans _ _ _ hfirst (wpaRemovePtk_still (.inl ?_))
  simp [Sta.session, modifySta]

theorem wpaStaDisconnect_still {ans : Answer} {reason : ℕ} :
    Keeps Still (wpaStaDisconnect ans reason) e := by
  refine Keeps.bind (emit_still rfl) fun _ => Keeps.bind (Keeps.when fun _ => ?_) fun _ =>
    Keeps.when fun _ => sta_still fun _ => rfl
  exact Keeps.bind deauthenticated_still fun _ => sta_still fun _ => rfl

end Elementary

section Frames
variable {e : Env} {ans : Answer} {a : SendArgs}

theorem hasBits_or_left {x m : ℕ} (y : ℕ) (h : hasBits x m) : hasBits (x ||| y) m := by
  simp only [hasBits, bne_iff_ne, ne_eq, Nat.and_or_distrib_right, Nat.or_eq_zero_iff] at h ⊢
  exact fun hor => h hor.1

theorem hasBits_or_right (x : ℕ) {y m : ℕ} (h : hasBits y m) : hasBits (x ||| y) m := by
  rw [Nat.or_comm]
  exact hasBits_or_left x h

theorem keyInfo_eapolFrame {conf : Conf} {sm : Sta} {counter iv keyData : Bytes} :
    (EapolKey.read (eapolFrame conf sm a counter iv keyData)).keyInfo =
      frameKeyInfo sm a % 65536 := by
  simp [EapolKey.read, eapolFrame, frameHeader, frameKey, EapolKey.write, ofBeNat, be16, byteAt]
  omega

/-- The frames of the authenticator have the Key Ack bit. -/
theorem hasAck_eapolFrame {conf : Conf} {sm : Sta} {counter iv keyData : Bytes}
    (h : hasBits a.keyInfo keyInfoAck) : hasAck (eapolFrame conf sm a counter iv keyData) := by
  have hinfo : hasBits (frameKeyInfo sm a) keyInfoAck := by
    unfold frameKeyInfo
    split_ifs <;> first
      | exact hasBits_or_left _ (hasBits_or_left _ (hasBits_or_left _ h))
      | exact hasBits_or_left _ (hasBits_or_left _ h)
      | exact hasBits_or_left _ h
  rw [hasAck, EapolKey.has, keyInfo_eapolFrame]
  have hmod : frameKeyInfo sm a % 65536 &&& keyInfoAck = frameKeyInfo sm a &&& keyInfoAck := by
    have hand := @Nat.and_mod_two_pow (frameKeyInfo sm a) keyInfoAck 16
    rw [Nat.mod_eq_of_lt (lt_of_le_of_lt Nat.and_le_right (by decide))] at hand
    exact hand.symm
  rwa [hasBits, hmod]

theorem sendFrame_apply (a : SendArgs) (frame : Bytes) (e : Env) (c : Cfg Local Act) :
    sendFrame a frame e c = (if hasBits (frameKeyInfo c.st.sta a) keyInfoMic then
      if ¬c.st.sta.ptkValid ∨ c.st.sta.micLen = 0 then pure ()
      else
        match wpaEapolKeyMic e.cr c.st.sta.ptk.kck c.st.sta.wpaKeyMgmt (eapolKeyVersion c.st.sta)
          frame with
        | none => pure ()
        | some mic => do
          emit (.mic c.st.sta.ptk.kck (eapolKeyVersion c.st.sta) frame)
          emit (.sendEapol (frame.writeAt micOffset mic))
    else emit (.sendEapol frame) : StaM Unit) e c := rfl

theorem sendFrame_still {frame : Bytes} (hack : hasAck frame) : Keeps Still (sendFrame a frame) e := by
  intro c
  rw [sendFrame_apply]
  by_cases hmic : hasBits (frameKeyInfo c.st.sta a) keyInfoMic
  · rw [if_pos hmic]
    by_cases hvalid : ¬c.st.sta.ptkValid ∨ c.st.sta.micLen = 0
    · rw [if_pos hvalid]
      exact refl c
    · rw [if_neg hvalid]
      -- the MIC is taken under a PTK that is valid, over a frame with the Key Ack bit
      rw [not_or, not_not] at hvalid
      cases wpaEapolKeyMic e.cr c.st.sta.ptk.kck c.st.sta.wpaKeyMgmt (eapolKeyVersion c.st.sta)
        frame with
      | none => exact refl c
      | some mic =>
        have hmac : Still c
            ⟨c.st, c.out ++ [.mic c.st.sta.ptk.kck (eapolKeyVersion c.st.sta) frame]⟩ :=
          ⟨.single (.mic hvalid.1 hack), rfl⟩
        exact IsTrans.trans _ _ _ hmac (emit_still rfl _)
  · rw [if_neg hmic]
    exact emit_still rfl c

theorem protectedFrame_still (counter : Bytes) (hack : hasBits a.keyInfo keyInfoAck) :
    Keeps Still (do
      let l ← get
      match protectKeyData e ans l a counter with
      | none => pure ()
      | some (keyIv, keyData, groupCounter) => do
        modifyGroup fun g => { g with counter := groupCounter }
        sendFrame a (eapolFrame e.conf l.sta a counter keyIv keyData) : StaM Unit) e := by
  refine Keeps.bind Keeps.get fun l => ?_
  split
  · exact Keeps.pure _
  · exact Keeps.bind group_still fun _ => sendFrame_still (hasAck_eapolFrame hack)

theorem wpaSendEapolFrame_still (hack : hasBits a.keyInfo keyInfoAck) :
    Keeps Still (wpaSendEapolFrame ans a) e := by
  refine Keeps.ask_bind (Keeps.when fun _ c => ?_)
  have htake : Still c ⟨{ c.st with
      sta := { c.st.sta with keyReplay := takeCounter c.st.sta.keyReplay } },
      c.out ++ [.take (nextCounter c.st.sta.keyReplay)]⟩ := ⟨.single .take, rfl⟩
  exact IsTrans.trans _ _ _ htake (protectedFrame_still _ hack _)

theorem wpaSendEapol_still (hack : hasBits a.keyInfo keyInfoAck) :
    Keeps Still (wpaSendEapol ans a) e := by
  refine Keeps.bind (wpaSendEapolFrame_still hack) fun _ => sta_still fun sm => ?_
  split_ifs <;> rfl

end Frames

section Groups
variable {e : Env} {ans : Answer}

theorem wpaGroupConfigGroupKeys_quiet {g : Group} :
    ∀ a ∈ (wpaGroupConfigGroupKeys e ans g).1, a.quiet := by
  simp only [wpaGroupConfigGroupKeys]
  split_ifs <;> simp [Act.quiet, Act.derivation, Act.drawnAnonce, Act.installedTk, Act.taken,
    Act.accepted, Act.protects]

theorem ensureInit_quiet {g : Group} : ∀ a ∈ (ensureInit e ans g).2, a.quiet := by
  simp only [ensureInit, reinitGroupKeys]
  split_ifs
  all_goals first | exact wpaGroupConfigGroupKeys_quiet | simp

end Groups

section States
variable {e : Env} {ans : Answer} {c : Cfg Local Act}

/-- A state outside of every handshake is entered. -/
theorem enter_path {x : PtkState} (hx : x.idle) (hauth : x ≠ .authentication) :
    Keeps Path (enter x) e := fun _ =>
  leave_path [.enter x]
    { state := .inl hx
      anonce := rfl
      kept := ⟨rfl, rfl, rfl, id, rfl⟩
      valid := fun hv => ⟨hv, rfl⟩
      renew := .inl
      authentication := fun h => absurd h hauth } rfl (quiet_singleton rfl)

/-- Outside of every handshake the requests may be dropped. -/
theorem dropped_path {f : Sta → Sta} (hidle : c.st.sta.ptkState.idle)
    (hf : (f c.st.sta).session = { c.st.sta.session with
      disconnect := (f c.st.sta).session.disconnect
      requested := (f c.st.sta).session.requested })
    (hauth : c.st.sta.ptkState = .authentication → c.st.sta.ptkValid = false) :
    Path c (modifySta f e c).2 := by
  refine leave_path [] ?_ (List.append_nil _).symm (by simp)
  have heq : (modifySta f e c).2.st.sta.session = (f c.st.sta).session := rfl
  rw [heq, hf]
  exact
    { state := .inl hidle
      anonce := rfl
      kept := ⟨rfl, rfl, rfl, id, rfl⟩
      valid := fun hv => ⟨hv, rfl⟩
      renew := .inl
      authentication := hauth }

theorem quietInit_session (sm : Sta) : sm.quietInit.session = sm.session := by
  unfold Sta.quietInit
  split_ifs <;> rfl

/-- A path in a state where nothing depends on the PTK. -/
def Calm (c c' : Cfg Local Act) : Prop := c.st.sta.ptkState.confirming = false → Still c c'

instance : Std.Refl Calm where
  refl c _ := refl c

instance : IsTrans _ Calm where
  trans a b c hab hbc h := by
    have hab' := hab h
    exact IsTrans.trans _ _ _ hab' (hbc (by rw [hab'.state]; exact h))

theorem calm_of_still {α : Type} {x : StaM α} (h : Keeps Still x e) : Keeps Calm x e :=
  h.mono fun _ _ h _ => h

theorem ptkInitialize_path : Keeps Path ptkInitialize e := by
  have hrest : Keeps Calm (do
      modifySta Sta.quietInit
      dropGroupUpdate
      modifySta fun sm => { sm with pInitAKeys := sm.pInitAKeys && sm.wpa != .wpa, pair := true }
      emit (.setEapol .portEnabled false)
      wpaRemovePtk
      emit (.setEapol .portValid false)
      modifySta fun sm => { sm with timeoutCtr := 0 }
      let sm ← getSta
      when sm.authorizesPort (emit (.setEapol .authorized false)) : StaM Unit) e := by
    refine Keeps.bind (calm_of_still (sta_still quietInit_session)) fun _ => ?_
    refine Keeps.bind (calm_of_still dropGroupUpdate_still) fun _ => ?_
    refine Keeps.bind (calm_of_still (sta_still fun _ => rfl)) fun _ => ?_
    refine Keeps.bind (calm_of_still (emit_still rfl)) fun _ => ?_
    refine Keeps.bind (fun c hc => wpaRemovePtk_still (.inr hc)) fun _ => ?_
    refine calm_of_still (Keeps.bind (emit_still rfl) fun _ => ?_)
    refine Keeps.bind (sta_still fun _ => rfl) fun _ => Keeps.bind getSta_still fun _ => ?_
    exact Keeps.when fun _ => emit_still rfl
  intro c
  have hfirst := enter_path (e := e) (x := .init) rfl (by decide) c
  exact hfirst.trans (hrest _ rfl).path

theorem ptkDisconnect_path : Keeps Path (ptkDisconnect ans) e := by
  intro c
  have hfirst := enter_path (e := e) (x := .disconnect) rfl (by decide) c
  have hdrop : Path (enter .disconnect e c).2 (modifySta (fun sm =>
      { sm with disconnect := false, disconnectReason := 0 }) e (enter .disconnect e c).2).2 :=
    dropped_path rfl rfl fun h => by cases h
  exact (hfirst.trans hdrop).trans (wpaStaDisconnect_still _).path

theorem ptkDisconnected_path : Keeps Path ptkDisconnected e := by
  intro c
  have hfirst := enter_path (e := e) (x := .disconnected) rfl (by decide) c
  exact hfirst.trans (dropped_path rfl rfl fun h => by cases h)

theorem ptkAuthentication_path : Keeps Path ptkAuthentication e := by
  intro c
  have hfirst : Path c (modifySta Sta.forgetPtk e (enter .authentication e c).2).2 :=
    leave_path [.enter .authentication]
      { state := .inl rfl
        anonce := rfl
        kept := ⟨rfl, rfl, rfl, id, rfl⟩
        valid := fun hv => by cases hv
        renew := .inl
        authentication := fun _ => rfl } rfl (quiet_singleton rfl)
  have hemit : Keeps Still (do
      emit (.setEapol .portControlAuto true)
      emit (.setEapol .portEnabled true) : StaM Unit) e :=
    Keeps.bind (emit_still rfl) fun _ => emit_still rfl
  refine (hfirst.trans (hemit _).path).trans (dropped_path rfl rfl fun _ => rfl)

/-- The state that AUTHENTICATION2 leaves behind, with the group keys already set up. -/
theorem ptkAuthentication2_path
    (h : c.st.sta.session.renew ∨ c.st.sta.ptkState = .authentication) :
    Path c (ptkAuthentication2 ans e c).2 := by
  have hquiet : ∀ a ∈ [Act.enter .authentication2] ++ (ensureInit e ans c.st.group).2, a.quiet := by
    intro a ha
    rcases List.mem_append.mp ha with ha | ha
    · exact quiet_singleton rfl a ha
    · exact ensureInit_quiet a ha
  cases hr : ans.random .anonce with
  | none =>
    have hout : (ptkAuthentication2 ans e c).2.out =
        c.out ++ ([.enter .authentication2] ++ (ensureInit e ans c.st.group).2) := by
      simp only [ptkAuthentication2, drawAnonce, hr]
      exact List.append_assoc ..
    have hsta : (ptkAuthentication2 ans e c).2.st.sta =
        { c.st.sta with
          ptkState := .authentication2
          changed := true
          reAuthenticationRequest := false
          disconnect := true } := by
      simp only [ptkAuthentication2, drawAnonce, hr]
      rfl
    refine leave_path _ ?_ hout hquiet
    rw [hsta]
    exact
      { state := .inr ⟨rfl, rfl⟩
        anonce := rfl
        kept := ⟨rfl, rfl, rfl, id, rfl⟩
        valid := fun hv => ⟨hv, rfl⟩
        renew := fun hr => .inl (by simp_all [Sta.session])
        authentication := fun h => by cases h }
  | some a =>
    have hout : (ptkAuthentication2 ans e c).2.out =
        c.out ++ ([.enter .authentication2] ++ (ensureInit e ans c.st.group).2) ++ [.anonce a] := by
      simp only [ptkAuthentication2, drawAnonce, hr]
      rw [← List.append_assoc]
      rfl
    have hsta : (ptkAuthentication2 ans e c).2.st.sta =
        { c.st.sta with
          ptkState := .authentication2
          changed := true
          reAuthenticationRequest := false
          anonce := a
          timeoutCtr := 0 } := by
      simp only [ptkAuthentication2, drawAnonce, hr]
      rfl
    have heq : session (ptkAuthentication2 ans e c).2 =
        ⟨(ptkAuthentication2 ans e c).2.st.sta.session,
          c.out ++ ([.enter .authentication2] ++ (ensureInit e ans c.st.group).2) ++
            [.anonce a]⟩ := by
      rw [session, hout]
    rw [Path, heq, hsta]
    exact .head (.quiet _ hquiet) (.single (.redraw
      { cause := h
        state := .inl rfl
        anonce := rfl
        kept := ⟨rfl, rfl, rfl, id, rfl⟩
        key := ⟨rfl, rfl⟩ }))

/-- PTKSTART once the state is entered. -/
def startedHandshake (sm : Sta) : Sta :=
  { sm with
    ptkState := .ptkStart
    changed := true
    ptkRequest := false
    timeoutEvt := false
    altSnonceValid := false
    timeoutCtr := sm.timeoutCtr + 1 }

theorem ptkStart_still :
    Still ⟨{ c.st with sta := startedHandshake c.st.sta }, c.out ++ [.enter .ptkStart]⟩
      (ptkStart ans e c).2 := by
  have hrest : Keeps Still (do
      let sm ← getSta
      when (sm.timeoutCtr ≤ e.conf.wpaPairwiseUpdateCount)
        (wpaSendEapol ans (msg1Of4Args e sm)) : StaM Unit) e :=
    Keeps.bind getSta_still fun _ => Keeps.when fun _ => wpaSendEapol_still (hasBits_or_left (x := keyInfoAck) _ rfl)
  exact hrest _

/-- A state of the handshake in which no request is pending. -/
structure Free (c : Cfg Local Act) : Prop where
  origin : c.st.sta.ptkState.keyed ∨
    (c.st.sta.ptkState = .authentication2 ∧ c.st.sta.disconnect = false)
  requested : c.st.sta.session.requested = false

theorem not_requested {p : Prop} (h : Free c) (hr : c.st.sta.session.requested) : p := by
  rw [h.requested] at hr
  cases hr

theorem Free.renew (h : Free c) : c.st.sta.session.renew = false := by
  have hr := h.requested
  simp only [Sta.session, Bool.or_eq_false_iff] at hr ⊢
  exact ⟨hr.1.2, hr.2⟩

theorem ptkStart_path (h : Free c) : Path c (ptkStart ans e c).2 := by
  have hfirst : Path c
      ⟨{ c.st with sta := startedHandshake c.st.sta }, c.out ++ [.enter .ptkStart]⟩ :=
    advance_path [.enter .ptkStart]
      { origin := h.origin
        state := rfl
        anonce := rfl
        kept := ⟨rfl, rfl, rfl, (fun hv => by cases hv), rfl⟩
        key := ⟨rfl, rfl⟩
        renew := fun hr => by simp_all [Sta.session, startedHandshake]
        requested := not_requested h
        confirmed := id
        confirming := fun hc => by cases hc } rfl (quiet_singleton rfl)
  exact hfirst.trans ptkStart_still.path

theorem ptkUpdate_path (h : c.st.sta.session.renew) : Path c (ptkUpdate ans e c).2 := by
  cases hr : ans.random .anonce with
  | none =>
    have hrun : (ptkUpdate ans e c).2 = (ptkDisconnected e
        (modifySta (fun sm => { sm with disconnect := true }) e c).2).2 := by
      simp only [ptkUpdate, drawAnonce, hr]
      rfl
    rw [hrun]
    exact (demand_sta (fun sm => disconnect_demand sm sm.disconnectReason) c).path.trans
      (ptkDisconnected_path _)
  | some a =>
    let drawn : Cfg Local Act :=
      ⟨{ c.st with sta := { c.st.sta with anonce := a, timeoutCtr := 0 } }, c.out ++ [.anonce a]⟩
    have hrun : (ptkUpdate ans e c).2 = (ptkStart ans e drawn).2 := by
      simp only [ptkUpdate, drawAnonce, hr]
      rfl
    have hfirst : Path c ⟨{ drawn.st with sta := startedHandshake drawn.st.sta },
        drawn.out ++ [.enter .ptkStart]⟩ :=
      .head (.redraw (t := (startedHandshake drawn.st.sta).session)
        { cause := .inl h
          state := .inr rfl
          anonce := rfl
          kept := ⟨rfl, rfl, rfl, (fun hv => by cases hv), rfl⟩
          key := ⟨rfl, rfl⟩ }) (.single (.quiet _ (quiet_singleton rfl)))
    rw [hrun]
    exact hfirst.trans ptkStart_still.path

/-- A state of the handshake is entered. -/
theorem enter_advance {x : PtkState} (h : Free c) (hx : x.keyed)
    (hc : x.confirming → c.st.sta.session.confirmed → c.st.sta.ptkState.confirming) :
    Path c (enter x e c).2 :=
  advance_path [.enter x]
    { origin := h.origin
      state := hx
      anonce := rfl
      kept := ⟨rfl, rfl, rfl, id, rfl⟩
      key := ⟨rfl, rfl⟩
      renew := id
      requested := id
      confirmed := id
      confirming := hc } rfl (quiet_singleton rfl)

theorem takePmk_session {sm sm' : Sta} (h : sm.takePmk ans = some sm') :
    sm'.session = sm.session := by
  unfold Sta.takePmk at h
  split at h
  · cases h
    rfl
  · dsimp only at h
    rw [ite_eq_iff'] at h
    by_cases hdpp : sm.wpaKeyMgmt = keyMgmtDpp
    · cases h.1 hdpp
    · have hmsk := h.2 hdpp
      split at hmsk
      · cases hmsk
      · rw [Option.ite_none_left_eq_some] at hmsk
        cases hmsk.2
        rfl

theorem takenPmk_still : Still c ((match c.st.sta.takePmk ans with
    | none => modifySta fun sm =>
      { sm with
        disconnect := true
        disconnectReason := if sm.pmksa = none ∧ sm.wpaKeyMgmt = keyMgmtDpp then
          reasonInvalidPmkid else sm.disconnectReason }
    | some sm => do
      modifySta fun _ => { sm with reqReplayCounterUsed := false }
      emit (.setEapol .keyRun false) : StaM Unit) e c).2 := by
  cases hpmk : c.st.sta.takePmk ans with
  | none => exact demand_sta (fun sm => disconnect_demand sm _) c
  | some sm =>
    have hsession : sm.session = c.st.sta.session := takePmk_session hpmk
    have hsame : Still c (modifySta (fun _ => { sm with reqReplayCounterUsed := false }) e c).2 :=
      still_same hsession rfl
    exact IsTrans.trans _ _ _ hsame (emit_still rfl _)

theorem ptkInitPmk_path (h : Free c) : Path c (ptkInitPmk ans e c).2 := by
  refine (enter_advance (e := e) (x := .initPmk) h rfl fun hc => by cases hc).trans ?_
  have hcleared (c : Cfg Local Act) :
      Still c (modifySta (fun sm => { sm with xxkey := [] }) e c).2 := still_same rfl rfl
  exact (IsTrans.trans _ _ _ (hcleared _) takenPmk_still).path

theorem takePsk_session (sm : Sta) : (sm.takePsk ans).session = sm.session := by
  unfold Sta.takePsk
  dsimp only
  split
  · split
    · split_ifs <;> rfl
    · split_ifs <;> rfl
  · split <;> rfl

theorem ptkInitPsk_path (h : Free c) : Path c (ptkInitPsk ans e c).2 := by
  refine (enter_advance (e := e) (x := .initPsk) h rfl fun hc => by cases hc).trans ?_
  have hrest : Keeps Still (modifySta fun sm =>
      { sm.takePsk ans with reqReplayCounterUsed := false }) e :=
    sta_still fun sm => takePsk_session sm
  exact (hrest _).path

theorem ptkCalcNegotiating2_path (h : Free c) (hstate : c.st.sta.ptkState.confirming) :
    Path c (ptkCalcNegotiating2 e c).2 := by
  have hrest : Keeps Still (modifySta fun sm => { sm with timeoutCtr := 0 }) e :=
    sta_still fun _ => rfl
  refine (enter_advance (e := e) (x := .ptkCalcNegotiating2) h rfl fun _ _ => hstate).trans ?_
  exact (hrest _).path

theorem msg3Of4_still : Keeps Still (do
    let env ← ask
    modifySta fun sm => { sm with timeoutEvt := false, timeoutCtr := sm.timeoutCtr + 1 }
    let l ← get
    let sm := l.sta
    let rx := sm.wpa == .wpa2 && sm.useExtKeyId && sm.timeoutCtr == 1
    if retryLimitReached env.conf sm.timeoutCtr env.conf.wpaPairwiseUpdateCount then pure ()
    else do
      when rx (emit (.setPairwise .ptkRx sm.keyidxActive sm.ptk.tk))
      if rx ∧ ¬ans.setKey .ptkRx then wpaStaDisconnect ans reasonPrevAuthNotValid
      else
        match msg3Of4Kde env ans l with
        | none => pure ()
        | some kde => wpaSendEapol ans (msg3Of4Args ans l kde) : StaM Unit) e := by
  refine Keeps.ask_bind (Keeps.bind (sta_still fun _ => rfl) fun _ => Keeps.bind Keeps.get
    fun l => Keeps.ite (fun _ => Keeps.pure _) fun _ => ?_)
  refine Keeps.bind (Keeps.when fun _ => emit_still rfl) fun _ =>
    Keeps.ite (fun _ => wpaStaDisconnect_still) fun _ => ?_
  split
  · exact Keeps.pure _
  · exact wpaSendEapol_still (hasBits_or_left _ (hasBits_or_left _ (hasBits_or_right _ rfl)))

theorem ptkInitNegotiating_path (h : Free c) (hstate : c.st.sta.ptkState.confirming) :
    Path c (ptkInitNegotiating ans e c).2 := by
  refine (enter_advance (e := e) (x := .ptkInitNegotiating) h rfl fun _ _ => hstate).trans ?_
  exact (msg3Of4_still _).path

theorem handshakeCompleted_still : Keeps Still handshakeCompleted e :=
  Keeps.bind (emit_still rfl) fun _ => Keeps.bind (emit_still rfl) fun _ =>
    Keeps.bind (emit_still rfl) fun _ => sta_still fun _ => rfl

/-- PTKINITDONE once the state is entered. -/
def finishedHandshake (sm : Sta) : Sta :=
  { sm with ptkState := .ptkInitDone, changed := true, eapolKeyReceived := false }

theorem finished_path :
    Path c ⟨{ c.st with sta := finishedHandshake c.st.sta }, c.out ++ [.enter .ptkInitDone]⟩ :=
  leave_path [.enter .ptkInitDone]
    { state := .inl rfl
      anonce := rfl
      kept := ⟨rfl, rfl, rfl, id, rfl⟩
      valid := fun hv => ⟨hv, rfl⟩
      renew := .inl
      authentication := fun h => by cases h } rfl (quiet_singleton rfl)

/-- The key goes to the driver after a frame was verified under it. -/
theorem ptkInitDone_path (hstate : c.st.sta.ptkState = .ptkInitNegotiating)
    (hconfirmed : c.st.sta.session.confirmed) (hfree : c.st.sta.session.requested = false) :
    Path c (ptkInitDone ans e c).2 := by
  let done : Cfg Local Act :=
    ⟨{ c.st with sta := finishedHandshake c.st.sta }, c.out ++ [.enter .ptkInitDone]⟩
  have htail (sm : Sta) : Keeps Still (if ¬ans.setKey (if sm.useExtKeyId then .ptkActivate else .ptk)
      then wpaStaDisconnect ans reasonPrevAuthNotValid
      else do
        modifySta fun sm => { sm with pairwiseSet := true }
        when sm.authorizesPort (emit (.setEapol .authorized true))
        handshakeCompleted) e :=
    Keeps.ite (fun _ => wpaStaDisconnect_still) fun _ => Keeps.bind (sta_still fun _ => rfl)
      fun _ => Keeps.bind (Keeps.when fun _ => emit_still rfl) fun _ => handshakeCompleted_still
  have hrun : (ptkInitDone ans e c).2 = ((if ¬done.st.sta.pair then handshakeCompleted
      else do
        emit (if done.st.sta.useExtKeyId then .setPairwise .ptkActivate done.st.sta.keyidxActive []
          else .installPtk (wpaCipherToAlg done.st.sta.pairwise) done.st.sta.ptk.tk)
        if ¬ans.setKey (if done.st.sta.useExtKeyId then .ptkActivate else .ptk) then
          wpaStaDisconnect ans reasonPrevAuthNotValid
        else do
          modifySta fun sm => { sm with pairwiseSet := true }
          when done.st.sta.authorizesPort (emit (.setEapol .authorized true))
          handshakeCompleted : StaM Unit) e done).2 := rfl
  rw [hrun]
  by_cases hpair : ¬done.st.sta.pair
  · rw [if_pos hpair]
    exact finished_path.trans (handshakeCompleted_still _).path
  · rw [if_neg hpair]
    by_cases hext : done.st.sta.useExtKeyId
    · have hquiet : Still done ⟨done.st, done.out ++
          [.setPairwise .ptkActivate done.st.sta.keyidxActive []]⟩ := still_quiet rfl rfl (quiet_singleton rfl)
      have hend := htail done.st.sta ⟨done.st, done.out ++
          [.setPairwise .ptkActivate done.st.sta.keyidxActive []]⟩
      simp only [hext, if_true] at hend ⊢
      exact finished_path.trans (hquiet.path.trans hend.path)
    · have hinstall : Path c ⟨done.st, done.out ++
          [.installPtk (wpaCipherToAlg done.st.sta.pairwise) done.st.sta.ptk.tk]⟩ := by
        refine .head (.quiet [.enter .ptkInitDone] (quiet_singleton rfl)) (.single ?_)
        exact .install hstate hconfirmed hfree
      have hend := htail done.st.sta ⟨done.st, done.out ++
          [.installPtk (wpaCipherToAlg done.st.sta.pairwise) done.st.sta.ptk.tk]⟩
      simp only [hext] at hend ⊢
      exact hinstall.trans hend.path

end States

section Search
variable {e : Env} {ans : Answer} {snonce data pmk : Bytes} {c : Cfg Local Act}

/-- A derivation leaves nothing but the PMKR1Name behind. -/
theorem wpaDerivePtk_sta (ans : Answer) (snonce pmk : Bytes) (sm : Sta) (ptk : Ptk) (b : Bool) :
    ∃ name, (wpaDerivePtk e ans sm snonce pmk ptk b).1 = { sm with pmkR1Name := name } := by
  unfold wpaDerivePtk
  split
  · split
    · exact ⟨_, rfl⟩
    · unfold wpaAuthDerivePtkFt
      dsimp only
      split
      · exact ⟨_, rfl⟩
      · exact ⟨_, rfl⟩
  · exact ⟨_, rfl⟩

theorem tryPsk_sta (sm : Sta) (cand : Candidate) :
    ∃ xxkey, sm.tryPsk cand = { sm with xxkey := xxkey } := by
  unfold Sta.tryPsk
  split_ifs
  · exact ⟨_, rfl⟩
  · exact ⟨_, rfl⟩

/-- One attempt of the search. -/
theorem attempt_sta (ans : Answer) (snonce : Bytes) (sm : Sta) (cand : Candidate) (ptk : Ptk) :
    ∃ xxkey name, (wpaDerivePtk e ans (sm.tryPsk cand) snonce cand.pmk ptk cand.forceSha256).1 =
      { sm with xxkey := xxkey, pmkR1Name := name } := by
  obtain ⟨xxkey, hpsk⟩ := tryPsk_sta sm cand
  obtain ⟨name, hname⟩ := wpaDerivePtk_sta (e := e) ans snonce cand.pmk
    (sm.tryPsk cand) ptk cand.forceSha256
  exact ⟨xxkey, name, by rw [hname, hpsk]⟩

theorem search_sta (ans : Answer) (snonce data : Bytes) (sm : Sta) (ptk : Ptk) (cs : List Candidate) :
    ∃ xxkey name, (search e ans snonce data sm ptk cs).sta =
      { sm with xxkey := xxkey, pmkR1Name := name } := by
  induction cs generalizing sm ptk with
  | nil => exact ⟨_, _, rfl⟩
  | cons cand cs ih =>
    have hattempt := attempt_sta (e := e) ans snonce sm cand ptk
    rw [search]
    dsimp only
    split
    · exact hattempt
    · split
      · exact hattempt
      · obtain ⟨xxkey, name, heq⟩ := hattempt
        obtain ⟨xxkey', name', hrest⟩ := ih _ _
        exact ⟨xxkey', name', hrest.trans (by rw [heq])⟩

/-- What the search for a key may do: it derives keys with the ANonce of the station, and a key
that it finds was derived and verified. -/
structure Searched (sm : Sta) (data : Bytes) (r : Search) : Prop where
  sta : r.sta.session = sm.session
  acts : ∀ a ∈ r.acts, (∃ k, a = .micVerified k data) ∨
    ∃ d : Derivation, a = .derive d ∧ d.anonce = sm.anonce
  found : ∀ m ∈ r.result, hasAck m.data = hasAck data ∧ ∃ d : Derivation, .derive d ∈ r.acts ∧
    d.ptk = m.ptk ∧ d.anonce = sm.anonce ∧ d.Verified r.acts

/-- The decryption of Key Data leaves the header alone. -/
theorem hasAck_of_authenticate {sm : Sta} {pmkLen : ℕ} {ptk : Ptk} {data' : Bytes}
    (h : authenticate e ans sm pmkLen ptk data = some data') : hasAck data' = hasAck data := by
  unfold authenticate at h
  split_ifs at h
  · unfold wpaAeadDecrypt at h
    dsimp only at h
    rw [Option.ite_none_left_eq_some] at h
    obtain ⟨plain, -, rfl⟩ := Option.map_eq_some_iff.mp h.2
    rw [hasAck_writeAt _ _ (by decide), hasAck_writeAt _ _ (by decide)]
  · cases h
    rfl

theorem search_spec (sm : Sta) (ptk : Ptk) (cs : List Candidate) :
    Searched sm data (search e ans snonce data sm ptk cs) := by
  induction cs generalizing sm ptk with
  | nil => exact ⟨rfl, fun a ha => absurd ha List.not_mem_nil, fun m hm => by cases hm⟩
  | cons cand cs ih =>
    have hsession : (wpaDerivePtk e ans (sm.tryPsk cand) snonce cand.pmk ptk
        cand.forceSha256).1.session = sm.session := by
      obtain ⟨xxkey, name, heq⟩ := attempt_sta (e := e) ans snonce sm cand ptk
      rw [heq]
      rfl
    rw [search]
    dsimp only
    split
    · exact ⟨hsession, fun a ha => absurd ha List.not_mem_nil, fun m hm => by cases hm⟩
    · rename_i ptk' _
      let d : Derivation := ⟨cand.pmk, sm.anonce, sm.derivationSnonce snonce, ptk'⟩
      split
      · refine ⟨hsession, ?_, ?_⟩
        · intro a ha
          simp only [List.mem_cons, List.not_mem_nil, or_false] at ha
          rcases ha with rfl | rfl
          · exact .inr ⟨d, rfl, rfl⟩
          · exact .inl ⟨_, rfl⟩
        · intro m hm
          cases hm
          rename_i data' hauth
          refine ⟨hasAck_of_authenticate hauth, d, List.mem_cons_self .., rfl, rfl, data, ?_⟩
          simp only [Sta.authKey, List.mem_cons, List.not_mem_nil, or_false, reduceCtorEq, false_or,
            Act.micVerified.injEq, and_true]
          split_ifs
          · exact .inr rfl
          · exact .inl rfl
      · obtain ⟨hsta, hacts, hfound⟩ := ih
          (wpaDerivePtk e ans (sm.tryPsk cand) snonce cand.pmk ptk cand.forceSha256).1 ptk'
        have hanonce := congrArg Session.anonce hsession
        change _ = sm.anonce at hanonce
        refine ⟨hsta.trans hsession, ?_, ?_⟩
        · intro a ha
          rcases List.mem_cons.mp ha with rfl | ha
          · exact .inr ⟨d, rfl, rfl⟩
          · rcases hacts a ha with hq | ⟨d', rfl, hd'⟩
            · exact .inl hq
            · exact .inr ⟨d', rfl, hd'.trans hanonce⟩
        · intro m hm
          obtain ⟨hack, d', hmem, hptk, hd', frame, hframe⟩ := hfound m hm
          refine ⟨hack, d', List.mem_cons_of_mem _ hmem, hptk, hd'.trans hanonce, frame, ?_⟩
          exact hframe.imp (List.mem_cons_of_mem _) (List.mem_cons_of_mem _)

/-- The actions of a search are moves of the session, which they leave alone. -/
theorem searched_moves {s : Session} {acts : List Act} (hkeyed : s.state.keyed)
    {data : Bytes} (hack : hasAck data → s.ack) (h : ∀ a ∈ acts, (∃ k, a = .micVerified k data) ∨
      ∃ d : Derivation, a = .derive d ∧ d.anonce = s.anonce) (out : List Act) : ReflTransGen Session.Move ⟨s, out⟩ ⟨s, out ++ acts⟩ := by
  induction acts generalizing out with
  | nil =>
    rw [List.append_nil]
  | cons a acts ih =>
    have hrest := ih (fun b hb => h b (List.mem_cons_of_mem _ hb)) (out ++ [a])
    rw [List.append_assoc] at hrest
    refine .head ?_ hrest
    rcases h a (List.mem_cons_self ..) with ⟨k, rfl⟩ | ⟨d, rfl, hd⟩
    · exact .verify hack
    · exact .derive hkeyed hd

theorem msg2Of4Oci_session {sm sm' : Sta} {oci : Option Bytes}
    (h : msg2Of4Oci ans sm oci = some sm') : sm'.session = sm.session := by
  unfold msg2Of4Oci at h
  split at h
  · cases h
    rfl
  · split at h
    · cases h
    · split at h
      · cases h
        rfl
      · rw [Option.ite_none_right_eq_some] at h
        cases h.2
        rfl
      · cases h

theorem ftCheckMsg2Of4_session {conf : Conf} {sm : Sta} {keyData : Bytes} {ie : EapolIeParse} :
    (ftCheckMsg2Of4 conf sm keyData ie).1.session = sm.session := by
  unfold ftCheckMsg2Of4
  dsimp only
  split
  · rfl
  · split
    · rfl
    · split_ifs
      · rfl
      · split <;> rfl

theorem assignIpAddr_session {conf : Conf} {sm : Sta} {keyData : Bytes} {ie : EapolIeParse} :
    (assignIpAddr conf ans sm keyData ie).session = sm.session := by
  unfold assignIpAddr
  split
  · split_ifs <;> rfl
  · rfl

theorem checkMsg2Of4End_session {ft : Bool} {r : Sta × Bool} {vlanId : ℤ} {keyData : Bytes}
    {ie : EapolIeParse} : (checkMsg2Of4End e ans ft r vlanId keyData ie).1.session = r.1.session := by
  unfold checkMsg2Of4End
  dsimp only
  split_ifs
  all_goals first | rfl | exact assignIpAddr_session

theorem checkMsg2Of4_session (sm : Sta) (m : Match) :
    (checkMsg2Of4 e ans sm m).1.session = sm.session := by
  unfold checkMsg2Of4
  dsimp only
  split
  · rfl
  · split
    · rfl
    · split
      · rfl
      · split
        · rfl
        · rename_i hoci
          rw [checkMsg2Of4End_session, ← msg2Of4Oci_session hoci]
          split
          · exact ftCheckMsg2Of4_session
          · rfl

theorem matched_session {sm : Sta} {m : Match} (h : hasAck m.data = hasAck sm.lastRxEapolKey) :
    (sm.matched m).session = sm.session := by
  simp only [Sta.session, Sta.matched, Sta.pairwiseReceived, h]

/-- PTKCALCNEGOTIATING once the state is entered. -/
def calculating (sm : Sta) : Sta :=
  { sm with
    ptkState := .ptkCalcNegotiating
    changed := true
    eapolKeyReceived := false
    updateSnonce := false }

theorem ptkCalcNegotiating_apply (r : Search)
    (h : search e ans c.st.sta.snonce c.st.sta.lastRxEapolKey (calculating c.st.sta) {}
      (candidates e ans (calculating c.st.sta)) = r) :
    (ptkCalcNegotiating ans e c).2 = ((match r.result with
      | none => pure ()
      | some m => do
        modifySta fun _ => (checkMsg2Of4 e ans (r.sta.matched m) m).1
        match (checkMsg2Of4 e ans (r.sta.matched m) m).2 with
        | .ignored => pure ()
        | .disconnect => wpaStaDisconnect ans reasonPrevAuthNotValid
        | .accepted => modifySta fun sm => sm.acceptPtk m : StaM Unit) e
          ⟨{ c.st with sta := r.sta }, (c.out ++ [.enter .ptkCalcNegotiating]) ++ r.acts⟩).2 := by
  subst h
  rfl

theorem ptkCalcNegotiating_path (h : Free c) : Path c (ptkCalcNegotiating ans e c).2 := by
  let entered : Cfg Local Act :=
    ⟨{ c.st with sta := calculating c.st.sta }, c.out ++ [.enter .ptkCalcNegotiating]⟩
  have hfirst : Path c entered :=
    advance_path [.enter .ptkCalcNegotiating]
      { origin := h.origin
        state := rfl
        anonce := rfl
        kept := ⟨rfl, rfl, rfl, id, rfl⟩
        key := ⟨rfl, rfl⟩
        renew := id
        requested := id
        confirmed := fun hc => by cases hc
        confirming := fun _ hc => by cases hc } rfl (quiet_singleton rfl)
  let r := search e ans entered.st.sta.snonce entered.st.sta.lastRxEapolKey entered.st.sta {}
    (candidates e ans entered.st.sta)
  have hr : Searched entered.st.sta entered.st.sta.lastRxEapolKey r := search_spec ..
  let found : Cfg Local Act := ⟨{ entered.st with sta := r.sta }, entered.out ++ r.acts⟩
  have hsearch : Path entered found := by
    have hmoves := searched_moves (s := entered.st.sta.session) rfl id hr.acts entered.out
    rw [Path, session, session, hr.sta]
    exact hmoves
  rw [ptkCalcNegotiating_apply (c := c) r rfl]
  refine (hfirst.trans hsearch).trans ?_
  cases hresult : r.result with
  | none => exact .refl
  | some m =>
    let checked : Cfg Local Act :=
      ⟨{ found.st with sta := (checkMsg2Of4 e ans (r.sta.matched m) m).1 }, found.out⟩
    obtain ⟨hack, d, hmem, hptk, hanonce, hver⟩ := hr.found m hresult
    have hlast : hasAck r.sta.lastRxEapolKey = hasAck entered.st.sta.lastRxEapolKey :=
      congrArg Session.ack hr.sta
    have hsame : checked.st.sta.session = found.st.sta.session :=
      (checkMsg2Of4_session _ m).trans (matched_session (hack.trans hlast.symm))
    refine (still_same hsame rfl).path.trans ?_
    dsimp only
    -- only a message 2/4 that is accepted makes the PTK valid
    cases (checkMsg2Of4 e ans (r.sta.matched m) m).2 with
    | ignored => exact .refl
    | disconnect => exact (wpaStaDisconnect_still checked).path
    | accepted =>
      have hsession : checked.st.sta.session = entered.st.sta.session := hsame.trans hr.sta
      refine .single (.accept (s := checked.st.sta.session)
        (t := (checked.st.sta.acceptPtk m).session) ?_)
      exact
        { keyed := by rw [hsession]; rfl
          state := rfl
          anonce := rfl
          kept := ⟨rfl, rfl, rfl, id, rfl⟩
          renew := ⟨rfl, .inl (by rw [hsession]; exact h.renew)⟩
          source := by
            refine ⟨d, ?_, hptk, by rw [hsession]; exact hanonce, ?_⟩
            · rw [derivations_append]
              exact List.mem_append_right _ (List.mem_filterMap.mpr ⟨_, hmem, rfl⟩)
            · obtain ⟨frame, hframe⟩ := hver
              exact ⟨frame, hframe.imp (List.mem_append_right _) (List.mem_append_right _)⟩
          valid := rfl }

end Search

section Steps
variable {e : Env} {ans : Answer} {c : Cfg Local Act}

theorem path_if {p : Prop} [Decidable p] {x y : StaM Unit} (hx : p → Path c (x e c).2)
    (hy : ¬p → Path c (y e c).2) : Path c ((if p then x else y : StaM Unit) e c).2 := by
  split_ifs with h
  · exact hx h
  · exact hy h

theorem path_when {p : Prop} [Decidable p] {x : StaM Unit} (hx : p → Path c (x e c).2) :
    Path c (when p x e c).2 :=
  path_if hx fun _ => .refl

theorem giveUp_path : Keeps Path (giveUp ans) e :=
  Keeps.bind (still_path (sta_still fun _ => rfl)) fun _ => ptkDisconnect_path

/-- The transitions of `WPA_PTK` where no request is pending. -/
theorem ptkStateStep_path (conf : Conf) (hfree : c.st.sta.session.requested = false) :
    Path c (ptkStateStep ans conf c.st.sta e c).2 := by
  have hdisconnect : c.st.sta.disconnect = false := by
    have hr := hfree
    simp only [Sta.session, Bool.or_eq_false_iff] at hr
    exact hr.1.1.1.1.2
  have keyed (h : c.st.sta.ptkState.keyed) : Free c := ⟨.inl h, hfree⟩
  unfold ptkStateStep
  cases hstate : c.st.sta.ptkState with
  | init => exact .refl
  | disconnect => exact ptkDisconnected_path c
  | disconnected => exact ptkInitialize_path c
  | authentication => exact ptkAuthentication2_path (.inr hstate)
  | authentication2 =>
    have free : Free c := ⟨.inr ⟨hstate, hdisconnect⟩, hfree⟩
    exact path_if (fun _ => ptkInitPmk_path free) fun _ =>
      path_if (fun _ => ptkInitPsk_path free) fun _ => path_when fun _ => ptkInitPmk_path free
  | initPmk =>
    exact path_if (fun _ => ptkStart_path (keyed (by rw [hstate]; rfl))) fun _ =>
      ptkDisconnect_path c
  | initPsk =>
    exact path_if (fun _ => ptkStart_path (keyed (by rw [hstate]; rfl))) fun _ =>
      ptkDisconnect_path c
  | ptkStart =>
    have free := keyed (by rw [hstate]; rfl)
    exact path_if (fun _ => ptkCalcNegotiating_path free) fun _ =>
      path_if (fun _ => giveUp_path c) fun _ => path_when fun _ => ptkStart_path free
  | ptkCalcNegotiating =>
    have free := keyed (by rw [hstate]; rfl)
    exact path_if (fun _ => ptkCalcNegotiating2_path free (by rw [hstate]; rfl)) fun _ =>
      path_if (fun _ => ptkCalcNegotiating_path free) fun _ => path_when fun _ =>
        ptkStart_path free
  | ptkCalcNegotiating2 =>
    exact ptkInitNegotiating_path (keyed (by rw [hstate]; rfl)) (by rw [hstate]; rfl)
  | ptkInitNegotiating =>
    have free := keyed (by rw [hstate]; rfl)
    refine path_if (fun _ => ptkCalcNegotiating_path free) fun _ => path_if (fun h => ?_) fun _ =>
      path_if (fun _ => giveUp_path c) fun _ => path_when fun _ =>
        ptkInitNegotiating_path free (by rw [hstate]; rfl)
    exact ptkInitDone_path hstate (by simpa [Sta.session] using h) hfree
  | ptkInitDone => exact .refl

theorem ptkStep_path : Keeps Path ptkStep e := by
  refine Keeps.ask_bind (Keeps.bind (still_path query_still) fun ans c => ?_)
  change Path c ((if c.st.sta.init then ptkInitialize
    else if c.st.sta.disconnect then ptkDisconnect ans
    else if c.st.sta.deauthenticationRequest then ptkDisconnected
    else if c.st.sta.authenticationRequest then ptkAuthentication
    else if c.st.sta.reAuthenticationRequest then ptkAuthentication2 ans
    else if c.st.sta.ptkRequest then ptkUpdate ans
    else ptkStateStep ans e.conf c.st.sta : StaM Unit) e c).2
  refine path_if (fun _ => ptkInitialize_path c) fun h₁ => ?_
  refine path_if (fun _ => ptkDisconnect_path c) fun h₂ => ?_
  refine path_if (fun _ => ptkDisconnected_path c) fun h₃ => ?_
  refine path_if (fun _ => ptkAuthentication_path c) fun h₄ => ?_
  refine path_if (fun h => ptkAuthentication2_path (.inl (by simp [Sta.session, h]))) fun h₅ => ?_
  refine path_if (fun h => ptkUpdate_path (by simp [Sta.session, h])) fun h₆ => ?_
  exact ptkStateStep_path e.conf (by simp [Sta.session, h₁, h₂, h₃, h₄, h₅, h₆])

theorem groupIdle_still : Keeps Still groupIdle e :=
  Keeps.bind (Keeps.bind (sta_still fun _ => rfl) fun _ => emit_still rfl) fun _ =>
    Keeps.bind (sta_still quietInit_session) fun _ => sta_still fun _ => rfl

theorem enterGroup_still {x : PtkGroupState} : Keeps Still (enterGroup x) e :=
  Keeps.bind (sta_still fun _ => rfl) fun _ => emit_still rfl

theorem groupRekeyNegotiating_still : Keeps Still (groupRekeyNegotiating ans) e := by
  refine Keeps.bind enterGroup_still fun _ => Keeps.ask_bind ?_
  refine Keeps.bind (sta_still fun _ => rfl) fun _ => Keeps.bind getSta_still fun sm => ?_
  refine Keeps.ite (fun _ => Keeps.pure _) fun _ => ?_
  refine Keeps.bind (sta_still fun _ => rfl) fun _ => Keeps.bind Keeps.get fun l => ?_
  split
  · exact Keeps.pure _
  · exact wpaSendEapol_still (hasBits_or_left _ (hasBits_or_right _ rfl))

/-- The frame that was waiting is processed. -/
theorem processed_still :
    Keeps Still (modifySta fun sm => { sm with eapolKeyReceived := false }) e := fun _ =>
  ⟨.single (.confirm (b := false) fun h => by cases h), rfl⟩

theorem groupRekeyEstablished_still : Keeps Still (groupRekeyEstablished ans) e := by
  refine Keeps.bind enterGroup_still fun _ => Keeps.bind processed_still fun _ => ?_
  refine Keeps.bind getSta_still fun sm => Keeps.when fun _ => ?_
  exact Keeps.bind dropGroupUpdate_still fun _ => sta_still fun _ => rfl

theorem groupKeyError_still : Keeps Still groupKeyError e := by
  refine Keeps.bind enterGroup_still fun _ => Keeps.bind dropGroupUpdate_still fun _ => ?_
  exact demand_sta fun sm => disconnect_demand sm reasonGroupKeyUpdateTimeout

theorem ptkGroupStep_still : Keeps Still ptkGroupStep e := by
  refine Keeps.ask_bind (Keeps.bind query_still fun ans => Keeps.bind getSta_still fun sm => ?_)
  refine Keeps.ite (fun _ => Keeps.bind groupIdle_still fun _ => sta_still fun _ => rfl) fun _ => ?_
  split
  · exact Keeps.when fun _ => groupRekeyNegotiating_still
  · exact Keeps.ite (fun _ => groupRekeyEstablished_still) fun _ =>
      Keeps.ite (fun _ => groupKeyError_still) fun _ => Keeps.when fun _ =>
        groupRekeyNegotiating_still
  · exact groupIdle_still
  · exact groupIdle_still

theorem wpaGroupUpdateSta_path {step : StaM Unit} (h : Keeps Path step e) :
    Keeps Path (wpaGroupUpdateSta step) e := by
  refine Keeps.bind (still_path getSta_still) fun sm => Keeps.ite
    (fun _ => still_path (sta_still fun _ => rfl)) fun _ => Keeps.when fun _ => ?_
  exact Keeps.bind (still_path group_still) fun _ =>
    Keeps.bind (still_path (sta_still fun _ => rfl)) fun _ => h

theorem wpaGroupSetkeysdone_still : Keeps Still (wpaGroupSetkeysdone ans) e := by
  refine Keeps.ask_bind (Keeps.bind group_still fun _ => Keeps.bind getGroup_still fun g => ?_)
  refine Keeps.bind (emitAll_still wpaGroupConfigGroupKeys_quiet) fun _ => Keeps.when fun _ => ?_
  exact Keeps.bind group_still fun _ => demand_sta fun sm => disconnect_demand sm sm.disconnectReason

theorem wpaGroupSmStep_path {a : Around} {step : StaM Unit} (h : Keeps Path step e) :
    Keeps Path (wpaGroupSmStep a step) e := by
  have hset {ans : Answer} : Keeps Path (wpaGroupSetkeys ans a step) e :=
    Keeps.ask_bind (Keeps.bind (still_path group_still) fun _ =>
      Keeps.bind (still_path group_still) fun _ =>
        Keeps.bind (wpaGroupUpdateSta_path h) fun _ => still_path group_still)
  refine Keeps.ask_bind (Keeps.bind (still_path query_still) fun ans =>
    Keeps.bind (still_path getGroup_still) fun g => ?_)
  refine Keeps.ite (fun _ => still_path group_still) fun _ => ?_
  split
  · exact Keeps.pure _
  · exact Keeps.when fun _ => still_path wpaGroupSetkeysdone_still
  · exact Keeps.when fun _ => hset
  · exact Keeps.ite (fun _ => still_path wpaGroupSetkeysdone_still) fun _ => Keeps.when fun _ => hset

theorem smPass_path (a : Around) : Keeps Path (smPass a) e := by
  have hclear : Keeps Still (update clearChanged) e := fun _ => still_same rfl rfl
  refine Keeps.bind (still_path hclear) fun _ => Keeps.bind ptkStep_path fun _ => ?_
  refine Keeps.bind (still_path getSta_still) fun _ => Keeps.when fun _ => ?_
  refine Keeps.bind (still_path ptkGroupStep_still) fun _ => ?_
  refine Keeps.bind (still_path getSta_still) fun _ => Keeps.when fun _ => ?_
  exact wpaGroupSmStep_path (Keeps.pure _)

theorem smLoop_path (passes : List Around) : Keeps Path (smLoop passes) e := by
  induction passes with
  | nil => exact Keeps.pure _
  | cons a as ih =>
    refine Keeps.bind (still_path getSta_still) fun _ => Keeps.when fun _ => ?_
    exact Keeps.bind (smPass_path a) fun _ => Keeps.bind Keeps.get fun _ => Keeps.when fun _ => ih

/-- However long the loop of `wpa_sm_step` runs, it follows a path of the abstract machine. -/
theorem wpaSmStep_path (passes : List Around) : Keeps Path (wpaSmStep passes) e :=
  Keeps.bind (smLoop_path passes) fun _ => Keeps.bind (still_path getSta_still) fun _ =>
    Keeps.when fun _ => still_path dropGroupUpdate_still

end Steps
end Wpa.Auth
