import Wpa.Sae.ApFrame

/-! The password element of an exchange against the group, the password and the way of its
derivation that the exchange is in. -/

namespace Wpa.Sae
open Lib Bytes
variable {E : Type}

/-- The PWE is that for the group of the instance, the password of its identifier, and hash-to-element
exactly if `h2e` is set. -/
def PweMatches (env : Env E) (sae : Data E) : Prop :=
  ∃ pwe password, sae.tmp.bind Tmp.pwe = some pwe ∧
    (saeGetPassword env sae.pwId).map Prod.fst = some password ∧
    pwe.origin = ⟨sae.group, sae.h2e, password⟩

section Matches
variable {env : Env E}

theorem PweMatches.of_core {a b : Data E} (h : a.core = b.core) (hb : PweMatches env b) :
    PweMatches env a := by
  have hgroup := congrArg Data.group h
  have hh2e := congrArg Data.h2e h
  have hpwe : a.tmp.bind Tmp.pwe = b.tmp.bind Tmp.pwe := tmp_bind_of_core h fun _ => rfl
  have hpwId : a.pwId = b.pwId := tmp_bind_of_core h fun _ => rfl
  obtain ⟨pwe, password, hpwe', hpassword, horigin⟩ := hb
  refine ⟨pwe, password, hpwe.trans hpwe', by rw [hpwId]; exact hpassword, ?_⟩
  rw [horigin, ← show a.group = b.group from hgroup, ← show a.h2e = b.h2e from hh2e]

theorem PweMatches.process {ops : Ops E} {sae sae' : Data E}
    (h : saeProcessCommit env.cr ops sae = some sae') (hsae : PweMatches env sae) :
    PweMatches env sae' := by
  obtain ⟨tmp, kck, pmk, pmkid, htmp, rfl⟩ := saeProcessCommit_cases h
  obtain ⟨pwe, password, hpwe, hpassword, horigin⟩ := hsae
  rw [htmp] at hpwe
  rw [Data.pwId, htmp] at hpassword
  exact ⟨pwe, password, hpwe, hpassword, horigin⟩

/-- A commit that was prepared for this call. -/
theorem pweMatches_sendCommit {ans : Answer E} {status : Option AuthStatus} {sae : Data E}
    (h : (authSaeSendCommit env ans true status sae).2 = .success) :
    PweMatches env (authSaeSendCommit env ans true status sae).1 := by
  obtain ⟨own, hcore, hok⟩ := authBuildSaeCommit_update env ans status sae
  obtain ⟨htmp, password, hpassword, horigin⟩ := hok (authSaeSendCommit_built env ans h)
  rw [authSaeSendCommit_fst]
  refine PweMatches.of_core hcore ?_
  obtain ⟨tmp, htmp⟩ := Option.isSome_iff_exists.mp htmp
  obtain ⟨pwe, hpwe, horigin⟩ := Option.map_eq_some_iff.mp horigin
  refine ⟨pwe, password, ?_, ?_, horigin⟩
  · simp [Data.withOwn, htmp, hpwe]
  · rw [Data.pwId, htmp] at hpassword
    simpa [Data.withOwn, Data.pwId, htmp] using hpassword

end Matches

/-- Every derivation of keys in the step is sound, and so is an instance in SAE_COMMITTED. -/
structure Step.Sound (env : Env E) (step : Step E) : Prop where
  process : ∀ pre post, Act.process pre post ∈ step.acts → PweMatches env pre
  committed : step.sae.state = .committed → PweMatches env step.sae

theorem sound_of_process {env : Env E} {step : Step E} {pre post : Data E}
    (hacts : step.acts = [.process pre post]) (hpre : PweMatches env pre)
    (hcommitted : step.sae.state = .committed → PweMatches env step.sae) : step.Sound env := by
  refine ⟨fun pre' post' hmem => ?_, hcommitted⟩
  rw [hacts] at hmem
  cases List.mem_singleton.mp hmem
  exact hpre

theorem sound_of_not_committed {env : Env E} {step : Step E} (hacts : step.acts = [])
    (hstate : step.sae.state ≠ .committed) : step.Sound env :=
  ⟨by simp [hacts], fun h => absurd h hstate⟩

section Steps
variable {env : Env E} {ans : Answer E}

theorem smNothing_sound {status : AuthStatus} {allowReuse : Bool} {sae : Data E}
    (hstate : sae.state = .nothing)
    (hreuse : allowReuse = true → sae.tmp.isSome = true ∧
      PweMatches env { sae with h2e := isH2e status }) :
    (smNothing env ans status allowReuse sae).Sound env := by
  have hsent_state := authSaeSendCommit_state env ans (!allowReuse) (some status)
    (startCommit status sae)
  rw [startCommit_state, hstate] at hsent_state
  have hmatches : (authSaeSendCommit env ans (!allowReuse) (some status) (startCommit status sae)).2 =
      .success → PweMatches env { (authSaeSendCommit env ans (!allowReuse) (some status)
        (startCommit status sae)).1 with state := .committed } := by
    intro hsent
    cases allowReuse with
    | false =>
      have hprepared := pweMatches_sendCommit hsent
      exact hprepared
    | true =>
      obtain ⟨htmp, hpwe⟩ := hreuse rfl
      have hkept : PweMatches env (authSaeSendCommit env ans false (some status)
          (startCommit status sae)).1 := by
        refine PweMatches.of_core (authSaeSendCommit_keep env ans (some status) _) ?_
        rw [startCommit, if_pos htmp]
        exact hpwe
      exact hkept
  rcases smNothing_cases env ans status allowReuse sae with
    ⟨-, hacts, hsae⟩ | ⟨hsent, -, hacts, hsae⟩ | ⟨hsent, sae', hprocess, hacts, state, -, hcore⟩
  · refine sound_of_not_committed hacts ?_
    rw [hsae, hsent_state]
    exact State.noConfusion
  · refine ⟨by simp [hacts], fun _ => ?_⟩
    rw [hsae]
    exact hmatches hsent
  · have hderived := (hmatches hsent).process hprocess
    exact sound_of_process hacts (hmatches hsent) fun _ => PweMatches.of_core hcore hderived

theorem smConfirmedCommit_sound {status : AuthStatus} {sae : Data E}
    (hstate : sae.state = .confirmed) : (smConfirmedCommit env ans status sae).Sound env := by
  unfold smConfirmedCommit saeCheckBigSync
  split
  · rename_i hsync
    split at hsync <;> cases hsync
    exact sound_of_not_committed rfl State.noConfusion
  · simp only
    split
    · refine sound_of_not_committed rfl ?_
      rw [authSaeSendCommit_state]
      exact fun h => State.noConfusion (hstate.symm.trans h)
    · rename_i hsent
      rw [ne_eq, not_not] at hsent
      have hmatches := pweMatches_sendCommit hsent
      split
      · exact ⟨by simp, fun _ => hmatches⟩
      · rename_i sae' hprocess
        exact sound_of_process rfl hmatches fun _ =>
          PweMatches.of_core (authSaeSendConfirm_core env ans sae') (hmatches.process hprocess)

theorem smAcceptedCommit_sound {status : AuthStatus} {sae : Data E}
    (hstate : sae.state = .accepted) : (smAcceptedCommit env ans status sae).Sound env := by
  unfold smAcceptedCommit
  split
  · refine sound_of_not_committed rfl ?_
    rw [hstate]
    exact State.noConfusion
  · simp only
    split
    · refine sound_of_not_committed rfl ?_
      rw [authSaeSendCommit_state, hstate]
      exact State.noConfusion
    · rename_i hsent
      rw [ne_eq, not_not] at hsent
      have hmatches := pweMatches_sendCommit hsent
      generalize (authSaeSendCommit env ans true (some status) sae).1 = sent at hmatches
      have hcommitted : PweMatches env { sent with state := .committed } := hmatches
      split
      · exact ⟨by simp, fun _ => hcommitted⟩
      · rename_i sae' hprocess
        have hderived := hcommitted.process hprocess
        exact sound_of_process rfl hcommitted fun _ => hderived

theorem saeAcceptSta_state (ans : Answer E) {sae : Data E} (h : sae.state = .confirmed) :
    (saeAcceptSta ans sae).state ≠ .committed := by
  unfold saeAcceptSta
  split
  · rw [h]
    exact State.noConfusion
  · exact State.noConfusion

theorem smConfirmedConfirm_sound {sae : Data E} (hstate : sae.state = .confirmed) :
    (smConfirmedConfirm ans sae).Sound env := by
  refine ⟨fun pre post hmem => ?_, fun h => absurd h (saeAcceptSta_state ans hstate)⟩
  cases List.mem_singleton.mp hmem

theorem saeSmStepConfirm_sound {status : AuthStatus} {sae : Data E}
    (hmatches : sae.state = .committed → PweMatches env sae) :
    (saeSmStepConfirm env ans status sae).Sound env := by
  unfold saeSmStepConfirm
  split
  · rename_i hstate
    refine sound_of_not_committed rfl ?_
    rw [hstate]
    exact State.noConfusion
  · rename_i hstate
    have hsae := hmatches hstate
    unfold smCommittedConfirm saeCheckBigSync
    split
    · split
      · rename_i hsync
        split at hsync <;> cases hsync
        exact sound_of_not_committed rfl State.noConfusion
      · exact ⟨by simp, fun _ => PweMatches.of_core (authSaeSendCommit_keep env ans _ _) hsae⟩
    · simp only
      split
      · exact ⟨by simp, fun _ => PweMatches.of_core (authSaeSendConfirm_core env ans sae) hsae⟩
      · exact smConfirmedConfirm_sound rfl
  · rename_i hstate
    exact smConfirmedConfirm_sound hstate
  · rename_i hstate
    unfold smAcceptedConfirm saeCheckBigSync
    split
    · rename_i hsync
      split at hsync <;> cases hsync
      exact sound_of_not_committed rfl State.noConfusion
    · refine sound_of_not_committed rfl ?_
      simp only [saeClearTempData]
      rw [authSaeSendConfirm_state]
      exact fun h => State.noConfusion (hstate.symm.trans h)

end Steps

section Handle
variable {env : Env E} {ans : Answer E} {frame : Frame}

theorem handleConfirm_sound (hmesh : env.conf.mesh = false) {sae : Data E}
    (hmatches : sae.state = .committed → PweMatches env sae) :
    (handleConfirm env ans frame sae).Sound env := by
  have hkept : ∀ resp, Step.Sound env { sae := sae, resp := resp } :=
    fun _ => ⟨by simp, hmatches⟩
  unfold handleConfirm
  rw [hmesh]
  simp only [Bool.false_eq_true, false_and, if_false]
  split
  · exact hkept _
  · split
    · exact hkept _
    · split
      · exact hkept _
      · split
        · exact hkept _
        · have hstep : (saeSmStepConfirm env ans frame.status
              { sae with rc := frame.body.le16 0 }).Sound env :=
            saeSmStepConfirm_sound hmatches
          refine ⟨fun pre post hmem => ?_, hstep.committed⟩
          rcases List.mem_cons.mp hmem with h | hmem
          · cases h
          · exact hstep.process pre post hmem

variable [DecidableEq E]

/-- The commit starts again from SAE_COMMITTED and gets to the state machine, which reuses the PWE. -/
def Reuses (env : Env E) (ans : Answer E) (frame : Frame) (sae : Data E) : Prop :=
  frame.transaction = 1 ∧ saeStatusSuccess env.conf frame.status = true ∧
    (restartCommit env frame sae).2 = true ∧ CommitAccepted env ans (parsedCommit env ans frame sae)

/-- A commit that reuses the PWE comes with the status code of its derivation, and its identifier
selects the same password. -/
def ReuseFits (env : Env E) : Option (Data E) → Input E → Prop
  | some sae, .frame ans frame => Reuses env ans frame sae →
      isH2e frame.status = sae.h2e ∧
        (saeGetPassword env (parsedCommit env ans frame sae).1.sae.pwId).map Prod.fst =
          (saeGetPassword env sae.pwId).map Prod.fst
  | _, _ => True

/-- The PWE of the instance that starts again, under the parameters of the new commit. -/
theorem pweMatches_reuse {sae : Data E} (hreuse : (restartCommit env frame sae).2 = true)
    (hmatches : PweMatches env sae) (hh2e : isH2e frame.status = sae.h2e)
    (hpassword : (saeGetPassword env (parsedCommit env ans frame sae).1.sae.pwId).map Prod.fst =
      (saeGetPassword env sae.pwId).map Prod.fst) :
    (parsedCommit env ans frame sae).1.sae.tmp.isSome = true ∧
      (parsedCommit env ans frame sae).1.sae.state = .nothing ∧
      PweMatches env { (parsedCommit env ans frame sae).1.sae with h2e := isH2e frame.status } := by
  obtain ⟨hrestart, -, hgroup, htmp⟩ := restartCommit_reuse hreuse
  have hunread : (parsedCommit env ans frame sae).1.sae.unread =
      ({ sae with state := .nothing } : Data E).unread := by
    have hparse := saeParseCommit_unread env.lib (parseArgs env ans frame) frame.body
      (restartCommit env frame sae).1
    rw [hrestart] at hparse
    unfold parsedCommit
    rw [hrestart]
    exact hparse.resolve_right fun hset => hset.1 hgroup
  generalize parsedCommit env ans frame sae = parsed at *
  have hpwe : parsed.1.sae.tmp.bind Tmp.pwe = sae.tmp.bind Tmp.pwe :=
    tmp_bind_of_unread (b := { sae with state := .nothing }) hunread fun _ => rfl
  have hsome : parsed.1.sae.tmp.isSome = sae.tmp.isSome := by
    have h := congrArg (fun d : Data E => d.tmp.isSome) hunread
    simpa [Data.unread] using h
  have hstate := congrArg Data.state hunread
  have hgroup' := congrArg Data.group hunread
  refine ⟨hsome.trans htmp, hstate, ?_⟩
  obtain ⟨pwe, password, hpwe', hpassword', horigin⟩ := hmatches
  refine ⟨pwe, password, hpwe.trans hpwe', hpassword.trans hpassword', ?_⟩
  rw [horigin, ← hh2e]
  exact congrArg (fun group => (⟨group, isH2e frame.status, password⟩ : PweOrigin)) hgroup'.symm

theorem handleCommit_sound (hmesh : env.conf.mesh = false) {sae : Data E}
    (htransaction : frame.transaction = 1)
    (hstatus : saeStatusSuccess env.conf frame.status = true)
    (hmatches : sae.state = .committed → PweMatches env sae)
    (hfits : ReuseFits env (some sae) (.frame ans frame)) :
    (handleCommit env ans frame sae).Sound env := by
  have hstate := parsedCommit_state env ans frame sae hmesh
  rcases handleCommit_cases env ans frame sae with
    ⟨hacts, ⟨hsae, -⟩ | hsae⟩ | ⟨hpasses, hstep⟩
  · refine sound_of_not_committed hacts ?_
    rw [hsae]
    exact hstate
  · refine sound_of_not_committed hacts ?_
    rw [hsae]
    exact State.noConfusion
  · rw [hstep]
    have hreuse : (restartCommit env frame sae).2 = true →
        (parsedCommit env ans frame sae).1.sae.tmp.isSome = true ∧
          (parsedCommit env ans frame sae).1.sae.state = .nothing ∧
          PweMatches env
            { (parsedCommit env ans frame sae).1.sae with h2e := isH2e frame.status } := by
      intro hrestart
      obtain ⟨hh2e, hpassword⟩ := hfits ⟨htransaction, hstatus, hrestart, hpasses.1⟩
      exact pweMatches_reuse hrestart (hmatches (restartCommit_reuse hrestart).2.1) hh2e hpassword
    unfold saeSmStepCommit
    split
    · rename_i hnothing
      exact smNothing_sound hnothing fun h => ⟨(hreuse h).1, (hreuse h).2.2⟩
    · rename_i hcommitted
      exact absurd hcommitted hstate
    · rename_i hconfirmed
      exact smConfirmedCommit_sound hconfirmed
    · rename_i haccepted
      exact smAcceptedCommit_sound haccepted

theorem handleAuthSaeInstance_sound (hmesh : env.conf.mesh = false) {sae : Data E}
    (hmatches : sae.state = .committed → PweMatches env sae)
    (hfits : ReuseFits env (some sae) (.frame ans frame)) :
    (handleAuthSaeInstance env ans frame sae).Sound env := by
  have hkept : ∀ resp, Step.Sound env { sae := sae, resp := resp } :=
    fun _ => ⟨by simp, hmatches⟩
  unfold handleAuthSaeInstance
  rw [hmesh]
  simp only [Bool.false_eq_true, false_and, if_false]
  split
  · rename_i htransaction
    split
    · exact hkept _
    · rename_i hstatus
      have hstatus : saeStatusSuccess env.conf frame.status = true := by simpa using hstatus
      exact handleCommit_sound hmesh htransaction hstatus hmatches hfits
  · split
    · exact handleConfirm_sound hmesh hmatches
    · exact hkept _

end Handle

section Run
variable {env : Env E}

theorem authSaeRetransmitTimer_committed {ans : Answer E} {sae : Data E}
    (hmatches : sae.state = .committed → PweMatches env sae)
    (h : (authSaeRetransmitTimer env ans sae).state = .committed) :
    PweMatches env (authSaeRetransmitTimer env ans sae) := by
  unfold authSaeRetransmitTimer saeCheckBigSync at h ⊢
  split at h
  · rename_i hsync
    split at hsync <;> cases hsync
    cases h
  · simp only at h ⊢
    split at h
    · rename_i hstate
      exact PweMatches.of_core (authSaeSendCommit_keep env ans none _) (hmatches hstate)
    · rename_i hstate
      rw [authSaeSendConfirm_state] at h
      exact State.noConfusion (hstate.symm.trans h)
    · rename_i hne _
      exact absurd h hne

/-- The PWE of an instance in SAE_COMMITTED is the right one. -/
def Committed (env : Env E) (s : Option (Data E)) : Prop :=
  ∀ sae, s = some sae → sae.state = .committed → PweMatches env sae

theorem committed_none : Committed env (none : Option (Data E)) := by
  intro sae h
  cases h

variable [DecidableEq E]

/-- One step of the station: what it derives is sound, and what it leaves in SAE_COMMITTED too. -/
theorem apStep_sound (hmesh : env.conf.mesh = false) {s : Option (Data E)} {i : Input E}
    (hs : Committed env s) (hfits : ReuseFits env s i) :
    (∀ pre post, Act.process pre post ∈ (apStep env s i).2 → PweMatches env pre) ∧
      Committed env (apStep env s i).1 := by
  cases i with
  | timer ans =>
    refine ⟨by simp [apStep], fun sae hsae hstate => ?_⟩
    obtain ⟨old, rfl, rfl⟩ := Option.map_eq_some_iff.mp hsae
    exact authSaeRetransmitTimer_committed (hs old rfl) hstate
  | frame ans frame =>
    -- a new instance is not in SAE_COMMITTED, and there is nothing to reuse
    have hstep : ∀ sae : Data E, (sae.state = .committed → PweMatches env sae) →
        ReuseFits env (some sae) (.frame ans frame) →
        let step := handleAuthSaeInstance env ans frame sae
        (∀ pre post, Act.process pre post ∈ step.acts → PweMatches env pre) ∧
          Committed env (if step.staRemoved then none else some step.sae) := by
      intro sae hmatches hfits
      have hsound : (handleAuthSaeInstance env ans frame sae).Sound env :=
        handleAuthSaeInstance_sound hmesh hmatches hfits
      refine ⟨hsound.process, fun sae' hsae' => ?_⟩
      split at hsae'
      · cases hsae'
      · cases hsae'
        exact hsound.committed
    unfold apStep handleAuthSae
    cases s with
    | some sae => exact hstep sae (hs sae rfl) hfits
    | none =>
      simp only
      split
      · exact ⟨by simp, committed_none⟩
      · rename_i sae hstart
        split at hstart <;> cases hstart
        refine hstep _ (fun h => State.noConfusion h) fun hreuses => ?_
        have hcommitted := (restartCommit_reuse hreuses.2.2.1).2.1
        exact State.noConfusion hcommitted

/-- In an infrastructure BSS keys are derived with the PWE of the exchange, as long as each commit
that reuses a PWE fits it. -/
theorem pweMatches_run (hmesh : env.conf.mesh = false) (is : List (Input E))
    (hfits : ∀ t ∈ Runs.trace (apStep env) none is, ReuseFits env t.pre t.input) :
    ∀ t ∈ Runs.trace (apStep env) none is, ∀ pre post, Act.process pre post ∈ t.out →
      PweMatches env pre := by
  intro t ht
  obtain ⟨hpre, hevent⟩ := Runs.state_invariant (I := Committed env) (p := ReuseFits env)
    committed_none (fun s i hs hi => (apStep_sound hmesh hs hi).2) is hfits ht
  have hout : t.out = (apStep env t.pre t.input).2 := congrArg Event.out hevent
  rw [hout]
  exact (apStep_sound hmesh hpre (hfits t ht)).1

end Run

section Station

/-- A second commit that looks for the PWE in the other way. -/
def switchedRun : List (Input (ZMod 11)) :=
  [stationCommit .success 4 5 [], stationCommit .saeHashToElement 6 7 []]

def retriedRun : List (Input (ZMod 11)) :=
  [stationCommit .success 4 5 [], stationCommit .success 6 7 []]

def stationCommitted : Data (ZMod 11) :=
  ((apStep (stationEnv {}) none (stationCommit .success 4 5 [])).1).getD {}

theorem retriedRun_pweMatches :
    (Runs.outputs (Runs.trace (apStep (stationEnv {})) none retriedRun)).length = 2 ∧
      ∀ t ∈ Runs.trace (apStep (stationEnv {})) none retriedRun, ∀ pre post,
        Act.process pre post ∈ t.out → PweMatches (stationEnv {}) pre := by
  refine ⟨by decide, pweMatches_run rfl retriedRun fun t ht => ?_⟩
  have hfirst : (apStep (stationEnv {}) none (stationCommit .success 4 5 [])).1 = some stationCommitted :=
    eq_some_getD (by decide) _
  rcases List.mem_cons.mp ht with rfl | ht
  · trivial
  · rcases List.mem_singleton.mp ht with rfl
    change ReuseFits (stationEnv {}) (apStep (stationEnv {}) none (stationCommit .success 4 5 [])).1 _
    rw [hfirst]
    exact fun _ => ⟨by decide, by decide⟩

/-- The PWE and the flag of an instance do not go together. -/
def Act.pweMismatch {E : Type} : Act E → Bool
  | .process pre _ => (pre.tmp.bind Tmp.pwe).any fun pwe => pwe.origin.h2e != pre.h2e
  | _ => false

theorem PweMatches.not_mismatch {E : Type} {env : Env E} {pre post : Data E}
    (h : PweMatches env pre) : (Act.process pre post).pweMismatch = false := by
  obtain ⟨pwe, password, hpwe, -, horigin⟩ := h
  simp [Act.pweMismatch, hpwe, horigin]

theorem switchedRun_not_pweMatches :
    ¬ ∀ t ∈ Runs.trace (apStep (stationEnv {})) none switchedRun, ∀ pre post,
      Act.process pre post ∈ t.out → PweMatches (stationEnv {}) pre := by
  intro h
  have hmismatch : (Runs.trace (apStep (stationEnv {})) none switchedRun).any
      (fun t => t.out.any Act.pweMismatch) = true := by
    decide
  simp only [List.any_eq_true] at hmismatch
  obtain ⟨t, ht, act, hact, hbad⟩ := hmismatch
  cases act with
  | process pre post =>
    have hgood : (Act.process pre post).pweMismatch = false := (h t ht pre post hact).not_mismatch
    rw [hbad] at hgood
    cases hgood
  | checkConfirm sae msg => cases hbad
  | accept sae => cases hbad

end Station
end Wpa.Sae
