import Wpa.Sae.CommitFrame
import Wpa.Sae.Ap

/-! What the functions of the SAE state machine leave as it is. -/

namespace Wpa.Sae
open Lib Bytes
variable {E : Type}

/-- Everything but the counters for sending, the VLAN and the suite selector that was sent. -/
def Data.core (sae : Data E) : Data E :=
  { sae with
    sendConfirm := 0
    ownAkmSuiteSelector := 0
    sync := 0
    tmp := sae.tmp.map fun tmp => { tmp with vlanId := 0 } }

theorem core_tmp_bind {α : Type} (sae : Data E) {f : Tmp E → Option α}
    (hf : ∀ tmp, f { tmp with vlanId := 0 } = f tmp) : sae.core.tmp.bind f = sae.tmp.bind f := by
  cases h : sae.tmp with
  | none => simp [Data.core, h]
  | some tmp => simp [Data.core, h, hf]

theorem tmp_bind_of_core {α : Type} {a b : Data E} (h : a.core = b.core) {f : Tmp E → Option α}
    (hf : ∀ tmp, f { tmp with vlanId := 0 } = f tmp) : a.tmp.bind f = b.tmp.bind f := by
  rw [← core_tmp_bind a hf, ← core_tmp_bind b hf, h]

theorem state_of_core {a b : Data E} (h : a.core = b.core) : a.state = b.state := by
  have hstate := congrArg Data.state h
  exact hstate

theorem rc_of_core {a b : Data E} (h : a.core = b.core) : a.rc = b.rc := by
  have hrc := congrArg Data.rc h
  exact hrc

section Write

theorem saeWriteCommit_core {token identifier : Option Bytes} {sae sae' : Data E} {b : Bytes}
    (h : saeWriteCommit token identifier sae = some (b, sae')) : sae'.core = sae.core := by
  simp only [saeWriteCommit, Option.bind_eq_bind, Option.bind_eq_some_iff, Option.pure_def,
    Option.some.injEq, Prod.mk.injEq] at h
  obtain ⟨_, -, _, -, _, -, _, -, _, -, _, -, -, rfl⟩ := h
  split <;> rfl

theorem saeWriteConfirm_core (cr : Crypto) (sae : Data E) :
    (saeWriteConfirm cr sae).1.core = sae.core := by
  unfold saeWriteConfirm
  split <;> rfl

theorem authSaeSendConfirm_core (env : Env E) (ans : Answer E) (sae : Data E) :
    (authSaeSendConfirm env ans sae).1.core = sae.core := by
  unfold authSaeSendConfirm
  split
  · rfl
  · exact saeWriteConfirm_core env.cr sae

end Write

section Prepare
variable (env : Env E) (ans : Answer E)

/-- The own commit values that a preparation has replaced. -/
def Data.withOwn (sae : Data E) (own : OwnCommit E) : Data E :=
  { sae with
    h2e := own.h2e
    pk := own.pk
    tmp := sae.tmp.map fun tmp => { tmp with
      pwe := own.pwe
      saeRand := own.saeRand
      ownCommitScalar := own.ownCommitScalar
      ownCommitElement := own.ownCommitElement
      ownRejectedGroups := own.ownRejectedGroups
      ownAddrHigher := own.ownAddrHigher } }

theorem saeDeriveCommit_eq {ops : Ops E} {draws : List (Option ℕ × Option ℕ)} {tmp tmp' : Tmp E}
    (h : saeDeriveCommit ops draws tmp = some tmp') :
    ∃ rand scalar element, tmp' = { tmp with
      saeRand := some rand
      ownCommitScalar := some scalar
      ownCommitElement := some element } := by
  simp only [saeDeriveCommit, Option.bind_eq_bind, Option.bind_eq_some_iff, Option.pure_def,
    Option.some.injEq] at h
  obtain ⟨_, -, ⟨rand, mask, scalar⟩, -, _, -, _, -, element, -, rfl⟩ := h
  exact ⟨rand, scalar, element, rfl⟩

/-- A successful preparation has a PWE of the origin asked for. -/
theorem prepareCommit_eq (usePt : Bool) (password : Bytes) (sae : Data E) :
    ∃ own, (prepareCommit env ans usePt password sae).1 = sae.withOwn own ∧
      ((prepareCommit env ans usePt password sae).2 = true → sae.tmp.isSome = true ∧
        own.h2e = usePt ∧ own.pwe.map Pwe.origin = some ⟨sae.group, usePt, password⟩) := by
  unfold prepareCommit
  simp only
  split
  · rename_i sae' hprepared
    cases usePt with
    | false =>
      simp only [Bool.false_eq_true, if_false, saePrepareCommit, Option.bind_eq_bind,
        Option.bind_eq_some_iff, Option.pure_def, Option.some.injEq] at hprepared
      obtain ⟨tmp, htmp, pwe, hpwe, tmp', hderive, rfl⟩ := hprepared
      obtain ⟨element, -, rfl⟩ := Option.map_eq_some_iff.mp hpwe
      obtain ⟨rand, scalar, own, rfl⟩ := saeDeriveCommit_eq hderive
      refine ⟨⟨some ⟨element, _⟩, some rand, some scalar, some own, tmp.ownRejectedGroups,
        tmp.ownAddrHigher, false, false⟩, ?_, fun _ => ⟨by rw [htmp]; rfl, rfl, rfl⟩⟩
      simp [Data.withOwn, htmp]
    | true =>
      simp only [if_true, saePrepareCommitPt, Option.bind_eq_bind,
        Option.bind_eq_some_iff, Option.pure_def, Option.some.injEq] at hprepared
      obtain ⟨tmp, htmp, pwe, hpwe, tmp', hderive, rfl⟩ := hprepared
      obtain ⟨element, -, rfl⟩ := Option.map_eq_some_iff.mp hpwe
      obtain ⟨rand, scalar, own, rfl⟩ := saeDeriveCommit_eq hderive
      refine ⟨⟨some ⟨element, _⟩, some rand, some scalar, some own, none,
        decide (0 < memcmp env.ownAddr env.addr), true, sae.pk⟩, ?_,
        fun _ => ⟨by rw [htmp]; rfl, rfl, rfl⟩⟩
      simp [Data.withOwn, htmp]
  · exact ⟨ans.failed, rfl, fun h => absurd h Bool.false_ne_true⟩

/-- The own commit values of an instance. -/
def Data.own (sae : Data E) : OwnCommit E where
  pwe := sae.tmp.bind Tmp.pwe
  saeRand := sae.tmp.bind Tmp.saeRand
  ownCommitScalar := sae.tmp.bind Tmp.ownCommitScalar
  ownCommitElement := sae.tmp.bind Tmp.ownCommitElement
  ownRejectedGroups := sae.tmp.bind Tmp.ownRejectedGroups
  ownAddrHigher := sae.tmp.any Tmp.ownAddrHigher
  h2e := sae.h2e
  pk := sae.pk

theorem withOwn_own (sae : Data E) : sae.withOwn sae.own = sae := by
  obtain ⟨state, sendConfirm, pmk, akmp, ownSuite, peerSuite, pmkid, peer, accepted, group, sync, rc,
    h2e, pk, tmp⟩ := sae
  cases tmp <;> rfl

theorem writeSaeCommit_core (identifier : Option Bytes) (vlanId : ℕ) (sae : Data E) :
    (writeSaeCommit ans identifier vlanId sae).1.core = sae.core := by
  have hvlan : (if vlanId ≠ 0 then sae.modifyTmp fun tmp => { tmp with vlanId } else sae).core =
      sae.core := by
    split
    · cases h : sae.tmp <;> simp [Data.core, Data.modifyTmp, h]
    · rfl
  unfold writeSaeCommit
  split
  · rfl
  · simp only
    split
    · exact hvlan
    · split
      · rename_i hwrite
        rw [saeWriteCommit_core hwrite]
        exact hvlan
      · exact hvlan

theorem authBuildSaeCommit_keep (status : Option AuthStatus) (sae : Data E) :
    (authBuildSaeCommit env ans false status sae).1.core = sae.core := by
  unfold authBuildSaeCommit
  simp only
  split
  · rfl
  · split
    · rfl
    · simp only [Bool.false_eq_true, if_false, Bool.not_true]
      exact writeSaeCommit_core ans (sae.pwId.map cString) _ sae

theorem authBuildSaeCommit_update (status : Option AuthStatus) (sae : Data E) :
    ∃ own, (authBuildSaeCommit env ans true status sae).1.core = (sae.withOwn own).core ∧
      ((authBuildSaeCommit env ans true status sae).2 = true → sae.tmp.isSome = true ∧
        ∃ password, (saeGetPassword env sae.pwId).map Prod.fst = some password ∧
          own.pwe.map Pwe.origin = some ⟨sae.group, own.h2e, password⟩) := by
  have hsame : sae.core = (sae.withOwn sae.own).core := by rw [withOwn_own]
  unfold authBuildSaeCommit
  simp only
  split
  · exact ⟨sae.own, hsame, fun h => absurd h Bool.false_ne_true⟩
  · rename_i password pt vlanId hpassword
    split
    · exact ⟨sae.own, hsame, fun h => absurd h Bool.false_ne_true⟩
    · obtain ⟨own, hprepare, hok⟩ :=
        prepareCommit_eq env ans (saeUsePt env.conf sae status) password sae
      simp only [if_true]
      refine ⟨own, ?_⟩
      by_cases hdone : (prepareCommit env ans (saeUsePt env.conf sae status) password sae).2 = true
      · obtain ⟨htmp, hh2e, horigin⟩ := hok hdone
        rw [hdone]
        simp only [Bool.not_true, Bool.false_eq_true, if_false]
        rw [hprepare]
        refine ⟨writeSaeCommit_core ans (sae.pwId.map cString) vlanId _, fun _ => ⟨htmp,
          password, by rw [hpassword]; rfl, ?_⟩⟩
        rw [horigin, hh2e]
      · rw [Bool.not_eq_true] at hdone
        rw [hdone]
        simp only [Bool.not_false, if_true]
        rw [hprepare]
        exact ⟨rfl, fun h => absurd (hdone.symm.trans h) Bool.false_ne_true⟩

theorem authSaeSendCommit_fst (update : Bool) (status : Option AuthStatus) (sae : Data E) :
    (authSaeSendCommit env ans update status sae).1 =
      (authBuildSaeCommit env ans update status sae).1 := by
  unfold authSaeSendCommit
  simp only
  split <;> rfl

theorem authSaeSendCommit_built {update : Bool} {status : Option AuthStatus} {sae : Data E}
    (h : (authSaeSendCommit env ans update status sae).2 = .success) :
    (authBuildSaeCommit env ans update status sae).2 = true := by
  unfold authSaeSendCommit at h
  by_contra hbuilt
  rw [Bool.not_eq_true] at hbuilt
  simp only [hbuilt, Bool.not_false, if_true] at h
  split at h <;> cases h

theorem authSaeSendCommit_keep (status : Option AuthStatus) (sae : Data E) :
    (authSaeSendCommit env ans false status sae).1.core = sae.core := by
  rw [authSaeSendCommit_fst]
  exact authBuildSaeCommit_keep env ans status sae

theorem authSaeSendCommit_state (update : Bool) (status : Option AuthStatus) (sae : Data E) :
    (authSaeSendCommit env ans update status sae).1.state = sae.state := by
  cases update with
  | false => exact state_of_core (authSaeSendCommit_keep env ans status sae)
  | true =>
    obtain ⟨own, hcore, -⟩ := authBuildSaeCommit_update env ans status sae
    rw [authSaeSendCommit_fst]
    have hstate := state_of_core hcore
    exact hstate

theorem authSaeSendCommit_rc (update : Bool) (status : Option AuthStatus) (sae : Data E) :
    (authSaeSendCommit env ans update status sae).1.rc = sae.rc := by
  cases update with
  | false => exact rc_of_core (authSaeSendCommit_keep env ans status sae)
  | true =>
    obtain ⟨own, hcore, -⟩ := authBuildSaeCommit_update env ans status sae
    rw [authSaeSendCommit_fst]
    have hrc := rc_of_core hcore
    exact hrc

theorem authSaeSendConfirm_state (sae : Data E) :
    (authSaeSendConfirm env ans sae).1.state = sae.state :=
  state_of_core (authSaeSendConfirm_core env ans sae)

end Prepare

/-- Only the keys are new. -/
theorem saeProcessCommit_cases {cr : Crypto} {ops : Ops E} {sae sae' : Data E}
    (h : saeProcessCommit cr ops sae = some sae') :
    ∃ tmp kck pmk pmkid, sae.tmp = some tmp ∧
      sae' = { sae with pmk := pmk, pmkid := pmkid, tmp := some { tmp with kck := kck } } := by
  obtain ⟨k, -, hkeys⟩ := Option.bind_eq_some_iff.mp h
  simp only [saeDeriveKeys, Option.bind_eq_bind, Option.bind_eq_some_iff, Option.pure_def,
    Option.some.injEq] at hkeys
  obtain ⟨tmp, htmp, g, -, seed, -, own, -, peer, -, keys, -, rfl⟩ := hkeys
  exact ⟨tmp, _, _, _, htmp, rfl⟩

/-- SAE_NOTHING and a commit: the status code is noted first. -/
def startCommit (status : AuthStatus) (sae : Data E) : Data E :=
  if sae.tmp.isSome then { sae with h2e := isH2e status, pk := status == .saePk } else sae

theorem startCommit_state (status : AuthStatus) (sae : Data E) :
    (startCommit status sae).state = sae.state := by
  unfold startCommit
  split <;> rfl

/-- A commit in SAE_NOTHING is not answered, or it cannot be processed, or there are new keys. -/
theorem smNothing_cases (env : Env E) (ans : Answer E) (status : AuthStatus) (allowReuse : Bool)
    (sae : Data E) :
    let sent := authSaeSendCommit env ans (!allowReuse) (some status) (startCommit status sae)
    let committed := { sent.1 with state := .committed }
    let step := smNothing env ans status allowReuse sae
    (sent.2 ≠ .success ∧ step.acts = [] ∧ step.sae = sent.1) ∨
    (sent.2 = .success ∧ saeProcessCommit env.cr env.ops committed = none ∧ step.acts = [] ∧
      step.sae = committed) ∨
    (sent.2 = .success ∧ ∃ sae', saeProcessCommit env.cr env.ops committed = some sae' ∧
      step.acts = [.process committed sae'] ∧
      ∃ state, state ≠ .accepted ∧ step.sae.core = ({ sae' with state } : Data E).core) := by
  unfold smNothing
  simp only
  rw [show (if sae.tmp.isSome = true then
    ({ sae with h2e := isH2e status, pk := status == .saePk } : Data E) else sae) =
      startCommit status sae from rfl]
  generalize authSaeSendCommit env ans (!allowReuse) (some status) (startCommit status sae) = sent
  split
  · rename_i hsent
    exact .inl ⟨hsent, rfl, rfl⟩
  · rename_i hsent
    have hsent : sent.2 = .success := not_not.mp hsent
    split
    · rename_i hfailed
      exact .inr (.inl ⟨hsent, hfailed, rfl, rfl⟩)
    · rename_i sae' hprocess
      obtain ⟨tmp, kck, pmk, pmkid, -, hsae'⟩ := saeProcessCommit_cases hprocess
      have hstate : sae'.state = .committed := congrArg Data.state hsae'
      have hcore := authSaeSendConfirm_core env ans sae'
      have hkept : ({ sae' with state := .committed } : Data E) = sae' := by
        rw [← hstate]
      have hconfirmed : ({ (authSaeSendConfirm env ans sae').1 with
          state := .confirmed, sync := 0 } : Data E).core =
          ({ sae' with state := .confirmed } : Data E).core := by
        have h := congrArg (fun d : Data E => { d with state := .confirmed }) hcore
        exact h
      refine .inr (.inr ⟨hsent, sae', hprocess, ?_⟩)
      split
      · split
        · refine ⟨rfl, .committed, State.noConfusion, ?_⟩
          rw [hkept]
          exact hcore
        · exact ⟨rfl, .confirmed, State.noConfusion, hconfirmed⟩
      · refine ⟨rfl, .committed, State.noConfusion, ?_⟩
        rw [hkept]
        rfl

theorem restartCommit_state (env : Env E) (frame : Frame) (sae : Data E)
    (hmesh : env.conf.mesh = false) : (restartCommit env frame sae).1.state ≠ .committed := by
  unfold restartCommit
  split
  · simp only
    split <;> exact State.noConfusion
  · rename_i h
    exact fun hc => h ⟨by rw [hmesh]; rfl, hc⟩

theorem saeParseCommit_state [DecidableEq E] (lib : ℕ → Option (Group E)) (args : ParseArgs)
    (data : Bytes) (sae : Data E) :
    (saeParseCommit lib args data sae).1.sae.state = sae.state ∨
      (saeParseCommit lib args data sae).1.sae.state = .nothing := by
  rcases saeParseCommit_unread lib args data sae with h | ⟨-, -, h⟩
  · have hstate := congrArg Data.state h
    exact .inl hstate
  · have hstate := congrArg Data.state h
    rcases saeSetGroup_state lib (data.le16 0) sae with hset | hset
    · rw [hset] at hstate
      exact .inl hstate
    · exact .inr (hstate.trans hset)

theorem restartCommit_reuse {env : Env E} {frame : Frame} {sae : Data E}
    (h : (restartCommit env frame sae).2 = true) :
    (restartCommit env frame sae).1 = { sae with state := .nothing } ∧ sae.state = .committed ∧
      frame.body.le16 0 = sae.group ∧ sae.tmp.isSome = true := by
  unfold restartCommit at h ⊢
  split at h
  · rename_i hrestart
    rw [if_pos hrestart]
    simp only at h ⊢
    split at h
    · rename_i hallowed
      rw [if_pos hallowed]
      obtain ⟨-, hallowed⟩ := hallowed
      have hsame : (saeGroupAllowed env.lib (some env.conf.groups) (frame.body.le16 0) sae).1 = sae :=
        (saeGroupAllowed_cases env.lib (some env.conf.groups) (frame.body.le16 0) sae).resolve_right
          fun hset => hset.2.1 hrestart.2
      rw [hsame]
      refine ⟨rfl, hrestart.2, ?_⟩
      unfold saeGroupAllowed at hallowed
      split at hallowed
      · cases hallowed
      · split at hallowed
        · cases hallowed
        · rename_i hgroup
          have hgroup : frame.body.le16 0 = sae.group := by
            by_contra hne
            exact hgroup ⟨hrestart.2, hne⟩
          refine ⟨hgroup, ?_⟩
          cases htmp : sae.tmp with
          | none => simp [hgroup, htmp] at hallowed
          | some tmp => rfl
    · cases h
  · cases h

section Handle
variable [DecidableEq E] (env : Env E) (ans : Answer E) (frame : Frame)

/-- What the parser makes of a commit. -/
def parsedCommit (sae : Data E) : Cursor E × Status :=
  saeParseCommit env.lib (parseArgs env ans frame) frame.body (restartCommit env frame sae).1

/-- The message, its token and its rejected groups are as they should be. -/
def CommitAccepted (parsed : Cursor E × Status) : Prop :=
  parsed.2 = .success ∧ (parsed.1.token.any fun token => !ans.comebackToken token) = false ∧
    saeRejectsEnabledGroup env parsed.1.sae = false

/-- A token that is asked for before the commit is looked at. -/
def asksForToken (sae : Data E) : Bool :=
  (parsedCommit env ans frame sae).1.token.isNone && ans.useAntiClogging &&
    !(restartCommit env frame sae).2

theorem parsedCommit_state (sae : Data E) (hmesh : env.conf.mesh = false) :
    (parsedCommit env ans frame sae).1.sae.state ≠ .committed := by
  have hrestarted := restartCommit_state env frame sae hmesh
  rcases saeParseCommit_state env.lib (parseArgs env ans frame) frame.body
    (restartCommit env frame sae).1 with h | h
  · exact fun hc => hrestarted (h.symm.trans hc)
  · exact fun hc => State.noConfusion (h.symm.trans hc)

/-- The refusal of a commit leaves the state of the instance. -/
def RefusedInPlace (sae : Data E) : Prop :=
  (parsedCommit env ans frame sae).2 ≠ .unknownPasswordIdentifier ∧
    (CommitAccepted env ans (parsedCommit env ans frame sae) →
      env.conf.mesh = false ∧ asksForToken env ans frame sae = true)

/-- A commit is refused, or the state machine takes it. -/
theorem handleCommit_cases (sae : Data E) :
    ((handleCommit env ans frame sae).acts = [] ∧
      ((handleCommit env ans frame sae).sae = (parsedCommit env ans frame sae).1.sae ∧
          RefusedInPlace env ans frame sae ∨
        (handleCommit env ans frame sae).sae =
          { (parsedCommit env ans frame sae).1.sae with state := .nothing })) ∨
    ((CommitAccepted env ans (parsedCommit env ans frame sae) ∧ asksForToken env ans frame sae = false) ∧
      handleCommit env ans frame sae =
        saeSmStepCommit env ans frame.status (restartCommit env frame sae).2
          (parsedCommit env ans frame sae).1.sae) := by
  unfold RefusedInPlace handleCommit asksForToken CommitAccepted parsedCommit
  simp only
  split
  · rename_i hdiscard
    refine .inl ⟨rfl, .inl ⟨rfl, ?_, fun h => ?_⟩⟩
    · rw [hdiscard]
      exact Status.noConfusion
    · exact Status.noConfusion (hdiscard.symm.trans h.1)
  · split
    · exact .inl ⟨rfl, .inr rfl⟩
    · rename_i hidentifier
      split
      · rename_i htoken
        exact .inl ⟨rfl, .inl ⟨rfl, hidentifier, fun h => Bool.noConfusion (htoken.symm.trans h.2.1)⟩⟩
      · rename_i htoken
        split
        · rename_i hfailed
          exact .inl ⟨rfl, .inl ⟨rfl, hidentifier, fun h => absurd h.1 hfailed⟩⟩
        · rename_i hsuccess
          split
          · rename_i hrejected
            refine .inl ⟨rfl, .inl ⟨rfl, hidentifier, fun h => ?_⟩⟩
            exact Bool.noConfusion (hrejected.symm.trans h.2.2)
          · rename_i hrejected
            split
            · rename_i hasks
              split
              · exact .inl ⟨rfl, .inr rfl⟩
              · rename_i hmesh
                exact .inl ⟨rfl, .inl ⟨rfl, hidentifier, fun _ => ⟨by simpa using hmesh, hasks⟩⟩⟩
            · rename_i hasks
              refine .inr ⟨⟨⟨not_not.mp hsuccess, ?_, ?_⟩, ?_⟩, rfl⟩
              · simpa using htoken
              · simpa using hrejected
              · simpa using hasks

end Handle
end Wpa.Sae
