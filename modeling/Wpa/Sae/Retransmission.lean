import Wpa.Sae.Acceptance

/-! A Confirm that a station sends again in SAE_ACCEPTED. `sae_accept_sta` takes the peer's scalar
away, and with it what the Confirm is checked against. -/

namespace Wpa.Sae
open Lib Bytes
variable {E : Type}

/-- The instance `sae` after the acceptance of `acc`: the scalar is that of the accepted exchange no
more. -/
structure Consumed (acc sae : Data E) : Prop where
  scalar_accepted : sae.peerCommitScalarAccepted = acc.peerCommitScalar
  kck : ∀ tmp, sae.tmp = some tmp → acc.tmp.map Tmp.kck = some tmp.kck
  other_scalar : ∀ s, sae.peerCommitScalar = some s → acc.peerCommitScalar ≠ some s

section Invariant
variable {acc a b : Data E}

theorem Consumed.of_core (h : a.core = b.core) (hb : Consumed acc b) : Consumed acc a := by
  have haccepted := congrArg Data.peerCommitScalarAccepted h
  have hscalar := congrArg Data.peerCommitScalar h
  have hkck : a.tmp.bind (some ∘ Tmp.kck) = b.tmp.bind (some ∘ Tmp.kck) :=
    tmp_bind_of_core h fun _ => rfl
  simp only [Data.core] at haccepted hscalar
  refine ⟨haccepted.trans hb.scalar_accepted, ?_, ?_⟩
  · intro tmp htmp
    rw [htmp] at hkck
    obtain ⟨tmp', htmp', hsame⟩ := Option.bind_eq_some_iff.mp hkck.symm
    rw [hb.kck tmp' htmp']
    exact hsame
  · intro s hs
    exact hb.other_scalar s (hscalar.symm.trans hs)

theorem Consumed.withOwn (own : OwnCommit E) (hb : Consumed acc b) : Consumed acc (b.withOwn own) := by
  refine ⟨hb.scalar_accepted, ?_, hb.other_scalar⟩
  intro tmp htmp
  obtain ⟨tmp', htmp', rfl⟩ := Option.map_eq_some_iff.mp htmp
  exact hb.kck tmp' htmp'

theorem Consumed.modifyTmp {f : Tmp E → Tmp E} (hf : ∀ tmp, (f tmp).kck = tmp.kck)
    (hb : Consumed acc b) : Consumed acc (b.modifyTmp f) := by
  refine ⟨hb.scalar_accepted, ?_, hb.other_scalar⟩
  intro tmp htmp
  obtain ⟨tmp', htmp', rfl⟩ := Option.map_eq_some_iff.mp htmp
  rw [hf]
  exact hb.kck tmp' htmp'

/-- The parser refuses the scalar of the accepted exchange. -/
theorem Consumed.parseScalar {g : Group E} {alloc : Bool} {c : Cursor E}
    (hstate : c.sae.state = .accepted) (h : Consumed acc c.sae) :
    Consumed acc (saeParseCommitScalar g alloc c).1.sae := by
  unfold saeParseCommitScalar
  split
  · exact h
  dsimp only
  split
  · exact h
  rename_i hreplayed
  split
  · exact h
  refine ⟨h.scalar_accepted, h.kck, ?_⟩
  rintro s hs hacc
  cases hs
  exact hreplayed ⟨hstate, h.scalar_accepted.trans hacc⟩

theorem Consumed.parseBody [DecidableEq E] {args : ParseArgs} {g : Group E} {c : Cursor E}
    (hstate : c.sae.state = .accepted) (h : Consumed acc c.sae) :
    Consumed acc (saeParseCommitBody args g c).1.sae := by
  have hboth : Consumed acc (saeParseCommitBody args g c).1.sae ∧
      (saeParseCommitBody args g c).1.sae.state = .accepted := by
    refine saeParseCommitBody_invariant
      (P := fun c' => Consumed acc c'.sae ∧ c'.sae.state = .accepted) ?_ ?_ ?_ ?_ ?_ ?_ ?_ ?_ c
      ⟨h, hstate⟩
    · intro c' hc
      simp only [saeParseCommitToken, Bool.false_eq_true, if_false]
      split
      · exact hc
      · exact hc
    · intro c' hc
      refine ⟨hc.1.parseScalar hc.2, ?_⟩
      unfold saeParseCommitScalar
      simp only
      split_ifs <;> exact hc.2
    · intro c' hc
      unfold saeParseCommitElement saeParseCommitElementFfc saeParseCommitElementEcc
      simp only
      split_ifs <;> first | exact hc | exact ⟨hc.1.modifyTmp fun _ => rfl, hc.2⟩
    · intro c' hc
      unfold saeParsePasswordIdentifier
      simp only
      split_ifs <;> first | exact hc | exact ⟨hc.1.modifyTmp fun _ => rfl, hc.2⟩
    · intro _ c' hc
      unfold saeParseRejectedGroups
      simp only
      split_ifs <;> first | exact hc | exact ⟨hc.1.modifyTmp fun _ => rfl, hc.2⟩
    · intro c' hc
      unfold saeParseTokenContainer
      split
      · exact hc
      · exact hc
    · intro _ c' hc
      unfold saeParseAkmSuiteSelector
      split
      · exact hc
      · exact ⟨⟨hc.1.scalar_accepted, hc.1.kck, hc.1.other_scalar⟩, hc.2⟩
    · intro c' hc
      unfold saeFinishCommit
      simp only
      split_ifs <;> first
        | exact hc
        | exact ⟨⟨hc.1.scalar_accepted, hc.1.kck, hc.1.other_scalar⟩, hc.2⟩
  exact hboth.1

theorem Consumed.parse [DecidableEq E] {lib : ℕ → Option (Group E)} {args : ParseArgs} {data : Bytes}
    (hstate : b.state = .accepted) (h : Consumed acc b)
    (hstay : (saeParseCommit lib args data b).1.sae.state = .accepted) :
    Consumed acc (saeParseCommit lib args data b).1.sae := by
  -- a new group would have taken the instance out of SAE_ACCEPTED
  have hsame : 2 ≤ data.length → (saeGroupAllowed lib args.allowedGroups (data.le16 0) b).1 = b := by
    intro hlong
    rcases saeGroupAllowed_cases lib args.allowedGroups (data.le16 0) b with hsame | ⟨-, -, hset⟩
    · exact hsame
    rcases saeSetGroup_state lib (data.le16 0) b with hkept | hnothing
    · exact hset.trans hkept
    · have hstate' : (saeParseCommit lib args data b).1.sae.state =
          (saeGroupAllowed lib args.allowedGroups (data.le16 0) b).1.state := by
        have hbody : ∀ (g : Group E) (c : Cursor E),
            (saeParseCommitBody args g c).1.sae.state = c.sae.state := by
          intro g c
          have hunread := congrArg Data.state (saeParseCommitBody_unread args g c)
          exact hunread
        unfold saeParseCommit
        rw [if_neg (not_lt.mpr hlong)]
        simp only [andThen]
        split
        · split
          · exact hbody _ _
          · rfl
        · rfl
      rw [hset, hnothing] at hstate'
      exact State.noConfusion (hstate'.symm.trans hstay)
  unfold saeParseCommit
  split
  · exact h
  rename_i hlong
  simp only [hsame (not_lt.mp hlong), andThen]
  split
  · split
    · exact Consumed.parseBody hstate h
    · exact h
  · exact h

end Invariant

section Steps
variable {env : Env E} {ans : Answer E} {acc sae : Data E}

theorem Consumed.sendCommit {update : Bool} {status : Option AuthStatus} (h : Consumed acc sae) :
    Consumed acc (authSaeSendCommit env ans update status sae).1 := by
  cases update with
  | false => exact h.of_core (authSaeSendCommit_keep env ans status sae)
  | true =>
    obtain ⟨own, hcore, -⟩ := authBuildSaeCommit_update env ans status sae
    rw [authSaeSendCommit_fst]
    exact (h.withOwn own).of_core hcore

theorem Consumed.retransmitTimer (hstate : sae.state = .accepted) (h : Consumed acc sae)
    (hstay : (authSaeRetransmitTimer env ans sae).state = .accepted) :
    Consumed acc (authSaeRetransmitTimer env ans sae) ∧
      (authSaeRetransmitTimer env ans sae).peerCommitScalar = sae.peerCommitScalar := by
  unfold authSaeRetransmitTimer saeCheckBigSync at hstay ⊢
  split at hstay
  · rename_i hsync
    split at hsync <;> cases hsync
    cases hstay
  · simp only [hstate]
    exact ⟨⟨h.scalar_accepted, h.kck, h.other_scalar⟩, trivial⟩

/-- A commit in SAE_ACCEPTED that leaves the state is one that cannot be answered. -/
theorem Consumed.smAcceptedCommit {status : AuthStatus} (hmesh : env.conf.mesh = false)
    (h : Consumed acc sae)
    (hstay : (Sae.smAcceptedCommit env ans status sae).sae.state = .accepted) :
    Consumed acc (Sae.smAcceptedCommit env ans status sae).sae := by
  have hsent : Consumed acc (authSaeSendCommit env ans true (some status) sae).1 := h.sendCommit
  unfold Sae.smAcceptedCommit at hstay ⊢
  rw [if_neg (by rw [hmesh]; exact Bool.false_ne_true)] at hstay ⊢
  simp only at hstay ⊢
  split at hstay
  · rename_i hfailed
    rw [if_pos hfailed]
    exact hsent
  · split at hstay
    · cases hstay
    · rename_i sae' hprocess
      exact State.noConfusion ((saeProcessCommit_state hprocess).symm.trans hstay)

theorem Consumed.smAcceptedConfirm (h : Consumed acc sae)
    (hstay : (Sae.smAcceptedConfirm env ans sae).sae.state = .accepted) :
    Consumed acc (Sae.smAcceptedConfirm env ans sae).sae ∧
      (Sae.smAcceptedConfirm env ans sae).sae.peerCommitScalar = sae.peerCommitScalar := by
  unfold Sae.smAcceptedConfirm saeCheckBigSync at hstay ⊢
  split at hstay
  · rename_i hsync
    split at hsync <;> cases hsync
    cases hstay
  · have hcore := authSaeSendConfirm_core env ans { sae with sync := sae.sync + 1 }
    have haccepted := congrArg Data.peerCommitScalarAccepted hcore
    have hscalar := congrArg Data.peerCommitScalar hcore
    refine ⟨⟨haccepted.trans h.scalar_accepted, ?_, ?_⟩, hscalar⟩
    · intro tmp htmp
      cases htmp
    · intro s hs
      exact h.other_scalar s (hscalar.symm.trans hs)

variable {frame : Frame}

theorem Consumed.handleConfirm (hmesh : env.conf.mesh = false) (hstate : sae.state = .accepted)
    (h : Consumed acc sae) (hstay : (Sae.handleConfirm env ans frame sae).sae.state = .accepted) :
    Consumed acc (Sae.handleConfirm env ans frame sae).sae ∧
      (Sae.handleConfirm env ans frame sae).sae.peerCommitScalar = sae.peerCommitScalar := by
  unfold Sae.handleConfirm at hstay ⊢
  split
  · exact ⟨h, rfl⟩
  rename_i hstatus
  rw [if_neg hstatus] at hstay
  rw [if_neg (by rw [hmesh]; exact fun hm => Bool.false_ne_true hm.1)] at hstay ⊢
  split
  · exact ⟨h, rfl⟩
  rename_i hlong
  rw [if_neg hlong] at hstay
  simp only at hstay ⊢
  split
  · exact ⟨h, rfl⟩
  rename_i hfresh
  rw [if_neg hfresh] at hstay
  split
  · exact ⟨h, rfl⟩
  rename_i hcheck
  rw [if_neg hcheck] at hstay
  have hstep : saeSmStepConfirm env ans frame.status { sae with rc := frame.body.le16 0 } =
      Sae.smAcceptedConfirm env ans { sae with rc := frame.body.le16 0 } := by
    simp only [saeSmStepConfirm, hstate]
  rw [hstep] at hstay ⊢
  have hstored : Consumed acc { sae with rc := frame.body.le16 0 } :=
    ⟨h.scalar_accepted, h.kck, h.other_scalar⟩
  exact hstored.smAcceptedConfirm hstay

variable [DecidableEq E]

theorem Consumed.handleCommit (hmesh : env.conf.mesh = false) (hstate : sae.state = .accepted)
    (h : Consumed acc sae) (hstay : (Sae.handleCommit env ans frame sae).sae.state = .accepted) :
    Consumed acc (Sae.handleCommit env ans frame sae).sae := by
  have hrestart : restartCommit env frame sae = (sae, false) := by
    unfold restartCommit
    exact if_neg fun h => State.noConfusion (hstate.symm.trans h.2)
  have hparse : (parsedCommit env ans frame sae).1.sae.state = .accepted →
      Consumed acc (parsedCommit env ans frame sae).1.sae := by
    unfold parsedCommit
    rw [hrestart]
    exact Consumed.parse hstate h
  rcases handleCommit_cases env ans frame sae with ⟨-, ⟨hsae, -⟩ | hsae⟩ | ⟨-, hstep⟩
  · rw [hsae] at hstay ⊢
    exact hparse hstay
  · rw [hsae] at hstay
    cases hstay
  · rw [hstep] at hstay ⊢
    rcases parsedCommit_accepted env ans frame hstate with ⟨hparsed, -⟩ | hparsed
    · simp only [saeSmStepCommit, hparsed] at hstay ⊢
      exact (hparse hparsed).smAcceptedCommit hmesh hstay
    · simp only [saeSmStepCommit, hparsed] at hstay
      exact absurd hstay (smNothing_not_accepted hparsed)

def IsCommit : Input E → Prop
  | .frame _ frame => frame.transaction = 1
  | .timer _ => False

theorem Consumed.handleInstance (hmesh : env.conf.mesh = false) (hstate : sae.state = .accepted)
    (h : Consumed acc sae)
    (hstay : (handleAuthSaeInstance env ans frame sae).sae.state = .accepted) :
    Consumed acc (handleAuthSaeInstance env ans frame sae).sae ∧
      (frame.transaction ≠ 1 → (handleAuthSaeInstance env ans frame sae).sae.peerCommitScalar =
        sae.peerCommitScalar) := by
  have hinfra : ∀ p : Prop, ¬ (env.conf.mesh = true ∧ p) := by
    rw [hmesh]
    exact fun p hm => Bool.false_ne_true hm.1
  unfold handleAuthSaeInstance at hstay ⊢
  split
  · rename_i htransaction
    rw [if_pos htransaction, if_neg (hinfra _), if_neg (hinfra _)] at hstay
    rw [if_neg (hinfra _), if_neg (hinfra _)]
    refine ⟨?_, fun hne => absurd htransaction hne⟩
    split
    · exact h
    · rename_i hstatus
      rw [if_neg hstatus] at hstay
      exact h.handleCommit hmesh hstate hstay
  · rename_i htransaction
    rw [if_neg htransaction] at hstay
    split
    · rename_i hconfirm
      rw [if_pos hconfirm] at hstay
      obtain ⟨hconsumed, hscalar⟩ := h.handleConfirm hmesh hstate hstay
      exact ⟨hconsumed, fun _ => hscalar⟩
    · exact ⟨h, fun _ => rfl⟩

/-- A step that stays in SAE_ACCEPTED. -/
theorem Consumed.apStep (hmesh : env.conf.mesh = false) (hstate : sae.state = .accepted)
    (h : Consumed acc sae) (i : Input E) {sae' : Data E}
    (hpost : (Sae.apStep env (some sae) i).1 = some sae') (hstay : sae'.state = .accepted) :
    Consumed acc sae' ∧ (¬ IsCommit i → sae'.peerCommitScalar = sae.peerCommitScalar) := by
  cases i with
  | timer ans =>
    cases hpost
    obtain ⟨hconsumed, hscalar⟩ := h.retransmitTimer hstate hstay
    exact ⟨hconsumed, fun _ => hscalar⟩
  | frame ans frame =>
    have hsae : (if (handleAuthSaeInstance env ans frame sae).staRemoved then none
        else some (handleAuthSaeInstance env ans frame sae).sae) = some sae' := hpost
    split at hsae
    · cases hsae
    · cases hsae
      exact h.handleInstance hmesh hstate hstay

end Steps

section Acceptance
variable {env : Env E} {ans : Answer E} {acc sae : Data E} {frame : Frame}

theorem accept_not_mem_commit (status : AuthStatus) (allowReuse : Bool) (sae : Data E) :
    Act.accept acc ∉ (saeSmStepCommit env ans status allowReuse sae).acts := by
  unfold saeSmStepCommit
  split
  · rcases smNothing_cases env ans status allowReuse sae with
      ⟨-, hacts, -⟩ | ⟨-, -, hacts, -⟩ | ⟨-, sae', -, hacts, -⟩ <;> rw [hacts] <;> simp
  · unfold smCommittedCommit
    split
    · simp
    · simp only
      split <;> simp
  · unfold smConfirmedCommit
    split
    · simp
    · simp only
      split
      · simp
      · split <;> simp
  · unfold smAcceptedCommit
    split
    · simp
    · simp only
      split
      · simp
      · split <;> simp

theorem smConfirmedConfirm_accept (hstate : sae.state = .confirmed)
    (h : Act.accept acc ∈ (smConfirmedConfirm ans sae).acts) :
    (smConfirmedConfirm ans sae).sae = saeAcceptSta ans acc ∧ acc.state = .confirmed := by
  have hacc : Act.accept acc = .accept { sae with sendConfirm := 0xffff } := List.mem_singleton.mp h
  cases hacc
  exact ⟨rfl, hstate⟩

theorem saeSmStepConfirm_accept {status : AuthStatus}
    (h : Act.accept acc ∈ (saeSmStepConfirm env ans status sae).acts) :
    (saeSmStepConfirm env ans status sae).sae = saeAcceptSta ans acc ∧ acc.state = .confirmed := by
  unfold saeSmStepConfirm at h ⊢
  split at h
  · cases h
  · unfold smCommittedConfirm saeCheckBigSync at h ⊢
    split at h
    · rename_i hmesh
      split at h
      · cases h
      · cases h
    · rename_i hmesh
      rw [if_neg hmesh]
      simp only at h ⊢
      split at h
      · cases h
      · rename_i hsent
        rw [if_neg hsent]
        exact smConfirmedConfirm_accept rfl h
  · rename_i hstate
    exact smConfirmedConfirm_accept hstate h
  · unfold smAcceptedConfirm at h
    split at h
    · cases h
    · cases h

theorem handleInstance_accept [DecidableEq E]
    (h : Act.accept acc ∈ (handleAuthSaeInstance env ans frame sae).acts) :
    (handleAuthSaeInstance env ans frame sae).sae = saeAcceptSta ans acc ∧
      acc.state = .confirmed := by
  unfold handleAuthSaeInstance at h ⊢
  split at h
  · exfalso
    split at h
    · unfold handleTokenRequest at h
      split at h
      · cases h
      · simp only at h
        split at h
        · cases h
        · split at h
          · cases h
          · split at h <;> cases h
    · split at h
      · cases h
      · split at h
        · cases h
        · rcases handleCommit_cases env ans frame sae with ⟨hacts, -⟩ | ⟨-, hstep⟩
          · rw [hacts] at h
            cases h
          · rw [hstep] at h
            exact accept_not_mem_commit _ _ _ h
  · rename_i htransaction
    rw [if_neg htransaction]
    split at h
    · rename_i hconfirm
      rw [if_pos hconfirm]
      unfold handleConfirm at h ⊢
      split at h
      · cases h
      · rename_i hstatus
        rw [if_neg hstatus]
        split at h
        · rename_i hmesh
          rw [if_pos hmesh]
          exact saeSmStepConfirm_accept h
        · rename_i hmesh
          rw [if_neg hmesh]
          split at h
          · cases h
          · rename_i hlong
            rw [if_neg hlong]
            simp only at h ⊢
            split at h
            · cases h
            · rename_i hfresh
              rw [if_neg hfresh]
              split at h
              · cases h
              · rename_i hcheck
                rw [if_neg hcheck]
                rcases List.mem_cons.mp h with hfirst | hrest
                · cases hfirst
                · exact saeSmStepConfirm_accept hrest
    · cases h

/-- The instance that is left by an acceptance. -/
theorem consumed_of_accept [DecidableEq E] {s : Option (Data E)} {i : Input E}
    (h : Act.accept acc ∈ (apStep env s i).2) (hpost : (apStep env s i).1 = some sae)
    (hstate : sae.state = .accepted) : Consumed acc sae ∧ sae.peerCommitScalar = none := by
  obtain ⟨ans, hsae, hconfirmed⟩ : ∃ ans, sae = saeAcceptSta ans acc ∧ acc.state = .confirmed := by
    cases i with
    | timer ans => cases h
    | frame ans frame =>
      have hstart : ∀ start : Data E,
          Act.accept acc ∈ (handleAuthSaeInstance env ans frame start).acts →
          (if (handleAuthSaeInstance env ans frame start).staRemoved then none
            else some (handleAuthSaeInstance env ans frame start).sae) = some sae →
          sae = saeAcceptSta ans acc ∧ acc.state = .confirmed := by
        intro start hacts hsome
        split at hsome
        · cases hsome
        · cases hsome
          exact handleInstance_accept hacts
      refine ⟨ans, ?_⟩
      cases s with
      | some start => exact hstart start h hpost
      | none =>
        unfold apStep handleAuthSae at h hpost
        simp only at h hpost
        by_cases hnew : frame.transaction = 1 ∧ saeStatusSuccess env.conf frame.status ∧ ans.saeAlloc
        · simp only [if_pos hnew] at h hpost
          exact hstart _ h hpost
        · simp only [if_neg hnew] at h
          cases h
  rw [hsae] at hstate ⊢
  unfold saeAcceptSta at hstate ⊢
  split at hstate
  · exact State.noConfusion (hconfirmed.symm.trans hstate)
  · rename_i hvlan
    rw [if_neg hvlan]
    refine ⟨⟨rfl, ?_, ?_⟩, rfl⟩
    · intro tmp htmp
      have htmp : acc.tmp = some tmp := htmp
      rw [htmp]
      rfl
    · intro s hs
      cases hs

end Acceptance

section Confirm
variable {env : Env E} {ans : Answer E} {acc sae : Data E} {body : Bytes}

theorem saeCheckConfirm_iff {cr : Crypto} {data : Bytes} :
    saeCheckConfirm cr sae data = true ↔ ∃ tmp, sae.tmp = some tmp ∧
      2 + tmp.kck.length ≤ data.length ∧
      saeVerifier cr sae (data.take 2) = some (slice data 2 tmp.kck.length) := by
  simp only [saeCheckConfirm, Option.any_eq_true, Bool.and_eq_true, decide_eq_true_eq, beq_iff_eq]
  constructor
  · rintro ⟨tmp, htmp, hlen, verifier, hverifier, rfl⟩
    exact ⟨tmp, htmp, hlen, hverifier⟩
  · rintro ⟨tmp, htmp, hlen, hverifier⟩
    exact ⟨tmp, htmp, hlen, _, hverifier, rfl⟩

theorem peerCommitScalar_of_verifier {cr : Crypto} {sc v : Bytes}
    (h : saeVerifier cr sae sc = some v) : ∃ s, sae.peerCommitScalar = some s := by
  simp only [saeVerifier, Option.bind_eq_bind, Option.bind_eq_some_iff] at h
  obtain ⟨tmp, -, g, -, s, hs, -⟩ := h
  exact ⟨s, hs⟩

/-- A Confirm for the accepted exchange passes only if another scalar gives the same value. -/
theorem Consumed.saeCheckConfirm_iff_collision {cr : Crypto} (h : Consumed acc sae)
    (hcorrect : saeCheckConfirm cr acc body = true) :
    saeCheckConfirm cr sae body = true ↔ ∃ s, sae.peerCommitScalar = some s ∧
      acc.peerCommitScalar ≠ some s ∧
      saeVerifier cr sae (body.take 2) = saeVerifier cr acc (body.take 2) := by
  obtain ⟨accTmp, haccTmp, hlen, hvalue⟩ := saeCheckConfirm_iff.mp hcorrect
  have hkck : ∀ tmp, sae.tmp = some tmp → accTmp.kck = tmp.kck := by
    intro tmp htmp
    have hmap := h.kck tmp htmp
    rw [haccTmp] at hmap
    exact Option.some.inj hmap
  constructor
  · intro hcheck
    obtain ⟨tmp, htmp, -, hverifier⟩ := saeCheckConfirm_iff.mp hcheck
    obtain ⟨s, hs⟩ := peerCommitScalar_of_verifier hverifier
    refine ⟨s, hs, h.other_scalar s hs, ?_⟩
    rw [hverifier, hvalue, hkck tmp htmp]
  · rintro ⟨s, -, -, hsame⟩
    rw [hvalue] at hsame
    have htmp : ∃ tmp, sae.tmp = some tmp := by
      simp only [saeVerifier, Option.bind_eq_bind, Option.bind_eq_some_iff] at hsame
      obtain ⟨tmp, htmp, -⟩ := hsame
      exact ⟨tmp, htmp⟩
    obtain ⟨tmp, htmp⟩ := htmp
    rw [hkck tmp htmp] at hlen hsame
    exact saeCheckConfirm_iff.mpr ⟨tmp, htmp, hlen, hsame⟩

/-- The frame of a Confirm. -/
def confirmFrame (body : Bytes) : Frame := { transaction := 2, status := .success, body }

/-- The answer to a Confirm is the own one, and the station stays. -/
def AnsweredWithConfirm [DecidableEq E] (env : Env E) (ans : Answer E) (body : Bytes)
    (sae : Data E) : Prop :=
  (handleAuthSaeInstance env ans (confirmFrame body) sae).resp = .success ∧
  (handleAuthSaeInstance env ans (confirmFrame body) sae).staRemoved = false ∧
  ∃ sae₁, (authSaeSendConfirm env ans sae₁).2 = .success ∧
    (handleAuthSaeInstance env ans (confirmFrame body) sae).sae =
      saeClearTempData (authSaeSendConfirm env ans sae₁).1

/-- The own Confirm can be built and sent. -/
def CanConfirm (env : Env E) (ans : Answer E) (sae : Data E) : Prop :=
  ans.confirmAlloc = true ∧ ans.sendConfirm = true ∧ (saeWriteConfirm env.cr sae).2.isSome = true

theorem authSaeSendConfirm_success_iff :
    (authSaeSendConfirm env ans sae).2 = .success ↔ CanConfirm env ans sae := by
  unfold authSaeSendConfirm CanConfirm
  cases ans.confirmAlloc with
  | false => simp
  | true =>
    cases hwritten : (saeWriteConfirm env.cr sae).2 with
    | none => simp [hwritten]
    | some frame => simp [hwritten]

theorem canConfirm_counters (rc sync : ℕ) :
    CanConfirm env ans { sae with rc := rc, sync := sync } ↔ CanConfirm env ans sae := by
  unfold CanConfirm saeWriteConfirm
  cases sae.tmp with
  | none => rfl
  | some tmp => rfl

/-- A fresh Confirm in SAE_ACCEPTED is answered if it passes the check, and refused otherwise. -/
theorem handleInstance_confirm [DecidableEq E] (hstate : sae.state = .accepted)
    (hlong : 2 ≤ body.length) (hrc : sae.rc < body.le16 0) (hmax : body.le16 0 ≠ 0xffff)
    (hsync : sae.sync ≤ env.conf.saeSync) :
    handleAuthSaeInstance env ans (confirmFrame body) sae =
      if saeCheckConfirm env.cr sae body then
        { sae := saeClearTempData (authSaeSendConfirm env ans
            { sae with rc := body.le16 0, sync := sae.sync + 1 }).1
          acts := [.checkConfirm sae body]
          resp := (authSaeSendConfirm env ans
            { sae with rc := body.le16 0, sync := sae.sync + 1 }).2 }
      else { sae := sae, resp := .unspecifiedFailure } := by
  have hfresh : ¬ (sae.state = .accepted ∧ (body.le16 0 ≤ sae.rc ∨ body.le16 0 = 0xffff)) := by
    rintro ⟨-, h | h⟩
    · omega
    · exact hmax h
  have hlimit : ¬ sae.sync > env.conf.saeSync := not_lt.mpr hsync
  have hinfra : ¬ (env.conf.mesh = true ∧ sae.state ≠ .confirmed ∧ sae.state ≠ .accepted) :=
    fun h => h.2.2 hstate
  have hhandled : handleAuthSaeInstance env ans (confirmFrame body) sae =
      if !saeCheckConfirm env.cr sae body then { sae := sae, resp := .unspecifiedFailure }
      else
        { saeSmStepConfirm env ans .success { sae with rc := body.le16 0 } with
          acts := .checkConfirm sae body ::
            (saeSmStepConfirm env ans .success { sae with rc := body.le16 0 }).acts } :=
    (if_neg hinfra).trans ((if_neg (not_lt.mpr hlong)).trans (if_neg hfresh))
  have hstep : saeSmStepConfirm env ans .success { sae with rc := body.le16 0 } =
      smAcceptedConfirm env ans { sae with rc := body.le16 0 } := by
    simp only [saeSmStepConfirm, hstate]
  have hanswer : smAcceptedConfirm env ans { sae with rc := body.le16 0 } =
      { sae := saeClearTempData (authSaeSendConfirm env ans
          { sae with rc := body.le16 0, sync := sae.sync + 1 }).1
        resp := (authSaeSendConfirm env ans
          { sae with rc := body.le16 0, sync := sae.sync + 1 }).2 } := by
    unfold smAcceptedConfirm
    rw [show saeCheckBigSync env.conf { sae with rc := body.le16 0 } = none from if_neg hlimit]
  rw [hhandled, hstep, hanswer]
  by_cases hcheck : saeCheckConfirm env.cr sae body = true
  · rw [if_pos hcheck, hcheck]
    rfl
  · rw [if_neg hcheck, Bool.eq_false_iff.mpr hcheck]
    rfl

end Confirm

section Run
variable [DecidableEq E] {env : Env E}

/-- While the instance stays in SAE_ACCEPTED, the exchange cannot be checked again; and the scalar
is missing until a commit comes in. -/
theorem consumed_run (hmesh : env.conf.mesh = false) {acc sae₀ : Data E}
    (hconsumed : Consumed acc sae₀) (hnone : sae₀.peerCommitScalar = none) (is : List (Input E))
    (haccepted : ∀ u ∈ Runs.trace (apStep env) (some sae₀) is, Accepted u.pre) {sae : Data E}
    (hfinal : Runs.final (apStep env) (some sae₀) is = some sae) (hstate : sae.state = .accepted) :
    Consumed acc sae ∧
      ((∀ u ∈ Runs.trace (apStep env) (some sae₀) is, ¬ IsCommit u.input) →
        sae.peerCommitScalar = none) := by
  have hinvariant := @Runs.history_induction _ _ _ (apStep env)
    ( fun past s => ∀ sae, s = some sae → sae.state = .accepted → Consumed acc sae ∧
      ((∀ u ∈ past, ¬ IsCommit u.input) → sae.peerCommitScalar = none))
    (fun s _ => Accepted s) (some sae₀)
    (by
      rintro sae ⟨⟩ -
      exact ⟨hconsumed, fun _ => hnone⟩)
    (by
      intro past s i hI hs sae' hpost hstay
      obtain ⟨sae, rfl, hstate⟩ := hs
      obtain ⟨hbefore, hscalar⟩ := hI sae rfl hstate
      obtain ⟨hafter, hkept⟩ := hbefore.apStep hmesh hstate i hpost hstay
      refine ⟨hafter, fun hno => ?_⟩
      have hlast := hno (Runs.event (apStep env) (some sae) i)
        (List.mem_append_right _ (List.mem_singleton_self _))
      rw [hkept hlast]
      exact hscalar fun u hu => hno u (List.mem_append_left _ hu))
    is haccepted
  exact hinvariant sae hfinal hstate

/-- A Confirm for the accepted exchange is refused, unless a commit that was refused has left
another scalar that gives the same confirm value. -/
theorem resentConfirm_answered_iff (hmesh : env.conf.mesh = false) (is : List (Input E))
    {past during : List (Event (Option (Data E)) (Input E) (Act E))}
    {t : Event (Option (Data E)) (Input E) (Act E)} {acc sae : Data E}
    (htrace : Runs.trace (apStep env) none is = past ++ t :: during)
    (haccept : Act.accept acc ∈ t.out) (hduring : ∀ u ∈ during, Accepted u.pre)
    (hfinal : Runs.final (apStep env) none is = some sae) (hstate : sae.state = .accepted)
    (ans : Answer E) (body : Bytes) (hcorrect : saeCheckConfirm env.cr acc body = true)
    (hrc : sae.rc < body.le16 0) (hmax : body.le16 0 ≠ 0xffff)
    (hsync : sae.sync ≤ env.conf.saeSync) :
    (AnsweredWithConfirm env ans body sae ↔ (∃ s, sae.peerCommitScalar = some s ∧
      acc.peerCommitScalar ≠ some s ∧
      saeVerifier env.cr sae (body.take 2) = saeVerifier env.cr acc (body.take 2)) ∧
      CanConfirm env ans sae) ∧
    ((∀ u ∈ during, ¬ IsCommit u.input) →
      (handleAuthSaeInstance env ans (confirmFrame body) sae).resp = .unspecifiedFailure) := by
  obtain ⟨js, ks, rfl, rfl, hrest⟩ := Runs.trace_eq_append htrace
  cases ks with
  | nil => cases hrest
  | cons i ks =>
    obtain ⟨rfl, rfl⟩ := List.cons.inj hrest
    rw [Runs.final_append] at hfinal
    have hfinal : Runs.final (apStep env) (apStep env (Runs.final (apStep env) none js) i).1 ks =
        some sae := hfinal
    -- the instance right after the acceptance
    obtain ⟨sae₀, hsae₀, hstate₀⟩ : Accepted (apStep env (Runs.final (apStep env) none js) i).1 := by
      cases ks with
      | nil => exact ⟨sae, hfinal, hstate⟩
      | cons j ks => exact hduring _ (List.mem_cons_self ..)
    obtain ⟨hconsumed₀, hnone₀⟩ := consumed_of_accept haccept hsae₀ hstate₀
    rw [hsae₀] at hfinal hduring
    obtain ⟨hconsumed, hnone⟩ :=
      consumed_run hmesh hconsumed₀ hnone₀ ks hduring hfinal hstate
    obtain ⟨_, _, hlen, _⟩ := saeCheckConfirm_iff.mp hcorrect
    have hlong : 2 ≤ body.length := by omega
    have hstep := @handleInstance_confirm _ env ans _ _ _ hstate hlong hrc hmax hsync
    have hcheck := hconsumed.saeCheckConfirm_iff_collision hcorrect
    refine ⟨?_, fun hno => ?_⟩
    · rw [← hcheck, AnsweredWithConfirm, hstep]
      cases saeCheckConfirm env.cr sae body with
      | false => simp
      | true =>
        simp only [if_true, true_and, authSaeSendConfirm_success_iff, canConfirm_counters]
        constructor
        · exact fun h => h.1
        · intro h
          exact ⟨h, _, (canConfirm_counters _ _).mpr h, rfl⟩
    · rw [← hsae₀] at hnone
      have hscalar := hnone hno
      have hrefused : saeCheckConfirm env.cr sae body = false := by
        rw [Bool.eq_false_iff]
        intro h
        obtain ⟨s, hs, -⟩ := hcheck.mp h
        rw [hscalar] at hs
        cases hs
      rw [hstep, hrefused]
      rfl

end Run

section Station

def Act.accepted {E : Type} : Act E → Option (Data E)
  | .accept acc => some acc
  | _ => none

theorem accept_mem {E : Type} {acts : List (Act E)}
    (h : (acts.filterMap Act.accepted).head?.isSome = true) :
    Act.accept ((acts.filterMap Act.accepted).head?.getD {}) ∈ acts := by
  obtain ⟨acc, hacc⟩ := Option.isSome_iff_exists.mp h
  rw [hacc]
  obtain ⟨act, hact, haccepted⟩ := List.mem_filterMap.mp (List.mem_of_mem_head? hacc)
  cases act with
  | process pre post => cases haccepted
  | checkConfirm sae msg => cases haccepted
  | accept acc' =>
    cases haccepted
    exact hact

/-- The confirm that is accepted. -/
def confirmEvent : Event (Option (Data (ZMod 11))) (Input (ZMod 11)) (Act (ZMod 11)) :=
  Runs.event (apStep immediateEnv) (Runs.final (apStep immediateEnv) none [firstCommit])
    (confirmAfter [firstCommit])

def acceptedExchange : Data (ZMod 11) :=
  (confirmEvent.out.filterMap Act.accepted).head?.getD {}

def acceptedStation : Data (ZMod 11) :=
  (Runs.final (apStep immediateEnv) none confirmedRun).getD {}

/-- The confirm of the same exchange with the next send-confirm value. -/
def resentConfirm : Bytes :=
  [2, 0] ++ (saeVerifier immediateEnv.cr acceptedExchange [2, 0]).getD []

theorem resentConfirm_station :
    (AnsweredWithConfirm immediateEnv stationAnswer resentConfirm acceptedStation ↔
      (∃ s, acceptedStation.peerCommitScalar = some s ∧ acceptedExchange.peerCommitScalar ≠ some s ∧
        saeVerifier immediateEnv.cr acceptedStation (resentConfirm.take 2) =
          saeVerifier immediateEnv.cr acceptedExchange (resentConfirm.take 2)) ∧
      CanConfirm immediateEnv stationAnswer acceptedStation) ∧
    ((∀ u ∈ ([] : List (Event (Option (Data (ZMod 11))) (Input (ZMod 11)) (Act (ZMod 11)))),
        ¬ IsCommit u.input) →
      (handleAuthSaeInstance immediateEnv stationAnswer (confirmFrame resentConfirm)
        acceptedStation).resp = .unspecifiedFailure) :=
  have htrace : Runs.trace (apStep immediateEnv) none confirmedRun =
      Runs.trace (apStep immediateEnv) none [firstCommit] ++ confirmEvent :: [] := rfl
  resentConfirm_answered_iff rfl confirmedRun htrace (accept_mem (by decide))
    (fun _ hu => absurd hu List.not_mem_nil) (eq_some_getD (by decide) _)
    (by decide) stationAnswer resentConfirm
    (by decide) (by decide) (by decide) (by decide)

/-- A station completes the exchange and sends its confirm again; the AP refuses it. -/
theorem resentConfirm_refused :
    Runs.trace (apStep immediateEnv) none confirmedRun =
      Runs.trace (apStep immediateEnv) none [firstCommit] ++ [confirmEvent] ∧
    Act.accept acceptedExchange ∈ confirmEvent.out ∧
    Runs.final (apStep immediateEnv) none confirmedRun = some acceptedStation ∧
    acceptedStation.state = .accepted ∧
    saeCheckConfirm immediateEnv.cr acceptedExchange resentConfirm = true ∧
    acceptedStation.rc < resentConfirm.le16 0 ∧ resentConfirm.le16 0 ≠ 0xffff ∧
    acceptedStation.sync ≤ immediateEnv.conf.saeSync ∧
    (handleAuthSaeInstance immediateEnv stationAnswer (confirmFrame resentConfirm)
      acceptedStation).resp = .unspecifiedFailure ∧
    ¬ AnsweredWithConfirm immediateEnv stationAnswer resentConfirm acceptedStation := by
  have hresp : (handleAuthSaeInstance immediateEnv stationAnswer (confirmFrame resentConfirm)
      acceptedStation).resp = .unspecifiedFailure := by
    decide
  refine ⟨rfl, accept_mem (by decide), eq_some_getD (by decide) _,
    by decide, by decide, by decide, by decide, by decide,
    hresp, fun h => ?_⟩
  have hsuccess := hresp.symm.trans h.1
  cases hsuccess

end Station
end Wpa.Sae
