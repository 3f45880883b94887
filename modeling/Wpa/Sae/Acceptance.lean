import Wpa.Sae.ApFrame

/-! A station is accepted only after a confirm for the commits that keys were last derived from. -/

namespace Wpa.Sae
open Lib Bytes
variable {E : Type}

/-- What a confirm is checked against, and the keys that go with it. -/
structure Keying (E : Type) where
  kck : Option Bytes
  ownCommitScalar : Option ℕ
  ownCommitElement : Option E
  peerCommitScalar : Option ℕ
  peerCommitElement : Option E
  pmk : Bytes
  pmkid : Bytes

def Data.keying (sae : Data E) : Keying E where
  kck := sae.tmp.map Tmp.kck
  ownCommitScalar := sae.tmp.bind Tmp.ownCommitScalar
  ownCommitElement := sae.tmp.bind Tmp.ownCommitElement
  peerCommitScalar := sae.peerCommitScalar
  peerCommitElement := sae.tmp.bind Tmp.peerCommitElement
  pmk := sae.pmk
  pmkid := sae.pmkid

def Data.kck (sae : Data E) : Bytes := (sae.tmp.map Tmp.kck).getD []

theorem keying_of_core {a b : Data E} (h : a.core = b.core) : a.keying = b.keying := by
  have hkck : a.tmp.map Tmp.kck = b.tmp.map Tmp.kck := by
    rw [Option.map_eq_bind, Option.map_eq_bind]
    exact tmp_bind_of_core h fun _ => rfl
  have hscalar : a.tmp.bind Tmp.ownCommitScalar = b.tmp.bind Tmp.ownCommitScalar :=
    tmp_bind_of_core h fun _ => rfl
  have helement : a.tmp.bind Tmp.ownCommitElement = b.tmp.bind Tmp.ownCommitElement :=
    tmp_bind_of_core h fun _ => rfl
  have hpeerElement : a.tmp.bind Tmp.peerCommitElement = b.tmp.bind Tmp.peerCommitElement :=
    tmp_bind_of_core h fun _ => rfl
  have hpeerScalar := congrArg Data.peerCommitScalar h
  have hpmk := congrArg Data.pmk h
  have hpmkid := congrArg Data.pmkid h
  simp only [Data.core] at hpeerScalar hpmk hpmkid
  simp only [Data.keying, hkck, hscalar, helement, hpeerElement, hpeerScalar, hpmk, hpmkid]

theorem kck_of_keying {a b : Data E} (h : a.keying = b.keying) : a.kck = b.kck := by
  have hkck := congrArg Keying.kck h
  exact congrArg (fun kck => kck.getD []) hkck

/-- Without a KCK every confirm is refused. -/
theorem saeCheckConfirm_kck {cr : Crypto} {sae : Data E} {data : Bytes}
    (h : saeCheckConfirm cr sae data = true) : sae.kck ≠ [] := by
  intro hkck
  simp only [saeCheckConfirm, Option.any_eq_true, Bool.and_eq_true] at h
  obtain ⟨tmp, htmp, -, verifier, hverifier, -⟩ := h
  simp only [saeVerifier, htmp, saeCnConfirm, Option.bind_eq_bind, Option.bind_eq_some_iff,
    Option.some.injEq] at hverifier
  obtain ⟨_, rfl, _, -, _, -, _, -, _, -, _, -, _, -, _, -, _, -, _, -, hextract⟩ := hverifier
  have hempty : tmp.kck = [] := by simpa [Data.kck, htmp] using hkck
  simp [hkdfExtract, hmacOfHashLen, hempty] at hextract

section Last

def noteProcess (last : Option (Data E)) : Act E → Option (Data E)
  | .process _ post => some post
  | _ => last

/-- The instance after the last derivation of keys, that before the acts being `last`. -/
def lastProcessed (last : Option (Data E)) (acts : List (Act E)) : Option (Data E) :=
  acts.foldl noteProcess last

@[simp] theorem lastProcessed_nil (last : Option (Data E)) : lastProcessed last [] = last := rfl

theorem lastProcessed_append (last : Option (Data E)) (a b : List (Act E)) :
    lastProcessed last (a ++ b) = lastProcessed (lastProcessed last a) b :=
  List.foldl_append

/-- A confirm may lead to the acceptance of the station. -/
def Armed (env : Env E) (sae : Data E) : Prop :=
  sae.state = .confirmed ∨ env.conf.mesh = false ∧ sae.state = .committed

def Keyed (last : Option (Data E)) (sae : Data E) : Prop :=
  sae.kck = [] ∨ ∃ p, last = some p ∧ sae.keying = p.keying

theorem Keyed.of_keying {last : Option (Data E)} {a b : Data E} (hb : Keyed last b)
    (h : a.keying = b.keying) : Keyed last a := by
  rcases hb with hkck | ⟨p, hp, hkeying⟩
  · exact .inl ((kck_of_keying h).trans hkck)
  · exact .inr ⟨p, hp, h.trans hkeying⟩

theorem not_armed_of_nothing {env : Env E} {sae : Data E} (h : sae.state = .nothing) :
    ¬ Armed env sae := by
  rintro (hstate | ⟨-, hstate⟩) <;> exact State.noConfusion (h.symm.trans hstate)

theorem not_armed_of_accepted {env : Env E} {sae : Data E} (h : sae.state = .accepted) :
    ¬ Armed env sae := by
  rintro (hstate | ⟨-, hstate⟩) <;> exact State.noConfusion (h.symm.trans hstate)

theorem not_armed_of_mesh {env : Env E} {sae : Data E} (hmesh : env.conf.mesh = true)
    (h : sae.state = .committed) : ¬ Armed env sae := by
  rintro (hstate | ⟨hinfra, -⟩)
  · exact State.noConfusion (h.symm.trans hstate)
  · exact Bool.noConfusion (hmesh.symm.trans hinfra)

/-- A step that accepts nobody, and leaves an instance that is armed with the right keys. -/
structure Step.Keeps (env : Env E) (last : Option (Data E)) (step : Step E) : Prop where
  keyed : Armed env step.sae → Keyed (lastProcessed last step.acts) step.sae
  no_accept : ∀ sae, Act.accept sae ∉ step.acts

theorem keeps_of_not_armed {env : Env E} {last : Option (Data E)} {step : Step E}
    (hacts : step.acts = []) (h : ¬ Armed env step.sae) : step.Keeps env last :=
  ⟨fun harmed => absurd harmed h, by simp [hacts]⟩

theorem keeps_of_keyed {env : Env E} {last : Option (Data E)} {step : Step E}
    (hacts : step.acts = []) (h : Armed env step.sae → Keyed last step.sae) :
    step.Keeps env last :=
  ⟨fun harmed => by simpa [hacts] using h harmed, by simp [hacts]⟩

theorem keeps_of_process {env : Env E} {last : Option (Data E)} {step : Step E}
    {pre post : Data E} (hacts : step.acts = [.process pre post])
    (h : step.sae.keying = post.keying) : step.Keeps env last := by
  refine ⟨fun _ => .inr ⟨post, ?_, h⟩, by simp [hacts]⟩
  rw [hacts]
  rfl

end Last

section Steps
variable {env : Env E} {ans : Answer E} {last : Option (Data E)}

theorem authSaeSendCommit_kck (env : Env E) (ans : Answer E) (update : Bool)
    (status : Option AuthStatus) (sae : Data E) :
    (authSaeSendCommit env ans update status sae).1.kck = sae.kck := by
  cases update with
  | false => exact kck_of_keying (keying_of_core (authSaeSendCommit_keep env ans status sae))
  | true =>
    obtain ⟨own, hcore, -⟩ := authBuildSaeCommit_update env ans status sae
    rw [authSaeSendCommit_fst]
    refine (kck_of_keying (keying_of_core hcore)).trans ?_
    cases htmp : sae.tmp with
    | none => simp [Data.kck, Data.withOwn, htmp]
    | some tmp => simp [Data.kck, Data.withOwn, htmp]

theorem startCommit_kck (status : AuthStatus) (sae : Data E) :
    (startCommit status sae).kck = sae.kck := by
  unfold startCommit
  split <;> rfl

def Derives (env : Env E) (sae : Data E) : Prop :=
  (saeProcessCommit env.cr env.ops sae).isSome = true

theorem derives_committed {sae : Data E} (h : Derives env sae) :
    Derives env { sae with state := .committed } := by
  obtain ⟨sae', hprocess⟩ := Option.isSome_iff_exists.mp h
  simp only [saeProcessCommit, saeDeriveKeys, Option.bind_eq_bind, Option.bind_eq_some_iff,
    Option.pure_def, Option.some.injEq] at hprocess
  obtain ⟨k, hk, tmp, htmp, g, hg, seed, hseed, own, hown, peer, hpeer, keys, hkeys, -⟩ := hprocess
  have hkeys' : saeProcessCommit env.cr env.ops { sae with state := .committed } =
      saeDeriveKeys env.cr k { sae with state := .committed } := by
    rw [saeProcessCommit, show saeDeriveK env.ops { sae with state := .committed } = some k from hk]
    rfl
  rw [Derives, hkeys']
  simp only [saeDeriveKeys, htmp, hg, hown, hpeer, Option.bind_eq_bind, Option.bind_some, hseed,
    hkeys, Option.pure_def, Option.isSome_some]

theorem smNothing_keeps {status : AuthStatus} {allowReuse : Bool} {sae : Data E}
    (hstate : sae.state = .nothing)
    (hderives : env.conf.mesh = false → sae.kck ≠ [] →
      (authSaeSendCommit env ans (!allowReuse) (some status) (startCommit status sae)).2 = .success →
      Derives env (authSaeSendCommit env ans (!allowReuse) (some status) (startCommit status sae)).1) :
    (smNothing env ans status allowReuse sae).Keeps env last := by
  have hkck : (authSaeSendCommit env ans (!allowReuse) (some status) (startCommit status sae)).1.kck =
      sae.kck :=
    (authSaeSendCommit_kck env ans _ _ _).trans (startCommit_kck status sae)
  have hsent_state := authSaeSendCommit_state env ans (!allowReuse) (some status)
    (startCommit status sae)
  rw [startCommit_state, hstate] at hsent_state
  rcases smNothing_cases env ans status allowReuse sae with
    ⟨-, hacts, hsae⟩ | ⟨hsent, hfailed, hacts, hsae⟩ | ⟨-, sae', -, hacts, state, -, hcore⟩
  · refine keeps_of_not_armed hacts (not_armed_of_nothing ?_)
    rw [hsae, hsent_state]
  · -- without a KCK from before nothing can be confirmed yet
    refine keeps_of_keyed hacts fun harmed => ?_
    rw [hsae] at harmed ⊢
    have hinfra : env.conf.mesh = false := by
      rcases harmed with h | ⟨h, -⟩
      · cases h
      · exact h
    by_contra hkeyed
    have hsome := derives_committed (hderives hinfra (fun h => hkeyed (.inl (hkck.trans h))) hsent)
    rw [Derives, hfailed] at hsome
    cases hsome
  · have hkeying := keying_of_core hcore
    exact keeps_of_process hacts hkeying

theorem smAcceptedCommit_keeps {status : AuthStatus} {sae : Data E} (hstate : sae.state = .accepted)
    (hderives : env.conf.mesh = false → sae.kck ≠ [] →
      (authSaeSendCommit env ans true (some status) sae).2 = .success →
      Derives env (authSaeSendCommit env ans true (some status) sae).1) :
    (smAcceptedCommit env ans status sae).Keeps env last := by
  have hkck := authSaeSendCommit_kck env ans true (some status) sae
  have hsent_state := authSaeSendCommit_state env ans true (some status) sae
  rw [hstate] at hsent_state
  unfold smAcceptedCommit
  generalize authSaeSendCommit env ans true (some status) sae = sent at *
  split
  · exact keeps_of_not_armed rfl (not_armed_of_accepted hstate)
  · rename_i hmesh
    simp only
    split
    · exact keeps_of_not_armed rfl (not_armed_of_accepted hsent_state)
    · rename_i hsent
      rw [ne_eq, not_not] at hsent
      split
      · rename_i hfailed
        refine keeps_of_keyed rfl fun _ => ?_
        by_contra hkeyed
        have hsome := derives_committed
          (hderives (by simpa using hmesh) (fun h => hkeyed (.inl (hkck.trans h))) hsent)
        rw [Derives, hfailed] at hsome
        cases hsome
      · exact keeps_of_process rfl rfl

/-- SAE_CONFIRMED is kept, so that the commit has to be processed to the end. -/
theorem smConfirmedCommit_keeps {status : AuthStatus} {sae : Data E}
    (hderives : sae.sync ≤ env.conf.saeSync →
      let sent := authSaeSendCommit env ans true (some status) { sae with sync := sae.sync + 1 }
      sent.2 = .success ∧ Derives env sent.1) :
    (smConfirmedCommit env ans status sae).Keeps env last := by
  unfold smConfirmedCommit saeCheckBigSync
  split
  · rename_i hsync
    split at hsync <;> cases hsync
    exact keeps_of_not_armed rfl (not_armed_of_nothing rfl)
  · rename_i hsync
    split at hsync
    · cases hsync
    · rename_i hle
      obtain ⟨hsent, hsome⟩ := hderives (not_lt.mp hle)
      simp only
      rw [if_neg (not_not.mpr hsent)]
      split
      · rename_i hfailed
        rw [Derives, hfailed] at hsome
        cases hsome
      · rename_i sae' hprocess
        exact keeps_of_process rfl (keying_of_core (authSaeSendConfirm_core env ans sae'))

theorem smCommittedCommit_keeps {sae : Data E} (hmesh : env.conf.mesh = true)
    (hstate : sae.state = .committed) : (smCommittedCommit env ans sae).Keeps env last := by
  unfold smCommittedCommit
  split
  · exact keeps_of_not_armed rfl (not_armed_of_mesh hmesh hstate)
  · rename_i sae' hprocess
    have hkept := keying_of_core (authSaeSendConfirm_core env ans sae')
    simp only
    split <;> exact keeps_of_process rfl hkept

theorem saeAcceptSta_armed {sae : Data E} (h : Armed env (saeAcceptSta ans sae)) :
    (saeAcceptSta ans sae).keying = sae.keying := by
  unfold saeAcceptSta at h ⊢
  split at h
  · rename_i hvlan
    rw [if_pos hvlan]
  · exact absurd h (not_armed_of_accepted rfl)

/-- A confirm accepts the station or does nothing for others, and derives no keys. -/
theorem saeSmStepConfirm_cases (env : Env E) (ans : Answer E) (status : AuthStatus) (sae : Data E) :
    ((saeSmStepConfirm env ans status sae).acts = [] ∨ Armed env sae ∧
      ∃ acc, (saeSmStepConfirm env ans status sae).acts = [.accept acc] ∧
        acc.keying = sae.keying) ∧
    (Armed env (saeSmStepConfirm env ans status sae).sae → Armed env sae ∧
      (saeSmStepConfirm env ans status sae).sae.keying = sae.keying) := by
  have haccept : ∀ sae' : Data E, sae'.keying = sae.keying → Armed env sae →
      ((smConfirmedConfirm ans sae').acts = [] ∨ Armed env sae ∧
        ∃ acc, (smConfirmedConfirm ans sae').acts = [.accept acc] ∧ acc.keying = sae.keying) ∧
      (Armed env (smConfirmedConfirm ans sae').sae → Armed env sae ∧
        (smConfirmedConfirm ans sae').sae.keying = sae.keying) := by
    intro sae' hkeying harmed
    exact ⟨.inr ⟨harmed, _, rfl, hkeying⟩,
      fun h => ⟨harmed, (saeAcceptSta_armed h).trans hkeying⟩⟩
  unfold saeSmStepConfirm
  split
  · rename_i hstate
    exact ⟨.inl rfl, fun h => absurd h (not_armed_of_nothing hstate)⟩
  · rename_i hstate
    unfold smCommittedConfirm saeCheckBigSync
    split
    · rename_i hmesh
      split
      · rename_i hsync
        split at hsync <;> cases hsync
        exact ⟨.inl rfl, fun h => absurd h (not_armed_of_nothing rfl)⟩
      · refine ⟨.inl rfl, fun h => absurd h (not_armed_of_mesh hmesh ?_)⟩
        rw [authSaeSendCommit_state]
        exact hstate
    · rename_i hmesh
      have harmed : Armed env sae := .inr ⟨by simpa using hmesh, hstate⟩
      have hkept := keying_of_core (authSaeSendConfirm_core env ans sae)
      simp only
      split
      · exact ⟨.inl rfl, fun _ => ⟨harmed, hkept⟩⟩
      · exact haccept _ hkept harmed
  · rename_i hstate
    exact haccept sae rfl (.inl hstate)
  · rename_i hstate
    unfold smAcceptedConfirm saeCheckBigSync
    split
    · rename_i hsync
      split at hsync <;> cases hsync
      exact ⟨.inl rfl, fun h => absurd h (not_armed_of_nothing rfl)⟩
    · refine ⟨.inl rfl, fun h => absurd h (not_armed_of_accepted ?_)⟩
      simp only [saeClearTempData]
      rw [authSaeSendConfirm_state]
      exact hstate

theorem handleConfirm_cases (env : Env E) (ans : Answer E) (frame : Frame) (sae : Data E) :
    ((handleConfirm env ans frame sae).acts = [] ∨
      (handleConfirm env ans frame sae).acts = [.checkConfirm sae frame.body] ∨
      Armed env sae ∧ saeCheckConfirm env.cr sae frame.body = true ∧
        ∃ acc, acc.keying = sae.keying ∧
          (handleConfirm env ans frame sae).acts = [.checkConfirm sae frame.body, .accept acc]) ∧
    (Armed env (handleConfirm env ans frame sae).sae → Armed env sae ∧
      (handleConfirm env ans frame sae).sae.keying = sae.keying) := by
  unfold handleConfirm
  split
  · exact ⟨.inl rfl, fun h => ⟨h, rfl⟩⟩
  · split
    · rename_i hmesh
      obtain ⟨hacts, hkeying⟩ := saeSmStepConfirm_cases env ans frame.status sae
      refine ⟨.inl (hacts.resolve_right fun h => ?_), hkeying⟩
      rcases h.1 with hstate | ⟨hinfra, -⟩
      · exact hmesh.2.1 hstate
      · exact Bool.noConfusion (hinfra.symm.trans hmesh.1)
    · split
      · exact ⟨.inl rfl, fun h => ⟨h, rfl⟩⟩
      · simp only
        split
        · exact ⟨.inl rfl, fun h => ⟨h, rfl⟩⟩
        · split
          · exact ⟨.inl rfl, fun h => ⟨h, rfl⟩⟩
          · rename_i hcheck
            have hcheck : saeCheckConfirm env.cr sae frame.body = true := by simpa using hcheck
            obtain ⟨hacts, hkeying⟩ := saeSmStepConfirm_cases env ans frame.status
              { sae with rc := frame.body.le16 0 }
            refine ⟨.inr ?_, hkeying⟩
            rcases hacts with hacts | ⟨harmed, acc, hacts, hacc⟩
            · exact .inl (by rw [hacts])
            · exact .inr ⟨harmed, hcheck, acc, hacc, by rw [hacts]⟩

theorem handleTokenRequest_keeps {frame : Frame} {sae : Data E} (hmesh : env.conf.mesh = true)
    (hkeyed : Armed env sae → Keyed last sae) :
    (handleTokenRequest env ans frame sae).Keeps env last := by
  have hkept : Armed env (saeGroupAllowed env.lib (some env.conf.groups) (frame.body.le16 0) sae).1 →
      Keyed last (saeGroupAllowed env.lib (some env.conf.groups) (frame.body.le16 0) sae).1 := by
    rcases saeGroupAllowed_cases env.lib (some env.conf.groups) (frame.body.le16 0) sae with
      h | ⟨-, -, h⟩
    · rw [h]
      exact hkeyed
    · rcases saeSetGroup_state env.lib (frame.body.le16 0) sae with hset | hset
      · rw [h, hset]
        exact hkeyed
      · rw [h]
        exact fun harmed => absurd harmed (not_armed_of_nothing hset)
  have htoken : ∀ (token : Option Bytes) (sae : Data E),
      (sae.modifyTmp fun tmp => { tmp with antiCloggingToken := token }).keying = sae.keying := by
    intro token sae
    cases htmp : sae.tmp with
    | none => simp [Data.keying, htmp, Data.modifyTmp]
    | some tmp => simp [Data.keying, htmp, Data.modifyTmp]
  unfold handleTokenRequest
  generalize saeGroupAllowed env.lib (some env.conf.groups) (frame.body.le16 0) sae = allowed at *
  split
  · exact keeps_of_keyed rfl hkeyed
  · simp only
    split
    · exact keeps_of_keyed rfl hkept
    · split
      · exact keeps_of_keyed rfl fun h => (hkept h).of_keying (htoken _ _)
      · split
        · refine keeps_of_keyed rfl fun h => ?_
          have hcore := authSaeSendCommit_keep env ans (some frame.status)
            (allowed.1.modifyTmp fun tmp => { tmp with antiCloggingToken := some (frame.body.drop 2) })
          refine Keyed.of_keying ?_ (keying_of_core hcore)
          refine (hkept ?_).of_keying (htoken _ _)
          rw [Armed, state_of_core hcore] at h
          exact h
        · exact keeps_of_not_armed rfl (not_armed_of_mesh hmesh rfl)

theorem saeSetFirstGroup_cases (lib : ℕ → Option (Group E)) (groups : List ℕ) (sae : Data E) :
    saeSetFirstGroup lib groups sae = sae ∨ (saeSetFirstGroup lib groups sae).state = .nothing := by
  induction groups generalizing sae with
  | nil => exact .inl rfl
  | cons group groups ih =>
    unfold saeSetFirstGroup
    simp only
    split
    · exact saeSetGroup_state lib group sae
    · rcases saeSetGroup_state lib group sae with hset | hset
      · rw [hset]
        exact ih sae
      · rcases ih (saeSetGroup lib group sae).1 with h | h
        · exact .inr (by rw [h, hset])
        · exact .inr h

theorem saePickNextGroup_keyed {sae : Data E} (hkeyed : Armed env sae → Keyed last sae)
    (h : Armed env (saePickNextGroup env sae)) : Keyed last (saePickNextGroup env sae) := by
  unfold saePickNextGroup at h ⊢
  split at h
  · rename_i hstate
    rw [if_pos hstate]
    exact hkeyed h
  · rename_i hstate
    rw [if_neg hstate]
    rcases saeSetFirstGroup_cases env.lib
      ((env.conf.groups.dropWhile fun group => group != sae.group).drop 1) sae with hset | hset
    · rw [hset] at h ⊢
      exact hkeyed h
    · exact absurd h (not_armed_of_nothing hset)

end Steps

section Commit
variable [DecidableEq E] (env : Env E) (ans : Answer E) (frame : Frame)

/-- The commit that the state machine sends in answer to one that is accepted. -/
def answeredCommit (sae : Data E) : Data E × Status :=
  let parsed := (parsedCommit env ans frame sae).1.sae
  match parsed.state with
  | .nothing =>
    authSaeSendCommit env ans (!(restartCommit env frame sae).2) (some frame.status)
      (startCommit frame.status parsed)
  | .confirmed =>
    authSaeSendCommit env ans true (some frame.status) { parsed with sync := parsed.sync + 1 }
  | _ => authSaeSendCommit env ans true (some frame.status) parsed

/-- The values of a commit are not left in place of those that the KCK belongs to. -/
structure CommitCompletes (sae : Data E) : Prop where
  /-- In SAE_CONFIRMED a commit is refused before anything of it is stored. -/
  refused : (parsedCommit env ans frame sae).1.sae.state = .confirmed →
    RefusedInPlace env ans frame sae →
    (parsedCommit env ans frame sae).1.sae.keying = sae.keying
  /-- Or it leads to new keys. -/
  confirmed : (parsedCommit env ans frame sae).1.sae.state = .confirmed →
    CommitAccepted env ans (parsedCommit env ans frame sae) → asksForToken env ans frame sae = false →
    (parsedCommit env ans frame sae).1.sae.sync ≤ env.conf.saeSync →
    (answeredCommit env ans frame sae).2 = .success ∧ Derives env (answeredCommit env ans frame sae).1
  /-- On the way to SAE_COMMITTED no KCK of an earlier exchange is left. -/
  started : (parsedCommit env ans frame sae).1.sae.state ≠ .confirmed → env.conf.mesh = false →
    CommitAccepted env ans (parsedCommit env ans frame sae) → asksForToken env ans frame sae = false →
    (answeredCommit env ans frame sae).2 = .success → (parsedCommit env ans frame sae).1.sae.kck ≠ [] →
    Derives env (answeredCommit env ans frame sae).1

variable {env ans frame} {last : Option (Data E)}

theorem parsedCommit_confirmed {sae : Data E}
    (h : (parsedCommit env ans frame sae).1.sae.state = .confirmed) : sae.state = .confirmed := by
  have hstate : (restartCommit env frame sae).1.state = .confirmed := by
    rcases saeParseCommit_state env.lib (parseArgs env ans frame) frame.body
      (restartCommit env frame sae).1 with hparse | hparse
    · exact hparse.symm.trans h
    · exact State.noConfusion (hparse.symm.trans h)
  unfold restartCommit at hstate
  split at hstate
  · simp only at hstate
    split at hstate <;> cases hstate
  · exact hstate

theorem handleCommit_keeps {sae : Data E} (hkeyed : Armed env sae → Keyed last sae)
    (hcompletes : CommitCompletes env ans frame sae) :
    (handleCommit env ans frame sae).Keeps env last := by
  rcases handleCommit_cases env ans frame sae with
    ⟨hacts, ⟨hsae, hrefused⟩ | hsae⟩ | ⟨⟨haccepted, hasks⟩, hstep⟩
  · refine keeps_of_keyed hacts fun harmed => ?_
    rw [hsae] at harmed ⊢
    rcases harmed with hstate | ⟨hinfra, hstate⟩
    · have hkeying := hcompletes.refused hstate hrefused
      exact (hkeyed (.inl (parsedCommit_confirmed hstate))).of_keying hkeying
    · exact absurd hstate (parsedCommit_state env ans frame sae hinfra)
  · refine keeps_of_not_armed hacts (not_armed_of_nothing ?_)
    rw [hsae]
  · rw [hstep]
    have hconfirmed := fun h => hcompletes.confirmed h haccepted hasks
    have hstarted := fun h hinfra => hcompletes.started h hinfra haccepted hasks
    unfold saeSmStepCommit
    split
    · rename_i hstate
      refine smNothing_keeps hstate fun hinfra hkck hsent => ?_
      have hanswered : answeredCommit env ans frame sae =
          authSaeSendCommit env ans (!(restartCommit env frame sae).2) (some frame.status)
            (startCommit frame.status (parsedCommit env ans frame sae).1.sae) := by
        simp only [answeredCommit, hstate]
      rw [hstate, hanswered] at hstarted
      exact hstarted State.noConfusion hinfra hsent hkck
    · rename_i hstate
      refine smCommittedCommit_keeps ?_ hstate
      rw [← Bool.not_eq_false]
      exact fun hinfra => parsedCommit_state env ans frame sae hinfra hstate
    · rename_i hstate
      have hanswered : answeredCommit env ans frame sae =
          authSaeSendCommit env ans true (some frame.status)
            { (parsedCommit env ans frame sae).1.sae with
              sync := (parsedCommit env ans frame sae).1.sae.sync + 1 } := by
        simp only [answeredCommit, hstate]
      rw [hanswered] at hconfirmed
      exact smConfirmedCommit_keeps (hconfirmed hstate)
    · rename_i hstate
      refine smAcceptedCommit_keeps hstate fun hinfra hkck hsent => ?_
      have hanswered : answeredCommit env ans frame sae =
          authSaeSendCommit env ans true (some frame.status)
            (parsedCommit env ans frame sae).1.sae := by
        simp only [answeredCommit, hstate]
      rw [hstate, hanswered] at hstarted
      exact hstarted State.noConfusion hinfra hsent hkck

end Commit

section Run
variable {env : Env E}

/-- The call checked the confirm against what `last` was derived from, and `acc` has its keys. -/
def Verified (env : Env E) (last : Option (Data E)) (frame : Frame) (acts : List (Act E))
    (acc : Data E) : Prop :=
  ∃ sae post, acts = [.checkConfirm sae frame.body, .accept acc] ∧
    saeCheckConfirm env.cr sae frame.body = true ∧ last = some post ∧ sae.keying = post.keying ∧
    acc.pmk = post.pmk ∧ acc.pmkid = post.pmkid

theorem handleConfirm_verified {ans : Answer E} {frame : Frame} {last : Option (Data E)}
    {sae : Data E} (hkeyed : Armed env sae → Keyed last sae) :
    (Armed env (handleConfirm env ans frame sae).sae →
      Keyed (lastProcessed last (handleConfirm env ans frame sae).acts)
        (handleConfirm env ans frame sae).sae) ∧
    ∀ acc, Act.accept acc ∈ (handleConfirm env ans frame sae).acts →
      Verified env last frame (handleConfirm env ans frame sae).acts acc := by
  obtain ⟨hacts, hkept⟩ := handleConfirm_cases env ans frame sae
  have hlast : lastProcessed last (handleConfirm env ans frame sae).acts = last := by
    rcases hacts with hacts | hacts | ⟨-, -, acc, -, hacts⟩ <;> rw [hacts] <;> rfl
  constructor
  · intro harmed
    obtain ⟨hsae, hkeying⟩ := hkept harmed
    rw [hlast]
    exact (hkeyed hsae).of_keying hkeying
  · intro acc hacc
    rcases hacts with hacts | hacts | ⟨harmed, hcheck, acc', hacc', hacts⟩
    · simp [hacts] at hacc
    · simp [hacts] at hacc
    · obtain rfl : acc = acc' := by simpa [hacts] using hacc
      obtain ⟨post, hlast, hkeying⟩ := (hkeyed harmed).resolve_left (saeCheckConfirm_kck hcheck)
      have hkeys := hacc'.trans hkeying
      exact ⟨sae, post, hacts, hcheck, hlast, hkeying, congrArg Keying.pmk hkeys,
        congrArg Keying.pmkid hkeys⟩

theorem authSaeRetransmitTimer_keyed {ans : Answer E} {last : Option (Data E)} {sae : Data E}
    (hkeyed : Armed env sae → Keyed last sae)
    (h : Armed env (authSaeRetransmitTimer env ans sae)) :
    Keyed last (authSaeRetransmitTimer env ans sae) := by
  unfold authSaeRetransmitTimer saeCheckBigSync at h ⊢
  split at h
  · rename_i hsync
    split at hsync <;> cases hsync
    exact absurd h (not_armed_of_nothing rfl)
  · simp only at h ⊢
    split at h
    · have hcore := authSaeSendCommit_keep env ans none { sae with sync := sae.sync + 1 }
      rw [Armed, state_of_core hcore] at h
      have hsae := (hkeyed h).of_keying (keying_of_core hcore)
      exact hsae
    · have hcore := authSaeSendConfirm_core env ans { sae with sync := sae.sync + 1 }
      rw [Armed, state_of_core hcore] at h
      have hsae := (hkeyed h).of_keying (keying_of_core hcore)
      exact hsae
    · exact hkeyed h

theorem kck_of_unread {a b : Data E} (h : a.unread = b.unread) : a.kck = b.kck := by
  unfold Data.kck
  rw [Option.map_eq_bind, Option.map_eq_bind,
    tmp_bind_of_unread (f := some ∘ Tmp.kck) h fun _ => rfl]

variable [DecidableEq E]

/-- A commit of a station that is known completes. -/
def Completes (env : Env E) : Option (Data E) → Input E → Prop
  | some sae, .frame ans frame => frame.transaction = 1 →
      saeStatusSuccess env.conf frame.status = true → CommitCompletes env ans frame sae
  | _, _ => True

theorem handleAuthSaeInstance_verified {ans : Answer E} {frame : Frame} {last : Option (Data E)}
    {sae : Data E} (hkeyed : Armed env sae → Keyed last sae)
    (hcompletes : Completes env (some sae) (.frame ans frame)) :
    (Armed env (handleAuthSaeInstance env ans frame sae).sae →
      Keyed (lastProcessed last (handleAuthSaeInstance env ans frame sae).acts)
        (handleAuthSaeInstance env ans frame sae).sae) ∧
    ∀ acc, Act.accept acc ∈ (handleAuthSaeInstance env ans frame sae).acts →
      Verified env last frame (handleAuthSaeInstance env ans frame sae).acts acc := by
  have hkeeps : ∀ step : Step E, step.Keeps env last →
      (Armed env step.sae → Keyed (lastProcessed last step.acts) step.sae) ∧
        ∀ acc, Act.accept acc ∈ step.acts → Verified env last frame step.acts acc :=
    fun step h => ⟨h.keyed, fun acc hacc => absurd hacc (h.no_accept acc)⟩
  unfold handleAuthSaeInstance
  split
  · rename_i htransaction
    split
    · rename_i hmesh
      exact hkeeps _ (handleTokenRequest_keeps hmesh.1 hkeyed)
    · split
      · exact hkeeps _ (keeps_of_keyed rfl (saePickNextGroup_keyed hkeyed))
      · split
        · exact hkeeps _ (keeps_of_keyed rfl hkeyed)
        · rename_i hstatus
          have hstatus : saeStatusSuccess env.conf frame.status = true := by simpa using hstatus
          exact hkeeps _ (handleCommit_keeps hkeyed (hcompletes htransaction hstatus))
  · split
    · exact handleConfirm_verified hkeyed
    · exact hkeeps _ (keeps_of_keyed rfl hkeyed)

/-- A new instance has no KCK. -/
theorem completes_new (ans : Answer E) (frame : Frame) :
    Completes env (some {}) (.frame ans frame) := by
  intro _ _
  have hrestart : restartCommit env frame ({} : Data E) = ({}, false) := by
    unfold restartCommit
    exact if_neg fun h => State.noConfusion h.2
  have hnew : (parsedCommit env ans frame {}).1.sae.state ≠ .confirmed :=
    fun h => State.noConfusion (parsedCommit_confirmed h)
  have hkck : (parsedCommit env ans frame ({} : Data E)).1.sae.kck = [] := by
    unfold parsedCommit
    rw [hrestart]
    rcases saeParseCommit_unread env.lib (parseArgs env ans frame) frame.body ({} : Data E) with
      h | ⟨-, -, h⟩
    · exact kck_of_unread h
    · refine (kck_of_unread h).trans ?_
      unfold saeSetGroup
      split
      · rfl
      · split <;> rfl
  exact ⟨fun h => absurd h hnew, fun h => absurd h hnew, fun _ _ _ _ _ h => absurd hkck h⟩

/-- An instance that is armed has the keys of `last`. -/
def KeyedState (env : Env E) (last : Option (Data E)) (s : Option (Data E)) : Prop :=
  ∀ sae, s = some sae → Armed env sae → Keyed last sae

/-- One step of the station. -/
theorem apStep_verified {last s : Option (Data E)} {i : Input E} (hs : KeyedState env last s)
    (hcompletes : Completes env s i) :
    KeyedState env (lastProcessed last (apStep env s i).2) (apStep env s i).1 ∧
      ∀ acc, Act.accept acc ∈ (apStep env s i).2 →
        ∃ ans frame, i = .frame ans frame ∧ Verified env last frame (apStep env s i).2 acc := by
  cases i with
  | timer ans =>
    refine ⟨fun sae hsae harmed => ?_, by simp [apStep]⟩
    obtain ⟨old, rfl, rfl⟩ := Option.map_eq_some_iff.mp hsae
    exact authSaeRetransmitTimer_keyed (hs old rfl) harmed
  | frame ans frame =>
    have hstep : ∀ sae : Data E, (Armed env sae → Keyed last sae) →
        Completes env (some sae) (.frame ans frame) →
        let step := handleAuthSaeInstance env ans frame sae
        KeyedState env (lastProcessed last step.acts)
          (if step.staRemoved then none else some step.sae) ∧
        ∀ acc, Act.accept acc ∈ step.acts → ∃ ans' frame', Input.frame ans frame = .frame ans' frame' ∧
          Verified env last frame' step.acts acc := by
      intro sae hkeyed hcompletes
      obtain ⟨hkept, hverified⟩ := handleAuthSaeInstance_verified hkeyed hcompletes
      refine ⟨fun sae' hsae' => ?_, fun acc hacc => ⟨ans, frame, rfl, hverified acc hacc⟩⟩
      split at hsae'
      · cases hsae'
      · cases hsae'
        exact hkept
    unfold apStep handleAuthSae
    cases s with
    | some sae => exact hstep sae (hs sae rfl) hcompletes
    | none =>
      simp only
      split
      · refine ⟨fun sae hsae => ?_, by simp⟩
        cases hsae
      · rename_i sae hstart
        split at hstart <;> cases hstart
        exact hstep _ (fun h => absurd h (not_armed_of_nothing rfl)) (completes_new ans frame)

theorem keyedState_run (is : List (Input E))
    (hcompletes : ∀ t ∈ Runs.trace (apStep env) none is, Completes env t.pre t.input) :
    KeyedState env (lastProcessed none (Runs.outputs (Runs.trace (apStep env) none is)))
      (Runs.final (apStep env) none is) := by
  refine Runs.history_induction
    (I := fun past s => KeyedState env (lastProcessed none (Runs.outputs past)) s)
    (p := Completes env) ?_ ?_ is hcompletes
  · intro sae h
    cases h
  · intro past s i hs hi
    rw [Runs.outputs_concat, lastProcessed_append]
    exact (apStep_verified hs hi).1

end Run

section Accepted
variable {env : Env E} {ans : Answer E}

/-- The send-confirm value of a confirm that was accepted. -/
def Act.peerSendConfirm : Act E → Option ℕ
  | .checkConfirm _ msg => some (msg.le16 0)
  | _ => none

def Accepted (s : Option (Data E)) : Prop := ∃ sae, s = some sae ∧ sae.state = .accepted

/-- What a step from SAE_ACCEPTED with the counter at `rc` may answer and leave. -/
def Step.Advances (rc : ℕ) (step : Step E) : Prop :=
  (step.acts.filterMap Act.peerSendConfirm = [] ∧
    (step.sae.state = .accepted → step.sae.rc = rc)) ∨
  ∃ v, step.acts.filterMap Act.peerSendConfirm = [v] ∧ rc < v ∧ v ≠ 0xffff ∧
    (step.sae.state = .accepted → step.sae.rc = v)

theorem advances_of_kept {rc : ℕ} {step : Step E} (hacts : step.acts = [])
    (h : step.sae.state = .accepted → step.sae.rc = rc) : step.Advances rc :=
  .inl ⟨by simp [hacts], h⟩

theorem saeSmStepCommit_peerSendConfirm (status : AuthStatus) (allowReuse : Bool) (sae : Data E) :
    (saeSmStepCommit env ans status allowReuse sae).acts.filterMap Act.peerSendConfirm = [] := by
  unfold saeSmStepCommit
  split
  · rcases smNothing_cases env ans status allowReuse sae with
      ⟨-, hacts, -⟩ | ⟨-, -, hacts, -⟩ | ⟨-, sae', -, hacts, -⟩ <;> rw [hacts] <;> rfl
  · unfold smCommittedCommit
    split
    · rfl
    · simp only
      split <;> rfl
  · unfold smConfirmedCommit
    split
    · rfl
    · simp only
      split
      · rfl
      · split <;> rfl
  · unfold smAcceptedCommit
    split
    · rfl
    · simp only
      split
      · rfl
      · split <;> rfl

theorem saeProcessCommit_state {cr : Crypto} {ops : Ops E} {sae sae' : Data E}
    (h : saeProcessCommit cr ops sae = some sae') : sae'.state = sae.state := by
  obtain ⟨tmp, kck, pmk, pmkid, -, rfl⟩ := saeProcessCommit_cases h
  rfl

theorem smNothing_not_accepted {status : AuthStatus} {allowReuse : Bool} {sae : Data E}
    (hstate : sae.state = .nothing) : (smNothing env ans status allowReuse sae).sae.state ≠ .accepted := by
  have hsent_state := authSaeSendCommit_state env ans (!allowReuse) (some status)
    (startCommit status sae)
  rw [startCommit_state, hstate] at hsent_state
  rcases smNothing_cases env ans status allowReuse sae with
    ⟨-, -, hsae⟩ | ⟨-, -, -, hsae⟩ | ⟨-, sae', -, -, state, hne, hcore⟩
  · rw [hsae, hsent_state]
    exact State.noConfusion
  · rw [hsae]
    exact State.noConfusion
  · rw [state_of_core hcore]
    exact hne

theorem smAcceptedCommit_rc {status : AuthStatus} {sae : Data E}
    (h : (smAcceptedCommit env ans status sae).sae.state = .accepted) :
    (smAcceptedCommit env ans status sae).sae.rc = sae.rc := by
  have hrc := authSaeSendCommit_rc env ans true (some status) sae
  unfold smAcceptedCommit at h ⊢
  generalize authSaeSendCommit env ans true (some status) sae = sent at *
  split
  · rfl
  · rename_i hmesh
    rw [if_neg hmesh] at h
    simp only at h ⊢
    split at h
    · rename_i hsent
      rw [if_pos hsent]
      exact hrc
    · split at h
      · cases h
      · rename_i sae' hprocess
        exact State.noConfusion ((saeProcessCommit_state hprocess).symm.trans h)

section Frames
variable {frame : Frame} {sae : Data E}

theorem saeGroupAllowed_rc (lib : ℕ → Option (Group E)) (allowedGroups : Option (List ℕ)) (group : ℕ)
    (sae : Data E) (h : (saeGroupAllowed lib allowedGroups group sae).1.state = .accepted) :
    (saeGroupAllowed lib allowedGroups group sae).1.rc = sae.rc := by
  rcases saeGroupAllowed_cases lib allowedGroups group sae with hsame | ⟨-, -, hset⟩
  · rw [hsame]
  · rw [hset] at h ⊢
    rcases saeSetGroup_state lib group sae with hset | hset
    · rw [hset]
    · exact State.noConfusion (hset.symm.trans h)

theorem handleTokenRequest_advances : (handleTokenRequest env ans frame sae).Advances sae.rc := by
  have hrc := saeGroupAllowed_rc env.lib (some env.conf.groups) (frame.body.le16 0) sae
  unfold handleTokenRequest
  generalize saeGroupAllowed env.lib (some env.conf.groups) (frame.body.le16 0) sae = allowed at *
  split
  · exact advances_of_kept rfl fun _ => rfl
  · simp only
    split
    · exact advances_of_kept rfl hrc
    · split
      · exact advances_of_kept rfl hrc
      · split
        · refine advances_of_kept rfl fun h => ?_
          simp only at h ⊢
          rw [authSaeSendCommit_state] at h
          rw [authSaeSendCommit_rc]
          exact hrc h
        · exact advances_of_kept rfl fun h => State.noConfusion h

theorem smAcceptedConfirm_rc (env : Env E) (ans : Answer E) (sae : Data E) :
    (smAcceptedConfirm env ans sae).acts = [] ∧
      ((smAcceptedConfirm env ans sae).sae.state = .accepted →
        (smAcceptedConfirm env ans sae).sae.rc = sae.rc) := by
  unfold smAcceptedConfirm saeCheckBigSync
  split
  · rename_i hsync
    split at hsync <;> cases hsync
    exact ⟨rfl, fun h => State.noConfusion h⟩
  · have hrc := rc_of_core (authSaeSendConfirm_core env ans { sae with sync := sae.sync + 1 })
    exact ⟨rfl, fun _ => hrc⟩

theorem handleConfirm_advances (hstate : sae.state = .accepted) :
    (handleConfirm env ans frame sae).Advances sae.rc := by
  have hkept : ∀ resp, Step.Advances sae.rc { sae := sae, resp := resp } :=
    fun _ => advances_of_kept rfl fun _ => rfl
  unfold handleConfirm
  split
  · exact hkept _
  · split
    · rename_i hmesh
      exact absurd hstate hmesh.2.2
    · split
      · exact hkept _
      · simp only
        split
        · exact hkept _
        · rename_i hfresh
          split
          · exact hkept _
          · right
            rw [not_and, not_or, not_le] at hfresh
            obtain ⟨hlt, hmax⟩ := hfresh hstate
            have hstep : saeSmStepConfirm env ans frame.status { sae with rc := frame.body.le16 0 } =
                smAcceptedConfirm env ans { sae with rc := frame.body.le16 0 } := by
              simp only [saeSmStepConfirm, hstate]
            obtain ⟨hacts, hrc⟩ := smAcceptedConfirm_rc env ans { sae with rc := frame.body.le16 0 }
            rw [hstep]
            exact ⟨frame.body.le16 0, by simp [hacts, Act.peerSendConfirm], hlt, hmax, hrc⟩

theorem authSaeRetransmitTimer_rc (h : (authSaeRetransmitTimer env ans sae).state = .accepted) :
    (authSaeRetransmitTimer env ans sae).rc = sae.rc := by
  unfold authSaeRetransmitTimer saeCheckBigSync at h ⊢
  split at h
  · rename_i hsync
    split at hsync <;> cases hsync
    cases h
  · simp only at h ⊢
    split at h
    · rw [authSaeSendCommit_rc]
    · have hrc := rc_of_core (authSaeSendConfirm_core env ans { sae with sync := sae.sync + 1 })
      exact hrc
    · rfl

variable [DecidableEq E]

theorem parsedCommit_accepted (env : Env E) (ans : Answer E) (frame : Frame)
    (hstate : sae.state = .accepted) :
    ((parsedCommit env ans frame sae).1.sae.state = .accepted ∧
      (parsedCommit env ans frame sae).1.sae.rc = sae.rc) ∨
    (parsedCommit env ans frame sae).1.sae.state = .nothing := by
  have hrestart : restartCommit env frame sae = (sae, false) := by
    unfold restartCommit
    exact if_neg fun h => State.noConfusion (hstate.symm.trans h.2)
  unfold parsedCommit
  rw [hrestart]
  rcases saeParseCommit_unread env.lib (parseArgs env ans frame) frame.body sae with h | ⟨-, -, h⟩
  · have hkept := congrArg Data.state h
    have hrc := congrArg Data.rc h
    exact .inl ⟨hkept.trans hstate, hrc⟩
  · have hkept := congrArg Data.state h
    have hrc := congrArg Data.rc h
    rcases saeSetGroup_state env.lib (frame.body.le16 0) sae with hset | hset
    · rw [hset] at hkept hrc
      exact .inl ⟨hkept.trans hstate, hrc⟩
    · exact .inr (hkept.trans hset)

theorem handleCommit_advances (hstate : sae.state = .accepted) :
    (handleCommit env ans frame sae).Advances sae.rc := by
  have hparsed := parsedCommit_accepted env ans frame hstate
  rcases handleCommit_cases env ans frame sae with ⟨hacts, ⟨hsae, -⟩ | hsae⟩ | ⟨-, hstep⟩
  · refine advances_of_kept hacts fun h => ?_
    rw [hsae] at h ⊢
    rcases hparsed with hparsed | hparsed
    · exact hparsed.2
    · exact State.noConfusion (hparsed.symm.trans h)
  · refine advances_of_kept hacts fun h => ?_
    rw [hsae] at h
    cases h
  · rw [hstep]
    refine .inl ⟨saeSmStepCommit_peerSendConfirm .., fun h => ?_⟩
    rcases hparsed with ⟨hparsed, hrc⟩ | hparsed
    · have hsm : ∀ allowReuse, saeSmStepCommit env ans frame.status allowReuse
          (parsedCommit env ans frame sae).1.sae =
          smAcceptedCommit env ans frame.status (parsedCommit env ans frame sae).1.sae := by
        intro allowReuse
        simp only [saeSmStepCommit, hparsed]
      rw [hsm] at h ⊢
      exact (smAcceptedCommit_rc h).trans hrc
    · have hsm : ∀ allowReuse, saeSmStepCommit env ans frame.status allowReuse
          (parsedCommit env ans frame sae).1.sae =
          smNothing env ans frame.status allowReuse (parsedCommit env ans frame sae).1.sae := by
        intro allowReuse
        simp only [saeSmStepCommit, hparsed]
      rw [hsm] at h
      exact absurd h (smNothing_not_accepted hparsed)

theorem handleAuthSaeInstance_advances (hstate : sae.state = .accepted) :
    (handleAuthSaeInstance env ans frame sae).Advances sae.rc := by
  have hkept : ∀ resp, Step.Advances sae.rc { sae := sae, resp := resp } :=
    fun _ => advances_of_kept rfl fun _ => rfl
  unfold handleAuthSaeInstance
  split
  · split
    · exact handleTokenRequest_advances
    · split
      · refine advances_of_kept rfl fun _ => ?_
        unfold saePickNextGroup
        rw [if_pos]
        exact fun h => State.noConfusion (hstate.symm.trans h)
      · split
        · exact hkept _
        · exact handleCommit_advances hstate
  · split
    · exact handleConfirm_advances hstate
    · exact hkept _

end Frames

/-- The next value from SAE_ACCEPTED, and the counter if the instance stays there. -/
theorem apStep_advances [DecidableEq E] {sae : Data E} (hstate : sae.state = .accepted)
    (i : Input E) :
    ((apStep env (some sae) i).2.filterMap Act.peerSendConfirm = [] ∧
      ∀ sae', (apStep env (some sae) i).1 = some sae' → sae'.state = .accepted → sae'.rc = sae.rc) ∨
    ∃ v, (apStep env (some sae) i).2.filterMap Act.peerSendConfirm = [v] ∧ sae.rc < v ∧ v ≠ 0xffff ∧
      ∀ sae', (apStep env (some sae) i).1 = some sae' → sae'.state = .accepted → sae'.rc = v := by
  cases i with
  | timer ans =>
    refine .inl ⟨rfl, fun sae' hsae' h => ?_⟩
    cases hsae'
    exact authSaeRetransmitTimer_rc h
  | frame ans frame =>
    have hrc : ∀ {step : Step E} {rc : ℕ}, (step.sae.state = .accepted → step.sae.rc = rc) →
        ∀ sae', (if step.staRemoved then none else some step.sae) = some sae' →
          sae'.state = .accepted → sae'.rc = rc := by
      intro step rc h sae' hsae'
      split at hsae'
      · cases hsae'
      · cases hsae'
        exact h
    have hstep : (handleAuthSaeInstance env ans frame sae).Advances sae.rc :=
      handleAuthSaeInstance_advances hstate
    rcases hstep with ⟨hnone, hkept⟩ | ⟨v, hvalue, hlt, hmax, hkept⟩
    · exact .inl ⟨hnone, hrc hkept⟩
    · exact .inr ⟨v, hvalue, hlt, hmax, hrc hkept⟩

/-- The values accepted from SAE_ACCEPTED on, until the instance leaves it. -/
theorem peerSendConfirm_accepted [DecidableEq E] (is : List (Input E)) {sae : Data E}
    (hstate : sae.state = .accepted)
    (hall : ∀ t ∈ Runs.trace (apStep env) (some sae) is, Accepted t.pre) :
    (sae.rc :: (Runs.outputs (Runs.trace (apStep env) (some sae) is)).filterMap
      Act.peerSendConfirm).Pairwise (· < ·) ∧
    0xffff ∉ (Runs.outputs (Runs.trace (apStep env) (some sae) is)).filterMap Act.peerSendConfirm := by
  induction is generalizing sae with
  | nil => simp [Runs.trace]
  | cons i is ih =>
    -- the values of the rest of the run start above the counter that the first step leaves
    have hrest : ∀ rc, (∀ sae', (apStep env (some sae) i).1 = some sae' →
        sae'.state = .accepted → sae'.rc = rc) →
        (rc :: (Runs.outputs (Runs.trace (apStep env) (apStep env (some sae) i).1 is)).filterMap
          Act.peerSendConfirm).Pairwise (· < ·) ∧
        0xffff ∉ (Runs.outputs (Runs.trace (apStep env) (apStep env (some sae) i).1 is)).filterMap
          Act.peerSendConfirm := by
      intro rc hrc
      cases is with
      | nil => simp [Runs.trace]
      | cons j js =>
        have hnext := hall (Runs.event (apStep env) (apStep env (some sae) i).1 j)
          (List.mem_cons_of_mem _ (List.mem_cons_self ..))
        obtain ⟨sae', hsae', hstate'⟩ := hnext
        have hsae' : (apStep env (some sae) i).1 = some sae' := hsae'
        rw [← hrc sae' hsae' hstate', hsae']
        refine ih hstate' fun t ht => hall t (List.mem_cons_of_mem _ ?_)
        rw [hsae']
        exact ht
    have houtputs : (Runs.outputs (Runs.trace (apStep env) (some sae) (i :: is))).filterMap
        Act.peerSendConfirm = (apStep env (some sae) i).2.filterMap Act.peerSendConfirm ++
          (Runs.outputs (Runs.trace (apStep env) (apStep env (some sae) i).1 is)).filterMap
            Act.peerSendConfirm := by
      simp only [Runs.trace, Runs.outputs, List.flatMap_cons, List.filterMap_append]
      rfl
    rw [houtputs]
    rcases apStep_advances hstate i with ⟨hnone, hkept⟩ | ⟨v, hvalue, hlt, hmax, hkept⟩
    · rw [hnone, List.nil_append]
      exact hrest sae.rc hkept
    · obtain ⟨hpairwise, hnot⟩ := hrest v hkept
      rw [hvalue, List.singleton_append]
      refine ⟨List.pairwise_cons.mpr ⟨fun w hw => ?_, hpairwise⟩, ?_⟩
      · rcases List.mem_cons.mp hw with rfl | hw
        · exact hlt
        · exact hlt.trans (List.rel_of_pairwise_cons hpairwise hw)
      · rw [List.mem_cons, not_or]
        exact ⟨hmax.symm, hnot⟩

/-- A station is accepted in a call that checked the confirm against the commits last processed,
with the keys derived from them; and the values it confirms in SAE_ACCEPTED only go up. -/
theorem acceptance_run [DecidableEq E] (is : List (Input E))
    (hcompletes : ∀ t ∈ Runs.trace (apStep env) none is, Completes env t.pre t.input) :
    (∀ past t rest, Runs.trace (apStep env) none is = past ++ t :: rest →
      ∀ acc, Act.accept acc ∈ t.out → ∃ ans frame, t.input = .frame ans frame ∧
        Verified env (lastProcessed none (Runs.outputs past)) frame t.out acc) ∧
    ∀ past during rest, Runs.trace (apStep env) none is = past ++ during ++ rest →
      (∀ t ∈ during, Accepted t.pre) →
      ((Runs.outputs during).filterMap Act.peerSendConfirm).Pairwise (· < ·) ∧
        0xffff ∉ (Runs.outputs during).filterMap Act.peerSendConfirm := by
  constructor
  · intro past t rest h acc hacc
    obtain ⟨js, ks, rfl, rfl, hrest⟩ := Runs.trace_eq_append h
    cases ks with
    | nil => cases hrest
    | cons i ks =>
      obtain ⟨rfl, -⟩ := List.cons.inj hrest
      rw [h] at hcompletes
      have hkeyed := keyedState_run js fun t ht => hcompletes t (List.mem_append_left _ ht)
      have hstep := hcompletes _ (List.mem_append_right _ (List.mem_cons_self ..))
      exact (apStep_verified hkeyed hstep).2 acc hacc
  · intro past during rest h haccepted
    obtain ⟨js, ks, rfl, hpast, -⟩ := Runs.trace_eq_append h
    obtain ⟨ls, ms, rfl, -, rfl⟩ := Runs.trace_eq_append hpast.symm
    cases ms with
    | nil => simp [Runs.trace]
    | cons i ms =>
      obtain ⟨sae, hsae, hstate⟩ := haccepted _ (List.mem_cons_self ..)
      have hsae : Runs.final (apStep env) none ls = some sae := hsae
      rw [hsae] at haccepted ⊢
      obtain ⟨hpairwise, hnot⟩ := peerSendConfirm_accepted (i :: ms) hstate haccepted
      exact ⟨hpairwise.of_cons, hnot⟩

end Accepted

section Station

/-- The confirm is sent together with the commit. -/
def immediateEnv : Env (ZMod 11) := stationEnv { saeConfirmImmediate := true }

def firstCommit : Input (ZMod 11) := stationCommit .saeHashToElement 4 5 []

/-- Another commit, which claims that the only group of the AP was rejected. -/
def rejectedCommit : Input (ZMod 11) :=
  stationCommit .saeHashToElement 6 7 (extElement extRejectedGroups [19, 0])

/-- The confirm for the values that the AP has after the inputs. -/
def confirmAfter (is : List (Input (ZMod 11))) : Input (ZMod 11) :=
  stationConfirm ([1, 0] ++ ((Runs.final (apStep immediateEnv) none is).bind fun sae =>
    saeVerifier immediateEnv.cr sae [1, 0]).getD [])

def confirmedRun : List (Input (ZMod 11)) := [firstCommit, confirmAfter [firstCommit]]

def refusedRun : List (Input (ZMod 11)) :=
  [firstCommit, rejectedCommit, confirmAfter [firstCommit, rejectedCommit]]

def Act.isAccept {E : Type} : Act E → Bool
  | .accept _ => true
  | _ => false

def Act.checkedScalar {E : Type} : Act E → Option ℕ
  | .checkConfirm sae _ => sae.peerCommitScalar
  | _ => none

theorem confirmedRun_verified :
    ((Runs.outputs (Runs.trace (apStep immediateEnv) none confirmedRun)).any Act.isAccept = true) ∧
    ∀ past t rest, Runs.trace (apStep immediateEnv) none confirmedRun = past ++ t :: rest →
      ∀ acc, Act.accept acc ∈ t.out → ∃ ans frame, t.input = .frame ans frame ∧
        Verified immediateEnv (lastProcessed none (Runs.outputs past)) frame t.out acc := by
  refine ⟨by decide, (acceptance_run confirmedRun fun t ht => ?_).1⟩
  rcases List.mem_cons.mp ht with rfl | ht
  · trivial
  · rcases List.mem_singleton.mp ht with rfl
    -- the second input is no commit
    generalize (apStep immediateEnv none firstCommit).1 = s
    cases s with
    | none => trivial
    | some sae => exact fun h => absurd h (by decide)

/-- The confirm is checked against the values of a commit that was refused. -/
theorem refusedRun_not_verified :
    ¬ ∀ past t rest, Runs.trace (apStep immediateEnv) none refusedRun = past ++ t :: rest →
      ∀ acc, Act.accept acc ∈ t.out → ∃ ans frame, t.input = .frame ans frame ∧
        Verified immediateEnv (lastProcessed none (Runs.outputs past)) frame t.out acc := by
  intro h
  have haccept : (apStep immediateEnv (Runs.final (apStep immediateEnv) none
      [firstCommit, rejectedCommit]) (confirmAfter [firstCommit, rejectedCommit])).2.any
      Act.isAccept = true := by
    decide
  obtain ⟨act, hact, hisAccept⟩ := List.any_eq_true.mp haccept
  cases act with
  | process pre post => cases hisAccept
  | checkConfirm sae msg => cases hisAccept
  | accept acc =>
    obtain ⟨ans, frame, -, sae, post, hacts, -, hlast, hkeying, -⟩ :=
      h (Runs.trace (apStep immediateEnv) none [firstCommit, rejectedCommit]) _ [] rfl acc hact
    have hchecked : sae.peerCommitScalar = some 6 := by
      have hhead := congrArg (fun acts => acts.head?.bind Act.checkedScalar) hacts
      exact hhead.symm.trans (by decide)
    have hprocessed : post.peerCommitScalar = some 4 := by
      have hpost := congrArg (fun last => last.bind Data.peerCommitScalar) hlast
      exact hpost.symm.trans (by decide)
    have hscalars := congrArg Keying.peerCommitScalar hkeying
    have habsurd : some 6 = some 4 := hchecked.symm.trans (hscalars.trans hprocessed)
    cases habsurd

end Station
end Wpa.Sae
