import Wpa.Tdls.Steps

/-! A key is configured for a message that proves it, and no key is configured again as long as no
request is made for a peer whose link is up. -/

namespace Wpa.Tdls
open Lib Bytes Runs
open TpkPhase (Moves Stands)

section Mic
variable {K : Type} (suite : TpkSuite K)

/-- The MIC of a message is the one under this key. -/
def TdlsMsg.MicRight (transSeq : UInt8) (msg : TdlsMsg) (kck : K) : Prop :=
  ∃ lnkid rsnIe timeoutie ftie, msg.ies.lnkid = some lnkid ∧ msg.ies.rsnIe = some rsnIe ∧
    msg.ies.keyLifetime = some timeoutie ∧ msg.ies.ftie = some ftie ∧
    tdlsFtieMic suite kck transSeq lnkid rsnIe timeoutie ftie = ftie.mic

def TdlsAction.MicRight : TdlsAction → K → Prop
  | .tpkM2 msg, kck => msg.MicRight suite 2 kck
  | .tpkM3 msg, kck => msg.MicRight suite 3 kck
  | _, _ => False

/-- A key is configured after the MIC has been verified under the other half of its TPK. -/
def Guarded (right : K → Prop) (out : List (TdlsOut K)) : Prop :=
  ∀ earlier addr tk later, out = earlier ++ .setKey addr tk :: later →
    ∃ tpk : Tpk K, tpk.tk = tk ∧ right tpk.kck ∧ .micVerified tpk.kck ∈ earlier

variable {suite} {right : K → Prop} {out : List (TdlsOut K)} {sm : TdlsSm} {env : TdlsEnv}
  {addr : StaAddr} {peer : Peer K} {msg : TdlsMsg} {slot : Slot K}

theorem mem_installed {addr : StaAddr} {tk : K} :
    (addr, tk) ∈ installed out ↔ .setKey addr tk ∈ out := by
  rw [installed, List.mem_filterMap]
  constructor
  · rintro ⟨o, ho, hkey⟩
    cases o <;> cases hkey
    exact ho
  · exact fun h => ⟨_, h, rfl⟩

theorem Guarded.ite {c : Prop} [Decidable c] {x y : Slot K × List (TdlsOut K)}
    (hx : c → Guarded right x.2) (hy : ¬ c → Guarded right y.2) :
    Guarded right (if c then x else y).2 := by
  by_cases hc : c
  · rw [if_pos hc]
    exact hx hc
  · rw [if_neg hc]
    exact hy hc

theorem guarded_of_none (h : installed out = []) : Guarded right out := by
  rintro earlier addr tk later rfl
  have hmem : (addr, tk) ∈ installed (earlier ++ .setKey addr tk :: later) :=
    mem_installed.mpr (List.mem_append_right _ (List.mem_cons_self ..))
  rw [h] at hmem
  cases hmem

theorem guarded_verified {tpk : Tpk K} (hright : right tpk.kck)
    (h : ∀ key ∈ installed out, key.2 = tpk.tk) : Guarded right (.micVerified tpk.kck :: out) := by
  intro earlier addr tk later hout
  cases earlier with
  | nil => cases hout
  | cons first earlier =>
    obtain ⟨rfl, rfl⟩ := List.cons.inj hout
    refine ⟨tpk, ?_, hright, List.mem_cons_self ..⟩
    apply Eq.symm
    exact h (addr, tk) (mem_installed.mpr (List.mem_append_right _ (List.mem_cons_self ..)))

theorem configureKey_keys :
    (configureKey env peer).1.tpk = peer.tpk ∧
      (configureKey env peer).1.tpkSuccess = peer.tpkSuccess ∧
      ∀ key ∈ installed (configureKey env peer).2, key.2 = peer.tpk.tk := by
  rcases configureKey_cases peer with hlater | ⟨-, hnow⟩
  · rw [hlater]
    exact ⟨rfl, rfl, fun key hkey => by cases hkey⟩
  · rw [hnow]
    refine ⟨rfl, rfl, fun key hkey => ?_⟩
    rw [List.mem_singleton.mp hkey]

theorem lateKeys_tk {key : StaAddr × K} (h : key ∈ lateKeys peer) : key.2 = peer.tpk.tk := by
  unfold lateKeys at h
  split at h
  · rw [List.mem_singleton.mp h]
  · cases h

theorem m2Finish_keys (hdown : peer.tpkSuccess = false) (dtoken : ℕ) (lnkid : Bytes) :
    ∀ key ∈ installed (m2Finish suite sm env addr peer dtoken lnkid).2, key.2 = peer.tpk.tk := by
  obtain ⟨slot, out, hfinish, -, hkeys, -⟩ :=
    @m2Finish_cases K suite sm env addr peer dtoken lnkid hdown
  rw [hfinish]
  intro key hkey
  rcases hkeys with hnone | hlate
  · rw [hnone] at hkey
    cases hkey
  · exact lateKeys_tk (hlate ▸ hkey)

theorem m3Finish_keys :
    ∀ key ∈ installed (m3Finish suite sm env addr peer).2, key.2 = peer.tpk.tk := by
  intro key hkey
  cases hup : peer.tpkSuccess with
  | false =>
    obtain ⟨slot, out, hfinish, -, hkeys, -⟩ := @m3Finish_cases K suite sm env addr peer hup
    rw [hfinish] at hkey
    rcases hkeys with hnone | hlate
    · rw [hnone] at hkey
      cases hkey
    · exact lateKeys_tk (hlate ▸ hkey)
  | true =>
    unfold m3Finish at hkey
    rw [hup] at hkey
    cases hadd : env.addset with
    | true => simp [hadd] at hkey
    | false =>
      simp only [hadd, Bool.not_false, if_true, (doTeardown_quiet peer).2.keys] at hkey
      cases hkey

/-- What passes the check of M2 has the right MIC. -/
theorem micRight_of_verify {transSeq : UInt8} {lnkid timeoutie : Bytes} {ftie : Ftie}
    (hlnkid : msg.ies.lnkid = some lnkid) (hrsnIe : msg.ies.rsnIe = some peer.rsnieP)
    (htimeoutie : msg.ies.keyLifetime = some timeoutie) (hftie : msg.ies.ftie = some ftie)
    (hmic : ¬(!verifyTdlsMic suite transSeq peer lnkid timeoutie ftie) = true) :
    msg.MicRight suite transSeq peer.tpk.kck := by
  refine ⟨lnkid, peer.rsnieP, timeoutie, ftie, hlnkid, hrsnIe, htimeoutie, hftie, ?_⟩
  simp only [verifyTdlsMic, Bool.not_eq_true, Bool.not_eq_false', Bool.and_eq_true] at hmic
  exact eq_of_beq hmic.2

theorem processTpkM2_guarded (hprivacy : sm.privacy = true) :
    Guarded (msg.MicRight suite 2) (processTpkM2 suite sm env addr msg slot).2 := by
  have herror (status : ℕ) : Guarded (msg.MicRight suite 2) (K := K)
      (sendError env addr setupConfirm msg.dtoken true status ++ [.disableLink addr]) :=
    guarded_of_none ((sendError_quiet addr _ _ _ _).append Quiet.nil.disableLink).keys
  unfold processTpkM2
  cases slot with
  | none => exact guarded_of_none rfl
  | some peer =>
    refine .ite (fun _ => guarded_of_none rfl) fun _ => ?_
    refine .ite (fun _ => guarded_of_none rfl) fun hup => ?_
    have hdown : (peer.retryTimeoutCancel setupRequest).tpkSuccess = false := by
      obtain ⟨smTmr, retryTimer, hcancel, -⟩ := cancel_eq peer setupRequest
      rw [hcancel]
      simpa using hup
    generalize peer.retryTimeoutCancel setupRequest = waiting at hdown ⊢
    refine .ite (fun _ => guarded_of_none rfl) fun _ => ?_
    refine .ite (fun _ => guarded_of_none rfl) fun _ => ?_
    refine .ite (fun _ => guarded_of_none rfl) fun _ => ?_
    cases hies : m2Ies sm env waiting msg with
    | error status => exact herror status
    | ok found =>
      obtain ⟨lnkid, ies⟩ := found
      obtain ⟨htakes, hlnkid, hrsnIe⟩ := m2Ies_ok hies
      rcases htakes with ⟨hopen, -⟩ | ⟨-, hsome, hftie⟩
      · simp [hprivacy] at hopen
      cases ies with
      | none => cases hsome
      | some ies =>
        obtain ⟨rsnIe, ftie⟩ := ies
        refine .ite (fun _ => guarded_of_none rfl) fun _ => ?_
        cases htimeoutie : msg.ies.keyLifetime with
        | none => exact herror _
        | some timeoutie =>
          refine .ite (fun _ => herror _) fun _ => ?_
          refine .ite (fun _ => guarded_of_none rfl) fun hmic => ?_
          simp only
          have hright := micRight_of_verify hlnkid (hrsnIe _ rfl).1 htimeoutie hftie hmic
          rw [List.cons_append]
          apply guarded_verified hright
          intro key hkey
          rw [installed_append] at hkey
          obtain ⟨htpk, hsuccess, hkeys⟩ := @configureKey_keys K env
            (Peer.generateTpk suite sm
              { waiting with rnonce := ftie.anonce, rsnieP := rsnIe, cipher := .ccmp })
          rcases List.mem_append.mp hkey with hnow | hlater
          · exact hkeys key hnow
          · exact (m2Finish_keys (hsuccess.trans hdown) _ _ key hlater).trans
              (congrArg Tpk.tk htpk)

theorem processTpkM3_guarded (hprivacy : sm.privacy = true) :
    Guarded (msg.MicRight suite 3) (processTpkM3 suite sm env addr msg slot).2 := by
  have hteardown (peer : Peer K) :
      Guarded (msg.MicRight suite 3) (doTeardown suite sm env peer).2 :=
    guarded_of_none (doTeardown_quiet peer).2.keys
  unfold processTpkM3
  cases slot with
  | none => exact guarded_of_none rfl
  | some peer =>
    simp only
    generalize peer.retryTimeoutCancel setupResponse = waiting
    split
    · exact hteardown _
    split
    · exact hteardown _
    split
    · exact hteardown _
    · rename_i hies
      rcases (m3Ies_ok hies).1 with ⟨hopen, -⟩ | ⟨-, hsome, -⟩
      · simp [hprivacy] at hopen
      · cases hsome
    · rename_i lnkid ies hies
      obtain ⟨htakes, hlnkid, hfound⟩ := m3Ies_ok hies
      obtain ⟨-, -, hrsnIe, htimeoutie⟩ := hfound ies rfl
      rcases htakes with ⟨hopen, -⟩ | ⟨-, -, hftie⟩
      · simp [hprivacy] at hopen
      split
      · exact guarded_of_none (doTeardown_quiet waiting).2.delKey.keys
      rename_i hmic
      rw [List.cons_append]
      apply guarded_verified (micRight_of_verify hlnkid hrsnIe htimeoutie hftie hmic)
      intro key hkey
      rw [installed_append] at hkey
      obtain ⟨htpk, -, hkeys⟩ := @configureKey_keys K env waiting
      rcases List.mem_append.mp hkey with hnow | hlater
      · exact hkeys key hnow
      · exact (m3Finish_keys key hlater).trans (congrArg Tpk.tk htpk)

/-- Every key that an action configures is one that its message proves. -/
theorem act_guarded {φ : TpkPhase} (h : Stands suite sm addr slot φ) (action : TdlsAction)
    (hdown : action = .start → sm.privacy = true → ∀ peer, slot = some peer →
      peer.tpkSuccess = false) :
    Guarded (action.MicRight suite) (act suite sm env addr slot action).2 := by
  obtain ⟨φ', hmoves, -⟩ := @act_moves K suite sm env addr slot φ h action hdown
  by_cases hnone : installed (act suite sm env addr slot action).2 = []
  · exact guarded_of_none hnone
  -- only M2 and M3 bring a key, and only with privacy
  obtain ⟨hprivacy, hheard⟩ : sm.privacy = true ∧ ∃ n, action.heard = some n ∧
      (n.action = setupResponse ∨ n.action = setupConfirm) := by
    cases hmoves with
    | confirm own other hheard => exact ⟨h.1, _, hheard, .inl rfl⟩
    | confirmFailed own other hheard => exact ⟨h.1, _, hheard, .inl rfl⟩
    | complete own other hheard => exact ⟨h.1, _, hheard, .inr rfl⟩
    | completeFailed own other hheard => exact ⟨h.1, _, hheard, .inr rfl⟩
    | stay _ hkeys => exact absurd hkeys hnone
    | drop _ hkeys => exact absurd hkeys hnone
    | ask _ _ _ hkeys => exact absurd hkeys hnone
    | askFailed _ _ _ hkeys => exact absurd hkeys hnone
    | answer _ _ _ _ _ _ hkeys => exact absurd hkeys hnone
    | answerFailed _ _ _ _ _ _ hkeys => exact absurd hkeys hnone
  obtain ⟨n, hheard, hn⟩ := hheard
  cases action with
  | tpkM2 msg => exact processTpkM2_guarded hprivacy
  | tpkM3 msg => exact processTpkM3_guarded hprivacy
  | tpkM1 msg =>
    obtain ⟨ftie, -, rfl⟩ := Option.map_eq_some_iff.mp hheard
    rcases hn with h | h <;> cases h
  | teardown msg => cases hheard
  | discovery msg => cases hheard
  | ignored => cases hheard
  | start => cases hheard
  | remove => cases hheard
  | tpkRetryTimeout => cases hheard
  | tpkTimeout env' => cases hheard

end Mic

section Fresh
variable (sm : TdlsSm)

namespace TdlsInput

def drawn (input : TdlsInput) : List Bytes := ((input.action sm).random input.env).toList

def heard (input : TdlsInput) : List Bytes :=
  (input.action sm).heard.toList.flatMap fun n => [n.snonce, n.anonce]

end TdlsInput

/-- The nonces drawn and received so far. -/
def usedNonces (inputs : List TdlsInput) : List Bytes :=
  inputs.flatMap fun input => input.heard sm ++ input.drawn sm

/-- A nonce that is drawn has not been drawn or received before. -/
def FreshDraws (inputs : List TdlsInput) : Prop :=
  ∀ past input future, inputs = past ++ input :: future → ∀ own ∈ input.drawn sm,
    own ∉ usedNonces sm past ∧ own ∉ input.heard sm

/-- A request is made for a peer whose link is up. -/
def Restarts {K : Type} (peers : Peers K) : TdlsInput → Prop
  | .start _ addr => sm.privacy = true ∧ ∃ peer, peers addr = some peer ∧ peer.tpkSuccess = true
  | _ => False

variable {sm}

theorem FreshDraws.of_append {inputs more : List TdlsInput} (h : FreshDraws sm (inputs ++ more)) :
    FreshDraws sm inputs := by
  rintro past input future rfl
  exact h past input (future ++ more) (by simp)

theorem mem_usedNonces_concat {inputs : List TdlsInput} {input : TdlsInput} {nonce : Bytes} :
    nonce ∈ usedNonces sm (inputs ++ [input]) ↔
      nonce ∈ usedNonces sm inputs ∨ nonce ∈ input.heard sm ∨ nonce ∈ input.drawn sm := by
  simp [usedNonces]

end Fresh

/-- The two nonces of a key, and the peer. -/
structure TpkKey where
  addr : StaAddr
  inonce : Bytes
  rnonce : Bytes

namespace TpkKey
variable {K : Type} (suite : TpkSuite K) (sm : TdlsSm)

def handed (key : TpkKey) : StaAddr × K :=
  (key.addr, (tpkOf suite sm key.addr key.inonce key.rnonce).tk)

def Has (key : TpkKey) (nonce : Bytes) : Prop := nonce = key.inonce ∨ nonce = key.rnonce

/-- Keys with one peer have a nonce that the other has not. -/
def Differs (key key' : TpkKey) : Prop :=
  key.addr = key'.addr → ∃ own, (key.Has own ∧ ¬key'.Has own) ∨ (key'.Has own ∧ ¬key.Has own)

variable {suite sm}

theorem Differs.tk_ne {key key' : TpkKey} (hinj : suite.Injective) (h : key.Differs key') :
    (key.handed suite sm).2 ≠ (key'.handed suite sm).2 := by
  intro htk
  obtain ⟨haddr, hnonces⟩ := tpkOf_inj hinj htk
  obtain ⟨own, hown⟩ := h haddr
  rcases hnonces with ⟨hi, hr⟩ | ⟨hi, hr⟩
  · simp only [Has, hi, hr] at hown
    tauto
  · simp only [Has, hi, hr] at hown
    tauto

end TpkKey

/-- The own nonce of a handshake that has no key yet. -/
def TpkPhase.pending : TpkPhase → Option Bytes
  | asking own | answering own _ => some own
  | idle | connected _ _ _ => none

section Summary
variable {K : Type} {suite : TpkSuite K} {sm : TdlsSm} {addr : StaAddr} {heard : Option TpkNonces}
  {random : Option Bytes} {out : List (TdlsOut K)} {φ φ' : TpkPhase}

/-- A move keeps what is pending or draws it, or it uses it up, for at most one key of which both
nonces have just been heard. -/
theorem moves_pending (h : Moves suite sm addr heard random out φ φ') :
    (installed out = [] ∧ (φ'.pending = none ∨ φ'.pending = φ.pending ∨ φ'.pending = random)) ∨
      ∃ key : TpkKey, key.addr = addr ∧ installed out = [key.handed suite sm] ∧
        (∃ own, φ.pending = some own ∧ key.Has own) ∧ φ'.pending = none ∧
        ∃ n, heard = some n ∧ ∀ nonce, key.Has nonce → nonce = n.snonce ∨ nonce = n.anonce := by
  cases h with
  | stay _ hkeys => exact .inl ⟨hkeys, .inr (.inl rfl)⟩
  | drop _ hkeys => exact .inl ⟨hkeys, .inl rfl⟩
  | ask _ own hrandom hkeys => exact .inl ⟨hkeys, .inr (.inr hrandom.symm)⟩
  | askFailed _ _ _ hkeys => exact .inl ⟨hkeys, .inl rfl⟩
  | answer _ own n hrandom _ _ hkeys => exact .inl ⟨hkeys, .inr (.inr hrandom.symm)⟩
  | answerFailed _ _ _ _ _ _ hkeys => exact .inl ⟨hkeys, .inl rfl⟩
  | confirm own other hheard hkeys =>
    exact .inr ⟨⟨addr, own, other⟩, rfl, hkeys, ⟨own, rfl, .inl rfl⟩, rfl, _, hheard,
      fun _ hnonce => hnonce⟩
  | confirmFailed own other hheard hkeys =>
    rcases hkeys with hnone | hone
    · exact .inl ⟨hnone, .inl rfl⟩
    · exact .inr ⟨⟨addr, own, other⟩, rfl, hone, ⟨own, rfl, .inl rfl⟩, rfl, _, hheard,
        fun _ hnonce => hnonce⟩
  | complete own other hheard hkeys =>
    exact .inr ⟨⟨addr, other, own⟩, rfl, hkeys, ⟨own, rfl, .inr rfl⟩, rfl, _, hheard,
      fun _ hnonce => hnonce⟩
  | completeFailed own other hheard hkeys =>
    rcases hkeys with hnone | hone
    · exact .inl ⟨hnone, .inl rfl⟩
    · exact .inr ⟨⟨addr, other, own⟩, rfl, hone, ⟨own, rfl, .inr rfl⟩, rfl, _, hheard,
        fun _ hnonce => hnonce⟩

end Summary

section Runs
variable {K : Type} {suite : TpkSuite K} {sm : TdlsSm}

abbrev StationEvent (K : Type) := Event (Peers K) TdlsInput (TdlsOut K)

/-- The keys configured so far differ, and none has a nonce that its peer is waited for with. -/
structure Spent (suite : TpkSuite K) (sm : TdlsSm) (past : List (StationEvent K)) (peers : Peers K)
    (φ : StaAddr → TpkPhase) (keys : List TpkKey) : Prop where
  stands : ∀ addr, Stands suite sm addr (peers addr) (φ addr)
  handed : installed (outputs past) = keys.map (TpkKey.handed suite sm)
  differ : keys.Pairwise TpkKey.Differs
  used : ∀ key ∈ keys, ∀ nonce, key.Has nonce → nonce ∈ usedNonces sm (past.map Event.input)
  unspent : ∀ addr own, (φ addr).pending = some own → ∀ key ∈ keys, key.addr = addr → ¬key.Has own

/-- No frame asks for a request of one's own. -/
theorem rxAction_ne_start (src : StaAddr) (buf : Bytes) : rxAction sm src buf ≠ .start := by
  have hite {c : Prop} [Decidable c] {x y : TdlsAction} (hx : x ≠ .start) (hy : y ≠ .start) :
      (if c then x else y) ≠ .start := by
    by_cases hc : c
    · rw [if_pos hc]
      exact hx
    · rw [if_neg hc]
      exact hy
  unfold rxAction
  refine hite nofun (hite nofun (hite nofun (hite nofun ?_)))
  exact hite nofun (hite nofun (hite nofun (hite nofun (hite nofun nofun))))

theorem Spent.step {past : List (StationEvent K)} {peers : Peers K} {φ : StaAddr → TpkPhase}
    {keys : List TpkKey} (h : Spent suite sm past peers φ keys) (input : TdlsInput)
    (hdown : ¬Restarts sm peers input)
    (hfresh : ∀ own ∈ input.drawn sm, own ∉ usedNonces sm (past.map Event.input) ∧
      own ∉ input.heard sm) :
    Guarded ((input.action sm).MicRight suite) (stationStep suite sm peers input).2 ∧
      ∃ φ' keys', Spent suite sm (past ++ [event (stationStep suite sm) peers input])
        (stationStep suite sm peers input).1 φ' keys' := by
  have hstart : input.action sm = .start → sm.privacy = true → ∀ peer,
      peers input.addr = some peer → peer.tpkSuccess = false := by
    intro haction hprivacy peer hpeer
    cases input with
    | start env addr =>
      by_contra hup
      exact hdown ⟨hprivacy, peer, hpeer, by simpa using hup⟩
    | rx env src buf => exact absurd haction (rxAction_ne_start src buf)
    | remove env addr => cases haction
    | tpkRetryTimeout env addr => cases haction
    | tpkTimeout env env' addr => cases haction
  refine ⟨act_guarded (h.stands input.addr) (input.action sm) hstart, ?_⟩
  obtain ⟨ψ, hmoves, hstands⟩ :=
    @act_moves K suite sm input.env _ _ _ (h.stands input.addr) (input.action sm) hstart
  have hinput : (past ++ [event (stationStep suite sm) peers input]).map Event.input =
      past.map Event.input ++ [input] := by
    rw [List.map_append]
    rfl
  have hout : installed (outputs (past ++ [event (stationStep suite sm) peers input])) =
      installed (outputs past) ++
        installed (act suite sm input.env input.addr (peers input.addr) (input.action sm)).2 := by
    rw [outputs_concat, installed_append]
    rfl
  have hall (addr : StaAddr) : Stands suite sm addr ((stationStep suite sm peers input).1 addr)
      (Function.update φ input.addr ψ addr) := by
    by_cases haddr : addr = input.addr
    · subst haddr
      simpa only [stationStep, Function.update_self] using hstands
    · simpa only [stationStep, Function.update_of_ne haddr] using h.stands addr
  have hkept {key : TpkKey} (hkey : key ∈ keys) {nonce : Bytes} (hnonce : key.Has nonce) :
      nonce ∈ usedNonces sm (past.map Event.input ++ [input]) :=
    mem_usedNonces_concat.mpr (.inl (h.used key hkey nonce hnonce))
  rcases moves_pending hmoves with ⟨hnone, hpending⟩ | ⟨key, haddr, hone, hspent, hdone, hheard⟩
  · refine ⟨Function.update φ input.addr ψ, keys, hall, ?_, h.differ, ?_, ?_⟩
    · rw [hout, hnone, List.append_nil, h.handed]
    · intro key hkey nonce hnonce
      rw [hinput]
      exact hkept hkey hnonce
    · intro addr own hown key hkey hkaddr
      by_cases haddr : addr = input.addr
      · subst haddr
        rw [Function.update_self] at hown
        rcases hpending with hnone | hsame | hdrawn
        · rw [hnone] at hown
          cases hown
        · exact h.unspent _ own (hsame ▸ hown) key hkey hkaddr
        · have hmem : own ∈ input.drawn sm := by
            rw [TdlsInput.drawn, ← hdrawn, hown]
            exact List.mem_singleton_self own
          intro hhas
          exact (hfresh own hmem).1 (h.used key hkey own hhas)
      · rw [Function.update_of_ne haddr] at hown
        exact h.unspent addr own hown key hkey hkaddr
  · obtain ⟨own, hown, hhas⟩ := hspent
    refine ⟨Function.update φ input.addr ψ, keys ++ [key], hall, ?_, ?_, ?_, ?_⟩
    · rw [hout, hone, List.map_append, h.handed]
      rfl
    · rw [List.pairwise_append]
      refine ⟨h.differ, List.pairwise_singleton _ _, ?_⟩
      intro old hold new hnew hsame
      obtain rfl := List.mem_singleton.mp hnew
      exact ⟨own, .inr ⟨hhas, h.unspent _ own hown old hold (hsame.trans haddr)⟩⟩
    · intro new hnew nonce hnonce
      rw [hinput]
      rcases List.mem_append.mp hnew with hold | hnew
      · exact hkept hold hnonce
      · obtain rfl := List.mem_singleton.mp hnew
        obtain ⟨n, hn, hnonces⟩ := hheard
        refine mem_usedNonces_concat.mpr (.inr (.inl ?_))
        rw [TdlsInput.heard, hn]
        simpa using hnonces nonce hnonce
    · intro addr own' hown' new hnew hkaddr
      by_cases hsame : addr = input.addr
      · subst hsame
        rw [Function.update_self, hdone] at hown'
        cases hown'
      · rw [Function.update_of_ne hsame] at hown'
        rcases List.mem_append.mp hnew with hold | hnew
        · exact h.unspent addr own' hown' new hold hkaddr
        · obtain rfl := List.mem_singleton.mp hnew
          exact absurd (hkaddr.symm.trans haddr) hsame

/-- A station that has just started. -/
def noPeers : Peers K := fun _ => none

/-- No TPK-TK is configured twice, and each is configured for a message that proves its TPK. -/
structure InstallsOnce (suite : TpkSuite K) (sm : TdlsSm) (past : List (StationEvent K)) : Prop where
  once : ((installed (outputs past)).map Prod.snd).Nodup
  proved : ∀ t ∈ past, Guarded ((t.input.action sm).MicRight suite) t.out

theorem Spent.once {past : List (StationEvent K)} {peers : Peers K} {φ : StaAddr → TpkPhase}
    {keys : List TpkKey} (h : Spent suite sm past peers φ keys) (hinj : suite.Injective) :
    ((installed (outputs past)).map Prod.snd).Nodup := by
  rw [h.handed, List.map_map, List.nodup_iff_pairwise_ne, List.pairwise_map]
  exact h.differ.imp fun hdiffers => hdiffers.tk_ne hinj

/-- Where no request is made for a peer whose link is up, no key is installed again. -/
theorem tk_installed_once (suite : TpkSuite K) (hinj : suite.Injective) (sm : TdlsSm)
    (inputs : List TdlsInput) (hfresh : FreshDraws sm inputs)
    (hdown : ∀ t ∈ trace (stationStep suite sm) noPeers inputs, ¬Restarts sm t.pre t.input) :
    InstallsOnce suite sm (trace (stationStep suite sm) noPeers inputs) := by
  have hrun := @history_induction _ _ _ (stationStep suite sm)
    (fun past peers => FreshDraws sm (past.map Event.input) →
      (∀ t ∈ past, Guarded ((t.input.action sm).MicRight suite) t.out) ∧
        ∃ φ keys, Spent suite sm past peers φ keys)
    (fun peers input => ¬Restarts sm peers input) noPeers ?_ ?_ inputs hdown
  · rw [map_input_trace] at hrun
    obtain ⟨hproved, φ, keys, hspent⟩ := hrun hfresh
    exact ⟨hspent.once hinj, hproved⟩
  · intro _
    refine ⟨by simp, fun _ => .idle, [], fun addr => stands_none, rfl, .nil, by simp, by simp⟩
  · intro past peers input hpast hnot hnew
    have hinput : (past ++ [event (stationStep suite sm) peers input]).map Event.input =
        past.map Event.input ++ [input] := by
      rw [List.map_append]
      rfl
    rw [hinput] at hnew
    obtain ⟨hproved, φ, keys, hspent⟩ := hpast hnew.of_append
    obtain ⟨hguarded, hnext⟩ := hspent.step input hnot (hnew (past.map Event.input) input [] rfl)
    refine ⟨fun t ht => ?_, hnext⟩
    rcases List.mem_append.mp ht with hold | hlast
    · exact hproved t hold
    · rw [List.mem_singleton.mp hlast]
      exact hguarded

end Runs

section Examples

/-- The same as `FreshDraws`, evaluated input by input. -/
def freshFrom (sm : TdlsSm) : List Bytes → List TdlsInput → Bool
  | _, [] => true
  | used, input :: rest =>
    (input.drawn sm).all (fun own => own ∉ used ∧ own ∉ input.heard sm) &&
      freshFrom sm (used ++ (input.heard sm ++ input.drawn sm)) rest

theorem freshDraws_of_freshFrom {sm : TdlsSm} {inputs : List TdlsInput}
    (h : freshFrom sm [] inputs = true) : FreshDraws sm inputs := by
  suffices hall : ∀ (before inputs : List TdlsInput), freshFrom sm (usedNonces sm before) inputs →
      ∀ past input future, inputs = past ++ input :: future → ∀ own ∈ input.drawn sm,
        own ∉ usedNonces sm (before ++ past) ∧ own ∉ input.heard sm from hall [] inputs h
  intro before inputs hfrom past
  induction past generalizing before inputs with
  | nil =>
    rintro input future rfl own hown
    rw [List.nil_append, freshFrom, Bool.and_eq_true, List.all_eq_true] at hfrom
    rw [List.append_nil]
    exact of_decide_eq_true (hfrom.1 own hown)
  | cons first past ih =>
    rintro input future rfl own hown
    rw [List.cons_append, freshFrom, Bool.and_eq_true] at hfrom
    have hused : usedNonces sm before ++ (first.heard sm ++ first.drawn sm) =
        usedNonces sm (before ++ [first]) := by
      simp [usedNonces]
    rw [hused] at hfrom
    have hlater := ih (before ++ [first]) (past ++ input :: future) hfrom.2 input future rfl own hown
    rwa [List.append_assoc] at hlater

/-- A key is the nonces and the context, and the MIC is the beginning of each nonce. -/
def plainSuite : TpkSuite (Bytes × Bytes × Bytes) where
  derive lo hi ctx := ⟨(lo, hi, ctx), (lo, hi, ctx)⟩
  omac1 kck _ := kck.1.take 8 ++ kck.2.1.take 8
  zero := ([], [], [])

def plainSm : TdlsSm where
  ownAddr := ⟨[2, 0, 0, 0, 0, 0], rfl⟩
  bssid := ⟨[2, 0, 0, 0, 0, 9], rfl⟩
  privacy := true
  tdlsSupported := true
  tdlsDisabled := false
  tdlsProhibited := false
  tdlsExternalSetup := true

def plainPeer : StaAddr := ⟨[2, 0, 0, 0, 0, 2], rfl⟩

def plainEnv (random : Option Bytes) : TdlsEnv where
  addPeer := true
  alloc := true
  dup := true
  copied := true
  random := random
  setKey := true
  setKeyAgain := true
  addset := true
  send := true
  enable := true

def nonceOf (octet : UInt8) : Bytes := List.replicate tdlsNonceLen octet

/-- The elements of a message to the initiator of a link, under a key of these nonces. -/
def plainIes (x y anonce snonce : Bytes) : Bytes :=
  rsnieTpk ++
    (ftieWith (plainSuite.omac1 (tpkOf plainSuite plainSm plainPeer x y).kck []) anonce
      snonce).octets ++
    wpaAddTdlsTimeoutie tpkLifetime ++
    ([101, 18] ++ plainSm.bssid.1 ++ plainSm.ownAddr.1 ++ plainPeer.1)

def plainM2 (inonce rnonce : Bytes) : Bytes :=
  [2, 12, 1, 0, 0, 1, 0, 0, 1, 1, 0x82] ++ plainIes inonce rnonce rnonce inonce

def plainM3 (x y anonce snonce : Bytes) : Bytes :=
  [2, 12, 2, 0, 0, 1] ++ plainIes x y anonce snonce

/-- A request, and the response that brings the link up. -/
def linkUp : List TdlsInput :=
  [.start (plainEnv (some (nonceOf 1))) plainPeer,
    .rx (plainEnv none) plainPeer (plainM2 (nonceOf 1) (nonceOf 3))]

/-- Then a second request without `wpa_tdls_remove`, and a confirmation under the old key. -/
def requestAgain : List TdlsInput :=
  linkUp ++ [.start (plainEnv (some (nonceOf 2))) plainPeer,
    .rx (plainEnv none) plainPeer (plainM3 (nonceOf 1) (nonceOf 3) (nonceOf 3) (nonceOf 2))]

theorem plainSuite_injective : plainSuite.Injective where
  tk_inj h := ⟨congrArg Prod.fst h, congrArg (fun tk => tk.2.1) h, congrArg (fun tk => tk.2.2) h⟩

theorem tk_installed_once_linkUp :
    (installed (outputs (trace (stationStep plainSuite plainSm) noPeers linkUp))).length = 1 ∧
      InstallsOnce plainSuite plainSm (trace (stationStep plainSuite plainSm) noPeers linkUp) := by
  refine ⟨by decide +kernel, tk_installed_once plainSuite plainSuite_injective plainSm linkUp
    (freshDraws_of_freshFrom (by decide +kernel)) ?_⟩
  simp [linkUp, trace, event, Restarts, noPeers]

/-- The second request takes a new initiator nonce and leaves the key, so that the key is installed
again for the new nonce. -/
theorem tk_installed_twice :
    ¬∀ (K : Type) (suite : TpkSuite K) (sm : TdlsSm) (inputs : List TdlsInput), suite.Injective →
      FreshDraws sm inputs → InstallsOnce suite sm (trace (stationStep suite sm) noPeers inputs) := by
  intro h
  have honce := (h _ plainSuite plainSm requestAgain plainSuite_injective
    (freshDraws_of_freshFrom (by decide +kernel))).once
  revert honce
  decide +kernel

end Examples

end Wpa.Tdls
