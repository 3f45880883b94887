import Wpa.Tdls.Phase

/-! Each handler moves the entry it is given from phase to phase. -/

namespace Wpa.Tdls
open Lib Bytes
open TpkPhase (Moves Entry Stands)

section Quiet
variable {K : Type} {suite : TpkSuite K} {sm : TdlsSm} {env : TdlsEnv}

/-- Calls that install no key and send no nonces. -/
structure Quiet (out : List (TdlsOut K)) : Prop where
  keys : installed out = []
  said : said out = []

namespace Quiet
variable {out out' : List (TdlsOut K)} {addr : StaAddr}

theorem nil : Quiet ([] : List (TdlsOut K)) := ⟨rfl, rfl⟩

theorem append (h : Quiet out) (h' : Quiet out') : Quiet (out ++ out') := by
  constructor
  · rw [installed_append, h.keys, h'.keys, List.append_nil]
  · rw [said_append, h.said, h'.said, List.append_nil]

theorem delKey (h : Quiet out) : Quiet (.delKey addr :: out) := ⟨h.keys, h.said⟩
theorem micVerified {kck : K} (h : Quiet out) : Quiet (.micVerified kck :: out) := ⟨h.keys, h.said⟩
theorem addset {add : Bool} (h : Quiet out) : Quiet (.addset addr add :: out) := ⟨h.keys, h.said⟩
theorem enableLink (h : Quiet out) : Quiet (.enableLink addr :: out) := ⟨h.keys, h.said⟩
theorem disableLink (h : Quiet out) : Quiet (.disableLink addr :: out) := ⟨h.keys, h.said⟩

theorem send {frame : TdlsFrame} (hframe : frame.nonces = none) (h : Quiet out) :
    Quiet (.send addr frame :: out) := by
  constructor
  · exact h.keys
  · rw [said_send, hframe, h.said]
    rfl

end Quiet

theorem sendError_quiet (addr : StaAddr) (action dtoken : ℕ) (initiator : Bool) (status : ℕ) :
    Quiet (sendError env addr action dtoken initiator status : List (TdlsOut K)) := by
  unfold sendError
  split
  · apply Quiet.nil.send
    unfold TdlsFrame.nonces
    split <;> rfl
  · exact Quiet.nil

theorem sendTeardown_quiet (peer : Peer K) (reason : ℕ) :
    Quiet (sendTeardown suite sm env peer reason) := by
  unfold sendTeardown
  split
  · exact Quiet.nil
  · exact Quiet.nil.send rfl

theorem doTeardown_quiet (peer : Peer K) :
    (doTeardown suite sm env peer).1 = none ∧ Quiet (doTeardown suite sm env peer).2 :=
  ⟨rfl, (sendTeardown_quiet peer _).append Quiet.nil.disableLink⟩

end Quiet

section Idle
variable {K : Type} {suite : TpkSuite K} {sm : TdlsSm} {addr : StaAddr} {heard : Option TpkNonces}
  {random : Option Bytes} {out : List (TdlsOut K)} {φ : TpkPhase} {slot : Slot K} {peer : Peer K}

/-- No entry, or one that is as good as new. -/
theorem stands_none : Stands suite sm addr none .idle := by
  intro peer h
  cases h

/-- What a handler has to show: the entry it leaves stands in a phase that it may move to. -/
def MovesTo (suite : TpkSuite K) (sm : TdlsSm) (addr : StaAddr) (heard : Option TpkNonces)
    (random : Option Bytes) (φ : TpkPhase) (result : Slot K × List (TdlsOut K)) : Prop :=
  ∃ φ', Moves suite sm addr heard random result.2 φ φ' ∧ Stands suite sm addr result.1 φ'

theorem MovesTo.idle (h : Quiet out) (hstands : Stands suite sm addr slot .idle) :
    MovesTo suite sm addr heard random φ (slot, out) := by
  refine ⟨.idle, .drop φ h.keys ?_, hstands⟩
  simp [h.said]

theorem MovesTo.drop (h : Quiet out) : MovesTo suite sm addr heard random φ (none, out) :=
  MovesTo.idle h stands_none

theorem MovesTo.stay (h : Quiet out) (hstands : Stands suite sm addr slot φ) :
    MovesTo suite sm addr heard random φ (slot, out) := by
  refine ⟨φ, .stay φ h.keys ?_, hstands⟩
  simp [h.said]

/-- Only the keys and the nonces of the calls matter. -/
theorem moves_congr {out' : List (TdlsOut K)} {φ' : TpkPhase} (hk : installed out' = installed out)
    (hs : said out' = said out) (h : Moves suite sm addr heard random out φ φ') :
    Moves suite sm addr heard random out' φ φ' := by
  cases h with
  | stay _ hkeys hsaid => exact .stay _ (hk.trans hkeys) (hs ▸ hsaid)
  | drop _ hkeys hsaid => exact .drop _ (hk.trans hkeys) (hs ▸ hsaid)
  | ask _ own hr hkeys hsaid => exact .ask _ own hr (hk.trans hkeys) (hs.trans hsaid)
  | askFailed _ own hr hkeys hsaid => exact .askFailed _ own hr (hk.trans hkeys) (hs.trans hsaid)
  | answer _ own n hr hn hreq hkeys hsaid =>
    exact .answer _ own n hr hn hreq (hk.trans hkeys) (hs.trans hsaid)
  | answerFailed _ own n hr hn hreq hkeys hsaid =>
    exact .answerFailed _ own n hr hn hreq (hk.trans hkeys) (hs.trans hsaid)
  | confirm own other hn hkeys hsaid => exact .confirm own other hn (hk.trans hkeys) (hs.trans hsaid)
  | confirmFailed own other hn hkeys hsaid =>
    exact .confirmFailed own other hn (by rwa [hk]) (hs ▸ hsaid)
  | complete own other hn hkeys hsaid =>
    exact .complete own other hn (hk.trans hkeys) (hs.trans hsaid)
  | completeFailed own other hn hkeys hsaid =>
    exact .completeFailed own other hn (by rwa [hk]) (hs.trans hsaid)

theorem MovesTo.after {out' : List (TdlsOut K)} (hquiet : Quiet out')
    (h : MovesTo suite sm addr heard random φ (slot, out)) :
    MovesTo suite sm addr heard random φ (slot, out' ++ out) := by
  obtain ⟨φ', hmoves, hstands⟩ := h
  refine ⟨φ', moves_congr ?_ ?_ hmoves, hstands⟩
  · simp [hquiet.keys]
  · simp [hquiet.said]

theorem MovesTo.before {out' : List (TdlsOut K)} (hquiet : Quiet out')
    (h : MovesTo suite sm addr heard random φ (slot, out)) :
    MovesTo suite sm addr heard random φ (slot, out ++ out') := by
  obtain ⟨φ', hmoves, hstands⟩ := h
  refine ⟨φ', moves_congr ?_ ?_ hmoves, hstands⟩
  · simp [hquiet.keys]
  · simp [hquiet.said]

theorem MovesTo.ite {c : Prop} [Decidable c] {x y : Slot K × List (TdlsOut K)}
    (hx : c → MovesTo suite sm addr heard random φ x)
    (hy : ¬ c → MovesTo suite sm addr heard random φ y) :
    MovesTo suite sm addr heard random φ (if c then x else y) := by
  by_cases hc : c
  · rw [if_pos hc]
    exact hx hc
  · rw [if_neg hc]
    exact hy hc

theorem MovesTo.teardown {env : TdlsEnv} (peer : Peer K) :
    MovesTo suite sm addr heard random φ (doTeardown suite sm env peer) :=
  MovesTo.drop (doTeardown_quiet peer).2

/-- Only the retry timer is cancelled, and its message dropped. -/
theorem cancel_eq (peer : Peer K) (action : ℕ) :
    ∃ smTmr retryTimer, peer.retryTimeoutCancel action = { peer with smTmr, retryTimer } ∧
      ∀ frame, smTmr.buf = some frame → peer.smTmr.buf = some frame := by
  unfold Peer.retryTimeoutCancel
  split
  · refine ⟨_, _, rfl, fun frame hframe => ?_⟩
    cases hframe
  · exact ⟨peer.smTmr, peer.retryTimer, rfl, fun frame hframe => hframe⟩

theorem TpkPhase.Stands.entry (h : Stands suite sm addr (some peer) φ) : Entry addr φ peer := by
  cases φ with
  | idle => exact (h peer rfl).1
  | asking own =>
    obtain ⟨-, _, ⟨⟩, hentry, -⟩ := h
    exact hentry
  | answering own other =>
    obtain ⟨-, _, ⟨⟩, hentry, -⟩ := h
    exact hentry
  | connected initiator own other =>
    obtain ⟨-, _, ⟨⟩, hentry, -⟩ := h
    exact hentry

/-- The timer and what a discovery request sets are nothing to the phase. -/
theorem TpkPhase.Stands.update (h : Stands suite sm addr (some peer) φ) (rsnieI : Bytes)
    (lifetime : ℕ) (smTmr : SmTmr) (retryTimer : Bool)
    (hbuf : ∀ frame, smTmr.buf = some frame → peer.smTmr.buf = some frame) :
    Stands suite sm addr (some { peer with rsnieI, lifetime, smTmr, retryTimer }) φ := by
  have hentry : Entry addr φ { peer with rsnieI, lifetime, smTmr, retryTimer } :=
    ⟨h.entry.addr_eq, fun frame hframe => h.entry.buf frame (hbuf frame hframe)⟩
  cases φ with
  | idle =>
    rintro _ ⟨⟩
    exact ⟨hentry, (h peer rfl).2⟩
  | asking own =>
    obtain ⟨hprivacy, _, ⟨⟩, -, hrest⟩ := h
    exact ⟨hprivacy, _, rfl, hentry, hrest⟩
  | answering own other =>
    obtain ⟨hprivacy, _, ⟨⟩, -, hrest⟩ := h
    exact ⟨hprivacy, _, rfl, hentry, hrest⟩
  | connected initiator own other =>
    obtain ⟨hprivacy, _, ⟨⟩, -, hrest⟩ := h
    exact ⟨hprivacy, _, rfl, hentry, hrest⟩

theorem TpkPhase.Stands.cancel (h : Stands suite sm addr (some peer) φ) (action : ℕ) :
    Stands suite sm addr (some (peer.retryTimeoutCancel action)) φ := by
  obtain ⟨smTmr, retryTimer, hcancel, hbuf⟩ := cancel_eq peer action
  rw [hcancel]
  exact h.update peer.rsnieI peer.lifetime smTmr retryTimer hbuf

end Idle

section Keys
variable {K : Type} {suite : TpkSuite K} {sm : TdlsSm} {env : TdlsEnv}

theorem setKey_cases (peer : Peer K) (driverOk : Bool) :
    peer.setKey driverOk = (peer, false, []) ∨
      peer.tkSet = false ∧
        peer.setKey driverOk = ({ peer with tkSet := true }, true, [.setKey peer.addr peer.tpk.tk]) := by
  unfold Peer.setKey
  by_cases htk : peer.tkSet = true
  · exact .inl (if_pos htk)
  · rw [if_neg htk]
    cases peer.cipher with
    | ccmp =>
      cases driverOk with
      | true => exact .inr ⟨Bool.eq_false_of_not_eq_true htk, rfl⟩
      | false => exact .inl rfl
    | unset => exact .inl rfl
    | none => exact .inl rfl

theorem configureKey_cases (peer : Peer K) :
    configureKey env peer = ({ peer with reconfigKey := true }, []) ∨
      peer.tkSet = false ∧
        configureKey env peer = ({ peer with tkSet := true }, [.setKey peer.addr peer.tpk.tk]) := by
  unfold configureKey
  rcases setKey_cases peer env.setKey with hfail | ⟨htk, hset⟩
  · exact .inl (by rw [hfail]; rfl)
  · exact .inr ⟨htk, by rw [hset]; rfl⟩

/-- The entry of a link that is up. -/
def linked (sm : TdlsSm) (peer : Peer K) : Peer K :=
  { peer with
    tkSet := peer.tkSet || peer.reconfigKey, reconfigKey := false
    tpkSuccess := true, tpkInProgress := false, lifetimeTimer := sm.privacy }

/-- The key that a second attempt may configure. -/
def lateKeys (peer : Peer K) : List (StaAddr × K) :=
  if peer.reconfigKey && !peer.tkSet then [(peer.addr, peer.tpk.tk)] else []

theorem enableLink_cases (peer : Peer K) :
    ∃ peer' ok out, enableLink sm env peer = (peer', ok, out) ∧ said out = [] ∧
      (installed out = [] ∨ installed out = lateKeys peer) ∧
      (ok = true → peer' = linked sm peer ∧ installed out = lateKeys peer) := by
  unfold enableLink
  cases hreconfig : peer.reconfigKey with
  | false =>
    refine ⟨_, env.enable, _, rfl, rfl, .inl rfl, fun _ => ⟨?_, ?_⟩⟩
    · rw [linked, hreconfig, Bool.or_false]
    · rw [lateKeys, hreconfig]
      rfl
  | true =>
    simp only [if_true]
    rcases setKey_cases { peer with
        reconfigKey := true, tpkSuccess := true, tpkInProgress := false
        lifetimeTimer := sm.privacy } env.setKeyAgain with hfail | ⟨htk, hset⟩
    · rw [hfail]
      exact ⟨_, false, [], rfl, rfl, .inl rfl, fun hok => by cases hok⟩
    · simp only at htk
      have hlate : lateKeys peer = [(peer.addr, peer.tpk.tk)] := by
        rw [lateKeys, hreconfig, htk]
        rfl
      rw [hset]
      refine ⟨_, env.enable, _, rfl, rfl, .inr hlate.symm, fun _ => ⟨?_, hlate.symm⟩⟩
      rw [linked, htk, hreconfig]
      rfl

theorem tpkFrame_action (peer : Peer K) (action dtoken : ℕ) (transSeq : UInt8) (lnkid : Bytes) :
    (tpkFrame suite sm peer action dtoken transSeq lnkid).action = action := by
  unfold tpkFrame
  cases sm.privacy <;> rfl

/-- A message with the nonces of the entry. -/
theorem tpkFrame_nonces (peer : Peer K) {action : ℕ} (dtoken : ℕ) (transSeq : UInt8) (lnkid : Bytes)
    (haction : action = setupResponse ∨ action = setupConfirm) :
    (tpkFrame suite sm peer action dtoken transSeq lnkid).nonces =
      if sm.privacy then some ⟨action, peer.inonce, peer.rnonce⟩ else none := by
  unfold tpkFrame
  rcases haction with rfl | rfl <;> cases sm.privacy <;> rfl

/-- What M3 tells of the entry. -/
def confirms (sm : TdlsSm) (peer : Peer K) : List TpkNonces :=
  if sm.privacy then [⟨setupConfirm, peer.inonce, peer.rnonce⟩] else []

/-- M3 leaves the entry as it is. -/
theorem sendTpkM3_cases (peer : Peer K) (dtoken : ℕ) (lnkid : Bytes) :
    ∃ ok out, sendTpkM3 suite sm env peer dtoken lnkid = (peer, ok, out) ∧ installed out = [] ∧
      (said out = [] ∨ said out = confirms sm peer) ∧ (ok = true → said out = confirms sm peer) := by
  unfold sendTpkM3 Peer.tpkSend
  have hnonces : (tpkFrame suite sm peer setupConfirm dtoken 3 lnkid).nonces = _ :=
    tpkFrame_nonces peer dtoken 3 lnkid (.inr rfl)
  have haction : ¬((tpkFrame suite sm peer setupConfirm dtoken 3 lnkid).action = setupRequest ∨
      (tpkFrame suite sm peer setupConfirm dtoken 3 lnkid).action = setupResponse) := by
    rw [tpkFrame_action]
    decide
  cases env.alloc with
  | false => exact ⟨false, [], rfl, rfl, .inl rfl, by simp⟩
  | true =>
    cases env.send with
    | false => exact ⟨false, [], rfl, rfl, .inl rfl, by simp⟩
    | true =>
      have hsaid : said [TdlsOut.send (K := K) peer.addr
          (tpkFrame suite sm peer setupConfirm dtoken 3 lnkid)] = confirms sm peer := by
        rw [said_send, hnonces, confirms]
        cases sm.privacy <;> rfl
      exact ⟨true, _, if_neg haction, rfl, .inr hsaid, fun _ => hsaid⟩

end Keys

section Ends
variable {K : Type} {suite : TpkSuite K} {sm : TdlsSm} {env : TdlsEnv} {addr : StaAddr}

/-- M2 ends with the link up, or with the entry gone. -/
theorem m2Finish_cases {peer : Peer K} (dtoken : ℕ) (lnkid : Bytes) (hdown : peer.tpkSuccess = false) :
    ∃ slot out, m2Finish suite sm env addr peer dtoken lnkid = (slot, out) ∧
      (said out = [] ∨ said out = confirms sm peer) ∧
      (installed out = [] ∨ installed out = lateKeys peer) ∧
      (slot = none ∨ slot = some (linked sm { peer with dtoken }) ∧ installed out = lateKeys peer ∧
        said out = confirms sm peer) := by
  unfold m2Finish
  cases env.addset with
  | false =>
    have hquiet : Quiet (sendError env addr setupConfirm dtoken true statusUnspecifiedFailure ++
        [.disableLink addr] : List (TdlsOut K)) :=
      (sendError_quiet addr _ _ _ _).append Quiet.nil.disableLink
    exact ⟨none, _, rfl, .inl hquiet.said, .inl hquiet.keys, .inl rfl⟩
  | true =>
    simp only [Bool.not_true, Bool.false_eq_true, if_false]
    have hsend := @sendTpkM3_cases K suite sm env { peer with dtoken } dtoken lnkid
    generalize sendTpkM3 suite sm env { peer with dtoken } dtoken lnkid = result at hsend ⊢
    obtain ⟨ok, sent, rfl, hkeys, hsaid, hall⟩ := hsend
    rw [show confirms sm { peer with dtoken } = confirms sm peer from rfl] at hsaid hall
    cases ok with
    | false =>
      refine ⟨none, _, rfl, ?_, .inl ?_, .inl rfl⟩
      · simpa using hsaid
      · simpa using hkeys
    | true =>
      have hnot : ¬peer.tpkSuccess = true := by simp [hdown]
      simp only [Bool.not_true, Bool.false_eq_true, if_false, if_neg hnot]
      obtain ⟨up, linkUp, enabled, henable, hquiet, hlate, hup⟩ :=
        @enableLink_cases K sm env { peer with dtoken }
      rw [show lateKeys { peer with dtoken } = lateKeys peer from rfl] at hlate hup
      rw [henable]
      cases linkUp with
      | true =>
        obtain ⟨hlinked, hinstalled⟩ := hup rfl
        refine ⟨some up, _, rfl, ?_, ?_, .inr ⟨by rw [hlinked], ?_, ?_⟩⟩
        · simpa [hquiet] using hsaid
        · exact .inr (by simpa [hkeys] using hinstalled)
        · simpa [hkeys] using hinstalled
        · simpa [hquiet] using hall rfl
      | false =>
        have hteardown := (@doTeardown_quiet K suite sm env up).2
        refine ⟨none, _, rfl, ?_, ?_, .inl rfl⟩
        · simpa [hquiet, hteardown.said] using hsaid
        · simpa [hkeys, hteardown.keys] using hlate

/-- And so does M3, after which nothing more is sent. -/
theorem m3Finish_cases {peer : Peer K} (hdown : peer.tpkSuccess = false) :
    ∃ slot out, m3Finish suite sm env addr peer = (slot, out) ∧ said out = [] ∧
      (installed out = [] ∨ installed out = lateKeys peer) ∧
      (slot = none ∨ slot = some (linked sm peer) ∧ installed out = lateKeys peer) := by
  unfold m3Finish
  cases env.addset with
  | false =>
    have hteardown := (@doTeardown_quiet K suite sm env peer).2
    exact ⟨none, _, rfl, hteardown.said, .inl hteardown.keys, .inl rfl⟩
  | true =>
    have hnot : ¬peer.tpkSuccess = true := by simp [hdown]
    simp only [Bool.not_true, Bool.false_eq_true, if_false, if_neg hnot]
    obtain ⟨up, linkUp, enabled, henable, hquiet, hlate, hup⟩ := @enableLink_cases K sm env peer
    rw [henable]
    cases linkUp with
    | true =>
      obtain ⟨hlinked, hinstalled⟩ := hup rfl
      exact ⟨some up, _, rfl, hquiet, hlate, .inr ⟨by rw [hlinked], hinstalled⟩⟩
    | false =>
      have hteardown := (@doTeardown_quiet K suite sm env up).2
      refine ⟨none, _, rfl, ?_, ?_, .inl rfl⟩
      · simp [hquiet, hteardown.said]
      · simpa [hteardown.keys] using hlate

/-- A key that has not been configured for the nonces is, now or with the link. -/
theorem configureKey_fresh {peer : Peer K} (htk : peer.tkSet = false)
    (hreconfig : peer.reconfigKey = false) :
    ∃ tkSet reconfigKey out, configureKey env peer = ({ peer with tkSet, reconfigKey }, out) ∧
      (tkSet || reconfigKey) = true ∧ said out = [] ∧
      installed out ++ lateKeys { peer with tkSet, reconfigKey } = [(peer.addr, peer.tpk.tk)] := by
  rcases configureKey_cases peer with hlater | ⟨-, hnow⟩
  · refine ⟨false, true, [], ?_, rfl, rfl, rfl⟩
    rw [hlater, ← htk]
  · refine ⟨true, false, [.setKey peer.addr peer.tpk.tk], ?_, rfl, rfl, rfl⟩
    rw [hnow, ← hreconfig]

end Ends

section Elements
variable {K : Type} {sm : TdlsSm} {env : TdlsEnv} {peer : Peer K} {msg : TdlsMsg}

/-- Without privacy no nonces are taken from a message; with it those of the message are. -/
def TakesNonces (sm : TdlsSm) (msg : TdlsMsg) (ftie : Option Ftie) : Prop :=
  (sm.privacy = false ∧ ftie = none) ∨ (sm.privacy = true ∧ ftie.isSome ∧ msg.ies.ftie = ftie)

/-- What follows `if c then throw e`. -/
theorem ok_of_guard {ε α : Type} {c : Prop} [Decidable c] {e : ε} {f : PUnit → Except ε α} {a : α}
    (h : (if c then throw e >>= f else f ⟨⟩) = .ok a) : ¬ c ∧ f ⟨⟩ = .ok a := by
  by_cases hc : c
  · rw [if_pos hc] at h
    cases h
  · rw [if_neg hc] at h
    exact ⟨hc, h⟩

theorem ok_of_else {α : Type} {c : Prop} [Decidable c] {o : Option α} {a : α}
    (h : (if c then none else o) = some a) : ¬ c ∧ o = some a := by
  by_cases hc : c
  · rw [if_pos hc] at h
    cases h
  · rw [if_neg hc] at h
    exact ⟨hc, h⟩

/-- An RSN element that M1 lets through fits the arrays of the entry. -/
theorem m1Ies_ok {lnkid : Bytes} {ies : Option TpkIes} (h : m1Ies sm env msg = .ok (lnkid, ies)) :
    TakesNonces sm msg (ies.map TpkIes.ftie) ∧
      ∀ found, ies = some found → found.rsnIe.length ≤ tdlsMaxIeLen := by
  unfold m1Ies at h
  cases hlnkid : msg.ies.lnkid with
  | none =>
    rw [hlnkid] at h
    cases h
  | some found =>
    rw [hlnkid] at h
    obtain ⟨-, h⟩ := ok_of_guard h
    obtain ⟨-, h⟩ := ok_of_guard h
    obtain ⟨-, h⟩ := ok_of_guard h
    by_cases hprivacy : (!sm.privacy) = true
    · rw [if_pos hprivacy] at h
      obtain ⟨-, h⟩ := ok_of_guard h
      obtain ⟨-, rfl⟩ := Prod.mk.inj (Except.ok.inj h)
      exact ⟨.inl ⟨by simpa using hprivacy, rfl⟩, fun _ hnone => by cases hnone⟩
    · rw [if_neg hprivacy] at h
      cases hftie : msg.ies.ftie with
      | none =>
        rw [hftie] at h
        cases h
      | some ftie =>
        rw [hftie] at h
        cases hrsnIe : msg.ies.rsnIe with
        | none =>
          rw [hrsnIe] at h
          cases h
        | some rsnIe =>
          rw [hrsnIe] at h
          obtain ⟨hlong, h⟩ := ok_of_guard h
          cases hie : wpaParseWpaIeRsn rsnIe with
          | error e =>
            rw [hie] at h
            cases h
          | ok ie =>
            rw [hie] at h
            obtain ⟨-, h⟩ := ok_of_guard h
            obtain ⟨-, h⟩ := ok_of_guard h
            cases htimeoutie : msg.ies.keyLifetime with
            | none =>
              rw [htimeoutie] at h
              cases h
            | some timeoutie =>
              rw [htimeoutie] at h
              obtain ⟨-, h⟩ := ok_of_guard h
              obtain ⟨-, rfl⟩ := Prod.mk.inj (Except.ok.inj h)
              refine ⟨.inr ⟨by simpa using hprivacy, rfl, hftie⟩, ?_⟩
              rintro _ ⟨⟩
              exact not_lt.mp hlong

theorem m2Ies_ok {lnkid : Bytes} {ies : Option (Bytes × Ftie)}
    (h : m2Ies sm env peer msg = .ok (lnkid, ies)) :
    TakesNonces sm msg (ies.map Prod.snd) ∧ msg.ies.lnkid = some lnkid ∧
      ∀ found, ies = some found →
        msg.ies.rsnIe = some found.1 ∧ found.1.length ≤ tdlsMaxIeLen := by
  unfold m2Ies at h
  cases hlnkid : msg.ies.lnkid with
  | none =>
    rw [hlnkid] at h
    cases h
  | some found =>
    rw [hlnkid] at h
    obtain ⟨-, h⟩ := ok_of_guard h
    obtain ⟨-, h⟩ := ok_of_guard h
    by_cases hprivacy : (!sm.privacy) = true
    · rw [if_pos hprivacy] at h
      obtain ⟨rfl, rfl⟩ := Prod.mk.inj (Except.ok.inj h)
      exact ⟨.inl ⟨by simpa using hprivacy, rfl⟩, rfl, fun _ hnone => by cases hnone⟩
    · rw [if_neg hprivacy] at h
      cases hftie : msg.ies.ftie with
      | none =>
        rw [hftie] at h
        cases h
      | some ftie =>
        rw [hftie] at h
        cases hrsnIe : msg.ies.rsnIe with
        | none =>
          rw [hrsnIe] at h
          cases h
        | some rsnIe =>
          rw [hrsnIe] at h
          obtain ⟨hlong, h⟩ := ok_of_guard h
          obtain ⟨-, h⟩ := ok_of_guard h
          cases hie : wpaParseWpaIeRsn rsnIe with
          | error e =>
            rw [hie] at h
            cases h
          | ok ie =>
            rw [hie] at h
            obtain ⟨-, h⟩ := ok_of_guard h
            obtain ⟨rfl, rfl⟩ := Prod.mk.inj (Except.ok.inj h)
            refine ⟨.inr ⟨by simpa using hprivacy, rfl, hftie⟩, rfl, ?_⟩
            rintro _ ⟨⟩
            exact ⟨rfl, not_lt.mp hlong⟩

/-- What M3 carries agrees with the entry. -/
theorem m3Ies_ok {lnkid : Bytes} {ies : Option TpkIes} (h : m3Ies sm peer msg = some (lnkid, ies)) :
    TakesNonces sm msg (ies.map TpkIes.ftie) ∧ msg.ies.lnkid = some lnkid ∧
      ∀ found, ies = some found →
        found.ftie.snonce = peer.inonce ∧ found.ftie.anonce = peer.rnonce ∧
        msg.ies.rsnIe = some peer.rsnieP ∧ msg.ies.keyLifetime = some found.timeoutie := by
  unfold m3Ies at h
  obtain ⟨found, hlnkid, h⟩ := Option.bind_eq_some_iff.mp h
  obtain ⟨-, h⟩ := ok_of_else h
  by_cases hprivacy : (!sm.privacy) = true
  · rw [if_pos hprivacy] at h
    obtain ⟨rfl, rfl⟩ := Prod.mk.inj (Option.some.inj h)
    exact ⟨.inl ⟨by simpa using hprivacy, rfl⟩, hlnkid, fun _ hnone => by cases hnone⟩
  · rw [if_neg hprivacy] at h
    obtain ⟨ftie, hftie, h⟩ := Option.bind_eq_some_iff.mp h
    obtain ⟨rsnIe, hrsnIe, h⟩ := Option.bind_eq_some_iff.mp h
    obtain ⟨hrsnieP, h⟩ := ok_of_else h
    obtain ⟨hanonce, h⟩ := ok_of_else h
    obtain ⟨hsnonce, h⟩ := ok_of_else h
    obtain ⟨timeoutie, htimeoutie, h⟩ := Option.bind_eq_some_iff.mp h
    obtain ⟨-, h⟩ := ok_of_else h
    obtain ⟨rfl, rfl⟩ := Prod.mk.inj (Option.some.inj h)
    refine ⟨.inr ⟨by simpa using hprivacy, rfl, hftie⟩, hlnkid, ?_⟩
    rintro _ ⟨⟩
    refine ⟨(not_not.mp hsnonce).symm, (not_not.mp hanonce).symm, ?_, htimeoutie⟩
    rw [hrsnIe, not_not.mp hrsnieP]

end Elements

end Wpa.Tdls
