import Wpa.Tdls.Moves

/-! What each handler does to an entry in each of its phases. -/

namespace Wpa.Tdls
open Lib Bytes
open TpkPhase (Moves Entry Stands)

section Answers
variable {K : Type} {suite : TpkSuite K} {sm : TdlsSm} {env : TdlsEnv} {addr : StaAddr}
  {random : Option Bytes} {msg : TdlsMsg} {slot : Slot K} {φ : TpkPhase} {peer : Peer K}

/-- An entry with a key that the other side has proved, still to be configured. -/
structure Keyed (suite : TpkSuite K) (sm : TdlsSm) (addr : StaAddr) (initiator : Bool)
    (own other : Bytes) (peer : Peer K) : Prop where
  privacy : sm.privacy = true
  entry : Entry addr (.connected initiator own other) peer
  initiator_eq : peer.initiator = initiator
  inonce : peer.inonce = if initiator then own else other
  rnonce : peer.rnonce = if initiator then other else own
  tpkSet : peer.tpkSet = true
  tpk : peer.tpk = tpkOf suite sm addr peer.inonce peer.rnonce
  tkSet : peer.tkSet = false
  down : peer.tpkSuccess = false
  reconfigKey : peer.reconfigKey = false

namespace Keyed
variable {own other : Bytes}

theorem linked {initiator : Bool} (h : Keyed suite sm addr initiator own other peer) (dtoken : ℕ)
    {tkSet reconfigKey : Bool} (hset : (tkSet || reconfigKey) = true) :
    Stands suite sm addr (some (linked sm { peer with tkSet, reconfigKey, dtoken }))
      (.connected initiator own other) := by
  refine ⟨h.privacy, _, rfl, ⟨h.entry.addr_eq, h.entry.buf⟩, h.initiator_eq, h.inonce, h.rnonce,
    h.tpkSet, h.tpk, hset, rfl⟩

/-- Two calls install the key in one of them, or the link is not enabled. -/
theorem keys {initiator : Bool} (h : Keyed suite sm addr initiator own other peer)
    {out out' : List (TdlsOut K)} {tkSet reconfigKey : Bool}
    (hkeys : installed out ++ lateKeys { peer with tkSet, reconfigKey } =
      [(peer.addr, peer.tpk.tk)])
    (hlate : installed out' = [] ∨ installed out' = lateKeys { peer with tkSet, reconfigKey }) :
    installed (out ++ out') = [] ∨
      installed (out ++ out') = [(addr, (tpkOf suite sm addr peer.inonce peer.rnonce).tk)] := by
  rw [installed_append]
  rw [← h.tpk, ← h.entry.addr_eq]
  rcases hlate with hnone | hlate
  · rw [hnone, List.append_nil]
    cases hout : installed out with
    | nil => exact .inl rfl
    | cons key keys =>
      rw [hout, List.cons_append] at hkeys
      obtain ⟨rfl, hnil⟩ := List.cons.inj hkeys
      rw [(List.append_eq_nil_iff.mp hnil).1]
      exact .inr rfl
  · exact .inr (by rw [hlate, hkeys])

/-- From the check of M2 on. -/
theorem m2 (h : Keyed suite sm addr true own other peer) (dtoken : ℕ) (lnkid : Bytes) (kck : K) :
    MovesTo suite sm addr (some ⟨setupResponse, own, other⟩) random (.asking own)
      ((m2Finish suite sm env addr (configureKey env peer).1 dtoken lnkid).1,
        .micVerified kck :: (configureKey env peer).2 ++
          (m2Finish suite sm env addr (configureKey env peer).1 dtoken lnkid).2) := by
  obtain ⟨tkSet, reconfigKey, out, hconf, hset, hquiet, hkeys⟩ :=
    @configureKey_fresh K env peer h.tkSet h.reconfigKey
  rw [hconf]
  obtain ⟨slot, out', hfinish, hsaid, hlate, hends⟩ :=
    @m2Finish_cases K suite sm env addr { peer with tkSet, reconfigKey } dtoken lnkid h.down
  rw [hfinish]
  have hconfirms : confirms sm { peer with tkSet, reconfigKey } = [⟨setupConfirm, own, other⟩] := by
    simp [confirms, h.privacy, h.inonce, h.rnonce]
  rw [hconfirms] at hsaid hends
  have hall := h.keys hkeys hlate
  rw [h.inonce, h.rnonce] at hall
  have htold : said (.micVerified kck :: out ++ out') = said out' := by
    rw [List.cons_append, said_micVerified, said_append, hquiet, List.nil_append]
  rcases hends with rfl | ⟨rfl, hlate, hsaid⟩
  · refine ⟨.idle, .confirmFailed own other rfl hall ?_, stands_none⟩
    rw [htold]
    rcases hsaid with hnone | hone
    · simp [hnone]
    · simp [hone]
  · refine ⟨_, .confirm own other rfl ?_ (htold.trans hsaid), h.linked dtoken hset⟩
    rw [List.cons_append, installed_micVerified, installed_append, hlate, hkeys, h.tpk, h.inonce,
      h.rnonce, h.entry.addr_eq]
    rfl

/-- From the check of M3 on. -/
theorem m3 (h : Keyed suite sm addr false own other peer) (kck : K) :
    MovesTo suite sm addr (some ⟨setupConfirm, other, own⟩) random (.answering own other)
      ((m3Finish suite sm env addr (configureKey env peer).1).1,
        .micVerified kck :: (configureKey env peer).2 ++
          (m3Finish suite sm env addr (configureKey env peer).1).2) := by
  obtain ⟨tkSet, reconfigKey, out, hconf, hset, hquiet, hkeys⟩ :=
    @configureKey_fresh K env peer h.tkSet h.reconfigKey
  rw [hconf]
  obtain ⟨slot, out', hfinish, hsaid, hlate, hends⟩ :=
    @m3Finish_cases K suite sm env addr { peer with tkSet, reconfigKey } h.down
  rw [hfinish]
  have hall := h.keys hkeys hlate
  rw [h.inonce, h.rnonce] at hall
  have htold : said (.micVerified kck :: out ++ out') = [] := by
    rw [List.cons_append, said_micVerified, said_append, hquiet, hsaid, List.nil_append]
  rcases hends with rfl | ⟨rfl, hlate⟩
  · exact ⟨.idle, .completeFailed own other rfl hall htold, stands_none⟩
  · refine ⟨_, .complete own other rfl ?_ htold, h.linked peer.dtoken hset⟩
    rw [List.cons_append, installed_micVerified, installed_append, hlate, hkeys, h.tpk, h.inonce,
      h.rnonce, h.entry.addr_eq]
    rfl

end Keyed

theorem processTpkM2_asking {own : Bytes} (h : Stands suite sm addr slot (.asking own)) :
    MovesTo suite sm addr (msg.nonces setupResponse) random (.asking own)
      (processTpkM2 suite sm env addr msg slot) := by
  obtain ⟨-, peer, rfl, -, hinit, -, -, -, hup, -⟩ := id h
  unfold processTpkM2
  simp only [hinit, hup, Bool.not_true, Bool.false_eq_true, if_false]
  have hstands := h.cancel setupRequest
  generalize peer.retryTimeoutCancel setupRequest = waiting at hstands ⊢
  have hstays := hstands
  obtain ⟨hprivacy, _, ⟨⟩, hentry, hinit, hown, -, htk, hup, -, hreconfig⟩ := hstands
  have herror (status : ℕ) : MovesTo suite sm addr (msg.nonces setupResponse) random (.asking own)
      (none, sendError env addr setupConfirm msg.dtoken true status ++ [.disableLink addr]) :=
    MovesTo.drop ((sendError_quiet addr _ _ _ _).append Quiet.nil.disableLink)
  refine .ite (fun _ => MovesTo.drop Quiet.nil.disableLink) fun _ => ?_
  refine .ite (fun _ => MovesTo.drop Quiet.nil.disableLink) fun _ => ?_
  refine .ite (fun _ => MovesTo.drop Quiet.nil.disableLink) fun _ => ?_
  cases hies : m2Ies sm env waiting msg with
  | error status => exact herror status
  | ok found =>
    obtain ⟨lnkid, ies⟩ := found
    rcases (m2Ies_ok hies).1 with ⟨hopen, -⟩ | ⟨-, hsome, hftie⟩
    · simp [hprivacy] at hopen
    cases ies with
    | none => cases hsome
    | some ies =>
      obtain ⟨rsnIe, ftie⟩ := ies
      refine .ite (fun _ => MovesTo.stay Quiet.nil hstays) fun hsnonce => ?_
      cases msg.ies.keyLifetime with
      | none => exact herror _
      | some timeoutie =>
        refine .ite (fun _ => herror _) fun _ => ?_
        refine .ite (fun _ => MovesTo.drop Quiet.nil.disableLink.delKey) fun _ => ?_
        have hheard : msg.nonces setupResponse = some ⟨setupResponse, own, ftie.anonce⟩ := by
          rw [TdlsMsg.nonces, hftie, ← hown, not_not.mp hsnonce]
          rfl
        rw [hheard]
        apply Keyed.m2
        exact {
          privacy := hprivacy
          entry := ⟨hentry.addr_eq, hentry.buf⟩
          initiator_eq := hinit
          inonce := hown
          rnonce := rfl
          tpkSet := rfl
          tpk := by rw [Peer.generateTpk_eq, hentry.addr_eq]
          tkSet := htk
          down := hup
          reconfigKey := hreconfig }

/-- An entry without privacy, or one that has only answered a discovery request. -/
theorem TpkPhase.Stands.linked_idle (h : Stands suite sm addr (some peer) .idle)
    (hopen : sm.privacy = false) (rsnieP : Bytes) (cipher : PeerCipher) (dtoken : ℕ) :
    Stands suite sm addr (some (linked sm { peer with rsnieP, cipher, dtoken })) .idle := by
  rintro _ ⟨⟩
  obtain ⟨hentry, htpk, -, hnonce, -⟩ := h peer rfl
  refine ⟨⟨hentry.addr_eq, hentry.buf⟩, htpk, rfl, hnonce, fun hprivacy => ?_⟩
  simp [hopen] at hprivacy

theorem processTpkM2_moves (h : Stands suite sm addr slot φ) :
    MovesTo suite sm addr (msg.nonces setupResponse) random φ
      (processTpkM2 suite sm env addr msg slot) := by
  cases φ with
  | asking own => exact processTpkM2_asking h
  | answering own other =>
    obtain ⟨-, peer, rfl, -, hinit, -⟩ := id h
    unfold processTpkM2
    simp only [hinit, Bool.not_false, if_true]
    exact MovesTo.stay Quiet.nil h
  | connected initiator own other =>
    obtain ⟨-, peer, rfl, -, -, -, -, -, -, -, hup⟩ := id h
    unfold processTpkM2
    simp only [hup, if_true, ite_self]
    exact MovesTo.stay Quiet.nil h
  | idle =>
    cases slot with
    | none => exact MovesTo.stay Quiet.nil h
    | some peer =>
      unfold processTpkM2
      refine .ite (fun _ => MovesTo.stay Quiet.nil h) fun hinit => ?_
      refine .ite (fun _ => MovesTo.stay Quiet.nil h) fun hup => ?_
      refine .ite (fun _ => MovesTo.drop Quiet.nil.disableLink) fun _ => ?_
      refine .ite (fun _ => MovesTo.drop Quiet.nil.disableLink) fun _ => ?_
      refine .ite (fun _ => MovesTo.drop Quiet.nil.disableLink) fun _ => ?_
      -- what has sent a request and is idle has no privacy
      have hopen : sm.privacy = false := by
        by_contra hprivacy
        have hnot := ((h peer rfl).2.2.2.2 (by simpa using hprivacy)).1
        simp [hnot] at hinit
      have hstands := h.cancel setupRequest
      have hdown : (peer.retryTimeoutCancel setupRequest).tpkSuccess = false := by
        obtain ⟨smTmr, retryTimer, hcancel, -⟩ := cancel_eq peer setupRequest
        rw [hcancel]
        simpa using hup
      generalize peer.retryTimeoutCancel setupRequest = waiting at hstands hdown ⊢
      cases hies : m2Ies sm env waiting msg with
      | error status =>
        exact MovesTo.drop ((sendError_quiet addr _ _ _ _).append Quiet.nil.disableLink)
      | ok found =>
        obtain ⟨lnkid, ies⟩ := found
        rcases (m2Ies_ok hies).1 with ⟨-, hnone⟩ | ⟨hprivacy, -⟩
        · cases ies with
          | some ies => cases hnone
          | none =>
            simp only
            obtain ⟨slot, out, hfinish, hsaid, hlate, hends⟩ :=
              @m2Finish_cases K suite sm env addr { waiting with rsnieP := [], cipher := .none }
                msg.dtoken lnkid hdown
            have hno : confirms sm { waiting with rsnieP := [], cipher := .none } = [] := by
              simp [confirms, hopen]
            have hnokey : lateKeys { waiting with rsnieP := [], cipher := .none } = [] := by
              simp [lateKeys, (hstands waiting rfl).2.2.1]
            rw [hno, or_self_iff] at hsaid
            rw [hnokey, or_self_iff] at hlate
            rw [hfinish]
            rcases hends with rfl | ⟨rfl, -⟩
            · exact MovesTo.drop ⟨hlate, hsaid⟩
            · exact MovesTo.stay ⟨hlate, hsaid⟩ (hstands.linked_idle hopen [] .none msg.dtoken)
        · simp [hopen] at hprivacy

/-- M3 where there is no key to check it with. -/
theorem processTpkM3_unkeyed (hprivacy : sm.privacy = true) (htpk : peer.tpkSet = false) :
    MovesTo suite sm addr (msg.nonces setupConfirm) random φ
      (processTpkM3 suite sm env addr msg (some peer)) := by
  obtain ⟨smTmr, retryTimer, hcancel, -⟩ := cancel_eq peer setupResponse
  unfold processTpkM3
  simp only [hcancel]
  split_ifs with hshort hstatus
  · exact MovesTo.teardown _
  · exact MovesTo.teardown _
  split
  · exact MovesTo.teardown _
  · rename_i hies
    rcases (m3Ies_ok hies).1 with ⟨hopen, -⟩ | ⟨-, hsome, -⟩
    · simp [hprivacy] at hopen
    · cases hsome
  · simp only [verifyTdlsMic, htpk, Bool.false_and, Bool.not_false, if_true]
    exact MovesTo.drop (doTeardown_quiet _).2.delKey

/-- An own answer that is confirmed. -/
theorem processTpkM3_answering {own other : Bytes}
    (h : Stands suite sm addr slot (.answering own other)) :
    MovesTo suite sm addr (msg.nonces setupConfirm) random (.answering own other)
      (processTpkM3 suite sm env addr msg slot) := by
  obtain ⟨-, peer, rfl, -⟩ := id h
  unfold processTpkM3
  have hstands := h.cancel setupResponse
  simp only
  generalize peer.retryTimeoutCancel setupResponse = waiting at hstands ⊢
  obtain ⟨hprivacy, _, ⟨⟩, hentry, hinit, hown, hother, hset, htpk, htk, hup, -, hreconfig⟩ := hstands
  split_ifs with hshort hstatus
  · exact MovesTo.teardown _
  · exact MovesTo.teardown _
  split
  · exact MovesTo.teardown _
  · rename_i hies
    rcases (m3Ies_ok hies).1 with ⟨hopen, -⟩ | ⟨-, hsome, -⟩
    · simp [hprivacy] at hopen
    · cases hsome
  · rename_i lnkid ies hies
    split_ifs with hmic
    · exact MovesTo.drop (doTeardown_quiet _).2.delKey
    obtain ⟨htakes, -, hfound⟩ := m3Ies_ok hies
    obtain ⟨hsnonce, hanonce, -⟩ := hfound ies rfl
    rcases htakes with ⟨hopen, -⟩ | ⟨-, -, hftie⟩
    · simp [hprivacy] at hopen
    have hheard : msg.nonces setupConfirm = some ⟨setupConfirm, other, own⟩ := by
      rw [TdlsMsg.nonces, hftie, ← hown, ← hother, ← hsnonce, ← hanonce]
      rfl
    rw [hheard]
    apply Keyed.m3
    exact {
      privacy := hprivacy
      entry := ⟨hentry.addr_eq, hentry.buf⟩
      initiator_eq := hinit
      inonce := hother
      rnonce := hown
      tpkSet := hset
      tpk := by rw [htpk, hown, hother]
      tkSet := htk
      down := hup
      reconfigKey := hreconfig }

/-- Where the link is up the key is not configured again. -/
theorem processTpkM3_connected {initiator : Bool} {own other : Bytes}
    (h : Stands suite sm addr slot (.connected initiator own other)) :
    MovesTo suite sm addr (msg.nonces setupConfirm) random (.connected initiator own other)
      (processTpkM3 suite sm env addr msg slot) := by
  obtain ⟨-, peer, rfl, -⟩ := id h
  unfold processTpkM3
  have hstands := h.cancel setupResponse
  simp only
  generalize peer.retryTimeoutCancel setupResponse = waiting at hstands ⊢
  obtain ⟨hprivacy, _, ⟨⟩, hentry, hinit, hi, hr, hset, htpk, htk, hup⟩ := hstands
  split_ifs with hshort hstatus
  · exact MovesTo.teardown _
  · exact MovesTo.teardown _
  split
  · exact MovesTo.teardown _
  · rename_i hies
    rcases (m3Ies_ok hies).1 with ⟨hopen, -⟩ | ⟨-, hsome, -⟩
    · simp [hprivacy] at hopen
    · cases hsome
  · split_ifs with hmic
    · exact MovesTo.drop (doTeardown_quiet _).2.delKey
    have hagain : configureKey env waiting = ({ waiting with reconfigKey := true }, []) := by
      rcases configureKey_cases waiting with hlater | ⟨hfresh, -⟩
      · exact hlater
      · simp [htk] at hfresh
    rw [hagain]
    unfold m3Finish
    simp only
    split_ifs with hadd
    · exact MovesTo.drop ((Quiet.nil.append (doTeardown_quiet _).2).micVerified)
    · apply MovesTo.stay Quiet.nil.addset.micVerified
      exact ⟨hprivacy, _, rfl, ⟨hentry.addr_eq, hentry.buf⟩, hinit, hi, hr, hset, htpk, htk, hup⟩

theorem processTpkM3_moves (h : Stands suite sm addr slot φ) :
    MovesTo suite sm addr (msg.nonces setupConfirm) random φ
      (processTpkM3 suite sm env addr msg slot) := by
  cases φ with
  | asking own =>
    obtain ⟨hprivacy, peer, rfl, -, -, -, htpk, -⟩ := h
    exact processTpkM3_unkeyed hprivacy htpk
  | answering own other => exact processTpkM3_answering h
  | connected initiator own other => exact processTpkM3_connected h
  | idle =>
    cases slot with
    | none => exact MovesTo.stay Quiet.nil h
    | some peer =>
      by_cases hprivacy : sm.privacy = true
      · exact processTpkM3_unkeyed hprivacy (h peer rfl).2.1
      have hopen : sm.privacy = false := by simpa using hprivacy
      unfold processTpkM3
      have hstands := h.cancel setupResponse
      simp only
      generalize peer.retryTimeoutCancel setupResponse = waiting at hstands ⊢
      split_ifs with hshort hstatus
      · exact MovesTo.teardown _
      · exact MovesTo.teardown _
      split
      · exact MovesTo.teardown _
      · unfold m3Finish
        by_cases hup : waiting.tpkSuccess = true
        · simp only [hup, if_true]
          split_ifs with hadd
          · exact MovesTo.teardown _
          · exact MovesTo.stay Quiet.nil.addset hstands
        · obtain ⟨slot, out, hfinish, hsaid, hlate, hends⟩ :=
            @m3Finish_cases K suite sm env addr waiting (by simpa using hup)
          have hnokey : lateKeys waiting = [] := by simp [lateKeys, (hstands waiting rfl).2.2.1]
          rw [hnokey, or_self_iff] at hlate
          rw [← m3Finish, hfinish]
          rcases hends with rfl | ⟨rfl, -⟩
          · exact MovesTo.drop ⟨hlate, hsaid⟩
          · exact MovesTo.stay ⟨hlate, hsaid⟩
              (hstands.linked_idle hopen waiting.rsnieP waiting.cipher waiting.dtoken)
      · rename_i hies
        rcases (m3Ies_ok hies).1 with ⟨-, hnone⟩ | ⟨hprivacy, -⟩
        · cases hnone
        · simp [hopen] at hprivacy

end Answers

section Requests
variable {K : Type} {suite : TpkSuite K} {sm : TdlsSm} {env : TdlsEnv} {addr : StaAddr}
  {random : Option Bytes} {heard : Option TpkNonces} {msg : TdlsMsg} {slot : Slot K} {φ : TpkPhase}
  {peer : Peer K}

/-- An entry as good as new. -/
theorem stands_fresh (haddr : peer.addr = addr) (hbuf : peer.smTmr.buf = none)
    (htpk : peer.tpkSet = false) (hreconfig : peer.reconfigKey = false)
    (hnonce : peer.inonce = zeros tdlsNonceLen) (hinit : peer.initiator = false)
    (hup : peer.tpkSuccess = false) : Stands suite sm addr (some peer) .idle := by
  rintro _ ⟨⟩
  refine ⟨⟨haddr, fun frame hframe => ?_⟩, htpk, hreconfig, ?_, fun _ => ⟨hinit, hup⟩⟩
  · simp [hbuf] at hframe
  · rw [hnonce]
    decide

theorem stands_clear (h : peer.addr = addr) : Stands suite sm addr (some (peer.clear suite)) .idle :=
  stands_fresh h rfl rfl rfl rfl rfl rfl

theorem addPeer_stands (env : TdlsEnv) (h : Stands suite sm addr slot φ) :
    (slot = none ∧ addPeer suite env addr slot = none) ∨
      ∃ peer, addPeer suite env addr slot = some peer ∧ Stands suite sm addr (some peer) φ ∧
        (slot = some peer ∨ peer = newPeer suite addr) := by
  cases slot with
  | some peer => exact .inr ⟨peer, rfl, h, .inl rfl⟩
  | none =>
    cases hadd : env.addPeer with
    | false => exact .inl ⟨rfl, by simp [addPeer, hadd]⟩
    | true =>
      refine .inr ⟨newPeer suite addr, by simp [addPeer, hadd], ?_, .inr rfl⟩
      cases φ with
      | idle => exact stands_fresh rfl rfl rfl rfl rfl rfl rfl
      | asking own =>
        obtain ⟨-, _, hsome, -⟩ := h
        cases hsome
      | answering own other =>
        obtain ⟨-, _, hsome, -⟩ := h
        cases hsome
      | connected initiator own other =>
        obtain ⟨-, _, hsome, -⟩ := h
        cases hsome

/-- A request is ignored, or goes to an entry that is idle or is answering. -/
theorem m1Admit_cases (h : Stands suite sm addr (some peer) φ) :
    m1Admit suite sm peer = none ∨
      ∃ peer' out, m1Admit suite sm peer = some (peer', out) ∧ Quiet out ∧
        (Stands suite sm addr (some peer') .idle ∨
          ∃ own other, φ = .answering own other ∧ Stands suite sm addr (some peer') φ) := by
  have hclear : Stands suite sm addr (some (peer.clear suite)) .idle := stands_clear h.entry.addr_eq
  unfold m1Admit
  split_ifs with hup hinit hlower
  · exact .inr ⟨_, _, rfl, Quiet.nil.disableLink, .inl hclear⟩
  · exact .inl rfl
  · exact .inr ⟨_, _, rfl, Quiet.nil.disableLink, .inl hclear⟩
  · refine .inr ⟨peer, [], rfl, Quiet.nil, ?_⟩
    cases φ with
    | idle => exact .inl h
    | answering own other => exact .inr ⟨own, other, rfl, h⟩
    | asking own =>
      obtain ⟨-, _, ⟨⟩, -, hasks, -⟩ := h
      exact absurd hasks hinit
    | connected initiator own other =>
      obtain ⟨-, _, ⟨⟩, -, -, -, -, -, -, -, hconnected⟩ := h
      exact absurd hconnected hup

/-- A message that may be sent again is kept, and sent if nothing fails. -/
theorem tpkSend_cases {frame : TdlsFrame}
    (haction : frame.action = setupRequest ∨ frame.action = setupResponse) :
    ∃ smTmr retryTimer ok out,
      peer.tpkSend env frame = ({ peer with smTmr, retryTimer }, ok, out) ∧
      (smTmr.buf = peer.smTmr.buf ∨ ∀ kept, smTmr.buf = some kept → kept = frame) ∧
      installed out = [] ∧ (said out = [] ∨ said out = frame.nonces.toList) ∧
      (ok = true → said out = frame.nonces.toList ∧ smTmr.buf = some frame) := by
  have hsaid : said [TdlsOut.send (K := K) peer.addr frame] = frame.nonces.toList := by
    rw [said_send]
    exact List.append_nil _
  unfold Peer.tpkSend
  cases env.send with
  | false => exact ⟨peer.smTmr, peer.retryTimer, false, [], rfl, .inl rfl, rfl, .inl rfl, by simp⟩
  | true =>
    simp only [Bool.not_true, Bool.false_eq_true, if_false, if_pos haction]
    cases env.dup with
    | true =>
      refine ⟨_, _, true, _, rfl, .inr ?_, rfl, .inr hsaid, fun _ => ⟨hsaid, rfl⟩⟩
      intro kept hkept
      exact (Option.some.inj hkept).symm
    | false =>
      refine ⟨_, _, false, _, rfl, .inr ?_, rfl, .inr hsaid, by simp⟩
      intro kept hkept
      cases hkept

/-- A frame without nonces leaves an idle entry idle. -/
theorem tpkSend_idle {frame : TdlsFrame} (hframe : frame.nonces = none)
    (h : Stands suite sm addr (some peer) .idle) :
    Quiet (peer.tpkSend env frame).2.2 ∧
      Stands suite sm addr (some (peer.tpkSend env frame).1) .idle := by
  obtain ⟨hentry, hrest⟩ := h peer rfl
  unfold Peer.tpkSend
  cases env.send with
  | false => exact ⟨Quiet.nil, h⟩
  | true =>
    simp only [Bool.not_true, Bool.false_eq_true, if_false]
    by_cases haction : frame.action = setupRequest ∨ frame.action = setupResponse
    · rw [if_pos haction]
      cases env.dup with
      | true =>
        refine ⟨Quiet.nil.send hframe, ?_⟩
        rintro _ ⟨⟩
        refine ⟨⟨hentry.addr_eq, fun kept hkept n hn => ?_⟩, hrest⟩
        obtain rfl := Option.some.inj hkept
        rw [hframe] at hn
        cases hn
      | false =>
        refine ⟨Quiet.nil.send hframe, ?_⟩
        rintro _ ⟨⟩
        exact ⟨⟨hentry.addr_eq, fun kept hkept => by cases hkept⟩, hrest⟩
    · rw [if_neg haction]
      exact ⟨Quiet.nil.send hframe, h⟩

theorem sendTpkM2_idle (env : TdlsEnv) (h : Stands suite sm addr (some peer) .idle) (hopen : sm.privacy = false)
    (dtoken : ℕ) (lnkid : Bytes) :
    Quiet (sendTpkM2 suite sm env peer dtoken lnkid).2.2 ∧
      Stands suite sm addr (some (sendTpkM2 suite sm env peer dtoken lnkid).1) .idle := by
  unfold sendTpkM2
  cases env.alloc with
  | false => exact ⟨Quiet.nil, h⟩
  | true =>
    apply tpkSend_idle _ h
    rw [tpkFrame_nonces _ _ _ _ (.inl rfl), hopen]
    rfl

/-- An entry that is to answer with its responder nonce. -/
structure Answers (suite : TpkSuite K) (sm : TdlsSm) (addr : StaAddr) (own other : Bytes)
    (peer : Peer K) : Prop where
  addr_eq : peer.addr = addr
  initiator : peer.initiator = false
  rnonce : peer.rnonce = own
  inonce : peer.inonce = other
  tpkSet : peer.tpkSet = true
  tpk : peer.tpk = tpkOf suite sm addr other own
  tkSet : peer.tkSet = false
  down : peer.tpkSuccess = false
  reconfigKey : peer.reconfigKey = false

/-- M2 with these nonces is sent and kept, or the entry is freed. -/
theorem Answers.respond (env : TdlsEnv) {own other : Bytes} (h : Answers suite sm addr own other peer)
    (hprivacy : sm.privacy = true) (dtoken : ℕ) (lnkid : Bytes) :
    ∃ peer' ok out,
      sendTpkM2 suite sm env { peer with tpkInProgress := true } dtoken lnkid = (peer', ok, out) ∧
      installed out = [] ∧ (said out = [] ∨ said out = [⟨setupResponse, other, own⟩]) ∧
      (ok = true → said out = [⟨setupResponse, other, own⟩] ∧
        Stands suite sm addr (some peer') (.answering own other)) := by
  unfold sendTpkM2
  cases env.alloc with
  | false => exact ⟨_, false, [], rfl, rfl, .inl rfl, by simp⟩
  | true =>
    simp only [Bool.not_true, Bool.false_eq_true, if_false]
    have hnonces : (tpkFrame suite sm { peer with tpkInProgress := true } setupResponse dtoken 2
        lnkid).nonces = some ⟨setupResponse, other, own⟩ := by
      rw [tpkFrame_nonces _ _ _ _ (.inl rfl), if_pos hprivacy, h.inonce, h.rnonce]
    have haction := @tpkFrame_action K suite sm { peer with tpkInProgress := true }
      setupResponse dtoken 2 lnkid
    generalize tpkFrame suite sm { peer with tpkInProgress := true } setupResponse dtoken 2 lnkid =
      frame at hnonces haction ⊢
    obtain ⟨smTmr, retryTimer, ok, out, hsend, -, hkeys, hsaid, hok⟩ :=
      @tpkSend_cases K env { peer with tpkInProgress := true } frame (.inr haction)
    rw [hnonces] at hsaid hok
    refine ⟨_, ok, out, hsend, hkeys, hsaid, fun htrue => ⟨(hok htrue).1, hprivacy, _, rfl, ?_⟩⟩
    refine ⟨⟨h.addr_eq, fun kept hkept n hn => ?_⟩, h.initiator, h.rnonce, h.inonce, h.tpkSet, h.tpk,
      h.tkSet, h.down, rfl, h.reconfigKey⟩
    rw [(hok htrue).2] at hkept
    obtain rfl := Option.some.inj hkept
    rw [hnonces] at hn
    obtain rfl := Option.some.inj hn
    exact List.mem_singleton.mpr rfl

/-- The nonces of a request make an entry answer with a new nonce, or with the one before. -/
theorem m1Accept_cases (env : TdlsEnv) {ψ : TpkPhase} (h : Stands suite sm addr (some peer) ψ)
    (hψ : ψ = .idle ∨ ∃ own other, ψ = .answering own other) (hprivacy : sm.privacy = true)
    (dtoken : ℕ) (ies : TpkIes) :
    m1Accept suite sm env peer dtoken (some ies) = none ∨
      ∃ peer' own, m1Accept suite sm env peer dtoken (some ies) = some peer' ∧
        Answers suite sm addr own ies.ftie.snonce peer' ∧
        (env.random = some own ∨ ψ = .answering own ies.ftie.snonce) := by
  have haddr := h.entry.addr_eq
  simp only [m1Accept, m1Nonces]
  split_ifs with hnew
  · cases hrandom : env.random with
    | none => exact .inl rfl
    | some own =>
      refine .inr ⟨_, own, rfl, ?_, .inl rfl⟩
      have hrest : peer.tpkSuccess = false ∧ peer.reconfigKey = false := by
        rcases hψ with rfl | ⟨own', other', rfl⟩
        · exact ⟨((h peer rfl).2.2.2.2 hprivacy).2, (h peer rfl).2.2.1⟩
        · obtain ⟨-, _, ⟨⟩, -, -, -, -, -, -, -, hup, -, hreconfig⟩ := h
          exact ⟨hup, hreconfig⟩
      exact ⟨haddr, rfl, rfl, rfl, rfl, by rw [Peer.generateTpk_eq, haddr], rfl, hrest.1, hrest.2⟩
  · obtain ⟨hsame, hset⟩ := not_or.mp hnew
    rcases hψ with rfl | ⟨own, other, rfl⟩
    · -- the nonce of an idle entry is not set
      rw [(h peer rfl).2.2.2.1] at hset
      exact absurd rfl hset
    · obtain ⟨-, _, ⟨⟩, -, -, hown, hother, hkey, htpk, htk, hup, -, hreconfig⟩ := h
      have hsnonce : ies.ftie.snonce = other := (not_not.mp hsame).symm.trans hother
      rw [hsnonce]
      refine .inr ⟨_, own, rfl, ?_, .inr rfl⟩
      exact ⟨haddr, rfl, hown, hother, rfl, by rw [Peer.generateTpk_eq, ← hown, ← hother, haddr], htk,
        hup, hreconfig⟩

theorem m1Error_moves (dtoken status : ℕ) :
    MovesTo suite sm addr heard random φ (m1Error env addr dtoken status) :=
  MovesTo.drop (sendError_quiet addr _ _ _ _)

/-- Without privacy the entry stays idle. -/
theorem m1Respond_open (h : Stands suite sm addr (some peer) .idle) (hopen : sm.privacy = false) :
    MovesTo suite sm addr heard random φ (m1Respond suite sm env addr peer msg) := by
  unfold m1Respond
  cases hies : m1Ies sm env msg with
  | error status => exact m1Error_moves _ _
  | ok found =>
    obtain ⟨lnkid, ies⟩ := found
    rcases (m1Ies_ok hies).1 with ⟨-, hnone⟩ | ⟨hprivacy, -⟩
    · cases ies with
      | some ies => cases hnone
      | none =>
        simp only [m1Accept]
        have hstands : Stands suite sm addr (some
            { peer with
              initiator := false, dtoken := msg.dtoken, rsnieI := [], rsnieP := []
              cipher := .none, tpkInProgress := true }) .idle := by
          rintro _ ⟨⟩
          obtain ⟨hentry, htpk, hreconfig, hnonce, -⟩ := h peer rfl
          refine ⟨⟨hentry.addr_eq, hentry.buf⟩, htpk, hreconfig, hnonce, fun hprivacy => ?_⟩
          simp [hopen] at hprivacy
        obtain ⟨hquiet, hsent⟩ := sendTpkM2_idle env hstands hopen msg.dtoken lnkid
        cases env.addset with
        | false => exact m1Error_moves _ _
        | true =>
          simp only [Bool.not_true, Bool.false_eq_true, if_false]
          split
          · exact MovesTo.idle hquiet.addset hsent
          · apply MovesTo.before (sendError_quiet addr _ _ _ _).disableLink
            exact MovesTo.drop hquiet.addset
    · simp [hopen] at hprivacy

/-- The entry answers with a new nonce, or with the one before. -/
theorem m1Respond_secure {ψ : TpkPhase} (h : Stands suite sm addr (some peer) ψ)
    (hψ : ψ = .idle ∨ (∃ own other, ψ = .answering own other) ∧ φ = ψ)
    (hprivacy : sm.privacy = true) :
    MovesTo suite sm addr (msg.nonces setupRequest) env.random φ
      (m1Respond suite sm env addr peer msg) := by
  unfold m1Respond
  cases hies : m1Ies sm env msg with
  | error status => exact m1Error_moves _ _
  | ok found =>
    obtain ⟨lnkid, ies⟩ := found
    rcases (m1Ies_ok hies).1 with ⟨hopen, -⟩ | ⟨-, hsome, hftie⟩
    · simp [hprivacy] at hopen
    cases ies with
    | none => cases hsome
    | some ies =>
      have hheard : msg.nonces setupRequest =
          some ⟨setupRequest, ies.ftie.snonce, ies.ftie.anonce⟩ := by
        rw [TdlsMsg.nonces, hftie]
        rfl
      simp only
      rcases m1Accept_cases env h (hψ.imp id And.left) hprivacy msg.dtoken ies with
        hnone | ⟨peer', own, haccept, hanswers, hown⟩
      · rw [hnone]
        exact m1Error_moves _ _
      rw [haccept]
      simp only
      cases env.addset with
      | false => exact m1Error_moves _ _
      | true =>
      simp only [Bool.not_true, Bool.false_eq_true, if_false]
      obtain ⟨next, ok, sent, hsend, hkeys, hsaid, hok⟩ :=
        hanswers.respond env hprivacy msg.dtoken lnkid
      rw [hsend, hheard]
      have hagain : ψ = .answering own ies.ftie.snonce → φ = .answering own ies.ftie.snonce := by
        rintro rfl
        rcases hψ with hidle | ⟨-, rfl⟩
        · cases hidle
        · rfl
      cases ok with
      | true =>
        obtain ⟨hsaid, hstands⟩ := hok rfl
        simp only [if_true]
        apply MovesTo.after Quiet.nil.addset
        refine ⟨_, ?_, hstands⟩
        rcases hown with hrandom | hsame
        · exact .answer φ own _ hrandom rfl rfl hkeys hsaid
        · rw [hagain hsame]
          exact .stay _ hkeys (by rw [hsaid]; exact fun n hn => hn)
      | false =>
        have herror := @sendError_quiet K env addr setupResponse msg.dtoken false
          statusUnspecifiedFailure
        have hfailed : MovesTo suite sm addr
            (some ⟨setupRequest, ies.ftie.snonce, ies.ftie.anonce⟩) env.random φ (none, sent) := by
          refine ⟨.idle, ?_, stands_none⟩
          rcases hsaid with hnone | hsaid
          · exact .drop φ hkeys (by simp [hnone])
          rcases hown with hrandom | hsame
          · exact .answerFailed φ own _ hrandom rfl rfl hkeys hsaid
          · rw [hagain hsame]
            exact .drop _ hkeys (by rw [hsaid]; exact fun n hn => hn)
        exact (hfailed.after Quiet.nil.addset).before herror.disableLink

theorem processTpkM1_moves (h : Stands suite sm addr slot φ) :
    MovesTo suite sm addr (msg.nonces setupRequest) env.random φ
      (processTpkM1 suite sm env addr msg slot) := by
  unfold processTpkM1
  split_ifs with hshort
  · exact MovesTo.stay Quiet.nil h
  rcases addPeer_stands env h with ⟨rfl, hadd⟩ | ⟨peer, hadd, hstands, hsource⟩
  · rw [hadd]
    exact m1Error_moves _ _
  · rw [hadd]
    simp only
    rcases m1Admit_cases hstands with hnone | ⟨peer', out, hallowed, hquiet, hcases⟩
    · rw [hnone]
      exact MovesTo.stay Quiet.nil hstands
    · rw [hallowed]
      apply MovesTo.after hquiet
      rcases hcases with hidle | ⟨own, other, hφ, hanswering⟩
      · by_cases hprivacy : sm.privacy = true
        · exact m1Respond_secure hidle (.inl rfl) hprivacy
        · exact m1Respond_open hidle (by simpa using hprivacy)
      · have hprivacy : sm.privacy = true := by
          rw [hφ] at hanswering
          exact hanswering.1
        exact m1Respond_secure hanswering (.inr ⟨⟨own, other, hφ⟩, rfl⟩) hprivacy

/-- Without privacy M1 carries no nonce. -/
theorem sendTpkM1_open (env : TdlsEnv) (h : Stands suite sm addr (some peer) .idle) (hopen : sm.privacy = false) :
    sendTpkM1 sm env peer = none ∨
      ∃ peer' ok out, sendTpkM1 sm env peer = some (peer', ok, out) ∧ Quiet out ∧
        Stands suite sm addr (some peer') .idle := by
  unfold sendTpkM1
  cases env.alloc with
  | false => exact .inl rfl
  | true =>
    simp only [hopen, Bool.not_true, Bool.not_false, Bool.false_eq_true, if_false, if_true]
    have hstands := h.update [] peer.lifetime peer.smTmr peer.retryTimer fun _ hframe => hframe
    have hsend := @tpkSend_idle K suite sm env addr _
      { action := setupRequest, dtoken := 1, status := 0, initiator := peer.initiator } rfl hstands
    exact .inr ⟨_, _, _, rfl, hsend.1, hsend.2⟩

/-- With privacy it carries a new nonce, which the entry keeps. -/
theorem sendTpkM1_secure (env : TdlsEnv) (h : Stands suite sm addr (some peer) .idle) (hprivacy : sm.privacy = true) :
    sendTpkM1 sm env { peer with initiator := true, tpkInProgress := true } = none ∨
      ∃ own peer' ok out, env.random = some own ∧
        sendTpkM1 sm env { peer with initiator := true, tpkInProgress := true } =
          some (peer', ok, out) ∧
        installed out = [] ∧
        (said out = [] ∨ said out = [⟨setupRequest, own, zeros tdlsNonceLen⟩]) ∧
        (ok = true → said out = [⟨setupRequest, own, zeros tdlsNonceLen⟩] ∧
          Stands suite sm addr (some peer') (.asking own)) := by
  obtain ⟨hentry, htpk, hreconfig, -, hrest⟩ := h peer rfl
  unfold sendTpkM1
  cases env.alloc with
  | false => exact .inl rfl
  | true =>
    cases env.random with
    | none => exact .inl (by simp [hprivacy])
    | some own =>
      simp only [hprivacy, Bool.not_true, Bool.false_eq_true, if_false, if_true, Option.map_some]
      obtain ⟨smTmr, retryTimer, ok, out, hsend, -, hkeys, hsaid, hok⟩ :=
        @tpkSend_cases K env
          { peer with
            initiator := true, tpkInProgress := true, rsnieI := rsnieTpk, inonce := own
            tkSet := false, lifetime := tpkLifetime }
          { action := setupRequest, dtoken := 1, status := 0, initiator := true
            rsnIe := some rsnieTpk
            ftie := some (ftieWith (zeros tdlsMicLen) (zeros tdlsNonceLen) own)
            timeoutie := some (wpaAddTdlsTimeoutie tpkLifetime) } (.inl rfl)
      refine .inr ⟨own, _, ok, out, rfl, by rw [hsend], hkeys, hsaid, fun htrue => ⟨(hok htrue).1, ?_⟩⟩
      refine ⟨hprivacy, _, rfl, ⟨hentry.addr_eq, fun kept hkept n hn => ?_⟩, rfl, rfl, htpk, rfl,
        (hrest hprivacy).2, rfl, hreconfig⟩
      rw [(hok htrue).2] at hkept
      obtain rfl := Option.some.inj hkept
      obtain rfl := Option.some.inj hn
      exact List.mem_singleton.mpr rfl

/-- A request with a new nonce is sent and kept, or the entry is freed. -/
theorem start_moves (h : Stands suite sm addr slot φ)
    (hdown : sm.privacy = true → ∀ peer, slot = some peer → peer.tpkSuccess = false) :
    MovesTo suite sm addr heard env.random φ (start suite sm env addr slot) := by
  unfold start
  split
  · exact MovesTo.stay Quiet.nil h
  rcases addPeer_stands env h with ⟨rfl, hadd⟩ | ⟨peer, hadd, hstands, hsource⟩
  · rw [hadd]
    exact MovesTo.drop Quiet.nil
  rw [hadd]
  simp only
  split
  · exact MovesTo.stay Quiet.nil hstands
  rename_i hprogress
  obtain rfl : φ = .idle := by
    cases φ with
    | idle => rfl
    | asking own =>
      obtain ⟨-, _, ⟨⟩, -, -, -, -, -, -, hasks, -⟩ := hstands
      exact absurd hasks hprogress
    | answering own other =>
      obtain ⟨-, _, ⟨⟩, -, -, -, -, -, -, -, -, hanswers, -⟩ := hstands
      exact absurd hanswers hprogress
    | connected initiator own other =>
      obtain ⟨hprivacy, _, ⟨⟩, -, -, -, -, -, -, -, hup⟩ := hstands
      rcases hsource with hslot | rfl
      · rw [hdown hprivacy peer hslot] at hup
        cases hup
      · cases hup
  cases env.addset with
  | false => exact MovesTo.drop Quiet.nil.disableLink
  | true =>
    simp only [Bool.not_true, Bool.false_eq_true, if_false]
    by_cases hprivacy : sm.privacy = true
    · rcases sendTpkM1_secure env hstands hprivacy with
        hnone | ⟨own, peer', ok, sent, hrandom, hsend, hkeys, hsaid, hok⟩
      · rw [hnone]
        exact MovesTo.drop Quiet.nil.addset
      rw [hsend]
      cases ok with
      | true =>
        obtain ⟨hsaid, hasking⟩ := hok rfl
        exact MovesTo.after Quiet.nil.addset ⟨_, .ask .idle own hrandom hkeys hsaid, hasking⟩
      | false =>
        apply MovesTo.before Quiet.nil.disableLink
        apply MovesTo.after Quiet.nil.addset
        refine ⟨.idle, ?_, stands_none⟩
        rcases hsaid with hnone | hsaid
        · exact .drop .idle hkeys (by simp [hnone])
        · exact .askFailed .idle own hrandom hkeys hsaid
    · have hopen : sm.privacy = false := by simpa using hprivacy
      have hstands' : Stands suite sm addr
          (some { peer with initiator := true, tpkInProgress := true }) .idle := by
        rintro _ ⟨⟩
        obtain ⟨hentry, htpk, hreconfig, hnonce, -⟩ := hstands peer rfl
        exact ⟨⟨hentry.addr_eq, hentry.buf⟩, htpk, hreconfig, hnonce, fun h => absurd h hprivacy⟩
      rcases sendTpkM1_open env hstands' hopen with
        hnone | ⟨peer', ok, sent, hsend, hquiet, hidle⟩
      · rw [hnone]
        exact MovesTo.drop Quiet.nil.addset
      rw [hsend]
      cases ok with
      | true => exact MovesTo.idle hquiet.addset hidle
      | false => exact MovesTo.drop (hquiet.addset.append Quiet.nil.disableLink)

/-- What an idle entry does is done from any phase where it has been freed before. -/
theorem MovesTo.of_idle {result : Slot K × List (TdlsOut K)}
    (h : MovesTo suite sm addr heard random .idle result) :
    MovesTo suite sm addr heard random φ result := by
  obtain ⟨φ', hmoves, hstands⟩ := h
  have hnone {out : List (TdlsOut K)} (hsaid : ∀ n ∈ said out, n ∈ TpkPhase.idle.resends) :
      ∀ n ∈ said out, n ∈ φ.resends := by
    intro n hn
    cases hsaid n hn
  cases hmoves with
  | stay _ hkeys hsaid => exact ⟨.idle, .drop φ hkeys (hnone hsaid), hstands⟩
  | drop _ hkeys hsaid => exact ⟨.idle, .drop φ hkeys (hnone hsaid), hstands⟩
  | ask _ own hr hkeys hsaid => exact ⟨_, .ask φ own hr hkeys hsaid, hstands⟩
  | askFailed _ own hr hkeys hsaid => exact ⟨_, .askFailed φ own hr hkeys hsaid, hstands⟩
  | answer _ own n hr hn hreq hkeys hsaid =>
    exact ⟨_, .answer φ own n hr hn hreq hkeys hsaid, hstands⟩
  | answerFailed _ own n hr hn hreq hkeys hsaid =>
    exact ⟨_, .answerFailed φ own n hr hn hreq hkeys hsaid, hstands⟩

theorem tpkTimeout_moves {env' : TdlsEnv} (h : Stands suite sm addr slot φ) :
    MovesTo suite sm addr heard env'.random φ (tpkTimeout suite sm env env' addr slot) := by
  cases slot with
  | none => exact MovesTo.stay Quiet.nil h
  | some peer =>
    unfold tpkTimeout
    simp only
    split_ifs with htimer hinit
    · exact MovesTo.stay Quiet.nil h
    · apply MovesTo.after (doTeardown_quiet peer).2
      apply MovesTo.of_idle
      exact start_moves stands_none fun _ peer hpeer => by cases hpeer
    · exact MovesTo.teardown peer

theorem tpkRetryTimeout_moves (h : Stands suite sm addr slot φ) :
    MovesTo suite sm addr heard random φ (tpkRetryTimeout suite sm env slot) := by
  cases slot with
  | none => exact MovesTo.stay Quiet.nil h
  | some peer =>
    unfold tpkRetryTimeout
    simp only
    split
    · exact MovesTo.stay Quiet.nil h
    split
    · exact MovesTo.teardown peer
    cases hbuf : peer.smTmr.buf with
    | none =>
      apply MovesTo.stay Quiet.nil
      refine h.update peer.rsnieI peer.lifetime _ false fun frame hframe => ?_
      cases hframe
    | some frame =>
      have hstands := h.update peer.rsnieI peer.lifetime
        { peer.smTmr with count := peer.smTmr.count - 1 } peer.retryTimer fun _ hframe => hframe
      simp only [hbuf] at hstands
      refine ⟨φ, ?_, hstands⟩
      cases env.send with
      | false => exact .stay φ rfl (by simp)
      | true =>
        refine .stay φ rfl fun n hn => h.entry.buf frame hbuf n ?_
        simp only [if_true] at hn
        rw [said_send, said_nil, List.append_nil, Option.mem_toList] at hn
        exact hn

theorem remove_moves (h : Stands suite sm addr slot φ) :
    MovesTo suite sm addr heard random φ (remove suite sm env slot) := by
  unfold remove
  split_ifs with hoff
  · exact MovesTo.stay Quiet.nil h
  cases slot with
  | none => exact MovesTo.stay Quiet.nil h
  | some peer =>
    simp only
    split_ifs with hup
    · exact MovesTo.teardown peer
    · exact MovesTo.stay Quiet.nil h

theorem recvTeardown_moves (h : Stands suite sm addr slot φ) :
    MovesTo suite sm addr heard random φ (recvTeardown suite sm msg slot) := by
  cases slot with
  | none => exact MovesTo.stay Quiet.nil h
  | some peer =>
    unfold recvTeardown
    cases msg.ies.lnkid with
    | none => exact MovesTo.stay Quiet.nil h
    | some lnkid =>
      simp only
      split_ifs with hopen
      · exact MovesTo.drop Quiet.nil.disableLink
      cases msg.ies.ftie with
      | none => exact MovesTo.stay Quiet.nil h
      | some ftie =>
        simp only
        split_ifs with hmic
        · exact MovesTo.stay Quiet.nil h
        · exact MovesTo.drop Quiet.nil.disableLink

/-- A message that is not kept. -/
theorem tpkSend_once {frame : TdlsFrame} (hframe : frame.nonces = none)
    (haction : ¬(frame.action = setupRequest ∨ frame.action = setupResponse)) :
    (peer.tpkSend env frame).1 = peer ∧ Quiet (peer.tpkSend env frame).2.2 := by
  unfold Peer.tpkSend
  rw [if_neg haction]
  cases env.send with
  | false => exact ⟨rfl, Quiet.nil⟩
  | true => exact ⟨rfl, Quiet.nil.send hframe⟩

theorem processDiscoveryRequest_moves (h : Stands suite sm addr slot φ) :
    MovesTo suite sm addr heard random φ (processDiscoveryRequest suite sm env addr msg slot) := by
  unfold processDiscoveryRequest
  split
  · exact MovesTo.stay Quiet.nil h
  cases msg.ies.lnkid with
  | none => exact MovesTo.stay Quiet.nil h
  | some lnkid =>
    simp only
    split
    · exact MovesTo.stay Quiet.nil h
    rcases addPeer_stands env h with ⟨rfl, hadd⟩ | ⟨peer, hadd, hstands, -⟩
    · rw [hadd]
      exact MovesTo.drop Quiet.nil
    · rw [hadd]
      cases env.alloc with
      | false => exact MovesTo.drop Quiet.nil
      | true =>
        simp only [Bool.not_true, Bool.false_eq_true, if_false]
        have hnotKept : ¬(discoveryResponse = setupRequest ∨ discoveryResponse = setupResponse) := by
          decide
        have hlisted (rsnieI : Bytes) (lifetime : ℕ) (rsnIe timeoutie : Option Bytes) :
            MovesTo suite sm addr heard random φ
              (some ({ peer with rsnieI, lifetime }.tpkSend env
                { action := discoveryResponse, dtoken := msg.dtoken, status := 0, initiator := false
                  rsnIe, timeoutie }).1,
              ({ peer with rsnieI, lifetime }.tpkSend env
                { action := discoveryResponse, dtoken := msg.dtoken, status := 0, initiator := false
                  rsnIe, timeoutie }).2.2) := by
          obtain ⟨hpeer, hquiet⟩ := @tpkSend_once K env { peer with rsnieI, lifetime }
            { action := discoveryResponse, dtoken := msg.dtoken, status := 0, initiator := false
              rsnIe, timeoutie } rfl hnotKept
          rw [hpeer]
          exact MovesTo.stay hquiet
            (hstands.update rsnieI lifetime peer.smTmr peer.retryTimer fun _ hframe => hframe)
        cases sm.privacy with
        | true => exact hlisted _ _ _ _
        | false => exact hlisted peer.rsnieI peer.lifetime none none

end Requests

section Act
variable {K : Type} {suite : TpkSuite K} {sm : TdlsSm} {env : TdlsEnv} {addr : StaAddr}
  {slot : Slot K} {φ : TpkPhase}

/-- The nonce that an action draws, if it draws one. -/
def TdlsAction.random (env : TdlsEnv) : TdlsAction → Option Bytes
  | .tpkTimeout env' => env'.random
  | _ => env.random

/-- Each action moves the entry, if no request is made while its link is up. -/
theorem act_moves (h : Stands suite sm addr slot φ) (action : TdlsAction)
    (hdown : action = .start → sm.privacy = true → ∀ peer, slot = some peer →
      peer.tpkSuccess = false) :
    MovesTo suite sm addr action.heard (action.random env) φ
      (act suite sm env addr slot action) := by
  cases action with
  | tpkM1 msg => exact processTpkM1_moves h
  | tpkM2 msg => exact processTpkM2_moves h
  | tpkM3 msg => exact processTpkM3_moves h
  | teardown msg => exact recvTeardown_moves h
  | discovery msg => exact processDiscoveryRequest_moves h
  | ignored => exact MovesTo.stay Quiet.nil h
  | start => exact start_moves h (hdown rfl)
  | remove => exact remove_moves h
  | tpkRetryTimeout => exact tpkRetryTimeout_moves h
  | tpkTimeout env' => exact tpkTimeout_moves h

end Act

end Wpa.Tdls
