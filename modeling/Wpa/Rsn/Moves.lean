import Wpa.Rsn.Rx

/-! What the message handlers can do, as paths of elementary moves: one relation for message 1/4,
one for the messages that carry keys. Every invariant of the supplicant is checked against these
moves and not against the handlers. -/

namespace Wpa.Rsn
open Lib Bytes Prog Relation

/-- The state with the fields erased that any move may write: none of them decides which key is
accepted or installed. -/
def Sm.core (sm : Sm) : Sm :=
  { sm with
    wpaState := .disconnected
    ap := {}
    keyidxActive := 0
    useExtKeyId := false
    xxkey := []
    pmkR0 := []
    pmkR0Name := []
    pmkR1 := []
    pmkR1Name := []
    p2pIpAddr := []
    msg3Of4Ok := false
    ftCompleted := false }

/-- The part of the state machine that no message handler writes. -/
structure Fixed where
  rxReplayCounter : Bytes
  rxReplayCounterSet : Bool
  requestCounter : Bytes
  proto : Proto
  pairwiseCipher : ℕ
  groupCipher : ℕ
  keyMgmt : ℕ
  mgmtGroupCipher : ℕ
  ownAddr : Bytes
  assocWpaIe : Option Bytes
  rsnOverride : RsnOverride
  dppZ : Option Bytes

def Sm.fixed (sm : Sm) : Fixed where
  rxReplayCounter := sm.rxReplayCounter
  rxReplayCounterSet := sm.rxReplayCounterSet
  requestCounter := sm.requestCounter
  proto := sm.proto
  pairwiseCipher := sm.pairwiseCipher
  groupCipher := sm.groupCipher
  keyMgmt := sm.keyMgmt
  mgmtGroupCipher := sm.mgmtGroupCipher
  ownAddr := sm.ownAddr
  assocWpaIe := sm.assocWpaIe
  rsnOverride := sm.rsnOverride
  dppZ := sm.dppZ

/-- What the base moves leave alone: `Fixed` and the nonces. -/
def Sm.steady (sm : Sm) : Fixed × Bytes × Bytes × Bool :=
  (sm.fixed, sm.snonce, sm.anonce, sm.renewSnonce)

namespace Act

/-- Actions that no key depends on. -/
def plain : Act → Bool
  | setState s => s ≠ .completed
  | deauthenticate _ => true
  | reconnect => true
  | etherSend _ _ => true
  | _ => false

/-- A key reaches the driver, or the connection is reported complete. -/
def installs : Act → Bool
  | setKey _ => true
  | setState s => s = .completed
  | _ => false

/-- The received frame was authenticated. -/
def verifies : Act → Bool
  | micVerified _ _ => true
  | aeadVerified _ _ => true
  | _ => false

end Act

/-- Where the PMK can come from while a frame is processed. -/
def PmkSource (e : Env) (sm : Sm) (pmk : Bytes) : Prop :=
  pmk = sm.pmk ∨ pmk = [] ∨ (∃ entry, sm.curPmksa = some entry ∧ pmk = entry.pmk) ∨
    (∃ n, e.eapolGetKey n = some pmk) ∨ (wpaKeyMgmtFt sm.keyMgmt ∧ ∃ n, pmk = zeros n)

def PmksaSource (e : Env) (sm : Sm) (entry : Option Pmksa) : Prop :=
  entry = sm.curPmksa ∨ entry = none ∨ entry = e.pmksaGet ∨ entry = e.pmksaAdd.entry

/-- The moves that every handler shares. -/
inductive BaseMove (e : Env) : Cfg Sm Act → Cfg Sm Act → Prop
  | plain {s t : Sm} {out : List Act} (acts : List Act) (hst : t.core = s.core)
      (hacts : ∀ a ∈ acts, a.plain) : BaseMove e ⟨s, out⟩ ⟨t, out ++ acts⟩
  | disconnect {s : Sm} {out : List Act} : BaseMove e ⟨s, out⟩ ⟨disconnect s, out⟩
  | pmksa {s : Sm} {out : List Act} {entry : Option Pmksa} (h : PmksaSource e s entry) :
      BaseMove e ⟨s, out⟩ ⟨{ s with curPmksa := entry }, out⟩
  | bssid {s : Sm} {out : List Act} {b : Bytes} (hs : s.bssid = zeros 6)
      (hb : e.getBssid = some b) : BaseMove e ⟨s, out⟩ ⟨{ s with bssid := b }, out⟩

/-- The moves of message 1/4 with the given header. -/
inductive Move1Of4 (e : Env) (key : EapolKey) (ver : ℕ) : Cfg Sm Act → Cfg Sm Act → Prop
  | base {c c' : Cfg Sm Act} (h : BaseMove e c c') : Move1Of4 e key ver c c'
  | pmk {s t : Sm} {out : List Act} (hst : t.core = { s.core with pmk := t.pmk })
      (h : PmkSource e s t.pmk) : Move1Of4 e key ver ⟨s, out⟩ ⟨t, out⟩
  | renew {s : Sm} {out : List Act} (r : Bytes) (hs : s.renewSnonce) :
      Move1Of4 e key ver ⟨s, out⟩
        ⟨{ s with snonce := r, renewSnonce := false }, out ++ [.renewSnonce r]⟩
  | derive {s : Sm} {out : List Act} (ptk : Ptk) (hs : s.renewSnonce = false)
      (hptk : ¬wpaKeyMgmtFt s.keyMgmt → pairwiseKey e s key.keyNonce = some ptk)
      (hfils : filsAkm s.keyMgmt → ptk.kck = []) :
      Move1Of4 e key ver ⟨s, out⟩
        ⟨{ s with tptk := storedTptk s ptk, tptkSet := true },
          out ++ [.derivePtk key.keyNonce s.snonce (storedTptk s ptk)]⟩
  | mic {s : Sm} {out : List Act} {kdes ies : Bytes} (hkdes : msg2Of4Kdes e s = some kdes)
      (hies : msg2Of4Ies e s kdes = some ies) :
      Move1Of4 e key ver ⟨s, out⟩ ⟨s, out ++ [.mic s.tptk.kck ver
        (replyFrame e s key (ver ||| keyInfoKeyType ||| protectionBit s.micLen) s.snonce
          ies).write]⟩
  | anonce {s : Sm} {out : List Act} :
      Move1Of4 e key ver ⟨s, out⟩ ⟨{ s with anonce := key.keyNonce }, out⟩

section Base
variable {e : Env}

theorem plain_update {g : Sm → Sm} (h : ∀ s, (g s).core = s.core) :
    Keeps (ReflTransGen (BaseMove e)) (update g) e := by
  intro c
  have hmove := @BaseMove.plain e c.st _ c.out [] (h c.st) (by simp)
  rw [List.append_nil] at hmove
  exact .single hmove

theorem plain_emit {a : Act} (h : a.plain) : Keeps (ReflTransGen (BaseMove e)) (emit a) e :=
  fun _ => .single (BaseMove.plain [a] rfl (by simpa using h))

theorem pmksa_update {g : Sm → Option Pmksa} (h : ∀ s, PmksaSource e s (g s)) :
    Keeps (ReflTransGen (BaseMove e)) (update fun sm => { sm with curPmksa := g sm }) e :=
  fun c => .single (BaseMove.pmksa (h c.st))

theorem disconnect_update : Keeps (ReflTransGen (BaseMove e)) (update disconnect) e :=
  fun _ => .single BaseMove.disconnect

/-- Paths of base moves embed in any relation that has them. -/
theorem base_lift {Mv : Cfg Sm Act → Cfg Sm Act → Prop} (h : ∀ c c', BaseMove e c c' → Mv c c')
    {α : Type} {x : M α} (hx : Keeps (ReflTransGen (BaseMove e)) x e) :
    Keeps (ReflTransGen Mv) x e :=
  hx.mono fun c c' => ReflTransGen.mono h c c'

theorem wpaSmSetState_moves {s : WpaState} (h : s ≠ .completed) :
    Keeps (ReflTransGen (BaseMove e)) (wpaSmSetState s) e :=
  Keeps.bind (plain_emit (by simpa [Act.plain] using h)) fun _ => plain_update fun _ => rfl

theorem wpaSmDeauthenticate_moves {reason : ℕ} :
    Keeps (ReflTransGen (BaseMove e)) (wpaSmDeauthenticate reason) e :=
  Keeps.bind (plain_emit rfl) fun _ => disconnect_update

theorem wpaSmReconnect_moves : Keeps (ReflTransGen (BaseMove e)) wpaSmReconnect e :=
  Keeps.bind (plain_emit rfl) fun _ => disconnect_update

theorem failed_moves : Keeps (ReflTransGen (BaseMove e)) failed e := wpaSmDeauthenticate_moves

theorem pmksaCacheAdd_moves : Keeps (ReflTransGen (BaseMove e)) pmksaCacheAdd e := by
  refine Keeps.ask_bind ?_
  refine Keeps.bind (Keeps.when fun _ => ?_) fun _ => Keeps.bind (Keeps.when fun _ => ?_) fun _ =>
    Keeps.pure _
  · exact pmksa_update fun _ => .inr (.inl rfl)
  · -- what the callback erases is erased once more by the disconnection
    intro c
    have hrun : ((do
        update fun sm => { sm with curPmksa := none, pmk := [] }
        wpaSmDeauthenticate reasonUnspecified : M Unit) e c).2 =
        ⟨disconnect c.st, c.out ++ [.deauthenticate reasonUnspecified]⟩ := rfl
    rw [hrun]
    exact wpaSmDeauthenticate_moves c

theorem pmksaCacheAdd_entry (c : Cfg Sm Act) : (pmksaCacheAdd e c).1 = e.pmksaAdd.entry := rfl

end Base

theorem BaseMove.frame {e : Env} {c c' : Cfg Sm Act} (h : BaseMove e c c') :
    Frame Sm.steady (fun a => a.plain) c c' := by
  cases h with
  | plain acts hst hacts =>
    have hsteady := congrArg Sm.steady hst
    exact ⟨hsteady, acts, rfl, hacts⟩
  | disconnect => exact ⟨rfl, [], (List.append_nil _).symm, by simp⟩
  | pmksa => exact ⟨rfl, [], (List.append_nil _).symm, by simp⟩
  | bssid => exact ⟨rfl, [], (List.append_nil _).symm, by simp⟩

theorem base_frame {e : Env} {α : Type} {x : M α} (hx : Keeps (ReflTransGen (BaseMove e)) x e) :
    Keeps (Frame Sm.steady fun a => a.plain) x e :=
  fun c => path_induction (R := Frame Sm.steady fun a => a.plain) (fun _ _ => BaseMove.frame) (hx c)

theorem Act.not_installs_of_plain {a : Act} (h : a.plain) :
    a.installs = false ∧ a.verifies = false := by
  cases a <;> simp_all [Act.plain, Act.installs, Act.verifies]

theorem BaseMove.fixed {e : Env} {c c' : Cfg Sm Act} (h : BaseMove e c c') :
    Frame Sm.fixed (fun a => a.installs = false ∧ a.verifies = false) c c' := by
  obtain ⟨hst, new, hout, hnew⟩ := h.frame
  exact ⟨congrArg Prod.fst hst, new, hout, fun a ha => Act.not_installs_of_plain (hnew a ha)⟩

theorem base_keyMgmt {e : Env} {α : Type} {x : M α} (hx : Keeps (ReflTransGen (BaseMove e)) x e)
    (c : Cfg Sm Act) : (x e c).2.st.keyMgmt = c.st.keyMgmt :=
  congrArg (·.1.keyMgmt) (base_frame hx c).1

theorem base_renewSnonce {e : Env} {α : Type} {x : M α}
    (hx : Keeps (ReflTransGen (BaseMove e)) x e) (c : Cfg Sm Act) :
    (x e c).2.st.renewSnonce = c.st.renewSnonce :=
  congrArg (·.2.2.2) (base_frame hx c).1

section GetPmk
variable {e : Env}

theorem curPmksa_or_update {sa : Option Pmksa} (h : sa = none ∨ sa = e.pmksaAdd.entry) :
    Keeps (ReflTransGen (BaseMove e))
      (update fun sm => { sm with curPmksa := sm.curPmksa.or sa }) e := by
  refine pmksa_update fun s => ?_
  cases hs : s.curPmksa with
  | some entry => exact .inl (by simp [hs])
  | none =>
    rcases h with rfl | rfl
    · exact .inr (.inl (by simp))
    · exact .inr (.inr (.inr (by simp)))

theorem requestFullEap_moves {abortCached : Bool} :
    Keeps (ReflTransGen (BaseMove e)) (requestFullEap abortCached) e := by
  refine Keeps.ask_bind (Keeps.bind Keeps.get fun sm => ?_)
  split_ifs
  · exact Keeps.bind (plain_emit rfl) fun _ => Keeps.pure _
  · exact Keeps.pure _
  · exact Keeps.pure _

theorem cacheXxkey_moves {xxkey : Bytes} :
    Keeps (ReflTransGen (BaseMove e)) (cacheXxkey xxkey) e := by
  refine Keeps.bind (plain_update fun _ => rfl) fun _ => Keeps.bind Keeps.get fun sm =>
    Keeps.when fun _ => Keeps.bind_of pmksaCacheAdd_moves fun c => ?_
  exact curPmksa_or_update (.inr (pmksaCacheAdd_entry c)) _

theorem cacheEapolPmk_moves : Keeps (ReflTransGen (BaseMove e)) cacheEapolPmk e := by
  refine Keeps.bind Keeps.get fun sm => ?_
  split_ifs
  · exact pmksaCacheAdd_moves
  · exact Keeps.pure _

theorem cacheEapolPmk_entry (c : Cfg Sm Act) :
    (cacheEapolPmk e c).1 = none ∨ (cacheEapolPmk e c).1 = e.pmksaAdd.entry := by
  simp only [cacheEapolPmk, get_bind_apply, Prog.ite_apply]
  split_ifs
  · exact .inr (pmksaCacheAdd_entry c)
  · exact .inl rfl

theorem matchEapolPmkid_moves {pmkid : Option Bytes} {sa : Option Pmksa} {abortCached : Bool}
    (hsa : sa = none ∨ sa = e.pmksaAdd.entry) :
    Keeps (ReflTransGen (BaseMove e)) (matchEapolPmkid pmkid sa abortCached) e := by
  refine Keeps.ask_bind (Keeps.bind Keeps.get fun sm => ?_)
  split_ifs
  · exact Keeps.bind (curPmksa_or_update hsa) fun _ => requestFullEap_moves
  · exact Keeps.pure _
  · exact Keeps.bind (curPmksa_or_update hsa) fun _ => requestFullEap_moves

theorem lookupPmksa_moves {pmkid : Option Bytes} :
    Keeps (ReflTransGen (BaseMove e)) (lookupPmksa pmkid) e := by
  refine Keeps.ask_bind (Keeps.bind Keeps.get fun sm => ?_)
  split_ifs
  · exact Keeps.bind (pmksa_update fun _ => .inr (.inr (.inl rfl))) fun _ => Keeps.pure _
  · exact Keeps.pure _

theorem eapolPmk_source {sm : Sm} {pmk : Bytes} (h : eapolPmk e sm = some pmk) :
    ∃ n, e.eapolGetKey n = some pmk := by
  unfold eapolPmk at h
  split_ifs at h
  · exact ⟨_, h⟩
  · split at h
    · cases h
      exact ⟨_, by assumption⟩
    · exact ⟨_, h⟩

end GetPmk
section Send
variable {e : Env} {Mv : Cfg Sm Act → Cfg Sm Act → Prop}

theorem fetchBssid_moves (dest : Bytes) :
    Keeps (ReflTransGen (BaseMove e)) (fetchBssid dest) e := by
  refine Keeps.ask_bind (Keeps.get_bind fun c => ?_)
  rw [Prog.ite_apply]
  split_ifs with h
  · cases hb : e.getBssid with
    | none => exact .refl
    | some b => exact .single (BaseMove.bssid h.2 hb)
  · exact .refl

theorem fetchBssid_st (dest : Bytes) (c : Cfg Sm Act) :
    ∃ b, (fetchBssid dest e c).2 = ⟨{ c.st with bssid := b }, c.out⟩ := by
  simp only [fetchBssid, ask_bind_apply, get_bind_apply, Prog.ite_apply]
  split_ifs
  · cases e.getBssid with
    | none => exact ⟨_, rfl⟩
    | some b => exact ⟨_, rfl⟩
  · exact ⟨_, rfl⟩

theorem sendProtected_moves (hbase : ∀ c c', BaseMove e c c' → Mv c c') {ptk : Ptk} {ver : ℕ}
    {dest : Bytes} {f : EapolFrame} {keyMic : Bool} {c : Cfg Sm Act}
    (hmic : Mv c ⟨c.st, c.out ++ [.mic ptk.kck ver f.write]⟩) :
    ReflTransGen Mv c (sendProtected ptk ver dest f keyMic e c).2 := by
  simp only [sendProtected, ask_bind_apply, get_bind_apply]
  refine ReflTransGen.trans
    (b := (Prog.when (c.st.micLen ≠ 0 ∧ keyMic ∧ ptk.kck.length ≠ 0)
      (emit (.mic ptk.kck ver f.write)) e c).2) ?_ ?_
  · rw [when_apply]
    split_ifs
    · exact .single hmic
    · exact .refl
  · rw [bind_apply]
    cases protectFrame e c.st ptk ver f keyMic with
    | none => exact .refl
    | some frame => exact base_lift hbase (plain_emit rfl) _

/-- A frame is sent along moves if its MIC may be computed whatever BSSID is used. -/
theorem wpaEapolKeySend_moves (hbase : ∀ c c', BaseMove e c c' → Mv c c') {ptk : Ptk} {ver : ℕ}
    {dest : Bytes} {f : EapolFrame} {keyMic : Bool} {c : Cfg Sm Act}
    (hmic : ∀ b, Mv ⟨{ c.st with bssid := b }, c.out⟩
      ⟨{ c.st with bssid := b }, c.out ++ [.mic ptk.kck ver f.write]⟩) :
    ReflTransGen Mv c (wpaEapolKeySend ptk ver dest f keyMic e c).2 := by
  refine (base_lift hbase (fetchBssid_moves dest) c).trans ?_
  obtain ⟨b, hb⟩ := fetchBssid_st (e := e) dest c
  refine sendProtected_moves hbase ?_
  rw [hb]
  exact hmic b

end Send

section Message1Of4
variable {e : Env} {key : EapolKey} {ver : ℕ}

theorem base_1Of4 {α : Type} {x : M α} (hx : Keeps (ReflTransGen (BaseMove e)) x e) :
    Keeps (ReflTransGen (Move1Of4 e key ver)) x e :=
  base_lift (fun _ _ => Move1Of4.base) hx

theorem usePmksa_moves : Keeps (ReflTransGen (Move1Of4 e key ver)) usePmksa e := by
  intro c
  refine .single (Move1Of4.pmk rfl ?_)
  change PmkSource e c.st ((c.st.curPmksa.map Pmksa.pmk).getD [])
  cases hs : c.st.curPmksa with
  | none => exact .inr (.inl rfl)
  | some entry => exact .inr (.inr (.inl ⟨entry, hs, rfl⟩))

theorem storePmk_moves {pmk : Bytes} {erased : Bool} {c : Cfg Sm Act}
    (hpmk : ∃ n, e.eapolGetKey n = some pmk) (her : erased → wpaKeyMgmtFt c.st.keyMgmt) :
    ReflTransGen (Move1Of4 e key ver) c
      ⟨{ c.st with pmk := if erased then zeros pmk.length else pmk }, c.out⟩ := by
  refine .single (Move1Of4.pmk rfl ?_)
  cases erased with
  | false => exact .inr (.inr (.inr (.inl hpmk)))
  | true => exact .inr (.inr (.inr (.inr ⟨her rfl, _, rfl⟩)))

theorem storeEapolPmk_moves {pmk : Bytes} (hpmk : ∃ n, e.eapolGetKey n = some pmk) :
    Keeps (ReflTransGen (Move1Of4 e key ver)) (storeEapolPmk pmk) e := by
  refine Keeps.ask_bind (Keeps.get_bind fun c => ?_)
  have hcache : Keeps (ReflTransGen (BaseMove e)) (Prog.when (eapolXxkey e c.st).isSome
      (cacheXxkey ((eapolXxkey e c.st).getD []))) e :=
    Keeps.when fun _ => cacheXxkey_moves
  refine (base_1Of4 hcache c).trans (storePmk_moves hpmk fun her => ?_)
  simp only [Bool.and_eq_true, decide_eq_true_eq] at her
  exact (congrArg wpaKeyMgmtFt (base_keyMgmt hcache c)).trans her.1.2.2

theorem pmkFromEapol_moves {pmkid : Option Bytes} {pmk : Bytes} {abortCached : Bool}
    (hpmk : ∃ n, e.eapolGetKey n = some pmk) :
    Keeps (ReflTransGen (Move1Of4 e key ver)) (pmkFromEapol pmkid pmk abortCached) e :=
  Keeps.bind (storeEapolPmk_moves hpmk) fun _ => base_1Of4 (Keeps.bind_of cacheEapolPmk_moves
    fun c => matchEapolPmkid_moves (cacheEapolPmk_entry c) _)

theorem pmkFromEap_moves {pmkid : Option Bytes} {abortCached : Bool} :
    Keeps (ReflTransGen (Move1Of4 e key ver)) (pmkFromEap pmkid abortCached) e := by
  refine Keeps.ask_bind (Keeps.bind Keeps.get fun sm => ?_)
  split
  · exact pmkFromEapol_moves (eapolPmk_source (by assumption))
  · split_ifs
    · exact base_1Of4 requestFullEap_moves
    · exact base_1Of4 (Keeps.bind (pmksa_update fun _ => .inr (.inl rfl)) fun _ =>
        requestFullEap_moves)
    · exact base_1Of4 requestFullEap_moves
    · exact Keeps.pure _

theorem wpaSupplicantGetPmk_moves {pmkid : Option Bytes} :
    Keeps (ReflTransGen (Move1Of4 e key ver)) (wpaSupplicantGetPmk pmkid) e := by
  refine Keeps.bind (base_1Of4 lookupPmksa_moves) fun abortCached =>
    Keeps.bind Keeps.get fun sm => ?_
  split_ifs
  · exact Keeps.bind usePmksa_moves fun _ => base_1Of4 requestFullEap_moves
  · exact pmkFromEap_moves
  · exact base_1Of4 requestFullEap_moves

theorem renewSnonceIfDue_moves :
    Keeps (ReflTransGen (Move1Of4 e key ver)) renewSnonceIfDue e := by
  refine Keeps.ask_bind (Keeps.get_bind fun c => ?_)
  rw [Prog.ite_apply]
  split_ifs with hdue
  · cases e.random with
    | none => exact .refl
    | some r => exact .single (Move1Of4.renew _ hdue)
  · exact .refl

theorem renewSnonceIfDue_done {c : Cfg Sm Act} (h : (renewSnonceIfDue e c).1 = true) :
    (renewSnonceIfDue e c).2.st.renewSnonce = false := by
  simp only [renewSnonceIfDue, ask_bind_apply, get_bind_apply, Prog.ite_apply] at h ⊢
  split_ifs at h ⊢ with hdue
  · cases hr : e.random with
    | none => simp [hr] at h
    | some r => rfl
  · simpa using hdue

/-- Deriving the PTK for fast transition writes no field of the core. -/
theorem wpaDerivePtkFt_moves {anonce : Bytes} :
    Keeps (ReflTransGen (BaseMove e)) (wpaDerivePtkFt anonce) e := by
  refine Keeps.ask_bind (Keeps.bind Keeps.get fun sm => ?_)
  split
  · exact Keeps.pure _
  · split
    · exact Keeps.pure _
    · refine Keeps.bind (plain_update fun _ => rfl) fun _ => ?_
      split
      · exact Keeps.pure _
      · exact Keeps.bind (plain_update fun _ => rfl) fun _ => Keeps.pure _

theorem wpaDerivePtk_moves (anonce : Bytes) :
    Keeps (ReflTransGen (BaseMove e)) (wpaDerivePtk anonce) e := by
  refine Keeps.ask_bind (Keeps.bind Keeps.get fun sm => ?_)
  split_ifs
  · exact wpaDerivePtkFt_moves
  · exact Keeps.pure _

theorem wpaDerivePtk_eq {anonce : Bytes} {c : Cfg Sm Act} (h : ¬wpaKeyMgmtFt c.st.keyMgmt) :
    wpaDerivePtk anonce e c = (pairwiseKey e c.st anonce, c) := by
  simp only [wpaDerivePtk, ask_bind_apply, get_bind_apply, Prog.ite_apply, if_neg h]
  rfl

theorem pairwiseKey_kck_of_fils {s : Sm} {anonce : Bytes} {ptk : Ptk}
    (h : pairwiseKey e s anonce = some ptk) (hf : filsAkm s.keyMgmt) : ptk.kck = [] := by
  have howe : s.keyMgmt ≠ keyMgmtOwe := by
    intro h
    rw [h] at hf
    revert hf
    decide
  simp only [pairwiseKey, howe, false_and, and_false, if_false] at h
  exact wpaPmkToPtk_kck_of_fils h hf

theorem pairwiseKey_pmk_of_sized {s : Sm} {anonce : Bytes} {ptk : Ptk}
    (h : pairwiseKey e s anonce = some ptk) (hs : pmkSizedAkm s.keyMgmt) : 2 ≤ s.pmk.length := by
  unfold pairwiseKey at h
  by_cases hw : s.owePtkWorkaround ∧ s.keyMgmt = keyMgmtOwe ∧ s.pmk.length > 32
  · omega
  · rw [if_neg hw] at h
    exact wpaPmkToPtk_pmk_of_sized h hs

theorem wpaDerivePtkFt_kck_of_fils {anonce : Bytes} {c : Cfg Sm Act} {ptk : Ptk}
    (h : (wpaDerivePtkFt anonce e c).1 = some ptk) (hf : filsAkm c.st.keyMgmt) : ptk.kck = [] := by
  simp only [wpaDerivePtkFt, ask_bind_apply, get_bind_apply] at h
  cases hm : c.st.mpmk with
  | none => simp [hm] at h
  | some mpmk =>
    simp only [hm] at h
    cases hr0 : wpaDerivePmkR0 e.cr mpmk c.st.ssid c.st.mobilityDomain c.st.r0khId c.st.ownAddr
        (wpaKeyMgmtSha384 c.st.keyMgmt) with
    | none => simp [hr0] at h
    | some r0 =>
      simp only [hr0, bind_apply] at h
      cases hr1 : wpaDerivePmkR1 e.cr r0.1 r0.2 c.st.r1khId c.st.ownAddr with
      | none => simp [hr1] at h
      | some r1 =>
        simp only [hr1, bind_apply, pure_apply] at h
        exact wpaPmkR1ToPtk_kck_of_fils h hf

theorem wpaDerivePtk_kck_of_fils {anonce : Bytes} {c : Cfg Sm Act} {ptk : Ptk}
    (h : (wpaDerivePtk anonce e c).1 = some ptk) (hf : filsAkm c.st.keyMgmt) : ptk.kck = [] := by
  by_cases hft : wpaKeyMgmtFt c.st.keyMgmt
  · simp only [wpaDerivePtk, ask_bind_apply, get_bind_apply, Prog.ite_apply, if_pos hft] at h
    exact wpaDerivePtkFt_kck_of_fils h hf
  · rw [wpaDerivePtk_eq hft] at h
    exact pairwiseKey_kck_of_fils h hf

theorem deriveTptk_moves {c : Cfg Sm Act} (hc : c.st.renewSnonce = false) :
    ReflTransGen (Move1Of4 e key ver) c (deriveTptk key.keyNonce e c).2 := by
  unfold deriveTptk
  refine path_bind (base_1Of4 (wpaDerivePtk_moves _) c) ?_
  have hrenew := (base_renewSnonce (wpaDerivePtk_moves (e := e) key.keyNonce) c).trans hc
  have hkm := base_keyMgmt (wpaDerivePtk_moves (e := e) key.keyNonce) c
  cases hptk : (wpaDerivePtk key.keyNonce e c).1 with
  | none => exact .refl
  | some ptk =>
    refine .single (Move1Of4.derive ptk hrenew (fun hft => ?_) fun hf => ?_)
    · have hft' : ¬wpaKeyMgmtFt c.st.keyMgmt := fun h => hft ((congrArg wpaKeyMgmtFt hkm).trans h)
      rw [wpaDerivePtk_eq hft'] at hptk ⊢
      exact hptk
    · exact wpaDerivePtk_kck_of_fils hptk ((congrArg filsAkm hkm).symm.trans hf)

theorem send2Of4_moves (dst : Bytes) {c : Cfg Sm Act} {kdes : Bytes}
    (hkdes : msg2Of4Kdes e c.st = some kdes) :
    ReflTransGen (Move1Of4 e key ver) c
      (wpaSupplicantSend2Of4 dst key ver c.st.snonce kdes c.st.tptk e c).2 := by
  simp only [wpaSupplicantSend2Of4, ask_bind_apply, get_bind_apply]
  cases hies : msg2Of4Ies e c.st kdes with
  | none => exact .refl
  | some ies =>
    dsimp only
    rw [Prog.ite_apply]
    split_ifs
    · exact wpaEapolKeySend_moves (fun _ _ => Move1Of4.base) fun b =>
        Move1Of4.mic (s := { c.st with bssid := b }) hkdes hies
    · exact .refl

theorem reply2Of4_moves : Keeps (ReflTransGen (Move1Of4 e key ver)) (reply2Of4 key ver) e := by
  refine Keeps.ask_bind (Keeps.get_bind fun c => ?_)
  rw [Prog.ite_apply]
  split_ifs
  · cases hkdes : msg2Of4Kdes e c.st with
    | none => exact base_1Of4 failed_moves c
    | some kdes =>
      refine path_bind (send2Of4_moves _ hkdes) ?_
      rw [Prog.ite_apply]
      split_ifs
      · exact .single Move1Of4.anonce
      · exact base_1Of4 failed_moves _
  · exact base_1Of4 failed_moves c

theorem derive1Of4_moves : Keeps (ReflTransGen (Move1Of4 e key ver)) (derive1Of4 key ver) e := by
  intro c
  unfold derive1Of4
  refine path_bind (renewSnonceIfDue_moves c) ?_
  rw [Prog.ite_apply]
  split_ifs with hrenewed
  · refine path_bind (deriveTptk_moves (renewSnonceIfDue_done hrenewed)) ?_
    rw [Prog.ite_apply]
    split_ifs
    · exact reply2Of4_moves _
    · exact base_1Of4 failed_moves _
  · exact base_1Of4 failed_moves _

theorem answer1Of4_moves {pmkid : Option Bytes} :
    Keeps (ReflTransGen (Move1Of4 e key ver)) (answer1Of4 key ver pmkid) e := by
  refine Keeps.bind wpaSupplicantGetPmk_moves fun res => ?_
  cases res with
  | noReply => exact Keeps.pure _
  | failed => exact base_1Of4 failed_moves
  | ok => exact derive1Of4_moves

theorem wpaSupplicantProcess1Of4_moves {keyData : Bytes} :
    Keeps (ReflTransGen (Move1Of4 e key ver)) (wpaSupplicantProcess1Of4 key ver keyData) e := by
  refine Keeps.bind Keeps.get fun sm => ?_
  split_ifs
  · exact base_1Of4 wpaSmReconnect_moves
  · refine Keeps.bind (base_1Of4 (wpaSmSetState_moves (by decide))) fun _ => ?_
    split
    · exact base_1Of4 failed_moves
    · exact answer1Of4_moves
  · exact Keeps.pure _

theorem Move1Of4.frame {c c' : Cfg Sm Act} (h : Move1Of4 e key ver c c') :
    Frame Sm.fixed (fun a => a.installs = false ∧ a.verifies = false) c c' := by
  cases h with
  | base h => exact h.fixed
  | pmk hst =>
    have hfixed := congrArg Sm.fixed hst
    exact ⟨hfixed, [], (List.append_nil _).symm, by simp⟩
  | anonce => exact ⟨rfl, [], (List.append_nil _).symm, by simp⟩
  | _ => exact ⟨rfl, _, rfl, by simp [Act.installs, Act.verifies]⟩

theorem moves_1Of4_frame {c c' : Cfg Sm Act} (h : ReflTransGen (Move1Of4 e key ver) c c') :
    Frame Sm.fixed (fun a => a.installs = false ∧ a.verifies = false) c c' :=
  path_induction (R := Frame Sm.fixed fun a => a.installs = false ∧ a.verifies = false)
    (fun _ _ => Move1Of4.frame) h

end Message1Of4
end Wpa.Rsn
