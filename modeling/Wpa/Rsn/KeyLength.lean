import Wpa.Rsn.KeyMoves

/-! The keys in place fit the way frames are read. Suites with AEAD protection never hold a KCK, and
where the PMK decides on the size of the MIC field, no key outlives a PMK that would leave no room
for a MIC. -/

namespace Wpa.Rsn
open Lib Bytes Prog Relation

/-- With a suite whose lengths follow the PMK, keys only stand beside a PMK of two octets at
least. -/
def Sized (sm : Sm) : Prop :=
  pmkSizedAkm sm.keyMgmt → sm.tptkSet ∨ sm.ptkSet → 2 ≤ sm.pmk.length

/-- With an AEAD suite there is no KCK. -/
def Kckless (sm : Sm) : Prop :=
  filsAkm sm.keyMgmt → (sm.tptkSet → sm.tptk.kck = []) ∧ (sm.ptkSet → sm.ptk.kck = [])

structure KeyLength (sm : Sm) : Prop where
  sized : Sized sm
  kckless : Kckless sm

/-- `c'` inherits `P` from `c`. -/
def Inherits (P : Sm → Prop) (c c' : Cfg Sm Act) : Prop := P c.st → P c'.st

instance {P : Sm → Prop} : Std.Refl (Inherits P) where
  refl _ := id

instance {P : Sm → Prop} : IsTrans _ (Inherits P) where
  trans _ _ _ hab hbc := hbc ∘ hab

theorem storedTptk_kck (s : Sm) (ptk : Ptk) : (storedTptk s ptk).kck = ptk.kck := by
  unfold storedTptk
  split_ifs <;> rfl

theorem not_ft_of_sized {akmp : ℕ} (h : pmkSizedAkm akmp) : ¬wpaKeyMgmtFt akmp := by
  simp only [pmkSizedAkm, Bool.or_eq_true, beq_iff_eq] at h
  obtain (rfl | rfl) | rfl := h <;> decide

theorem not_ieee8021x_of_sized {akmp : ℕ} (h : pmkSizedAkm akmp) :
    ¬wpaKeyMgmtWpaIeee8021x akmp := by
  simp only [pmkSizedAkm, Bool.or_eq_true, beq_iff_eq] at h
  obtain (rfl | rfl) | rfl := h <;> decide

section Moves
variable {e : Env} {key : EapolKey} {ver : ℕ} {keyData : Bytes} {c c' : Cfg Sm Act}

theorem Sized.of_core {s t : Sm} (h : t.core = s.core) (hs : Sized s) : Sized t := by
  have ht : Sized t.core := by
    rw [h]
    exact hs
  exact ht

theorem sized_disconnect (s : Sm) : Sized (disconnect s) := by
  rintro - (h | h) <;> cases h

theorem BaseMove.sized (h : BaseMove e c c') : Inherits Sized c c' := by
  cases h with
  | plain acts hst => exact Sized.of_core hst
  | disconnect => exact fun _ => sized_disconnect _
  | pmksa => exact id
  | bssid => exact id

theorem base_sized {α : Type} {x : M α} (hx : Keeps (ReflTransGen (BaseMove e)) x e) :
    Keeps (Inherits Sized) x e :=
  fun c => path_induction (R := Inherits Sized) (fun _ _ => BaseMove.sized) (hx c)

theorem KeyMove.sized (h : KeyMove e key ver keyData c c') : Inherits Sized c c' := by
  cases h with
  | base h => exact h.sized
  | installPtkFailed => exact fun _ => sized_disconnect _
  | _ => exact id

theorem Kckless.of_core {s t : Sm} {pmk : Bytes} (h : t.core = { s.core with pmk := pmk })
    (hs : Kckless s) : Kckless t := by
  have ht : Kckless t.core := by
    rw [h]
    exact hs
  exact ht

theorem kckless_disconnect (s : Sm) : Kckless (disconnect s) :=
  fun _ => ⟨fun _ => rfl, fun _ => rfl⟩

theorem BaseMove.kckless (h : BaseMove e c c') : Inherits Kckless c c' := by
  cases h with
  | plain acts hst => exact Kckless.of_core hst
  | disconnect => exact fun _ => kckless_disconnect _
  | pmksa => exact id
  | bssid => exact id

theorem Move1Of4.kckless (h : Move1Of4 e key ver c c') : Inherits Kckless c c' := by
  cases h with
  | base h => exact h.kckless
  | pmk hst => exact Kckless.of_core hst
  | derive ptk hs hptk hfils =>
    intro hk hf
    exact ⟨fun _ => (storedTptk_kck _ ptk).trans (hfils hf), (hk hf).2⟩
  | _ => exact id

theorem KeyMove.kckless (h : KeyMove e key ver keyData c c') : Inherits Kckless c c' := by
  cases h with
  | base h => exact h.kckless
  | installPtkFailed => exact fun _ => kckless_disconnect _
  | _ => exact id

end Moves

section Message1Of4
variable {e : Env} {key : EapolKey} {ver : ℕ} {keyData : Bytes}

/-- The property is there afterwards, whatever was before. -/
def Establishes (P : Sm → Prop) (_ c' : Cfg Sm Act) : Prop := P c'.st

theorem failed_sized : Keeps (Establishes Sized) failed e := fun _ => sized_disconnect _

theorem send_sized {ptk : Ptk} {dest : Bytes} {f : EapolFrame} {keyMic : Bool} :
    Keeps (Inherits Sized) (wpaEapolKeySend ptk ver dest f keyMic) e :=
  fun _ => path_induction (R := Inherits Sized) (fun _ _ => id)
    (wpaEapolKeySend_moves (fun _ _ => BaseMove.sized) fun _ => id)

theorem send2Of4_sized {dst nonce wpaIe : Bytes} {ptk : Ptk} :
    Keeps (Inherits Sized) (wpaSupplicantSend2Of4 dst key ver nonce wpaIe ptk) e := by
  refine Keeps.ask_bind (Keeps.bind Keeps.get fun sm => ?_)
  split
  · exact Keeps.pure _
  · exact Keeps.ite (fun _ => Keeps.pure _) fun _ => send_sized

theorem reply2Of4_sized : Keeps (Inherits Sized) (reply2Of4 key ver) e := by
  refine Keeps.ask_bind (Keeps.bind Keeps.get fun sm => ?_)
  refine Keeps.ite (fun _ => base_sized failed_moves) fun _ => ?_
  split
  · exact base_sized failed_moves
  · exact Keeps.bind send2Of4_sized fun _ =>
      Keeps.ite (fun _ _ => id) fun _ => base_sized failed_moves

theorem deriveTptk_sized {anonce : Bytes} {c : Cfg Sm Act} (h : (deriveTptk anonce e c).1 = true) :
    Sized (deriveTptk anonce e c).2.st := by
  unfold deriveTptk at h ⊢
  rw [bind_apply] at h ⊢
  cases hptk : (wpaDerivePtk anonce e c).1 with
  | none =>
    rw [hptk] at h
    cases h
  | some ptk =>
    intro (hs : pmkSizedAkm (wpaDerivePtk anonce e c).2.st.keyMgmt) _
    change 2 ≤ (wpaDerivePtk anonce e c).2.st.pmk.length
    rw [base_keyMgmt (wpaDerivePtk_moves anonce) c] at hs
    rw [wpaDerivePtk_eq (not_ft_of_sized hs)] at hptk ⊢
    exact pairwiseKey_pmk_of_sized hptk hs

theorem derive1Of4_sized : Keeps (Establishes Sized) (derive1Of4 key ver) e := by
  refine Keeps.bind_right fun renewed => Keeps.ite (fun _ => failed_sized) fun _ c => ?_
  cases hd : (deriveTptk key.keyNonce e c).1 with
  | false =>
    simp only [bind_apply, hd]
    exact failed_sized _
  | true =>
    simp only [bind_apply, hd]
    exact reply2Of4_sized _ (deriveTptk_sized hd)

/-- A program that gives up on a reply only for suites with EAP. -/
def NoReplyEap (e : Env) (x : M GetPmkResult) : Prop :=
  ∀ c, (x e c).1 = .noReply → ¬pmkSizedAkm (x e c).2.st.keyMgmt

theorem NoReplyEap.bind {α : Type} {x : M α} {f : α → M GetPmkResult}
    (hf : ∀ a, NoReplyEap e (f a)) : NoReplyEap e (x >>= f) :=
  fun _ => hf _ _

theorem NoReplyEap.ite {p : Prop} [Decidable p] {x y : M GetPmkResult} (hx : NoReplyEap e x)
    (hy : NoReplyEap e y) : NoReplyEap e (if p then x else y) := by
  split_ifs <;> assumption

theorem requestFullEap_noReply {abortCached : Bool} :
    NoReplyEap e (requestFullEap abortCached) := by
  intro c h hs
  simp only [requestFullEap, ask_bind_apply, get_bind_apply, Prog.ite_apply] at h hs
  split_ifs at h hs with heap
  exact not_ieee8021x_of_sized hs heap.2.1

theorem pmkFromEapol_noReply {pmkid : Option Bytes} {pmk : Bytes} {abortCached : Bool} :
    NoReplyEap e (pmkFromEapol pmkid pmk abortCached) := by
  refine .bind fun _ => .bind fun _ => .bind fun _ => .bind fun _ => ?_
  exact .ite (.bind fun _ => requestFullEap_noReply)
    (.ite (fun _ h => by cases h) (.bind fun _ => requestFullEap_noReply))

theorem pmkFromEap_noReply {pmkid : Option Bytes} {abortCached : Bool} :
    NoReplyEap e (pmkFromEap pmkid abortCached) := by
  refine .bind fun env => .bind fun sm => ?_
  split
  · exact pmkFromEapol_noReply
  · exact .ite requestFullEap_noReply (.ite (.bind fun _ => requestFullEap_noReply)
      (.ite requestFullEap_noReply fun _ h => by cases h))

theorem wpaSupplicantGetPmk_noReply {pmkid : Option Bytes} :
    NoReplyEap e (wpaSupplicantGetPmk pmkid) :=
  .bind fun _ => .bind fun _ => .ite (.bind fun _ => requestFullEap_noReply)
    (.ite pmkFromEap_noReply requestFullEap_noReply)

theorem answer1Of4_sized {pmkid : Option Bytes} (c : Cfg Sm Act) :
    Sized (answer1Of4 key ver pmkid e c).2.st := by
  have heap := @wpaSupplicantGetPmk_noReply e pmkid c
  unfold answer1Of4
  rw [bind_apply]
  cases hres : (wpaSupplicantGetPmk pmkid e c).1 with
  | noReply => exact fun hs => absurd hs (heap hres)
  | failed => exact failed_sized _
  | ok => exact derive1Of4_sized _

theorem wpaSupplicantProcess1Of4_sized :
    Keeps (Inherits Sized) (wpaSupplicantProcess1Of4 key ver keyData) e := by
  refine Keeps.bind Keeps.get fun sm => Keeps.ite (fun _ => Keeps.pure _) fun _ =>
    Keeps.ite (fun _ => base_sized wpaSmReconnect_moves) fun _ =>
      Keeps.bind (base_sized (wpaSmSetState_moves (by decide))) fun _ => ?_
  split
  · exact base_sized failed_moves
  · exact fun c _ => answer1Of4_sized c

end Message1Of4
end Wpa.Rsn
