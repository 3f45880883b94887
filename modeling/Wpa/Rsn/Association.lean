import Wpa.Rsn.Receive

/-! The state in which an association starts. Unless a fast transition or FILS has set the keys
already, `wpa_sm_notify_assoc` leaves none in place. -/

namespace Wpa.Rsn
open Lib Bytes Prog

/-- The association takes over keys that were set before it. -/
def fastAssociation (sm : Sm) : Bool := wpaFtIsCompleted sm || sm.filsCompleted

/-- The state after `wpa_sm_notify_assoc`. -/
def associated (e : Env) (bssid : Bytes) (sm : Sm) : Sm := (exec (wpaSmNotifyAssoc bssid) e sm).1

/-- The pairwise keys with what their lengths depend on, the replay counter and the SNonce flag. -/
def Sm.keys (sm : Sm) : ℕ × Bytes × Bool × Bool × Ptk × Ptk × Bytes × Bool × Bool :=
  (sm.keyMgmt, sm.pmk, sm.tptkSet, sm.ptkSet, sm.tptk, sm.ptk, sm.rxReplayCounter,
    sm.rxReplayCounterSet, sm.renewSnonce)

section Keys
variable {e : Env} {sm : Sm} {bssid : Bytes}

theorem wpaFtPrepareAuthRequest_keys (random : Option Bytes) :
    Keeps (Frame Sm.keys fun _ => True) (wpaFtPrepareAuthRequest random) e := by
  cases random with
  | none => exact Keeps.pure _
  | some r => exact Keeps.bind (Keeps.frame_emit trivial) fun _ => Keeps.frame_update fun _ => rfl

theorem wpaSupplicantKeyNegComplete_keys :
    Keeps (Frame Sm.keys fun _ => True) wpaSupplicantKeyNegComplete e := by
  refine Keeps.bind (Keeps.bind (Keeps.frame_emit trivial) fun _ => Keeps.frame_update fun _ => rfl)
    fun _ => Keeps.ask_bind (Keeps.bind Keeps.get fun sm => Keeps.when fun _ => ?_)
  exact wpaFtPrepareAuthRequest_keys _

theorem notifyAssocFt_keys : Keeps (Frame Sm.keys fun _ => True) notifyAssocFt e := by
  refine Keeps.ask_bind (Keeps.bind Keeps.get fun sm => Keeps.ite (fun _ => ?_) fun _ => ?_)
  · exact Keeps.bind wpaSupplicantKeyNegComplete_keys fun _ =>
      Keeps.bind (wpaFtPrepareAuthRequest_keys _) fun _ => Keeps.frame_update fun _ => rfl
  · exact Keeps.frame_update fun _ => rfl

/-- The steps of `wpa_sm_notify_assoc` after the counters are reset. -/
theorem notifyAssocRest_keys {p q : Prop} [Decidable p] [Decidable q] (h : ¬q) :
    Keeps (Frame Sm.keys fun _ => True) (do
      notifyAssocFt
      Prog.when p wpaSupplicantKeyNegComplete
      Prog.when q (update clearKeys)
      update fun sm => { sm with p2pIpAddr := zeros 12, keyidxActive := 0 } : M Unit) e := by
  refine Keeps.bind notifyAssocFt_keys fun _ => ?_
  refine Keeps.bind (Keeps.when fun _ => wpaSupplicantKeyNegComplete_keys) fun _ => ?_
  exact Keeps.bind (Keeps.when fun hq => absurd hq h) fun _ => Keeps.frame_update fun _ => rfl

theorem associated_keys_of_fast (e : Env) (bssid : Bytes) (h : fastAssociation sm) :
    (associated e bssid sm).keys = (resetReplay bssid sm).keys := by
  simp only [fastAssociation, Bool.or_eq_true] at h
  exact (notifyAssocRest_keys (fun hslow => absurd h (not_or.mpr hslow)) ⟨resetReplay bssid sm, []⟩).1

theorem associated_of_not_fast (h : ¬fastAssociation sm) :
    associated e bssid sm =
      { clearKeys (resetReplay bssid sm) with
        ftProtocol := false
        p2pIpAddr := zeros 12
        keyidxActive := 0 } := by
  simp only [fastAssociation, Bool.or_eq_true, not_or, Bool.not_eq_true] at h
  have hft : wpaFtIsCompleted (resetReplay bssid sm) = false := h.1
  simp [associated, exec, wpaSmNotifyAssoc, notifyAssocFt, h, hft, clearKeys]

theorem associated_keyLength (h : fastAssociation sm → KeyLength sm) :
    KeyLength (associated e bssid sm) := by
  by_cases hfast : fastAssociation sm
  · obtain ⟨hsized, hkck⟩ := h hfast
    have hkeys := associated_keys_of_fast e bssid hfast
    simp only [Sm.keys, Prod.mk.injEq] at hkeys
    obtain ⟨hkm, hpmk, ht, hp, htptk, hptk, -⟩ := hkeys
    refine ⟨?_, ?_⟩
    · rwa [Sized, hkm, hpmk, ht, hp]
    · rwa [Kckless, hkm, ht, hp, htptk, hptk]
  · rw [associated_of_not_fast hfast]
    refine ⟨?_, fun _ => ⟨fun _ => rfl, fun _ => rfl⟩⟩
    rintro - (h | h) <;> cases h

theorem associated_reset :
    (associated e bssid sm).rxReplayCounter = zeros 8 ∧ (associated e bssid sm).renewSnonce := by
  by_cases hfast : fastAssociation sm
  · have hkeys := associated_keys_of_fast e bssid hfast
    simp only [Sm.keys, Prod.mk.injEq] at hkeys
    exact ⟨hkeys.2.2.2.2.2.2.1, hkeys.2.2.2.2.2.2.2.2⟩
  · rw [associated_of_not_fast hfast]
    exact ⟨rfl, rfl⟩

end Keys
end Wpa.Rsn
