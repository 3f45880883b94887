import Wpa.Lib.Runs
import Wpa.Rsn.Receive

/-! Keys reach the driver, and the connection is completed, only for frames that were
authenticated. The one way round it is open to WPA: Key Data that is marked as encrypted in a frame
without a MIC is neither authenticated nor decrypted, and the frame is still taken for
message 3/4. -/

namespace Wpa.Rsn
open Lib Bytes Prog Relation

/-- The action records that the frame with header `key` was authenticated with a key that the
state machine held. -/
def Authenticates (sm : Sm) (key : EapolKey) : Act → Prop
  | .micVerified kck counter => counter = key.replayCounter ∧
      ((sm.tptkSet ∧ kck = sm.tptk.kck) ∨ (sm.ptkSet ∧ kck = sm.ptk.kck))
  | .aeadVerified kek counter => counter = key.replayCounter ∧
      ((sm.tptkSet ∧ kek = sm.tptk.kek) ∨ (sm.ptkSet ∧ kek = sm.ptk.kek))
  | _ => False

instance (sm : Sm) (key : EapolKey) : DecidablePred (Authenticates sm key) := fun a =>
  match a with
  | .micVerified _ _ => inferInstanceAs (Decidable (_ = _ ∧ (_ ∧ _ = _ ∨ _ ∧ _ = _)))
  | .aeadVerified _ _ => inferInstanceAs (Decidable (_ = _ ∧ (_ ∧ _ = _ ∨ _ ∧ _ = _)))
  | .setKey _ | .setState _ | .deauthenticate _ | .reconnect | .etherSend _ _ | .mic _ _ _
  | .decrypted _ _ | .renewSnonce _ | .derivePtk _ _ _ | .accept3Of4 _ _ => isFalse id

/-- If a key is handed to the driver or the connection completed while a frame is processed, that
frame was authenticated in the same call. -/
def KeysAuthenticated (t : Event Sm (Env × Bytes) Act) : Prop :=
  ∀ a ∈ t.out, a.installs → ∃ v ∈ t.out, Authenticates t.pre (EapolKey.read t.input.2) v

instance : DecidablePred KeysAuthenticated := fun t =>
  inferInstanceAs (Decidable (∀ a ∈ t.out, a.installs →
    ∃ v ∈ t.out, Authenticates t.pre (EapolKey.read t.input.2) v))

/-- The frames that WPA hands to message 3/4 with neither a MIC nor an AEAD tag. -/
def unauthenticated3Of4 (e : Env) (sm : Sm) (buf : Bytes) : Bool :=
  let key := EapolKey.read buf
  (rxCheck e sm buf).isOk && sm.proto == .wpa && sm.rxMicLen != 0 && key.has keyInfoKeyType &&
    key.has keyInfoEncrKeyData && !key.has keyInfoMic

section Stages
variable {e : Env} {key : EapolKey} {micLen n : ℕ} {tmp tmp' keyData plain : Bytes} {s : Sm}
  {c₁ c₂ c₃ c₄ : Cfg Sm Act}

/-- After the first two stages the frame is authenticated, or it asked for neither check. -/
theorem authenticated_or_skipped (hmic : MicStep e key tmp ⟨s, []⟩ c₁ tmp')
    (haead : AeadStep e key micLen tmp' n c₁ c₂ keyData) :
    (∃ v ∈ c₂.out, Authenticates s key v) ∨
      (¬key.has keyInfoMic ∧ ¬(micLen = 0 ∧ key.has keyInfoEncrKeyData) ∧ c₂ = ⟨s, []⟩) := by
  cases hmic with
  | tptk h hm =>
    simp only [tptkMic, Bool.and_eq_true] at hm
    exact .inl ⟨_, haead.out_subset (List.mem_singleton_self _), rfl, .inl ⟨hm.1, rfl⟩⟩
  | ptk h hm =>
    simp only [ptkMic, Bool.and_eq_true] at hm
    exact .inl ⟨_, haead.out_subset (List.mem_singleton_self _), rfl, .inr ⟨hm.1, rfl⟩⟩
  | unsigned h =>
    cases haead with
    | skipped hskip => exact .inr ⟨h, hskip, rfl⟩
    | tptk hbits hset => exact .inl ⟨_, List.mem_cons_self .., rfl, .inl ⟨hset, rfl⟩⟩
    | ptk hbits _ hset => exact .inl ⟨_, List.mem_cons_self .., rfl, .inr ⟨hset, rfl⟩⟩

/-- The handlers that install keys are reached unauthenticated only by the frames described. -/
theorem Dispatch.unauthenticated (h : Dispatch e key micLen plain c₃ c₄)
    (hdec : DecryptStep key micLen keyData ⟨s, []⟩ c₃ plain) (hsigned : ¬key.has keyInfoMic)
    (haead : ¬(micLen = 0 ∧ key.has keyInfoEncrKeyData)) {a : Act} (ha : a ∈ c₄.out)
    (hinst : a.installs) :
    s.proto = .wpa ∧ micLen ≠ 0 ∧ key.has keyInfoKeyType ∧ key.has keyInfoEncrKeyData := by
  cases hdec with
  | decrypted _ hmic => exact absurd hmic hsigned
  | skipped hplain =>
    cases h with
    | ignored => cases ha
    | msg1Of4 _ _ _ hmoves _ =>
      rcases (moves_1Of4_frame hmoves).mem_out ha with h | h
      · cases h
      · simp [h.1] at hinst
    | msg1Of2 _ hbits =>
      rcases hbits with h | h
      · exact absurd h.2 hsigned
      · exact absurd h haead
    | msg3Of4 htype hbits =>
      have hencr := hbits.resolve_left hsigned
      have hlen : micLen ≠ 0 := fun h => haead ⟨h, hencr⟩
      refine ⟨?_, hlen, htype, hencr⟩
      have hproto : ¬s.proto.isRsnOrOsen := fun h => hplain ⟨h, hencr, hlen⟩
      revert hproto
      cases s.proto <;> decide

end Stages

/-- One call: keys are authenticated unless the frame is one of those described. -/
theorem keysAuthenticated_of_not {e : Env} {sm : Sm} {buf : Bytes}
    (hcond : ¬unauthenticated3Of4 e sm buf) :
    KeysAuthenticated (Runs.event rxStep sm (e, buf)) := by
  have hres := wpaSmRxEapol_result e sm buf
  unfold KeysAuthenticated Runs.event rxStep exec
  dsimp only
  generalize (wpaSmRxEapol buf e ⟨sm, []⟩).2 = c at hres
  intro a ha hinst
  cases hres with
  | dropped => cases ha
  | stopped hok hmic haead =>
    simp [haead.not_installs hmic.not_installs a ha] at hinst
  | halfway hok _ _ hmic => simp [hmic.not_installs a ha] at hinst
  | handled hok hmic haead hdec hdisp =>
    have hread := (rxCheck_ok hok).read
    rcases authenticated_or_skipped hmic haead with ⟨v, hv, hauth⟩ | ⟨hsigned, hskip, rfl⟩
    · rw [hread] at hauth
      exact ⟨v, hdisp.out_subset (hdec.out_subset hv), hauth⟩
    · obtain ⟨hproto, hlen, htype, hencr⟩ := hdisp.unauthenticated hdec hsigned hskip ha hinst
      rw [hread] at htype hencr hsigned
      refine absurd ?_ hcond
      have hproto : sm.proto = .wpa := hproto
      simp [unauthenticated3Of4, hok, Except.isOk, Except.toBool, hproto, hlen, htype, hencr, hsigned]

section Samples

/-- A GTK KDE in the Key Data of a frame that is marked as encrypted and has no MIC. -/
def forgedFrame : Bytes :=
  sampleFrame eapolKeyTypeWpa 0x10c9 32 3
    (wpaIeSample ++ [0xdd, 38, 0, 0x0f, 0xac, 1, 1, 0] ++ List.replicate 32 9)

end Samples
end Wpa.Rsn
