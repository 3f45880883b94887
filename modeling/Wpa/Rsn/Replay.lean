import Wpa.Lib.Runs
import Wpa.Rsn.Association

/-! Replay protection of `wpa_sm_rx_eapol`: the counters of authenticated frames increase, and a
frame that is refused changes nothing. -/

namespace Wpa.Rsn
open Lib Bytes Prog

/-- The counters of the frames whose MIC or AEAD tag was accepted, in the order of the run. -/
def acceptedCounters (past : List (Event Sm (Env × Bytes) Act)) : List ℕ :=
  past.filterMap fun t =>
    if t.out.any Act.verifies then some (EapolKey.read t.input.2).replayCounter.beNat else none

/-- The plaintext of Key Data with an AES-SIV tag, under the key that the frame is checked with. -/
def aeadPlain (e : Env) (sm : Sm) (tmp : Bytes) : Option Bytes :=
  let n := keyDataLength tmp sm.rxMicLen
  if sm.tptkSet then aeadKeyData e sm.tptk.kek tmp n
  else if sm.ptkSet then aeadKeyData e sm.ptk.kek tmp n
  else none

/-- Why a frame is refused. -/
inductive Refused (e : Env) (sm : Sm) (buf : Bytes) : Prop
  | tooShort (h : buf.length < hdrSize + keyhdrlen sm.rxMicLen)
  | malformed {ret : ℤ} (h : checkFrame e sm.rxMicLen buf = .error ret)
  | badVersion (h : ¬versionAcceptable sm (EapolKey.read buf))
  | replayed (hset : sm.rxReplayCounterSet)
      (h : (EapolKey.read buf).replayCounter.beNat ≤ sm.rxReplayCounter.beNat)
  | notFromAuthenticator (h : ¬(EapolKey.read buf).has keyInfoAck)
  | request (h : (EapolKey.read buf).has keyInfoRequest)
  | smk (h : (EapolKey.read buf).has keyInfoSmkMessage)
  | badMic {tmp : Bytes} (hok : rxCheck e sm buf = .ok tmp)
      (hsigned : (EapolKey.read buf).has keyInfoMic)
      (ht : ¬tptkMic e sm (EapolKey.read buf).ver tmp)
      (hp : ¬ptkMic e sm (EapolKey.read buf).ver tmp)
  | badTag {tmp : Bytes} (hok : rxCheck e sm buf = .ok tmp) (hlen : sm.rxMicLen = 0)
      (hencr : (EapolKey.read buf).has keyInfoEncrKeyData) (hplain : aeadPlain e sm tmp = none)

/-- What a refused frame leaves as it was. -/
structure Untouched (t : Event Sm (Env × Bytes) Act) : Prop where
  ptk : t.post.ptk = t.pre.ptk
  tptk : t.post.tptk = t.pre.tptk
  ptkSet : t.post.ptkSet = t.pre.ptkSet
  tptkSet : t.post.tptkSet = t.pre.tptkSet
  anonce : t.post.anonce = t.pre.anonce
  snonce : t.post.snonce = t.pre.snonce
  gtk : t.post.gtk = t.pre.gtk ∧ t.post.gtkWnmSleep = t.pre.gtkWnmSleep
  igtk : t.post.igtk = t.pre.igtk ∧ t.post.igtkWnmSleep = t.pre.igtkWnmSleep
  bigtk : t.post.bigtk = t.pre.bigtk ∧ t.post.bigtkWnmSleep = t.pre.bigtkWnmSleep
  rxReplayCounter : t.post.rxReplayCounter = t.pre.rxReplayCounter
  rxReplayCounterSet : t.post.rxReplayCounterSet = t.pre.rxReplayCounterSet
  driver : ∀ k, .setKey k ∉ t.out

section Refusal
variable {e : Env} {sm : Sm} {buf : Bytes}

theorem EapolKey.replayCounter_length {tmp : Bytes} (h : hdrSize + keySize ≤ tmp.length) :
    (EapolKey.read tmp).replayCounter.length = 8 := by
  simp only [hdrSize, keySize] at h
  simp only [EapolKey.read, slice_length]
  omega

theorem Passed.replayCounter_length {tmp : Bytes} (h : Passed sm buf tmp) :
    (EapolKey.read buf).replayCounter.length = 8 := by
  have hlen := h.length
  simp only [keyhdrlen] at hlen
  rw [← h.read]
  exact EapolKey.replayCounter_length (by omega)

/-- A frame that passed the checks has a counter above the last accepted one. -/
theorem Passed.counter_lt {tmp : Bytes} (h : Passed sm buf tmp) (hset : sm.rxReplayCounterSet)
    (hlen : sm.rxReplayCounter.length = 8) :
    sm.rxReplayCounter.beNat < (EapolKey.read buf).replayCounter.beNat := by
  have hcmp := h.counter
  simp only [counterReplayed, hset, Bool.true_and, decide_eq_true_eq, not_le] at hcmp
  exact (memcmp_pos_iff (h.replayCounter_length.trans hlen.symm)).mp hcmp

/-- Of the frames that get past the MIC, only those with a wrong AEAD tag are refused, and they
have no MIC. -/
theorem Refused.unsigned_of_micStep (h : Refused e sm buf) (hk : KeyLength sm)
    (hctr : sm.rxReplayCounter.length = 8) {tmp tmp' : Bytes} {c₁ : Cfg Sm Act}
    (hok : rxCheck e sm buf = .ok tmp)
    (hmic : MicStep e (EapolKey.read tmp) tmp ⟨sm.opened, []⟩ c₁ tmp') :
    ¬(EapolKey.read tmp).has keyInfoMic ∧ c₁ = ⟨sm.opened, []⟩ ∧ tmp' = tmp ∧
      sm.rxMicLen = 0 ∧ (EapolKey.read tmp).has keyInfoEncrKeyData ∧ aeadPlain e sm tmp = none := by
  have hpass := rxCheck_ok hok
  have hflags := hpass.flags
  simp only [flagsAcceptable, Bool.and_eq_true, Bool.not_eq_true'] at hflags
  have hcheck : ∃ tmp, checkFrame e sm.rxMicLen buf = .ok tmp := by
    cases hf : checkFrame e sm.rxMicLen buf with
    | ok tmp => exact ⟨tmp, rfl⟩
    | error ret => simp [rxCheck, hf, bind, Except.bind] at hok
  obtain ⟨tmp₀, hcheck⟩ := hcheck
  cases h with
  | tooShort h =>
    obtain ⟨hlen, rest, hbuf⟩ := checkFrame_ok hcheck
    have hle : tmp₀.length ≤ buf.length := by
      rw [hbuf, List.length_append]
      omega
    omega
  | malformed h => simp [h] at hcheck
  | badVersion h => exact absurd hpass.version h
  | replayed hset h =>
    have hlt := hpass.counter_lt hset hctr
    omega
  | notFromAuthenticator h => exact absurd hflags.1.2 h
  | request h => simp [hflags.2] at h
  | smk h => simp [hflags.1.1] at h
  | badMic hok' hsigned ht hp =>
    cases hok.symm.trans hok'
    rw [← hpass.read] at hsigned ht hp
    cases hmic with
    | unsigned hm => exact absurd hsigned hm
    | tptk _ hm => exact absurd hm ht
    | ptk _ hm => exact absurd hm hp
  | badTag hok' hlen hencr hplain =>
    cases hok.symm.trans hok'
    rw [← hpass.read] at hencr
    cases hmic with
    | unsigned hm => exact ⟨hm, rfl, rfl, hlen, hencr, hplain⟩
    | tptk _ hm => exact absurd hlen (hk.rxMicLen_ne_zero (.inl hm))
    | ptk _ hm => exact absurd hlen (hk.rxMicLen_ne_zero (.inr hm))

theorem AeadStep.plain_of_unsigned {key : EapolKey} {tmp keyData : Bytes} {c₂ : Cfg Sm Act}
    (h : AeadStep e key sm.rxMicLen tmp (keyDataLength tmp sm.rxMicLen) ⟨sm.opened, []⟩ c₂
      keyData)
    (hlen : sm.rxMicLen = 0) (hencr : key.has keyInfoEncrKeyData) : aeadPlain e sm tmp ≠ none := by
  cases h with
  | skipped h => exact absurd ⟨hlen, hencr⟩ h
  | tptk _ hset hplain =>
    have hset : sm.tptkSet := hset
    have hplain : aeadKeyData e sm.tptk.kek tmp (keyDataLength tmp sm.rxMicLen) = some _ := hplain
    simp [aeadPlain, hset, hplain]
  | ptk _ ht hset hplain =>
    have ht : ¬sm.tptkSet := ht
    have hset : sm.ptkSet := hset
    have hplain : aeadKeyData e sm.ptk.kek tmp (keyDataLength tmp sm.rxMicLen) = some _ := hplain
    simp [aeadPlain, ht, hset, hplain]

theorem Refused.dropped (h : Refused e sm buf) (hk : KeyLength sm)
    (hctr : sm.rxReplayCounter.length = 8) {c : Cfg Sm Act} (hres : RxResult e sm buf c) :
    c = ⟨sm.opened, []⟩ := by
  cases hres with
  | dropped => rfl
  | halfway hok hsigned _ hmic =>
    exact absurd hsigned (h.unsigned_of_micStep hk hctr hok hmic).1
  | stopped hok hmic haead =>
    obtain ⟨-, rfl, rfl, hlen, hencr, hplain⟩ := h.unsigned_of_micStep hk hctr hok hmic
    exact absurd hplain (haead.plain_of_unsigned hlen hencr)
  | handled hok hmic haead =>
    obtain ⟨-, rfl, rfl, hlen, hencr, hplain⟩ := h.unsigned_of_micStep hk hctr hok hmic
    exact absurd hplain (haead.plain_of_unsigned hlen hencr)

theorem Refused.untouched (h : Refused e sm buf) (hk : KeyLength sm)
    (hctr : sm.rxReplayCounter.length = 8) : Untouched (Runs.event rxStep sm (e, buf)) := by
  have hc := h.dropped hk hctr (wpaSmRxEapol_result e sm buf)
  have hpost : (Runs.event rxStep sm (e, buf)).post = sm.opened := congrArg Cfg.st hc
  have hout : (Runs.event rxStep sm (e, buf)).out = [] := congrArg Cfg.out hc
  constructor <;> simp only [hpost, hout] <;> simp [Runs.event, Sm.opened]

end Refusal

section Counters
variable {e : Env} {sm : Sm} {buf : Bytes} {key : EapolKey} {micLen n : ℕ}
  {tmp tmp' keyData plain : Bytes} {c c' : Cfg Sm Act}

/-- The stored counter is that of the frame exactly if the frame was authenticated. -/
def Counted (sm : Sm) (key : EapolKey) (c : Cfg Sm Act) : Prop :=
  (c.out.any Act.verifies = true ∧ c.st.rxReplayCounter = key.replayCounter ∧
      c.st.rxReplayCounterSet = true) ∨
    (c.out.any Act.verifies = false ∧ c.st.rxReplayCounter = sm.rxReplayCounter ∧
      c.st.rxReplayCounterSet = sm.rxReplayCounterSet)

theorem MicStep.counted (h : MicStep e key tmp ⟨sm.opened, []⟩ c tmp') : Counted sm key c := by
  cases h with
  | unsigned => exact .inr ⟨rfl, rfl, rfl⟩
  | tptk => exact .inl ⟨rfl, rfl, rfl⟩
  | ptk => exact .inl ⟨rfl, rfl, rfl⟩

theorem AeadStep.counted (h : AeadStep e key micLen tmp n c c' keyData) (hc : Counted sm key c) :
    Counted sm key c' := by
  cases h with
  | skipped => exact hc
  | tptk => exact .inl ⟨by simp [Act.verifies], rfl, rfl⟩
  | ptk => exact .inl ⟨by simp [Act.verifies], rfl, rfl⟩

theorem Counted.of_frame (hc : Counted sm key c)
    (h : Frame Sm.fixed (fun a => a.verifies = false) c c') : Counted sm key c' := by
  obtain ⟨hst, new, hout, hnew⟩ := h
  have hany : c'.out.any Act.verifies = c.out.any Act.verifies := by
    have hno : new.any Act.verifies = false := List.any_eq_false.mpr (by simpa using hnew)
    rw [hout, List.any_append, hno, Bool.or_false]
  have hctr : c'.st.rxReplayCounter = c.st.rxReplayCounter := congrArg Fixed.rxReplayCounter hst
  have hset : c'.st.rxReplayCounterSet = c.st.rxReplayCounterSet :=
    congrArg Fixed.rxReplayCounterSet hst
  rwa [Counted, hany, hctr, hset]

theorem DecryptStep.frame (h : DecryptStep key micLen keyData c c' plain) :
    Frame Sm.fixed (fun a => a.verifies = false) c c' := by
  cases h with
  | skipped => exact refl c
  | decrypted => exact ⟨rfl, _, rfl, by simp [Act.verifies]⟩

theorem Dispatch.frame (h : Dispatch e key micLen keyData c c') :
    Frame Sm.fixed (fun a => a.verifies = false) c c' := by
  cases h with
  | ignored => exact refl c
  | msg1Of4 _ _ _ hmoves => exact (moves_1Of4_frame hmoves).mono fun _ => And.right
  | msg3Of4 _ _ hmoves => exact keys_fixed hmoves
  | msg1Of2 _ _ hmoves => exact keys_fixed hmoves

theorem RxResult.counted (h : RxResult e sm buf c) :
    c = ⟨sm.opened, []⟩ ∨
      ((∃ tmp, Passed sm buf tmp) ∧ Counted sm (EapolKey.read buf) c) := by
  cases h with
  | dropped => exact .inl rfl
  | halfway hok _ _ hmic =>
    have hpass := rxCheck_ok hok
    exact .inr ⟨⟨_, hpass⟩, hpass.read ▸ hmic.counted⟩
  | stopped hok hmic haead =>
    have hpass := rxCheck_ok hok
    exact .inr ⟨⟨_, hpass⟩, hpass.read ▸ haead.counted hmic.counted⟩
  | handled hok hmic haead hdec hdisp =>
    have hpass := rxCheck_ok hok
    have hc := ((haead.counted hmic.counted).of_frame hdec.frame).of_frame hdisp.frame
    exact .inr ⟨⟨_, hpass⟩, hpass.read ▸ hc⟩

/-- The last accepted counter is stored, and bounds all earlier ones. -/
structure ReplayInv (past : List (Event Sm (Env × Bytes) Act)) (sm : Sm) : Prop where
  length : sm.rxReplayCounter.length = 8
  increasing : (acceptedCounters past).Pairwise (· < ·)
  bound : ∀ n ∈ acceptedCounters past, sm.rxReplayCounterSet ∧ n ≤ sm.rxReplayCounter.beNat

theorem acceptedCounters_concat (past : List (Event Sm (Env × Bytes) Act))
    (t : Event Sm (Env × Bytes) Act) :
    acceptedCounters (past ++ [t]) = acceptedCounters past ++
      if t.out.any Act.verifies then [(EapolKey.read t.input.2).replayCounter.beNat] else [] := by
  unfold acceptedCounters
  rw [List.filterMap_append]
  congr 1
  rw [List.filterMap_cons, List.filterMap_nil]
  split_ifs <;> rfl

theorem ReplayInv.nil (h : sm.rxReplayCounter.length = 8) : ReplayInv [] sm :=
  ⟨h, .nil, by simp [acceptedCounters]⟩

theorem ReplayInv.step {past : List (Event Sm (Env × Bytes) Act)} (h : ReplayInv past sm)
    (i : Env × Bytes) : ReplayInv (past ++ [Runs.event rxStep sm i]) (rxStep sm i).1 := by
  have hsame (hout : (rxStep sm i).2.any Act.verifies = false)
      (hctr : (rxStep sm i).1.rxReplayCounter = sm.rxReplayCounter)
      (hset : (rxStep sm i).1.rxReplayCounterSet = sm.rxReplayCounterSet) :
      ReplayInv (past ++ [Runs.event rxStep sm i]) (rxStep sm i).1 := by
    have hacc : acceptedCounters (past ++ [Runs.event rxStep sm i]) = acceptedCounters past := by
      rw [acceptedCounters_concat, if_neg (by simpa [Runs.event] using hout), List.append_nil]
    exact ⟨hctr ▸ h.length, hacc ▸ h.increasing, hacc ▸ hctr ▸ hset ▸ h.bound⟩
  rcases (wpaSmRxEapol_result i.1 sm i.2).counted with hc | ⟨⟨tmp, hpass⟩, hc⟩
  · have hst : (rxStep sm i).1 = sm.opened := congrArg Cfg.st hc
    have hout : (rxStep sm i).2 = [] := congrArg Cfg.out hc
    exact hsame (by rw [hout]; rfl) (by rw [hst]; rfl) (by rw [hst]; rfl)
  · rcases hc with ⟨hout, hctr, hset⟩ | ⟨hout, hctr, hset⟩
    · have hctr : (rxStep sm i).1.rxReplayCounter = (EapolKey.read i.2).replayCounter := hctr
      have hset : (rxStep sm i).1.rxReplayCounterSet = true := hset
      have hacc : acceptedCounters (past ++ [Runs.event rxStep sm i]) =
          acceptedCounters past ++ [(EapolKey.read i.2).replayCounter.beNat] := by
        rw [acceptedCounters_concat]
        exact congrArg _ (if_pos hout)
      have hlt (n : ℕ) (hn : n ∈ acceptedCounters past) :
          n < (EapolKey.read i.2).replayCounter.beNat := by
        obtain ⟨hs, hle⟩ := h.bound n hn
        exact hle.trans_lt (hpass.counter_lt hs h.length)
      refine ⟨hctr ▸ hpass.replayCounter_length, ?_, ?_⟩
      · rw [hacc, List.pairwise_append]
        refine ⟨h.increasing, List.pairwise_singleton _ _, fun a ha b hb => ?_⟩
        rw [List.mem_singleton.mp hb]
        exact hlt a ha
      · rw [hacc, hctr]
        intro n hn
        refine ⟨hset, ?_⟩
        rcases List.mem_append.mp hn with hn | hn
        · exact (hlt n hn).le
        · exact (List.mem_singleton.mp hn).le
    · exact hsame hout hctr hset

/-- What every state of a run within one association has. -/
def ReplayState (sm : Sm) : Prop := KeyLength sm ∧ sm.rxReplayCounter.length = 8

theorem ReplayState.step (h : ReplayState sm) (i : Env × Bytes) : ReplayState (rxStep sm i).1 :=
  ⟨rxStep_keyLength h.1, ((ReplayInv.nil h.2).step i).length⟩

end Counters

/-- Over a run within one association, the counters of authenticated frames increase strictly, and
a refused frame leaves the keys, the nonces and the counter as they were. -/
theorem replay_protection (e : Env) (bssid : Bytes) (sm : Sm)
    (hfast : fastAssociation sm → KeyLength sm) (frames : List (Env × Bytes)) :
    (acceptedCounters (Runs.trace rxStep (associated e bssid sm) frames)).Pairwise (· < ·) ∧
      ∀ t ∈ Runs.trace rxStep (associated e bssid sm) frames,
        Refused t.input.1 t.pre t.input.2 → Untouched t := by
  have hlen : (associated e bssid sm).rxReplayCounter.length = 8 := by
    rw [associated_reset.1, zeros_length]
  have hrun (frames : List (Env × Bytes)) :
      ReplayInv (Runs.trace rxStep (associated e bssid sm) frames) _ :=
    Runs.history_induction (p := fun _ _ => True) (.nil hlen) (fun _ _ i h _ => h.step i)
      frames fun _ _ => trivial
  refine ⟨(hrun frames).increasing, fun t ht href => ?_⟩
  have hstart : ReplayState (associated e bssid sm) := ⟨associated_keyLength hfast, hlen⟩
  obtain ⟨hinv, hstep⟩ := Runs.state_invariant (p := fun _ _ => True) hstart
    (fun _ i h _ => ReplayState.step h i) frames (fun _ _ => trivial) ht
  rw [hstep]
  exact href.untouched hinv.1 hinv.2

/-- The second frame of a handshake is accepted once; its copy is refused. -/
theorem replay_protection_sample :
    acceptedCounters (Runs.trace rxStep (associated sampleEnv [2, 0, 0, 0, 0, 1] wpaSample)
        (wpaFrames ++ wpaFrames)) = [2] ∧
      (acceptedCounters (Runs.trace rxStep (associated sampleEnv [2, 0, 0, 0, 0, 1] wpaSample)
          (wpaFrames ++ wpaFrames))).Pairwise (· < ·) ∧
      ∀ t ∈ Runs.trace rxStep (associated sampleEnv [2, 0, 0, 0, 0, 1] wpaSample)
          (wpaFrames ++ wpaFrames), Refused t.input.1 t.pre t.input.2 → Untouched t :=
  ⟨by decide +kernel, replay_protection sampleEnv [2, 0, 0, 0, 0, 1] wpaSample
    (fun h => absurd h (by decide)) (wpaFrames ++ wpaFrames)⟩

end Wpa.Rsn
