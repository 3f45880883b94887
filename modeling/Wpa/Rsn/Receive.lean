import Wpa.Rsn.KeyLength

/-! Everything that one call of `wpa_sm_rx_eapol` can do. The stages of the function are relations
between configurations; `wpaSmRxEapol_result` puts them together, and later proofs use it instead
of the function. -/

namespace Wpa.Rsn
open Lib Bytes Prog Relation

/-- The MIC of the frame in `tmp`; the last argument is the buffer that is used from here on. -/
inductive MicStep (e : Env) (key : EapolKey) (tmp : Bytes) :
    Cfg Sm Act → Cfg Sm Act → Bytes → Prop
  | unsigned {c : Cfg Sm Act} (h : ¬key.has keyInfoMic) : MicStep e key tmp c c tmp
  | tptk {s : Sm} {out : List Act} {tmp' : Bytes} (h : key.has keyInfoMic)
      (hm : tptkMic e s key.ver tmp)
      (htmp : withMic e.cr s.tptk.kck s.keyMgmt key.ver s.micLen tmp = some tmp') :
      MicStep e key tmp ⟨s, out⟩ ⟨s.promoteTptk.acceptCounter key.replayCounter,
        out ++ [.micVerified s.tptk.kck key.replayCounter]⟩ tmp'
  | ptk {s : Sm} {out : List Act} {tmp' : Bytes} (h : key.has keyInfoMic)
      (hm : ptkMic e s key.ver tmp)
      (htmp : withMic e.cr s.ptk.kck s.keyMgmt key.ver s.micLen (retryBuf e s key.ver tmp) =
        some tmp') (ht : ¬tptkMic e s key.ver tmp) :
      MicStep e key tmp ⟨s, out⟩ ⟨s.acceptCounter key.replayCounter,
        out ++ [.micVerified s.ptk.kck key.replayCounter]⟩ tmp'

/-- The AES-SIV check of `n` octets of Key Data; the last argument is the Key Data that is used
from here on. -/
inductive AeadStep (e : Env) (key : EapolKey) (micLen : ℕ) (tmp : Bytes) (n : ℕ) :
    Cfg Sm Act → Cfg Sm Act → Bytes → Prop
  | skipped {c : Cfg Sm Act} (h : ¬(micLen = 0 ∧ key.has keyInfoEncrKeyData)) :
      AeadStep e key micLen tmp n c c (tmp.slice (keyDataOffset micLen) n)
  | tptk {s : Sm} {out : List Act} {plain : Bytes} (h : micLen = 0 ∧ key.has keyInfoEncrKeyData)
      (hset : s.tptkSet) (hplain : aeadKeyData e s.tptk.kek tmp n = some plain) :
      AeadStep e key micLen tmp n ⟨s, out⟩ ⟨s.replacePtk.acceptCounter key.replayCounter, out ++
        [.aeadVerified s.tptk.kek key.replayCounter, .decrypted s.tptk.kek plain]⟩ plain
  | ptk {s : Sm} {out : List Act} {plain : Bytes} (h : micLen = 0 ∧ key.has keyInfoEncrKeyData)
      (htptk : ¬s.tptkSet) (hset : s.ptkSet) (hplain : aeadKeyData e s.ptk.kek tmp n = some plain) :
      AeadStep e key micLen tmp n ⟨s, out⟩ ⟨s.acceptCounter key.replayCounter, out ++
        [.aeadVerified s.ptk.kek key.replayCounter, .decrypted s.ptk.kek plain]⟩ plain

/-- The decryption of Key Data that no AEAD protects; the last argument is the plaintext. -/
inductive DecryptStep (key : EapolKey) (micLen : ℕ) (keyData : Bytes) :
    Cfg Sm Act → Cfg Sm Act → Bytes → Prop
  | skipped {c : Cfg Sm Act}
      (h : ¬(c.st.proto.isRsnOrOsen ∧ key.has keyInfoEncrKeyData ∧ micLen ≠ 0)) :
      DecryptStep key micLen keyData c c keyData
  | decrypted {s : Sm} {out : List Act} {plain : Bytes} (hencr : key.has keyInfoEncrKeyData)
      (hmic : key.has keyInfoMic) (hlen : micLen ≠ 0) (hset : s.ptkSet) :
      DecryptStep key micLen keyData ⟨s, out⟩ ⟨s, out ++ [.decrypted s.ptk.kek plain]⟩ plain

inductive Dispatch (e : Env) (key : EapolKey) (micLen : ℕ) (keyData : Bytes) :
    Cfg Sm Act → Cfg Sm Act → Prop
  | ignored {c : Cfg Sm Act} : Dispatch e key micLen keyData c c
  | msg1Of4 {c c' : Cfg Sm Act} (htype : key.has keyInfoKeyType) (hmic : ¬key.has keyInfoMic)
      (hencr : ¬key.has keyInfoEncrKeyData) (h : ReflTransGen (Move1Of4 e key key.ver) c c')
      (hsized : Inherits Sized c c') : Dispatch e key micLen keyData c c'
  | msg3Of4 {c c' : Cfg Sm Act} (htype : key.has keyInfoKeyType)
      (hbits : key.has keyInfoMic ∨ key.has keyInfoEncrKeyData)
      (h : ReflTransGen (KeyMove e key key.ver keyData) c c') : Dispatch e key micLen keyData c c'
  | msg1Of2 {c c' : Cfg Sm Act} (htype : ¬key.has keyInfoKeyType)
      (hbits : (micLen ≠ 0 ∧ key.has keyInfoMic) ∨ (micLen = 0 ∧ key.has keyInfoEncrKeyData))
      (h : ReflTransGen (KeyMove e key key.ver keyData) c c')
      (hplain : c.st.proto.isRsnOrOsen → ¬key.has keyInfoEncrKeyData →
        ReflTransGen (BaseMove e) c c') : Dispatch e key micLen keyData c c'

/-- The state in which a received frame is looked at. -/
def Sm.opened (s : Sm) : Sm := { s with ftCompleted := false }

inductive RxResult (e : Env) (s : Sm) (buf : Bytes) : Cfg Sm Act → Prop
  | dropped : RxResult e s buf ⟨s.opened, []⟩
  /-- The MIC was right and then the AES-SIV tag was not. -/
  | halfway {tmp tmp' : Bytes} {c₁ : Cfg Sm Act} (hok : rxCheck e s buf = .ok tmp)
      (hsigned : (EapolKey.read tmp).has keyInfoMic) (haead : s.rxMicLen = 0)
      (hmic : MicStep e (EapolKey.read tmp) tmp ⟨s.opened, []⟩ c₁ tmp') : RxResult e s buf c₁
  /-- Authenticated as far as the frame asks for it, but not handed to a message handler. -/
  | stopped {tmp tmp' keyData : Bytes} {c₁ c₂ : Cfg Sm Act} (hok : rxCheck e s buf = .ok tmp)
      (hmic : MicStep e (EapolKey.read tmp) tmp ⟨s.opened, []⟩ c₁ tmp')
      (haead : AeadStep e (EapolKey.read tmp) s.rxMicLen tmp'
        (keyDataLength tmp s.rxMicLen) c₁ c₂ keyData) : RxResult e s buf c₂
  | handled {tmp tmp' keyData plain : Bytes} {c₁ c₂ c₃ c₄ : Cfg Sm Act}
      (hok : rxCheck e s buf = .ok tmp)
      (hmic : MicStep e (EapolKey.read tmp) tmp ⟨s.opened, []⟩ c₁ tmp')
      (haead : AeadStep e (EapolKey.read tmp) s.rxMicLen tmp'
        (keyDataLength tmp s.rxMicLen) c₁ c₂ keyData)
      (hdec : DecryptStep (EapolKey.read tmp) s.rxMicLen keyData c₂ c₃ plain)
      (hdisp : Dispatch e (EapolKey.read tmp) s.rxMicLen plain c₃ c₄) :
      RxResult e s buf c₄

/-- What a frame has passed when its MIC is looked at. -/
structure Passed (s : Sm) (buf tmp : Bytes) : Prop where
  length : hdrSize + keyhdrlen s.rxMicLen ≤ tmp.length
  read : EapolKey.read tmp = EapolKey.read buf
  version : versionAcceptable s (EapolKey.read buf)
  counter : ¬counterReplayed s (EapolKey.read buf)
  flags : flagsAcceptable (EapolKey.read buf)

theorem checkFrame_ok {e : Env} {micLen : ℕ} {buf tmp : Bytes}
    (h : checkFrame e micLen buf = .ok tmp) :
    hdrSize + keyhdrlen micLen ≤ tmp.length ∧ ∃ rest, buf = tmp ++ rest := by
  simp only [checkFrame] at h
  split_ifs at h with hshort htype hlen halloc hkey hdata
  cases h
  refine ⟨?_, _, (List.take_append_drop _ buf).symm⟩
  rw [List.length_take]
  omega

theorem rxCheck_ok {e : Env} {s : Sm} {buf tmp : Bytes} (h : rxCheck e s buf = .ok tmp) :
    Passed s buf tmp := by
  unfold rxCheck at h
  cases hf : checkFrame e s.rxMicLen buf with
  | error r =>
    rw [hf] at h
    cases h
  | ok tmp' =>
    rw [hf] at h
    change (if _ then _ else _) = _ at h
    split_ifs at h with hver hctr hflags
    cases h
    obtain ⟨hlen, rest, hbuf⟩ := checkFrame_ok hf
    have hread : EapolKey.read tmp = EapolKey.read buf := by
      rw [hbuf, EapolKey.read_append]
      simp only [keyhdrlen] at hlen
      omega
    exact ⟨hlen, hread, by simpa using hver, hctr, by simpa using hflags⟩

section Stages
variable {e : Env} {key : EapolKey} {micLen : ℕ} {tmp keyData : Bytes} {c : Cfg Sm Act}

theorem withMic_of_micMatches {cr : Crypto} {kck mic : Bytes} {akmp ver n : ℕ}
    (h : micMatches cr kck akmp ver n tmp mic) :
    ∃ tmp', withMic cr kck akmp ver n tmp = some tmp' := by
  unfold micMatches at h
  cases hw : withMic cr kck akmp ver n tmp with
  | none => simp [hw] at h
  | some tmp' => exact ⟨tmp', rfl⟩

theorem verifyEapolKeyMic_result (h : key.has keyInfoMic) (tmp : Bytes) (c : Cfg Sm Act) :
    wpaSupplicantVerifyEapolKeyMic key key.ver tmp e c = (none, c) ∨
      ∃ tmp', (wpaSupplicantVerifyEapolKeyMic key key.ver tmp e c).1 = some tmp' ∧
        MicStep e key tmp c (wpaSupplicantVerifyEapolKeyMic key key.ver tmp e c).2 tmp' := by
  simp only [wpaSupplicantVerifyEapolKeyMic, ask_bind_apply, get_bind_apply, Prog.ite_apply]
  split_ifs with ht hp
  · have hm := ht
    simp only [tptkMic, Bool.and_eq_true] at hm
    obtain ⟨tmp', htmp'⟩ := withMic_of_micMatches hm.2
    exact .inr ⟨tmp', htmp', MicStep.tptk h ht htmp'⟩
  · have hm := hp
    simp only [ptkMic, Bool.and_eq_true] at hm
    obtain ⟨tmp', htmp'⟩ := withMic_of_micMatches hm.2
    exact .inr ⟨tmp', htmp', MicStep.ptk h hp htmp' ht⟩
  · exact .inl rfl

theorem wpaSuppAeadDecrypt_result (h : micLen = 0 ∧ key.has keyInfoEncrKeyData) (tmp : Bytes)
    (n : ℕ) (c : Cfg Sm Act) :
    wpaSuppAeadDecrypt key tmp n e c = (none, c) ∨
      ∃ plain, (wpaSuppAeadDecrypt key tmp n e c).1 = some plain ∧
        AeadStep e key micLen tmp n c (wpaSuppAeadDecrypt key tmp n e c).2 plain := by
  simp only [wpaSuppAeadDecrypt, ask_bind_apply, get_bind_apply, Prog.ite_apply]
  split_ifs with ht hp
  · cases hplain : aeadKeyData e c.st.tptk.kek tmp n with
    | none => exact .inl rfl
    | some plain =>
      have hstep := @AeadStep.tptk e key micLen tmp n c.st c.out plain h ht hplain
      exact .inr ⟨plain, rfl, by simpa using hstep⟩
  · cases hplain : aeadKeyData e c.st.ptk.kek tmp n with
    | none => exact .inl rfl
    | some plain =>
      have hstep := @AeadStep.ptk e key micLen tmp n c.st c.out plain h ht hp hplain
      exact .inr ⟨plain, rfl, by simpa using hstep⟩
  · exact .inl rfl

theorem rxDispatch_result :
    Dispatch e key micLen keyData c (rxDispatch key micLen keyData e c).2 := by
  simp only [rxDispatch, Prog.ite_apply]
  split_ifs with htype hidx hbits hgroup
  · exact .ignored
  · exact .msg3Of4 htype (by simpa using hbits) (wpaSupplicantProcess3Of4_moves c)
  · simp only [Bool.or_eq_true, not_or] at hbits
    exact .msg1Of4 htype hbits.1 hbits.2 (wpaSupplicantProcess1Of4_moves c)
      (wpaSupplicantProcess1Of4_sized c)
  · exact .msg1Of2 htype hgroup (wpaSupplicantProcess1Of2_moves c)
      wpaSupplicantProcess1Of2_plain
  · exact .ignored

/-- Decryption and dispatch: the frame is given up before a handler sees it, or handled. -/
theorem rxDecrypt_result :
    (rxDecrypt key micLen keyData e c).2 = c ∨
      ∃ c' plain, DecryptStep key micLen keyData c c' plain ∧
        Dispatch e key micLen plain c' (rxDecrypt key micLen keyData e c).2 := by
  simp only [rxDecrypt, get_bind_apply, Prog.ite_apply]
  split_ifs with hencr hmic
  · simp only [bind_apply, wpaSupplicantDecryptKeyData, ask_apply, get_apply]
    cases hplain : decryptedKeyData e c.st key key.ver keyData with
    | none => exact .inl rfl
    | some plain =>
      have hset : c.st.ptkSet := by
        by_contra hset
        simp [decryptedKeyData, hset] at hplain
      exact .inr ⟨_, plain, .decrypted hencr.2.1 hmic hencr.2.2 hset, rxDispatch_result⟩
  · exact .inl rfl
  · exact .inr ⟨c, keyData, .skipped hencr, rxDispatch_result⟩

/-- The AEAD check and what follows. -/
theorem rxAead_result (n : ℕ) (tmp : Bytes) (c : Cfg Sm Act) :
    (micLen = 0 ∧ (rxAead key micLen n tmp e c).2 = c) ∨
      ∃ c' keyData, AeadStep e key micLen tmp n c c' keyData ∧
        ((rxAead key micLen n tmp e c).2 = c' ∨
          ∃ c'' plain, DecryptStep key micLen keyData c' c'' plain ∧
            Dispatch e key micLen plain c'' (rxAead key micLen n tmp e c).2) := by
  simp only [rxAead, Prog.ite_apply]
  split_ifs with haead
  · rw [bind_apply]
    rcases wpaSuppAeadDecrypt_result haead tmp n c with hnone | ⟨plain, hplain, hstep⟩
    · rw [hnone]
      exact .inl ⟨haead.1, rfl⟩
    · rw [hplain]
      exact .inr ⟨_, plain, hstep, rxDecrypt_result⟩
  · exact .inr ⟨c, _, .skipped haead, rxDecrypt_result⟩

end Stages

/-- One call of `wpa_sm_rx_eapol` as a step of a run: the frame and the answers it meets. -/
def rxStep (sm : Sm) (i : Env × Bytes) : Sm × List Act := exec (wpaSmRxEapol i.2) i.1 sm

theorem wpaSmRxEapol_result (e : Env) (s : Sm) (buf : Bytes) :
    RxResult e s buf (wpaSmRxEapol buf e ⟨s, []⟩).2 := by
  have hopened : rxCheck e { s with ftCompleted := false } buf = rxCheck e s buf := rfl
  simp only [wpaSmRxEapol, bind_apply, update_apply, ask_apply, get_apply, hopened]
  cases hok : rxCheck e s buf with
  | error ret => exact .dropped
  | ok tmp =>
    change RxResult e s buf (rxAuthenticate s.rxMicLen tmp e ⟨s.opened, []⟩).2
    simp only [rxAuthenticate, Prog.ite_apply]
    split_ifs with hsigned
    · rw [bind_apply]
      rcases verifyEapolKeyMic_result hsigned tmp ⟨s.opened, []⟩ with hnone | ⟨tmp', htmp', hmic⟩
      · rw [hnone]
        exact .dropped
      · rw [htmp']
        rcases rxAead_result _ tmp' _ with ⟨hlen, hc⟩ | ⟨c₂, kd, haead, hc | ⟨c₃, plain, hdec, hdisp⟩⟩
        · exact hc ▸ .halfway hok hsigned hlen hmic
        · exact hc ▸ .stopped hok hmic haead
        · exact .handled hok hmic haead hdec hdisp
    · have hmic : MicStep e (EapolKey.read tmp) tmp ⟨s.opened, []⟩ ⟨s.opened, []⟩ tmp :=
        .unsigned hsigned
      rcases rxAead_result _ tmp _ with ⟨hlen, hc⟩ | ⟨c₂, kd, haead, hc | ⟨c₃, plain, hdec, hdisp⟩⟩
      · exact hc ▸ .dropped
      · exact hc ▸ .stopped hok hmic haead
      · exact .handled hok hmic haead hdec hdisp

section Outputs
variable {e : Env} {key : EapolKey} {micLen n : ℕ} {tmp tmp' keyData plain : Bytes} {s : Sm}
  {c₁ c₂ c₃ c₄ : Cfg Sm Act}

theorem MicStep.not_installs (h : MicStep e key tmp ⟨s, []⟩ c₁ tmp') :
    ∀ a ∈ c₁.out, a.installs = false := by
  cases h <;> simp [Act.installs]

theorem AeadStep.not_installs (h : AeadStep e key micLen tmp' n c₁ c₂ keyData)
    (hc : ∀ a ∈ c₁.out, a.installs = false) : ∀ a ∈ c₂.out, a.installs = false := by
  cases h <;> simpa [or_imp, forall_and, Act.installs] using hc

theorem DecryptStep.not_installs (h : DecryptStep key micLen keyData c₂ c₃ plain)
    (hc : ∀ a ∈ c₂.out, a.installs = false) : ∀ a ∈ c₃.out, a.installs = false := by
  cases h <;> simpa [or_imp, forall_and, Act.installs] using hc

theorem AeadStep.out_subset (h : AeadStep e key micLen tmp' n c₁ c₂ keyData) : c₁.out ⊆ c₂.out := by
  cases h with
  | skipped => exact fun _ => id
  | tptk => exact List.subset_append_left _ _
  | ptk => exact List.subset_append_left _ _

theorem DecryptStep.out_subset (h : DecryptStep key micLen keyData c₂ c₃ plain) :
    c₂.out ⊆ c₃.out := by
  cases h with
  | skipped => exact fun _ => id
  | decrypted => exact List.subset_append_left _ _

theorem Dispatch.out_subset (h : Dispatch e key micLen plain c₃ c₄) : c₃.out ⊆ c₄.out := by
  cases h with
  | ignored => exact fun _ => id
  | msg1Of4 _ _ _ hmoves _ => exact fun _ => (moves_1Of4_frame hmoves).out_subset
  | msg3Of4 _ _ hmoves => exact fun _ => (keys_fixed hmoves).out_subset
  | msg1Of2 _ _ hmoves => exact fun _ => (keys_fixed hmoves).out_subset

end Outputs

section KeyLength
variable {e : Env} {key : EapolKey} {micLen n : ℕ} {tmp tmp' keyData plain : Bytes} {c c' : Cfg Sm Act}

theorem MicStep.keyLength (h : MicStep e key tmp c c' tmp') : Inherits KeyLength c c' := by
  rintro ⟨hsized, hkck⟩
  cases h with
  | unsigned => exact ⟨hsized, hkck⟩
  | ptk => exact ⟨hsized, hkck⟩
  | tptk _ hm =>
    simp only [tptkMic, Bool.and_eq_true] at hm
    exact ⟨fun hs _ => hsized hs (.inl hm.1), fun hf => ⟨fun _ => rfl, fun _ => (hkck hf).1 hm.1⟩⟩

theorem AeadStep.keyLength (h : AeadStep e key micLen tmp n c c' keyData) : Inherits KeyLength c c' := by
  rintro ⟨hsized, hkck⟩
  cases h with
  | skipped => exact ⟨hsized, hkck⟩
  | ptk => exact ⟨hsized, hkck⟩
  | tptk _ hset =>
    exact ⟨fun hs _ => hsized hs (.inl hset), fun hf => ⟨fun _ => rfl, fun _ => (hkck hf).1 hset⟩⟩

theorem DecryptStep.st_eq (h : DecryptStep key micLen keyData c c' plain) : c'.st = c.st := by
  cases h <;> rfl

theorem Dispatch.keyLength (h : Dispatch e key micLen keyData c c') : Inherits KeyLength c c' := by
  have hkeys (hp : ReflTransGen (KeyMove e key key.ver keyData) c c') : Inherits KeyLength c c' :=
    fun hc => ⟨path_induction (R := Inherits Sized) (fun _ _ => KeyMove.sized) hp hc.sized,
      path_induction (R := Inherits Kckless) (fun _ _ => KeyMove.kckless) hp hc.kckless⟩
  cases h with
  | ignored => exact id
  | msg1Of4 _ _ _ hp hsized =>
    exact fun hc => ⟨hsized hc.sized,
      path_induction (R := Inherits Kckless) (fun _ _ => Move1Of4.kckless) hp hc.kckless⟩
  | msg3Of4 _ _ hp => exact hkeys hp
  | msg1Of2 _ _ hp => exact hkeys hp

theorem rxStep_keyLength {sm : Sm} {i : Env × Bytes} (h : KeyLength sm) :
    KeyLength (rxStep sm i).1 := by
  have hres := wpaSmRxEapol_result i.1 sm i.2
  have hopen : KeyLength sm.opened := ⟨h.sized, h.kckless⟩
  unfold rxStep exec
  dsimp only
  generalize (wpaSmRxEapol i.2 i.1 ⟨sm, []⟩).2 = c at hres
  cases hres with
  | dropped => exact hopen
  | halfway _ _ _ hmic => exact hmic.keyLength hopen
  | stopped _ hmic haead => exact haead.keyLength (hmic.keyLength hopen)
  | handled _ hmic haead hdec hdisp =>
    have hc := haead.keyLength (hmic.keyLength hopen)
    exact hdisp.keyLength (hdec.st_eq ▸ hc)

theorem kck_of_micMatches {cr : Crypto} {kck mic : Bytes} {akmp ver : ℕ}
    (h : micMatches cr kck akmp ver n tmp mic) : kck ≠ [] := by
  obtain ⟨tmp', hw⟩ := withMic_of_micMatches h
  simp only [withMic, Option.map_eq_some_iff] at hw
  obtain ⟨m, hm, -⟩ := hw
  have hlen := wpaEapolKeyMic_kck_length hm
  rintro rfl
  simp at hlen

/-- A MIC is only found right in a state whose frames have a MIC field. -/
theorem KeyLength.rxMicLen_ne_zero {s : Sm} (h : KeyLength s) {ver : ℕ}
    (hm : tptkMic e s ver tmp ∨ ptkMic e s ver tmp) : s.rxMicLen ≠ 0 := by
  simp only [tptkMic, ptkMic, Bool.and_eq_true] at hm
  intro hzero
  rcases wpaMicLen_eq_zero hzero with hf | ⟨hs, hlen⟩
  · rcases hm with hm | hm
    · exact kck_of_micMatches hm.2 ((h.kckless hf).1 hm.1)
    · exact kck_of_micMatches hm.2 ((h.kckless hf).2 hm.1)
  · have hpmk := h.sized hs (hm.imp And.left And.left)
    rw [if_neg (by omega)] at hlen
    omega

end KeyLength

section Samples

def sampleEnv : Env := { cr := default, random := some (List.replicate 32 7) }

/-- A frame of the authenticator with the MIC that the sample primitives give. -/
def sampleFrame (type keyInfo keyLength counter : ℕ) (keyData : Bytes) : Bytes :=
  EapolFrame.write
    { version := 2
      key :=
        { type := type
          keyInfo := keyInfo
          keyLength := keyLength
          replayCounter := ofBeNat counter 8
          keyNonce := List.replicate 32 1
          keyIv := zeros 16
          keyRsc := zeros 8
          keyId := zeros 8 }
      mic := zeros 16
      keyData := keyData }

def wpaIeSample : Bytes :=
  [0xdd, 22, 0, 0x50, 0xf2, 1, 1, 0, 0, 0x50, 0xf2, 2, 1, 0, 0, 0x50, 0xf2, 2, 1, 0, 0, 0x50, 0xf2, 2]

/-- A WPA association that waits for message 1/4. -/
def wpaSample : Sm where
  proto := .wpa
  pairwiseCipher := cipherTkip
  groupCipher := cipherTkip
  keyMgmt := keyMgmtPsk
  pmk := List.replicate 32 5
  networkCtx := true
  bssid := [2, 0, 0, 0, 0, 1]
  ownAddr := [2, 0, 0, 0, 0, 2]
  renewSnonce := true
  ap := { wpaIe := some wpaIeSample }
  assocWpaIe := some wpaIeSample

/-- Messages 1/4 and 3/4 of a WPA handshake. -/
def wpaFrames : List (Env × Bytes) :=
  [(sampleEnv, sampleFrame eapolKeyTypeWpa 0x0089 32 1 []),
    (sampleEnv, sampleFrame eapolKeyTypeWpa 0x01c9 32 2 wpaIeSample)]

end Samples
end Wpa.Rsn
