import Wpa.Lib.Runs
import Wpa.Rsn.Receive

/-! The group keys of RSN come out of Key Data that was encrypted. The checks on plaintext stand
before the GTK and the IGTK; a BIGTK is covered by them only if one of the two comes with it. -/

namespace Wpa.Rsn
open Lib Bytes Prog Relation

def KeyKind.isGroup : KeyKind → Bool
  | .gtk | .igtk | .bigtk => true
  | _ => false

/-- A group key goes to the driver. -/
def Act.setsGroupKey : Act → Bool
  | .setKey k => k.kind.isGroup
  | _ => false

/-- The PTK that the frame was authenticated with, and so the one whose KEK is current. -/
def CurrentPtk (t : Event Sm (Env × Bytes) Act) (ptk : Ptk) : Prop :=
  ((t.pre.tptkSet ∧ ptk = t.pre.tptk) ∨ (t.pre.ptkSet ∧ ptk = t.pre.ptk)) ∧
    ∃ counter, .micVerified ptk.kck counter ∈ t.out ∨ .aeadVerified ptk.kek counter ∈ t.out

/-- Every group key that goes to the driver while a frame is processed was taken from Key Data
that was marked as encrypted and decrypted with the current KEK. -/
def GroupKeysEncrypted (t : Event Sm (Env × Bytes) Act) : Prop :=
  t.pre.proto = .rsn → ∀ k, .setKey k ∈ t.out → k.kind.isGroup →
    (EapolKey.read t.input.2).has keyInfoEncrKeyData ∧
      ∃ ptk plain, CurrentPtk t ptk ∧ .decrypted ptk.kek plain ∈ t.out ∧ FromKde plain k

/-- The frame buffer after the MIC check, which writes the MIC it computes over the one received. -/
def verifiedFrame (e : Env) (sm : Sm) (ver : ℕ) (tmp : Bytes) : Bytes :=
  if tptkMic e sm ver tmp then
    (withMic e.cr sm.tptk.kck sm.keyMgmt ver sm.micLen tmp).getD tmp
  else if ptkMic e sm ver tmp then
    (withMic e.cr sm.ptk.kck sm.keyMgmt ver sm.micLen (retryBuf e sm ver tmp)).getD tmp
  else tmp

/-- Key Data with a BIGTK KDE and neither a GTK nor an IGTK KDE. -/
def bigtkAlone (keyData : Bytes) : Bool :=
  (wpaSupplicantParseIes keyData).any fun ie => ie.bigtk.isSome && ie.gtk.isNone && ie.igtk.isNone

/-- The station takes a BIGTK, and does not insist on a GTK. -/
def bigtkConfigured (sm : Sm) : Bool :=
  sm.groupCipher == cipherGtkNotUsed && sm.beaconProt && wpaCipherValidMgmtGroup sm.mgmtGroupCipher &&
    sm.mgmtGroupCipher != cipherGtkNotUsed

/-- An authentic message 3/4 of RSN with a BIGTK in Key Data that is not encrypted. -/
def plaintextBigtk3Of4 (e : Env) (sm : Sm) (buf : Bytes) : Bool :=
  let key := EapolKey.read buf
  match rxCheck e sm buf with
  | .error _ => false
  | .ok tmp =>
    sm.proto == .rsn && bigtkConfigured sm && key.has keyInfoKeyType && key.has keyInfoMic &&
      !key.has keyInfoEncrKeyData && (tptkMic e sm key.ver tmp || ptkMic e sm key.ver tmp) &&
      bigtkAlone ((verifiedFrame e sm key.ver tmp).slice (keyDataOffset sm.rxMicLen)
        (keyDataLength tmp sm.rxMicLen))

section Moves
variable {e : Env} {key : EapolKey} {ver : ℕ} {keyData : Bytes} {c c' : Cfg Sm Act}

/-- Beacon protection is only ever switched off. -/
def BeaconProtKept (c c' : Cfg Sm Act) : Prop := c'.st.beaconProt → c.st.beaconProt

instance : Std.Refl BeaconProtKept where
  refl _ := id

instance : IsTrans _ BeaconProtKept where
  trans _ _ _ h₁ h₂ := h₁ ∘ h₂

theorem BaseMove.beaconProt (h : BaseMove e c c') : BeaconProtKept c c' := by
  cases h with
  | plain _ hst =>
    have hb := congrArg Sm.beaconProt hst
    exact fun h => hb.symm.trans h
  | disconnect => exact fun h => Bool.noConfusion (show false = true from h)
  | pmksa => exact id
  | bssid => exact id

theorem KeyMove.beaconProt (h : KeyMove e key ver keyData c c') : BeaconProtKept c c' := by
  cases h with
  | base h => exact h.beaconProt
  | installPtkFailed => exact fun h => Bool.noConfusion (show false = true from h)
  | _ => exact id

/-- A group key in the output of a handler has been there before, or what is known of group keys
holds in a state with the same settings. -/
theorem groupKey_of_moves (h : ReflTransGen (KeyMove e key ver keyData) c c') {k : SetKey}
    (hk : .setKey k ∈ c'.out) (hgroup : k.kind.isGroup) :
    .setKey k ∈ c.out ∨ ∃ s : Sm, s.fixed = c.st.fixed ∧ (s.beaconProt → c.st.beaconProt) ∧
      GroupKey s key keyData k := by
  induction h with
  | refl => exact .inl hk
  | @tail c₁ c₂ hp hm ih =>
    have hfix := (keys_fixed hp).1
    have hbeacon := path_induction (R := BeaconProtKept) (fun _ _ => KeyMove.beaconProt) hp
    have hother {s s' : Sm} {out : List Act} {a : Act} (hne : a ≠ .setKey k)
        (hk : Act.setKey k ∈ (⟨s', out ++ [a]⟩ : Cfg Sm Act).out) : .setKey k ∈ out := by
      rcases List.mem_append.mp hk with hk | hk
      · exact hk
      · exact absurd (List.mem_singleton.mp hk).symm hne
    cases hm with
    | base h =>
      rcases h.fixed.mem_out hk with h | h
      · exact ih h
      · simp [Act.installs] at h
    | renewDue => exact ih hk
    | groupKey k' _ _ _ _ _ _ hk' =>
      by_cases heq : k' = k
      · exact .inr ⟨_, hfix, hbeacon, heq ▸ hk'⟩
      · exact ih (hother (s := c.st) (by simpa using heq) hk)
    | installPtk k' hk' =>
      refine ih (hother (s := c.st) ?_ hk)
      rintro ⟨⟩
      simp [hk'.kind, KeyKind.isGroup] at hgroup
    | activatePtk k' hk' =>
      refine ih (hother (s := c.st) ?_ hk)
      rintro ⟨⟩
      simp [hk', KeyKind.isGroup] at hgroup
    | installPtkFailed k' hk' =>
      simp only [List.mem_append, List.mem_cons, List.not_mem_nil, Act.setKey.injEq, reduceCtorEq,
        or_false] at hk
      refine ih (hk.resolve_right ?_)
      rintro ⟨⟩
      simp [hk'.kind, KeyKind.isGroup] at hgroup
    | _ => exact ih (hother (s := c.st) (by simp) hk)

end Moves

section Stages
variable {e : Env} {key : EapolKey} {micLen n : ℕ} {tmp tmp' keyData plain : Bytes} {s : Sm}
  {c₁ c₂ c₃ c₄ : Cfg Sm Act}

/-- The settings that decide which group keys are taken. -/
def Sm.settings (s : Sm) : Proto × ℕ × ℕ × Bool :=
  (s.proto, s.groupCipher, s.mgmtGroupCipher, s.beaconProt)

theorem settings_kept (hmic : MicStep e key tmp ⟨s, []⟩ c₁ tmp')
    (haead : AeadStep e key micLen tmp' n c₁ c₂ keyData)
    (hdec : DecryptStep key micLen keyData c₂ c₃ plain) : c₃.st.settings = s.settings := by
  have h₁ : c₁.st.settings = s.settings := by cases hmic <;> rfl
  have h₂ : c₂.st.settings = c₁.st.settings := by cases haead <;> rfl
  rw [hdec.st_eq, h₂, h₁]

/-- Encrypted Key Data of RSN has been decrypted, when a handler sees it, with the KEK of the PTK
that authenticated the frame. -/
theorem keyData_decrypted (hmic : MicStep e key tmp ⟨s, []⟩ c₁ tmp')
    (haead : AeadStep e key micLen tmp' n c₁ c₂ keyData)
    (hdec : DecryptStep key micLen keyData c₂ c₃ plain) (hrsn : s.proto.isRsnOrOsen)
    (hencr : key.has keyInfoEncrKeyData) :
    ∃ ptk : Ptk, ((s.tptkSet ∧ ptk = s.tptk) ∨ (s.ptkSet ∧ ptk = s.ptk)) ∧
      (∃ counter, .micVerified ptk.kck counter ∈ c₃.out ∨ .aeadVerified ptk.kek counter ∈ c₃.out) ∧
      .decrypted ptk.kek plain ∈ c₃.out := by
  cases hdec with
  | decrypted _ hsigned hlen hset =>
    cases haead with
    | tptk h => exact absurd h.1 hlen
    | ptk h => exact absurd h.1 hlen
    | skipped =>
      cases hmic with
      | unsigned h => exact absurd hsigned h
      | tptk _ hm =>
        simp only [tptkMic, Bool.and_eq_true] at hm
        exact ⟨s.tptk, .inl ⟨hm.1, rfl⟩, ⟨_, .inl (List.mem_cons_self ..)⟩,
          List.mem_append_right _ (List.mem_cons_self ..)⟩
      | ptk =>
        exact ⟨s.ptk, .inr ⟨hset, rfl⟩, ⟨_, .inl (List.mem_cons_self ..)⟩,
          List.mem_append_right _ (List.mem_cons_self ..)⟩
  | skipped hskip =>
    cases haead with
    | skipped h =>
      have hproto : c₁.st.proto = s.proto := by cases hmic <;> rfl
      refine absurd ⟨hproto ▸ hrsn, hencr, fun hlen => h ⟨hlen, hencr⟩⟩ hskip
    | tptk _ hset =>
      cases hmic with
      | tptk => cases hset
      | unsigned =>
        exact ⟨s.tptk, .inl ⟨hset, rfl⟩, ⟨_, .inr (List.mem_append_right _ (List.mem_cons_self ..))⟩,
          List.mem_append_right _ (.tail _ (.head _))⟩
      | ptk =>
        exact ⟨s.tptk, .inl ⟨hset, rfl⟩, ⟨_, .inr (List.mem_append_right _ (List.mem_cons_self ..))⟩,
          List.mem_append_right _ (.tail _ (.head _))⟩
    | ptk _ _ hset =>
      cases hmic with
      | tptk _ hm =>
        simp only [tptkMic, Bool.and_eq_true] at hm
        exact ⟨s.tptk, .inl ⟨hm.1, rfl⟩, ⟨_, .inl (List.mem_cons_self ..)⟩,
          List.mem_append_right _ (.tail _ (.head _))⟩
      | unsigned =>
        exact ⟨s.ptk, .inr ⟨hset, rfl⟩, ⟨_, .inr (List.mem_append_right _ (List.mem_cons_self ..))⟩,
          List.mem_append_right _ (.tail _ (.head _))⟩
      | ptk =>
        exact ⟨s.ptk, .inr ⟨hset, rfl⟩, ⟨_, .inr (List.mem_append_right _ (List.mem_cons_self ..))⟩,
          List.mem_append_right _ (.tail _ (.head _))⟩

/-- Key Data that is not encrypted reaches the handlers as it stands in the frame. -/
theorem keyData_plain (hmic : MicStep e key tmp ⟨s, []⟩ c₁ tmp')
    (haead : AeadStep e key micLen tmp' n c₁ c₂ keyData)
    (hdec : DecryptStep key micLen keyData c₂ c₃ plain) (hsigned : key.has keyInfoMic)
    (hencr : ¬key.has keyInfoEncrKeyData) :
    (tptkMic e s key.ver tmp ∨ ptkMic e s key.ver tmp) ∧
      plain = (verifiedFrame e s key.ver tmp).slice (keyDataOffset micLen) n := by
  cases hdec with
  | decrypted h => exact absurd h hencr
  | skipped =>
    cases haead with
    | tptk h => exact absurd h.2 hencr
    | ptk h => exact absurd h.2 hencr
    | skipped =>
      cases hmic with
      | unsigned h => exact absurd hsigned h
      | tptk _ hm htmp => simp [verifiedFrame, hm, htmp]
      | ptk _ hm htmp ht => simp [verifiedFrame, hm, ht, htmp]

end Stages

section Calls
variable {e : Env} {sm : Sm} {buf : Bytes}

theorem Dispatch.groupKey {key : EapolKey} {micLen : ℕ} {plain : Bytes} {c c' : Cfg Sm Act}
    (h : Dispatch e key micLen plain c c') {k : SetKey} (hk : .setKey k ∈ c'.out)
    (hgroup : k.kind.isGroup) (hc : ∀ a ∈ c.out, a.installs = false) (hrsn : c.st.proto = .rsn) :
    ∃ s : Sm, s.fixed = c.st.fixed ∧ (s.beaconProt → c.st.beaconProt) ∧ GroupKey s key plain k ∧
      (key.has keyInfoEncrKeyData ∨ (key.has keyInfoKeyType ∧ key.has keyInfoMic)) := by
  have hnew : .setKey k ∉ c.out := fun h => by simpa [Act.installs] using hc _ h
  cases h with
  | ignored => exact absurd hk hnew
  | msg1Of4 _ _ _ hmoves =>
    rcases (moves_1Of4_frame hmoves).mem_out hk with h | h
    · exact absurd h hnew
    · simp [Act.installs] at h
  | msg3Of4 htype hbits hmoves =>
    obtain ⟨s, hfix, hbeacon, hs⟩ := (groupKey_of_moves hmoves hk hgroup).resolve_left hnew
    exact ⟨s, hfix, hbeacon, hs, hbits.symm.imp_right fun h => ⟨htype, h⟩⟩
  | msg1Of2 _ _ hmoves hplain =>
    obtain ⟨s, hfix, hbeacon, hs⟩ := (groupKey_of_moves hmoves hk hgroup).resolve_left hnew
    refine ⟨s, hfix, hbeacon, hs, .inl ?_⟩
    by_contra hencr
    have hframe := path_induction (R := Frame Sm.fixed fun a => a.installs = false ∧ a.verifies = false)
      (fun _ _ => BaseMove.fixed) (hplain (by rw [hrsn]; rfl) hencr)
    rcases hframe.mem_out hk with h | h
    · exact hnew h
    · simp [Act.installs] at h

/-- One call: group keys were encrypted unless the frame is one of those described. -/
theorem groupKeysEncrypted_of_not (hcond : ¬plaintextBigtk3Of4 e sm buf) :
    GroupKeysEncrypted (Runs.event rxStep sm (e, buf)) := by
  have hres := wpaSmRxEapol_result e sm buf
  unfold GroupKeysEncrypted CurrentPtk Runs.event rxStep exec
  dsimp only
  generalize (wpaSmRxEapol buf e ⟨sm, []⟩).2 = c at hres
  intro hrsn k hk hgroup
  have hnot {c : Cfg Sm Act} (hc : ∀ a ∈ c.out, a.installs = false) : .setKey k ∉ c.out :=
    fun h => by simpa [Act.installs] using hc _ h
  cases hres with
  | dropped => cases hk
  | halfway _ _ _ hmic => exact absurd hk (hnot hmic.not_installs)
  | stopped _ hmic haead => exact absurd hk (hnot (haead.not_installs hmic.not_installs))
  | @handled tmp tmp' keyData plain c₁ c₂ c₃ c₄ hok hmic haead hdec hdisp =>
    have hread := (rxCheck_ok hok).read
    have hset := settings_kept hmic haead hdec
    simp only [Sm.settings, Sm.opened, Prod.mk.injEq] at hset
    obtain ⟨hproto₃, hgc, hmgc, hbp⟩ := hset
    obtain ⟨s, hs, hbeacon, hkey, hbits⟩ := hdisp.groupKey hk hgroup
      (hdec.not_installs (haead.not_installs hmic.not_installs)) (hproto₃.trans hrsn)
    have hproto : s.proto = .rsn := (congrArg Fixed.proto hs).trans (hproto₃.trans hrsn)
    have hisRsn : s.proto.isRsnOrOsen := by rw [hproto]; rfl
    by_cases hencr : (EapolKey.read tmp).has keyInfoEncrKeyData
    · obtain ⟨ptk, hptk, ⟨counter, hv⟩, hd⟩ := keyData_decrypted hmic haead hdec
        (by rw [show sm.opened.proto = .rsn from hrsn]; rfl) hencr
      refine ⟨hread ▸ hencr, ptk, plain, ⟨hptk, counter, ?_⟩, hdisp.out_subset hd,
        hkey.source hisRsn⟩
      exact hv.imp (fun h => hdisp.out_subset h) fun h => hdisp.out_subset h
    · obtain ⟨htype, hsigned⟩ := hbits.resolve_left hencr
      have hplain := (hkey.encrypted hisRsn).resolve_left hencr
      obtain ⟨ie, hie, hbigtk, hgtk, higtk⟩ := hplain.kdes
      obtain ⟨hverified, hdata⟩ := keyData_plain hmic haead hdec hsigned hencr
      have hgroupCipher := hgc.symm.trans ((congrArg Fixed.groupCipher hs).symm.trans
        (hplain.groupCipher hproto))
      have hmgmt : s.mgmtGroupCipher = sm.mgmtGroupCipher :=
        (congrArg Fixed.mgmtGroupCipher hs).trans hmgc
      have hvalid := hplain.valid
      have hused := hplain.used
      rw [hmgmt] at hvalid hused
      have hprot : sm.beaconProt := hbp.symm.trans (hbeacon hplain.beaconProt)
      have hconf : bigtkConfigured sm := by simp [bigtkConfigured, hgroupCipher, hprot, hvalid, hused]
      have halone : bigtkAlone plain := by simp [bigtkAlone, hie, hbigtk, hgtk, higtk]
      rw [hdata] at halone
      rw [hread] at htype hsigned hencr halone hverified
      refine absurd ?_ hcond
      simp only [plaintextBigtk3Of4, hok, hrsn, hconf, htype, hsigned, hencr]
      simp only [beq_self_eq_true, Bool.not_false, Bool.true_and, Bool.and_eq_true, Bool.or_eq_true]
      exact ⟨hverified, halone⟩

end Calls

/-- In a run without such frames, every group key of RSN was received encrypted. -/
theorem groupKeysEncrypted_run (sm : Sm) (frames : List (Env × Bytes))
    (hcond : ∀ t ∈ Runs.trace rxStep sm frames,
      ¬plaintextBigtk3Of4 t.input.1 t.pre t.input.2) :
    ∀ t ∈ Runs.trace rxStep sm frames, GroupKeysEncrypted t := by
  intro t ht
  rw [Runs.mem_trace ht]
  exact groupKeysEncrypted_of_not (hcond t ht)

section Samples

def rsnIeSample : Bytes :=
  [48, 20, 1, 0, 0, 0x0f, 0xac, 7, 1, 0, 0, 0x0f, 0xac, 4, 1, 0, 0, 0x0f, 0xac, 2, 0xc0, 0]

/-- An RSN association without a group cipher, with beacon protection. -/
def rsnSample : Sm where
  proto := .rsn
  pairwiseCipher := cipherCcmp
  groupCipher := cipherGtkNotUsed
  mgmtGroupCipher := cipherAes128Cmac
  beaconProt := true
  keyMgmt := keyMgmtPsk
  pmk := List.replicate 32 5
  networkCtx := true
  bssid := [2, 0, 0, 0, 0, 1]
  ownAddr := [2, 0, 0, 0, 0, 2]
  renewSnonce := true
  ap := { rsnIe := some rsnIeSample }
  assocWpaIe := some rsnIeSample

/-- The RSN element, a BIGTK KDE and the padding to a multiple of eight octets. -/
def bigtkKeyData : Bytes :=
  rsnIeSample ++ [0xdd, 28, 0, 0x0f, 0xac, 14, 6, 0] ++ zeros 6 ++ List.replicate 16 9 ++
    [0xdd, 0, 0, 0]

/-- Messages 1/4 and 3/4, the latter with the given bits and Key Data. -/
def rsnFrames (keyInfo : ℕ) (keyData : Bytes) : List (Env × Bytes) :=
  [(sampleEnv, sampleFrame eapolKeyTypeRsn 0x008a 16 1 []),
    (sampleEnv, sampleFrame eapolKeyTypeRsn keyInfo 16 2 keyData)]

theorem groupKeysEncrypted_run_sample :
    (∃ t ∈ Runs.trace rxStep rsnSample (rsnFrames 0x13ca (zeros 8 ++ bigtkKeyData)),
        t.out.any Act.setsGroupKey) ∧
      ∀ t ∈ Runs.trace rxStep rsnSample (rsnFrames 0x13ca (zeros 8 ++ bigtkKeyData)),
        GroupKeysEncrypted t :=
  ⟨by decide +kernel, groupKeysEncrypted_run rsnSample _ (by decide +kernel)⟩

/-- Without the bit for encrypted Key Data the same KDE still gives the BIGTK. -/
theorem groupKeysEncrypted_plaintext :
    ¬∀ t ∈ Runs.trace rxStep rsnSample (rsnFrames 0x03ca bigtkKeyData), GroupKeysEncrypted t := by
  have hkey : ∃ t ∈ Runs.trace rxStep rsnSample (rsnFrames 0x03ca bigtkKeyData),
      t.pre.proto = .rsn ∧ ¬(EapolKey.read t.input.2).has keyInfoEncrKeyData ∧
        ∃ a ∈ t.out, a.setsGroupKey := by
    decide +kernel
  intro h
  obtain ⟨t, ht, hrsn, hencr, a, ha, hgroup⟩ := hkey
  cases a with
  | setKey k => exact hencr (h t ht hrsn k ha hgroup).1
  | _ => cases hgroup

end Samples
end Wpa.Rsn
