import Wpa.Rsne.RoundTrip

/-! How many octets `wpa_gen_wpa_ie_rsn` writes, against the size of the buffer. The element is in
the buffer before the assertion at the end looks at its length. -/

namespace Wpa.Rsne
open Lib Bytes

section Octets

/-- How the function ends, apart from the assertion. `refused` has the octets in front of the field
that cannot be written. -/
inductive GenEnd where
  | tooShort
  | refused (octets : ℕ)
  | written (ie : Bytes)

def GenEnd.octets : GenEnd → ℕ
  | tooShort => 0
  | refused octets => octets
  | written ie => ie.length

/-- The length that is checked at the start. -/
def genMinLen (sm : SuppSm) : ℕ :=
  4 + 4 + 2 + 4 + 2 + 4 + 2 + (if sm.curPmksa.isSome then 2 + pmkidLen else 0)

def genEnd (rsnIeLen : ℕ) (sm : SuppSm) : GenEnd :=
  if rsnIeLen < genMinLen sm then .tooShort
  else if wpaCipherToSuite .rsn sm.groupCipher = 0 then .refused 4
  else if wpaCipherToSuite .rsn sm.pairwiseCipher = 0 ∨
      (¬ wpaCipherValidPairwise sm.pairwiseCipher ∧ sm.pairwiseCipher ≠ cipherNone) then
    .refused (4 + 4 + 2)
  else
    match akmSuite sm.keyMgmt with
    | none => .refused (4 + 4 + 2 + 4 + 2)
    | some akm =>
      .written ([UInt8.ofNat eidRsn, UInt8.ofNat ((genFields sm akm).length + 2)] ++
        ofLe16 rsnVersion ++ genFields sm akm)

/-- The ciphers and the AKM can be written. -/
def Writable (sm : SuppSm) : Prop :=
  wpaCipherToSuite .rsn sm.groupCipher ≠ 0 ∧ wpaCipherToSuite .rsn sm.pairwiseCipher ≠ 0 ∧
    (wpaCipherValidPairwise sm.pairwiseCipher = true ∨ sm.pairwiseCipher = cipherNone) ∧
    (akmSuite sm.keyMgmt).isSome = true

variable {n : ℕ} {sm : SuppSm}

/-- The assertion decides between the element and an abort. -/
theorem wpaGenWpaIeRsn_eq_some_iff {ie : Bytes} :
    wpaGenWpaIeRsn n sm = some ie ↔ genEnd n sm = .written ie ∧ ie.length ≤ n := by
  unfold wpaGenWpaIeRsn genEnd
  dsimp only
  by_cases hshort : n < genMinLen sm
  · rw [if_pos hshort]
    refine Iff.trans (Eq.congr_left (if_pos hshort)) ?_
    simp
  refine Iff.trans (Eq.congr_left (if_neg hshort)) ?_
  rw [if_neg hshort]
  split
  · simp
  split
  · simp
  cases akmSuite sm.keyMgmt with
  | none => simp
  | some akm =>
    simp only [Option.ite_none_right_eq_some, Option.some.injEq, GenEnd.written.injEq, genFields,
      counted_single, List.append_assoc]
    constructor
    · rintro ⟨hle, rfl⟩
      exact ⟨rfl, hle⟩
    · rintro ⟨rfl, hle⟩
      exact ⟨hle, rfl⟩

theorem genEnd_written (hlong : genMinLen sm ≤ n) (hwritable : Writable sm) :
    ∃ akm, genEnd n sm =
      .written ([UInt8.ofNat eidRsn, UInt8.ofNat ((genFields sm akm).length + 2)] ++
        ofLe16 rsnVersion ++ genFields sm akm) := by
  obtain ⟨hgroup, hsuite, hpairwise, hakm⟩ := hwritable
  obtain ⟨akm, hakm⟩ := Option.isSome_iff_exists.mp hakm
  refine ⟨akm, ?_⟩
  unfold genEnd
  rw [if_neg (not_lt.mpr hlong), if_neg hgroup, if_neg, hakm]
  rintro (h | ⟨h, hne⟩)
  · exact hsuite h
  · exact hpairwise.elim h hne

/-- A configuration that cannot be written ends in front of the capabilities. -/
theorem genEnd_octets_of_not_writable (hwritable : ¬ Writable sm) : (genEnd n sm).octets ≤ n := by
  unfold genEnd
  split
  · exact Nat.zero_le _
  rename_i hlong
  have hlong : 22 ≤ n := le_trans (by unfold genMinLen; omega) (not_lt.mp hlong)
  split
  · exact le_trans (by decide) hlong
  rename_i hgroup
  split
  · exact le_trans (by decide) hlong
  rename_i hpairwise
  rw [not_or, not_and_or, not_not, not_not] at hpairwise
  cases hakm : akmSuite sm.keyMgmt with
  | none => exact le_trans (Nat.le_of_ble_eq_true rfl : 16 ≤ 22) hlong
  | some akm =>
    refine absurd ⟨hgroup, hpairwise.1, hpairwise.2, ?_⟩ hwritable
    rw [hakm]
    rfl

theorem pmkidPart_length : (pmkidPart sm).length =
    if sm.curPmksa.isSome then 2 + pmkidLen
    else if wpaCipherValidMgmtGroup sm.mgmtGroupCipher then 2 else 0 := by
  unfold pmkidPart
  cases hpmksa : sm.curPmksa with
  | none =>
    dsimp only
    split
    · rfl
    · rfl
  | some p =>
    have hp : p.1.length = pmkidLen := p.2
    dsimp only
    rw [List.length_append, ofLe16_length, hp]
    rfl

theorem mgmtGroupPart_length : (mgmtGroupPart sm).length =
    if wpaCipherValidMgmtGroup sm.mgmtGroupCipher then 4 else 0 := by
  unfold mgmtGroupPart
  split
  · exact ofBeNat_length _ 4
  · rfl

/-- The fields up to the capabilities fill what was checked, without a PMKID list. -/
theorem written_length (akm : ℕ) :
    ([UInt8.ofNat eidRsn, UInt8.ofNat ((genFields sm akm).length + 2)] ++ ofLe16 rsnVersion ++
      genFields sm akm).length = 22 + (pmkidPart sm).length + (mgmtGroupPart sm).length := by
  simp only [genFields, counted_single, List.length_append, List.length_cons, List.length_nil,
    ofLe16_length, ofBeNat_length]
  omega

/-- The buffer is overrun exactly if a management group cipher is written behind fields that leave
no room for it. -/
theorem genEnd_octets_le_iff (n : ℕ) (sm : SuppSm) :
    (genEnd n sm).octets ≤ n ↔
      n < genMinLen sm ∨ ¬ Writable sm ∨ wpaCipherValidMgmtGroup sm.mgmtGroupCipher = false ∨
        (if sm.curPmksa.isSome then 44 else 28) ≤ n := by
  by_cases hshort : n < genMinLen sm
  · refine iff_of_true ?_ (.inl hshort)
    rw [genEnd, if_pos hshort]
    exact Nat.zero_le n
  by_cases hwritable : Writable sm
  · obtain ⟨akm, hend⟩ := genEnd_written (not_lt.mp hshort) hwritable
    have hlong := not_lt.mp hshort
    rw [hend, GenEnd.octets, written_length, pmkidPart_length, mgmtGroupPart_length,
      or_iff_right hshort, or_iff_right (not_not.mpr hwritable)]
    unfold genMinLen at hlong
    by_cases hmgmt : wpaCipherValidMgmtGroup sm.mgmtGroupCipher = true
    · rw [if_pos hmgmt, if_pos hmgmt, hmgmt, or_iff_right Bool.true_eq_false_eq_False]
      by_cases hpmksa : sm.curPmksa.isSome = true
      · rw [if_pos hpmksa, if_pos hpmksa]
        exact Iff.rfl
      · rw [if_neg hpmksa, if_neg hpmksa]
    · -- without the group cipher nothing stands behind what the check has counted
      rw [if_neg hmgmt, if_neg hmgmt]
      exact iff_of_true hlong (.inl (Bool.not_eq_true _ ▸ hmgmt))
  · exact iff_of_true (genEnd_octets_of_not_writable hwritable) (.inr (.inl hwritable))

/-- PSK with CCMP and management frame protection, without a cached PMKSA. -/
def pmfSm : SuppSm :=
  { pairwiseCipher := cipherCcmp
    groupCipher := cipherCcmp
    keyMgmt := keyMgmtPsk
    mgmtGroupCipher := cipherAes128Cmac
    mfp := 1
    ocv := false
    extKeyId := false
    curPmksa := none }

/-- A buffer that passes the check gets six octets too many. -/
theorem pmfSm_overrun : genMinLen pmfSm ≤ 22 ∧ (genEnd 22 pmfSm).octets = 28 := by
  decide

end Octets
end Wpa.Rsne
