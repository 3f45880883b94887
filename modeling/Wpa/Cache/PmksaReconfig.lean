import Wpa.Cache.PmksaSupp

/-! `pmksa_cache_reconfig`: the PMKSAs that are handed to the driver once more. The time type of the
port has 64 bits and no sign. -/

namespace Wpa.PmksaSupp
open Lib

section Reconfig

/-- The time that is left until `time`, which wraps around if it is past. -/
def timeLeft (now : UInt64) (time : ℕ) : UInt64 := UInt64.ofNat time - now

/-- A `wpa_sm_add_pmkid` call; the other arguments are fields of the entry. -/
structure AddPmkid where
  entry : Entry
  lifeTime : UInt32
  reauthThreshold : UInt8
  deriving DecidableEq

/-- One round of the loop; `none` is a division by zero. -/
def reconfigEntry (now : UInt64) (entry : Entry) : Option (List AddPmkid) :=
  if timeLeft now entry.expiration < 1 ∨ timeLeft now entry.reauthTime < 1 then some []
  else
    let lifeTime := (timeLeft now entry.expiration).toUInt32
    if lifeTime = 0 then none
    else
      let reauthThreshold := (timeLeft now entry.reauthTime * 100 / lifeTime.toUInt64).toUInt8
      if reauthThreshold = 0 then some [] else some [⟨entry, lifeTime, reauthThreshold⟩]

def pmksaCacheReconfig (now : UInt64) : List Entry → Option (List AddPmkid)
  | [] => some []
  | entry :: entries => do
    let calls ← reconfigEntry now entry
    let rest ← pmksaCacheReconfig now entries
    return calls ++ rest

/-- A call for a PMKSA that is neither expired nor due. -/
structure AddPmkid.Live (now : UInt64) (call : AddPmkid) : Prop where
  expiration : now < UInt64.ofNat call.entry.expiration
  reauthTime : now < UInt64.ofNat call.entry.reauthTime
  lifeTime : (timeLeft now call.entry.expiration).toNat < 2 ^ 32 →
    call.lifeTime.toNat = (timeLeft now call.entry.expiration).toNat
  reauthThreshold : 1 ≤ call.reauthThreshold.toNat ∧ call.reauthThreshold.toNat ≤ 100

/-- Nothing is divided by zero, and all calls are for live entries. -/
def OnlyLive (now : UInt64) (calls : Option (List AddPmkid)) : Prop :=
  ∃ l, calls = some l ∧ ∀ call ∈ l, call.Live now

end Reconfig

section Entries
variable {now : UInt64} {entry : Entry}

/-- The share of its life that an entry has left until it is due, in percent, with all that is cut
off on the way. -/
def percentLeft (now : UInt64) (entry : Entry) : ℕ :=
  (timeLeft now entry.reauthTime).toNat * 100 % 2 ^ 64 /
    ((timeLeft now entry.expiration).toNat % 2 ^ 32) % 256

/-- One of the times is now, or the time left is no multiple of `2 ^ 32` and the percentage either
is nothing after the cuts, or is one, of an entry with both times ahead. -/
def Harmless (now : UInt64) (entry : Entry) : Prop :=
  timeLeft now entry.expiration = 0 ∨ timeLeft now entry.reauthTime = 0 ∨
    (timeLeft now entry.expiration).toNat % 2 ^ 32 ≠ 0 ∧
      (percentLeft now entry = 0 ∨ percentLeft now entry ≤ 100 ∧
        now < UInt64.ofNat entry.expiration ∧ now < UInt64.ofNat entry.reauthTime)

theorem lt_one_iff {x : UInt64} : x < 1 ↔ x = 0 := by
  rw [UInt64.lt_iff_toNat_lt, ← UInt64.toNat_inj]
  exact Nat.lt_one_iff

theorem toUInt32_eq_zero_iff {x : UInt64} : x.toUInt32 = 0 ↔ x.toNat % 2 ^ 32 = 0 := by
  rw [← UInt32.toNat_inj, UInt64.toNat_toUInt32]
  rfl

theorem toNat_percentLeft : (timeLeft now entry.reauthTime * 100 /
    (timeLeft now entry.expiration).toUInt32.toUInt64).toUInt8.toNat = percentLeft now entry := by
  rw [UInt64.toNat_toUInt8, UInt64.toNat_div, UInt64.toNat_mul, UInt32.toNat_toUInt64,
    UInt64.toNat_toUInt32]
  rfl

/-- One round of the loop. -/
theorem onlyLive_reconfigEntry :
    OnlyLive now (reconfigEntry now entry) ↔ Harmless now entry := by
  have hskip : OnlyLive now (some []) := ⟨[], rfl, fun _ hcall => nomatch hcall⟩
  unfold reconfigEntry Harmless
  simp only [lt_one_iff, toUInt32_eq_zero_iff]
  by_cases hnow : timeLeft now entry.expiration = 0 ∨ timeLeft now entry.reauthTime = 0
  · rw [if_pos hnow]
    exact iff_of_true hskip (or_assoc.mp (.inl hnow))
  rw [if_neg hnow, ← or_assoc, or_iff_right hnow]
  by_cases hzero : (timeLeft now entry.expiration).toNat % 2 ^ 32 = 0
  · rw [if_pos hzero]
    refine iff_of_false ?_ fun h => h.1 hzero
    rintro ⟨l, hl, -⟩
    cases hl
  rw [if_neg hzero, and_iff_right hzero]
  simp only [← UInt8.toNat_inj, toNat_percentLeft]
  by_cases hpercent : percentLeft now entry = 0
  · have hcut : percentLeft now entry = UInt8.toNat 0 := hpercent
    rw [if_pos hcut]
    exact iff_of_true hskip (.inl hpercent)
  · have hcut : percentLeft now entry ≠ UInt8.toNat 0 := hpercent
    rw [if_neg hcut, or_iff_right hpercent]
    constructor
    · rintro ⟨l, hl, hlive⟩
      cases hl
      have hcall := hlive _ (List.mem_singleton_self _)
      have hthreshold := hcall.reauthThreshold.2
      rw [toNat_percentLeft] at hthreshold
      exact ⟨hthreshold, hcall.expiration, hcall.reauthTime⟩
    · rintro ⟨hle, hexpiration, hreauth⟩
      refine ⟨_, rfl, fun call hcall => ?_⟩
      rw [List.mem_singleton.mp hcall]
      refine ⟨hexpiration, hreauth, fun hfits => ?_, ?_⟩
      · rw [UInt64.toNat_toUInt32]
        exact Nat.mod_eq_of_lt hfits
      · rw [toNat_percentLeft]
        exact ⟨Nat.one_le_iff_ne_zero.mpr hpercent, hle⟩

/-- An entry is harmless as long as both its times are ahead, in order and not too far away. -/
theorem harmless_of_ahead (hexpiration : now < UInt64.ofNat entry.expiration)
    (hreauth : now < UInt64.ofNat entry.reauthTime)
    (horder : UInt64.ofNat entry.reauthTime ≤ UInt64.ofNat entry.expiration)
    (hfits : (timeLeft now entry.expiration).toNat < 2 ^ 32) : Harmless now entry := by
  have hle : (timeLeft now entry.reauthTime).toNat ≤ (timeLeft now entry.expiration).toNat := by
    rw [UInt64.lt_iff_toNat_lt] at hexpiration hreauth
    rw [UInt64.le_iff_toNat_le] at horder
    unfold timeLeft
    rw [UInt64.toNat_sub_of_le _ _ (UInt64.le_iff_toNat_le.mpr hreauth.le),
      UInt64.toNat_sub_of_le _ _ (UInt64.le_iff_toNat_le.mpr hexpiration.le)]
    omega
  by_cases hzero : timeLeft now entry.expiration = 0
  · exact .inl hzero
  refine .inr (.inr ⟨?_, .inr ⟨?_, hexpiration, hreauth⟩⟩)
  · rw [Nat.mod_eq_of_lt hfits]
    exact fun h => hzero (UInt64.toNat_inj.mp h)
  · unfold percentLeft
    refine le_trans (Nat.mod_le _ _) ?_
    rw [Nat.mod_eq_of_lt hfits]
    apply Nat.div_le_of_le_mul
    exact le_trans (Nat.mod_le _ _) (Nat.mul_le_mul_right 100 hle)

/-- An entry that is due again since a hundred seconds, with a hundred seconds to live. -/
def dueEntry : Entry :=
  { pmkid := [], pmk := [], expiration := 1100, akmp := keyMgmtPsk, aa := [], reauthTime := 900 }

end Entries
end Wpa.PmksaSupp
