import Wpa.Ft.Rrb

/-! The life times of PMK-R0 and PMK-R1 entries in `ap/wpa_auth_ft.c`, and how the remaining one of a
PMK-R0 gets to another AP with the PMK-R1 that is derived from it. Times are in whole seconds of
one clock; `derive` stands for `wpa_derive_pmk_r1`. -/

namespace Wpa.Ft
open Lib Bytes

def ftRrbS1khId : ℕ := 6
def ftRrbPmkR0Name : ℕ := 7
def ftRrbPmkR1Name : ℕ := 9
def ftRrbPmkR1 : ℕ := 10
def ftRrbPairwise : ℕ := 11
def ftRrbExpiresIn : ℕ := 12
def ftRrbIdentity : ℕ := 15
def ftRrbRadiusCui : ℕ := 16
def ftRrbSessionTimeout : ℕ := 17

def pmkLen : ℕ := 32
def sha384MacLen : ℕ := 48

abbrev Octets (n : ℕ) := { b : Bytes // b.length = n }

/-- A PMK of one of the two lengths. -/
abbrev Pmk := { b : Bytes // b.length = pmkLen ∨ b.length = sha384MacLen }

/-- An octet string that a TLV can carry. -/
abbrev Short := { b : Bytes // b.length < 65536 }

/-- What a PMK-R0 entry holds besides its times. -/
structure PmkR0Data where
  pmkR0 : Pmk
  pmkR0Name : Octets 16
  spa : Octets 6
  pairwise : ℤ
  vlan : Option Vlan
  identity : Short
  radiusCui : Short

/-- `struct wpa_ft_pmk_r0_sa`, with the times at which `wpa_ft_expire_pmk_r0` is called. -/
structure PmkR0 extends PmkR0Data where
  expiration : ℕ
  sessionTimeout : ℕ
  timers : List ℕ

/-- `struct wpa_ft_pmk_r1_sa`, with the times at which `wpa_ft_expire_pmk_r1` is called. -/
structure PmkR1 where
  spa : Bytes
  pmkR1 : Bytes
  pmkR1Name : Bytes
  pairwise : ℕ
  vlan : VlanDescription
  identity : Option Bytes
  radiusCui : Option Bytes
  sessionTimeout : ℕ
  timers : List ℕ

/-- The timeout that is registered for a time in seconds, if it is positive. -/
def timerFor (now : ℕ) (seconds : ℤ) : List ℕ :=
  if seconds > 0 then [now + (seconds + 1).toNat] else []

def storePmkR0 (now : ℕ) (data : PmkR0Data) (expiresIn sessionTimeout : ℤ) : PmkR0 :=
  { data with
    expiration := if expiresIn > 0 then now + expiresIn.toNat else 0
    sessionTimeout := if sessionTimeout > 0 then now + sessionTimeout.toNat else 0
    timers := timerFor now expiresIn ++ timerFor now sessionTimeout }

/-- The life time of a PMK-R1 under the configured maximum. -/
def capped (r1MaxKeyLifetime expiresIn : ℤ) : ℤ :=
  if r1MaxKeyLifetime ≠ 0 ∧ (r1MaxKeyLifetime < expiresIn ∨ expiresIn = 0) then r1MaxKeyLifetime
  else expiresIn

/-- `wpa_ft_store_pmk_r1` of an entry without its times. -/
def storePmkR1 (now : ℕ) (r1MaxKeyLifetime : ℤ) (r1 : PmkR1) (expiresIn sessionTimeout : ℤ) :
    PmkR1 :=
  { r1 with
    sessionTimeout := if sessionTimeout > 0 then now + sessionTimeout.toNat else 0
    timers := timerFor now (capped r1MaxKeyLifetime expiresIn) ++ timerFor now sessionTimeout }

/-- The conversion of a wider number to a 32-bit `int`. -/
def toInt (x : ℤ) : ℤ := Int.bmod x 4294967296

theorem toInt_eq {x : ℤ} (hpos : 0 ≤ x) (hlt : x < 2 ^ 31) : toInt x = x := by
  apply Int.bmod_eq_of_le_mul_two <;> omega

/-- The seconds that `wpa_ft_rrb_build_r0` says are left until a time, zero for no limit. -/
def remaining (expiry now : ℕ) : ℤ :=
  if expiry > now then toInt ((expiry : ℤ) - now)
  else if expiry ≠ 0 then 1
  else 0

/-- The low `w` bits of an `int`. -/
def lowBits (x : ℤ) (w : ℕ) : ℕ := (x % 2 ^ w).toNat

structure R1Key where
  pmkR1 : Pmk
  pmkR1Name : Octets 16

def pmkTlv (type : ℕ) (htype : type ≠ ftRrbLastEmpty ∧ type < 65536) (pmk : Pmk) : Tlv :=
  ⟨type, pmk.val, htype.1, htype.2, by
    rcases pmk with ⟨pmk, hpmk⟩
    simp only [pmkLen, sha384MacLen] at hpmk
    dsimp only
    omega⟩

def octetsTlv (type : ℕ) {n : ℕ} (htype : type ≠ ftRrbLastEmpty ∧ type < 65536 ∧ n < 65536)
    (octets : Octets n) : Tlv :=
  ⟨type, octets.val, htype.1, htype.2.1, by rw [octets.2]; exact htype.2.2⟩

def shortTlv (type : ℕ) (htype : type ≠ ftRrbLastEmpty ∧ type < 65536) (data : Short) : Tlv :=
  ⟨type, data.val, htype.1, htype.2, data.2⟩

/-- The session TLVs that `wpa_ft_rrb_build_r0` adds to those of its caller. -/
def sessTlvs (r0 : PmkR0) (key : R1Key) (now : ℕ) : List Tlv :=
  [pmkTlv ftRrbPmkR1 (by decide) key.pmkR1, octetsTlv ftRrbPmkR1Name (by decide) key.pmkR1Name,
    octetsTlv (n := 2) ftRrbPairwise (by decide) ⟨ofLe16 (lowBits r0.pairwise 16), rfl⟩,
    octetsTlv (n := 2) ftRrbExpiresIn (by decide)
      ⟨ofLe16 (lowBits (remaining r0.expiration now) 16), rfl⟩,
    shortTlv ftRrbIdentity (by decide) r0.identity,
    shortTlv ftRrbRadiusCui (by decide) r0.radiusCui,
    octetsTlv (n := 4) ftRrbSessionTimeout (by decide)
      ⟨ofLe32 (lowBits (remaining r0.sessionTimeout now) 32), rfl⟩]

/-- `wpa_ft_rrb_build_r0`. -/
def rrbBuildR0 (siv : AesSiv) (derive : PmkR0Data → Bytes → Bytes → R1Key) (key : Option SivKey)
    (tlvs : List Tlv) (r0 : PmkR0) (r1khId : Bytes) (s1khId : Octets 6) (tlvAuth : List Tlv)
    (now : ℕ) (srcAddr : Bytes) (type : UInt8) : Option Bytes :=
  rrbBuild siv key tlvs (sessTlvs r0 (derive r0.toPmkR0Data r1khId s1khId.val) now) tlvAuth
    (r0.vlan.map Vlan.val) srcAddr type

/-- The encrypted TLVs of the two callers: a response to a pull, or a push. -/
def callerTlvs (push : Bool) (r0 : PmkR0) (s1khId : Octets 6) : List Tlv :=
  octetsTlv ftRrbS1khId (by decide) s1khId ::
    if push then [octetsTlv ftRrbPmkR0Name (by decide) r0.pmkR0Name] else []

/-- `RRB_GET` of a field that has to have a given length, or any. -/
def rrbGet (plain : Bytes) (type : ℕ) (checklength : Option ℕ) : Option Bytes :=
  (getTlv type plain).filter fun data => checklength.all fun n => n = data.length

/-- The part of `wpa_ft_rrb_rx_r1` behind its protection against replay. -/
def rrbRxR1 (plain : Bytes) (now : ℕ) (r1MaxKeyLifetime : ℤ) : Option PmkR1 := do
  let s1khId ← rrbGet plain ftRrbS1khId (some 6)
  let pairwise ← rrbGet plain ftRrbPairwise (some 2)
  let pmkR1Name ← rrbGet plain ftRrbPmkR1Name (some 16)
  let pmkR1Len := ((getTlv ftRrbPmkR1 plain).filter fun data =>
    data.length = pmkLen ∨ data.length = sha384MacLen).elim pmkLen List.length
  let pmkR1 ← rrbGet plain ftRrbPmkR1 (some pmkR1Len)
  let expiresIn := (rrbGet plain ftRrbExpiresIn (some 2)).elim 0 fun f => (f.le16 0 : ℤ)
  let vlan ← getTlvVlan plain
  let sessionTimeout := (rrbGet plain ftRrbSessionTimeout (some 4)).elim 0 fun f => toInt (f.le32 0)
  return storePmkR1 now r1MaxKeyLifetime
    { spa := s1khId, pmkR1 := pmkR1, pmkR1Name := pmkR1Name, pairwise := pairwise.le16 0
      vlan := vlan, identity := rrbGet plain ftRrbIdentity none
      radiusCui := rrbGet plain ftRrbRadiusCui none, sessionTimeout := 0, timers := [] }
    expiresIn sessionTimeout

/-- Some timer removes the PMK-R1 at most two seconds after either end of the PMK-R0. -/
def EndsWith (r1 : PmkR1) (r0 : PmkR0) : Prop :=
  ∃ t ∈ r1.timers, (r0.expiration ≠ 0 → t ≤ r0.expiration + 2) ∧
    (r0.sessionTimeout ≠ 0 → t ≤ r0.sessionTimeout + 2)

/-- The PMK-R0 has not ended, and its life time is not lost to the sixteen bits of its TLV without
another limit that ends the PMK-R1 as early. -/
def LifetimeKept (r0 : PmkR0) (now : ℕ) (r1MaxKeyLifetime : ℤ) : Prop :=
  (r0.expiration ≠ 0 → now ≤ r0.expiration) ∧ (r0.sessionTimeout ≠ 0 → now ≤ r0.sessionTimeout) ∧
    (now < r0.expiration → (r0.expiration - now) % 65536 = 0 →
      (r1MaxKeyLifetime ≠ 0 ∧ r1MaxKeyLifetime ≤ r0.expiration - now + 1) ∨
        (r0.sessionTimeout ≠ 0 ∧ r0.sessionTimeout ≤ r0.expiration + 1))

/-- A time that `wpa_ft_store_pmk_r0` set is less than 2^31 seconds ahead at any later time. -/
theorem remaining_eq {expiry now stored : ℕ} {seconds : ℤ} (hstored : stored ≤ now)
    (hseconds : seconds < 2 ^ 31)
    (hexpiry : expiry = if seconds > 0 then stored + seconds.toNat else 0) :
    remaining expiry now =
      if expiry > now then (expiry : ℤ) - now else if expiry ≠ 0 then 1 else 0 := by
  unfold remaining
  split
  · rename_i hgt
    apply toInt_eq
    · omega
    · split at hexpiry <;> omega
  · rfl

theorem le16_lowBits (x : ℤ) : (le16 (ofLe16 (lowBits x 16)) 0 : ℤ) = x % 65536 := by
  have hspell := le16_ofLe16_mod (lowBits x 16) []
  rw [List.append_nil] at hspell
  rw [hspell, lowBits]
  omega

theorem le32_lowBits {x : ℤ} (hpos : 0 ≤ x) (hlt : x < 2 ^ 31) :
    toInt (le32 (ofLe32 (lowBits x 32)) 0) = x := by
  have hspell := le32_ofLe32 (n := lowBits x 32) (by rw [lowBits]; omega) []
  rw [List.append_nil] at hspell
  have hbits : (lowBits x 32 : ℤ) = x := by
    rw [lowBits]
    omega
  rw [hspell, hbits]
  exact toInt_eq hpos hlt

/-- What is left of a time: nothing of none, one second of a past one. -/
theorem left_cases {expiry now : ℕ} {left : ℤ}
    (hleft : left = if expiry > now then (expiry : ℤ) - now else if expiry ≠ 0 then 1 else 0) :
    (expiry = 0 ∧ left = 0) ∨ (0 < expiry ∧ expiry ≤ now ∧ left = 1) ∨
      (now < expiry ∧ left = expiry - now) := by
  split_ifs at hleft <;> omega

theorem capped_cases {r1MaxKeyLifetime expiresIn : ℤ} (hmax : 0 ≤ r1MaxKeyLifetime)
    (hexpires : 0 ≤ expiresIn) :
    (expiresIn = 0 ∧ capped r1MaxKeyLifetime expiresIn = r1MaxKeyLifetime) ∨
      (0 < expiresIn ∧ 0 < capped r1MaxKeyLifetime expiresIn ∧
        capped r1MaxKeyLifetime expiresIn ≤ expiresIn) := by
  unfold capped
  split_ifs <;> omega

theorem exists_timer_iff {now : ℕ} {a b : ℤ} {P : ℕ → Prop} :
    (∃ t ∈ timerFor now a ++ timerFor now b, P t) ↔
      (0 < a ∧ P (now + (a + 1).toNat)) ∨ (0 < b ∧ P (now + (b + 1).toNat)) := by
  have hone (c : ℤ) : (∃ t ∈ timerFor now c, P t) ↔ 0 < c ∧ P (now + (c + 1).toNat) := by
    unfold timerFor
    split_ifs with hc
    · rw [and_iff_right hc]
      simp only [List.mem_singleton, exists_eq_left]
    · exact iff_of_false (fun ⟨_, hmem, _⟩ => List.not_mem_nil hmem) fun h => hc h.1
  simp only [List.mem_append, or_and_right, exists_or, hone]

/-- The timers of a PMK-R1 against the ends of its PMK-R0. -/
theorem endsWith_iff {expiration sessionTimeout now : ℕ} {r1MaxKeyLifetime : ℤ}
    (hfinite : expiration ≠ 0 ∨ sessionTimeout ≠ 0) (hmax : 0 ≤ r1MaxKeyLifetime) :
    (∃ t ∈ timerFor now (capped r1MaxKeyLifetime
          ((if expiration > now then (expiration : ℤ) - now
            else if expiration ≠ 0 then 1 else 0) % 65536)) ++
        timerFor now (if sessionTimeout > now then (sessionTimeout : ℤ) - now
          else if sessionTimeout ≠ 0 then 1 else 0),
      (expiration ≠ 0 → t ≤ expiration + 2) ∧ (sessionTimeout ≠ 0 → t ≤ sessionTimeout + 2)) ↔
      (expiration ≠ 0 → now ≤ expiration) ∧ (sessionTimeout ≠ 0 → now ≤ sessionTimeout) ∧
        (now < expiration → (expiration - now) % 65536 = 0 →
          (r1MaxKeyLifetime ≠ 0 ∧ r1MaxKeyLifetime ≤ expiration - now + 1) ∨
            (sessionTimeout ≠ 0 ∧ sessionTimeout ≤ expiration + 1)) := by
  obtain ⟨e, he⟩ : ∃ e : ℤ, e = if expiration > now then (expiration : ℤ) - now
    else if expiration ≠ 0 then 1 else 0 := ⟨_, rfl⟩
  obtain ⟨s, hs⟩ : ∃ s : ℤ, s = if sessionTimeout > now then (sessionTimeout : ℤ) - now
    else if sessionTimeout ≠ 0 then 1 else 0 := ⟨_, rfl⟩
  rw [← he, ← hs, exists_timer_iff]
  have hc := capped_cases hmax (Int.emod_nonneg e (by decide : (65536 : ℤ) ≠ 0))
  generalize capped r1MaxKeyLifetime (e % 65536) = c at hc ⊢
  -- of what is left of the expiration only the low 16 bits are sent
  have hexp : (expiration = 0 ∧ c = r1MaxKeyLifetime) ∨
      (0 < expiration ∧ expiration ≤ now ∧ c = 1) ∨
      (now < expiration ∧ (expiration - now) % 65536 = 0 ∧ c = r1MaxKeyLifetime) ∨
      (now < expiration ∧ (expiration - now) % 65536 ≠ 0 ∧ 0 < c ∧ c ≤ expiration - now) := by
    rcases left_cases he with ⟨hnone, rfl⟩ | ⟨hsome, hpast, rfl⟩ | ⟨hahead, rfl⟩
    · exact .inl ⟨hnone, (hc.resolve_right fun h => absurd h.1 (by decide)).2⟩
    · have hc' := (hc.resolve_left fun h => absurd h.1 (by decide)).2
      exact .inr (.inl ⟨hsome, hpast, le_antisymm hc'.2 hc'.1⟩)
    · rcases hc with ⟨hzero, hc⟩ | ⟨hpos, hc, hle⟩
      · exact .inr (.inr (.inl ⟨hahead, by omega, hc⟩))
      · exact .inr (.inr (.inr ⟨hahead, by omega, hc, by omega⟩))
  clear hc he
  rcases left_cases hs with ⟨hses, rfl⟩ | ⟨hses, hpast, rfl⟩ | ⟨hses, rfl⟩ <;> clear hs <;>
    rcases hexp with ⟨hexp, rfl⟩ | ⟨hexp, hle, rfl⟩ | ⟨hexp, hmod, rfl⟩ | ⟨hexp, hmod, hc, hle⟩ <;>
    omega

section Transfer
variable (derive : PmkR0Data → Bytes → Bytes → R1Key) {r0 : PmkR0} {key : R1Key} {push : Bool}
  {s1khId : Octets 6} {now : ℕ} {vlan : List Tlv} {plain : Bytes}

/-- What a receiver finds of the fields that it needs. -/
theorem rrbGet_sessTlvs
    (hget : ∀ type, getTlv type plain = ((callerTlvs push r0 s1khId ++ sessTlvs r0 key now ++
      vlan).find? fun t => t.type = type).map Tlv.data) :
    rrbGet plain ftRrbS1khId (some 6) = some s1khId.val ∧
      rrbGet plain ftRrbPairwise (some 2) = some (ofLe16 (lowBits r0.pairwise 16)) ∧
      rrbGet plain ftRrbPmkR1Name (some 16) = some key.pmkR1Name.val ∧
      getTlv ftRrbPmkR1 plain = some key.pmkR1.val ∧
      rrbGet plain ftRrbExpiresIn (some 2) =
        some (ofLe16 (lowBits (remaining r0.expiration now) 16)) ∧
      rrbGet plain ftRrbSessionTimeout (some 4) =
        some (ofLe32 (lowBits (remaining r0.sessionTimeout now) 32)) := by
  have hs := s1khId.2
  have hn := key.pmkR1Name.2
  cases push <;>
    simp [rrbGet, hget, callerTlvs, sessTlvs, octetsTlv, pmkTlv, shortTlv, ftRrbS1khId, hs, hn,
      ftRrbPairwise, ftRrbPmkR1Name, ftRrbPmkR1, ftRrbExpiresIn, ftRrbSessionTimeout,
      ftRrbPmkR0Name, ftRrbIdentity, ftRrbRadiusCui, Option.filter]

/-- The PMK-R1 that is stored has the times that the TLVs say are left. -/
theorem rrbRxR1_eq (r1MaxKeyLifetime : ℤ)
    (hget : ∀ type, getTlv type plain = ((callerTlvs push r0 s1khId ++ sessTlvs r0 key now ++
      vlan).find? fun t => t.type = type).map Tlv.data)
    {description : VlanDescription} (hvlan : getTlvVlan plain = some description)
    (hpos : 0 ≤ remaining r0.sessionTimeout now) (hlt : remaining r0.sessionTimeout now < 2 ^ 31) :
    ∃ r1, rrbRxR1 plain now r1MaxKeyLifetime = some r1 ∧
      r1.timers = timerFor now (capped r1MaxKeyLifetime (remaining r0.expiration now % 65536)) ++
        timerFor now (remaining r0.sessionTimeout now) := by
  obtain ⟨hs1kh, hpairwise, hname, hpmk, hexpires, hsession⟩ := rrbGet_sessTlvs hget
  have hlen : ((getTlv ftRrbPmkR1 plain).filter fun data =>
      data.length = pmkLen ∨ data.length = sha384MacLen).elim pmkLen List.length =
        key.pmkR1.val.length := by
    rw [hpmk, Option.filter_some, if_pos (by simpa using key.pmkR1.2)]
    rfl
  have hpmk' : rrbGet plain ftRrbPmkR1 (some key.pmkR1.val.length) = some key.pmkR1.val := by
    simp [rrbGet, hpmk, Option.filter]
  have hexpires' : ((rrbGet plain ftRrbExpiresIn (some 2)).elim 0 fun f => (f.le16 0 : ℤ)) =
      remaining r0.expiration now % 65536 := by
    rw [hexpires, Option.elim_some, le16_lowBits]
  have hsession' : ((rrbGet plain ftRrbSessionTimeout (some 4)).elim 0 fun f => toInt (f.le32 0)) =
      remaining r0.sessionTimeout now := by
    rw [hsession, Option.elim_some, le32_lowBits hpos hlt]
  obtain ⟨r1, hr1⟩ : ∃ r1, rrbRxR1 plain now r1MaxKeyLifetime = some r1 := by
    simp only [rrbRxR1, hs1kh, hpairwise, hname, hlen, hpmk', hvlan, Option.bind_eq_bind,
      Option.bind_some]
    exact ⟨_, rfl⟩
  refine ⟨r1, hr1, ?_⟩
  simp only [rrbRxR1, hs1kh, hpairwise, hname, hlen, hpmk', hexpires', hsession', hvlan,
    Option.bind_eq_bind, Option.bind_some, Option.pure_def, Option.some_inj] at hr1
  rw [← hr1, storePmkR1]

end Transfer

/-- A message with a PMK-R1 is built, taken apart, decrypted and stored. -/
theorem rrbBuildR0_rrbRxR1 (siv : AesSiv) (derive : PmkR0Data → Bytes → Bytes → R1Key)
    (key : Option SivKey) (push : Bool) (r0 : PmkR0) (now : ℕ) (r1khId : Bytes)
    (s1khId : Octets 6) (tlvAuth : List Tlv) (hauth : tlvLen tlvAuth < 65536) (srcAddr : Bytes)
    (type : UInt8) (r1MaxKeyLifetime : ℤ) (hpos : 0 ≤ remaining r0.sessionTimeout now)
    (hlt : remaining r0.sessionTimeout now < 2 ^ 31) :
    ∃ packet auth enc plain r1,
      rrbBuildR0 siv derive key (callerTlvs push r0 s1khId) r0 r1khId s1khId tlvAuth now srcAddr
        type = some packet ∧
      rrbSplit packet = some (auth, enc) ∧
      rrbDecrypt siv key enc auth srcAddr type = some plain ∧
      rrbRxR1 plain now r1MaxKeyLifetime = some r1 ∧
      r1.timers = timerFor now (capped r1MaxKeyLifetime (remaining r0.expiration now % 65536)) ++
        timerFor now (remaining r0.sessionTimeout now) := by
  obtain ⟨packet, n, hbuild, -, hparts⟩ := rrb_parts siv key (callerTlvs push r0 s1khId)
    (sessTlvs r0 (derive r0.toPmkR0Data r1khId s1khId.val) now) tlvAuth r0.vlan srcAddr type hauth
  obtain ⟨enc, rest, hrest, hsplit, hdecrypt⟩ := hparts [] (.inl rfl)
  rw [List.append_nil] at hsplit
  have hget := fun type => getTlv_encode type (callerTlvs push r0 s1khId ++
    sessTlvs r0 (derive r0.toPmkR0Data r1khId s1khId.val) now ++ vlanTlvs r0.vlan) hrest
  have hvlan := getTlvVlan_encode (callerTlvs push r0 s1khId ++
    sessTlvs r0 (derive r0.toPmkR0Data r1khId s1khId.val) now) r0.vlan hrest
  have hdescription := hvlan (by
    cases push <;> simp [callerTlvs, sessTlvs, octetsTlv, pmkTlv, shortTlv, ftRrbVlanUntagged,
      ftRrbVlanTagged, ftRrbS1khId, ftRrbPmkR0Name, ftRrbPmkR1, ftRrbPmkR1Name, ftRrbPairwise,
      ftRrbExpiresIn, ftRrbIdentity, ftRrbRadiusCui, ftRrbSessionTimeout])
  obtain ⟨r1, hrx, htimers⟩ := rrbRxR1_eq r1MaxKeyLifetime hget hdescription
    hpos hlt
  exact ⟨packet, _, enc, _, r1, hbuild, hsplit, hdecrypt, hrx, htimers⟩

def exampleData : PmkR0Data where
  pmkR0 := ⟨zeros 32, .inl (zeros_length _)⟩
  pmkR0Name := ⟨zeros 16, zeros_length _⟩
  spa := ⟨zeros 6, zeros_length _⟩
  pairwise := 16
  vlan := none
  identity := ⟨[], by decide⟩
  radiusCui := ⟨[], by decide⟩

def exampleDerive (_ : PmkR0Data) (_ _ : Bytes) : R1Key where
  pmkR1 := ⟨zeros 32, .inl (zeros_length _)⟩
  pmkR1Name := ⟨zeros 16, zeros_length _⟩

end Wpa.Ft
