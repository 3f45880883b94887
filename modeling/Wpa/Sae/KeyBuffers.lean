import Mathlib.Data.List.Basic
import Wpa.Sae.Keys

/-! The lengths that `sae_derive_keys` works with against the arrays that it reads and writes. -/

namespace Wpa.Sae.KeyBuffers
open Lib

section Groups

def saeMaxPrimeLen : ℕ := 512
def saeMaxEccPrimeLen : ℕ := 66
def saeMaxHashLen : ℕ := 64

/-- The octets of the prime and of the order of a group, and whether it is one modulo the prime. -/
structure GroupLens where
  ffc : Bool
  primeLen : ℕ
  orderLen : ℕ
  deriving DecidableEq

/-- What the build sets. -/
structure Build where
  testingOptions : Bool
  allDhGroups : Bool
  saePk : Bool

/-- What the platform answers: the curves it has, and its allocations. -/
structure Platform where
  /-- The lengths of `crypto_ec_prime_len` and `crypto_ec_order_len`. -/
  ecInit : ℕ → Option (ℕ × ℕ)
  tmpAlloc : Bool
  primeInit : Bool
  orderInit : Bool

/-- The sizes of the arrays in `dh_groups`. -/
def dhGroupsGet (build : Build) (group : ℕ) : Option (ℕ × ℕ) :=
  let groups := (5, 192, 192) :: if build.allDhGroups then
    [(1, 96, 96), (2, 128, 128), (14, 256, 256), (15, 384, 384), (16, 512, 512), (17, 768, 768),
      (18, 1024, 1024), (22, 128, 20), (23, 256, 28), (24, 256, 32)] else []
  groups.lookup group

def saeSetGroup (build : Build) (os : Platform) (group : ℕ) : Option GroupLens :=
  if !build.testingOptions && !dragonflySuitableGroup group then none
  else if !os.tmpAlloc then none
  else
    match os.ecInit group with
    | some (primeLen, orderLen) => some ⟨false, primeLen, orderLen⟩
    | none =>
      match dhGroupsGet build group with
      | some (primeLen, orderLen) =>
        if saeMaxPrimeLen < primeLen then none
        else if !os.primeInit then none
        else if !os.orderInit then none
        else some ⟨true, primeLen, orderLen⟩
      | none => none

end Groups

section Accesses

/-- The arrays of `sae_derive_keys`, of its caller and of `struct sae_data`. -/
inductive Buffer
  | zero
  | k
  | keyseed
  | val
  | keys
  | rejectedGroups (size : ℕ)
  | kck
  | pmk
  | pmkid
  | kek
  deriving DecidableEq

def Buffer.size : Buffer → ℕ
  | zero => saeMaxHashLen
  | k => saeMaxPrimeLen
  | keyseed => saeMaxHashLen
  | val => saeMaxPrimeLen
  | keys => 2 * saeMaxHashLen + saePmkLen
  | rejectedGroups size => size
  | kck => saeMaxHashLen
  | pmk => saePmkLen
  | pmkid => saePmkidLen
  | kek => saeMaxHashLen

/-- Octets of an array that are read or written. -/
structure Access where
  buffer : Buffer
  offset : ℕ
  len : ℕ
  deriving DecidableEq

def Access.Inside (a : Access) : Prop := a.offset + a.len ≤ a.buffer.size

instance (a : Access) : Decidable a.Inside := inferInstanceAs (Decidable (_ ≤ _))

/-- The input of `sae_derive_keys`, with the lengths of the lists of rejected groups. -/
structure Input where
  group : GroupLens
  h2e : Bool
  pk : Bool
  akmp : ℕ
  ownRejectedGroups : Option ℕ
  peerRejectedGroups : Option ℕ
  ownAddrHigher : Bool

/-- Which of its calls succeed. -/
structure Outcome where
  bignumInit : Bool
  rejectedAlloc : Bool
  hkdfExtract : Bool
  scalarSum : Bool
  saeKdfHash : Bool

namespace Input
variable (sae : Input)

def hashLen : ℕ :=
  if !sae.h2e then 32
  else if sae.group.ffc then saeFfcPrimeLen2HashLen sae.group.primeLen
  else saeEccPrimeLen2HashLen sae.group.primeLen

def pmkLen : ℕ := if wpaKeyMgmtSaeExtKey sae.akmp then sae.hashLen else saePmkLen

/-- Whether the salt is made of the lists of rejected groups. -/
def rejected : Bool :=
  sae.h2e && (sae.ownRejectedGroups.isSome || sae.peerRejectedGroups.isSome)

/-- The salt as it is put together. -/
def saltAccesses : List Access :=
  let own := sae.ownRejectedGroups.getD 0
  let peer := sae.peerRejectedGroups.getD 0
  if sae.rejected then
    if sae.ownAddrHigher then
      [⟨.rejectedGroups (own + peer), 0, own⟩, ⟨.rejectedGroups (own + peer), own, peer⟩]
    else [⟨.rejectedGroups (own + peer), 0, peer⟩, ⟨.rejectedGroups (own + peer), peer, own⟩]
  else [⟨.zero, 0, sae.hashLen⟩]

/-- The octets of the KDF output. -/
def keysLen (build : Build) : ℕ :=
  if build.saePk && sae.pk then 2 * sae.hashLen + sae.pmkLen else sae.hashLen + sae.pmkLen

/-- The copies out of the KDF output. -/
def copyAccesses (build : Build) : List Access :=
  [⟨.keys, 0, sae.hashLen⟩, ⟨.kck, 0, sae.hashLen⟩,
    ⟨.keys, sae.hashLen, sae.pmkLen⟩, ⟨.pmk, 0, sae.pmkLen⟩,
    ⟨.val, 0, saePmkidLen⟩, ⟨.pmkid, 0, saePmkidLen⟩] ++
  if build.saePk && sae.pk then
    [⟨.keys, sae.hashLen + saePmkLen, sae.hashLen⟩, ⟨.kek, 0, sae.hashLen⟩]
  else []

/-- What `sae_derive_keys` reads and writes, up to the call that fails. -/
def saeDeriveKeys (build : Build) (o : Outcome) : List Access :=
  if !o.bignumInit then []
  else if sae.rejected && !o.rejectedAlloc then []
  else
    sae.saltAccesses ++ [⟨.k, 0, sae.group.primeLen⟩, ⟨.keyseed, 0, sae.hashLen⟩] ++
    if !o.hkdfExtract then []
    else if !o.scalarSum then []
    else
      [⟨.val, 0, sae.group.orderLen⟩, ⟨.keyseed, 0, sae.hashLen⟩, ⟨.keys, 0, sae.keysLen build⟩] ++
      if !o.saeKdfHash then [] else sae.copyAccesses build

end Input
end Accesses

section Sizes
variable {build : Build} {os : Platform} {group : ℕ} {g : GroupLens}

/-- The curves of the platform have primes and orders of at most 521 bits. -/
def Platform.Sound (os : Platform) : Prop :=
  ∀ group primeLen orderLen, os.ecInit group = some (primeLen, orderLen) →
    primeLen ≤ saeMaxEccPrimeLen ∧ orderLen ≤ saeMaxEccPrimeLen

theorem dhGroupsGet_order_le {primeLen orderLen : ℕ}
    (h : dhGroupsGet build group = some (primeLen, orderLen)) : orderLen ≤ primeLen := by
  unfold dhGroupsGet at h
  simp only at h
  obtain ⟨l₁, l₂, hl, -⟩ := List.lookup_eq_some_iff.mp h
  have hmem := List.mem_append_right l₁ (List.mem_cons_self (a := (group, primeLen, orderLen)) (l := l₂))
  rw [← hl] at hmem
  cases hall : build.allDhGroups <;> rw [hall] at hmem
  · have hle : ∀ x ∈ [(5, 192, 192)], x.2.2 ≤ x.2.1 := by decide
    exact hle _ hmem
  · have hle : ∀ x ∈ [(5, 192, 192), (1, 96, 96), (2, 128, 128), (14, 256, 256), (15, 384, 384),
        (16, 512, 512), (17, 768, 768), (18, 1024, 1024), (22, 128, 20), (23, 256, 28),
        (24, 256, 32)], x.2.2 ≤ x.2.1 := by decide
    exact hle _ hmem

/-- No group is accepted whose prime or order is longer than the arrays for them. -/
theorem saeSetGroup_lens (hos : os.Sound) (h : saeSetGroup build os group = some g) :
    g.primeLen ≤ saeMaxPrimeLen ∧ g.orderLen ≤ saeMaxPrimeLen := by
  have hmax : saeMaxEccPrimeLen ≤ saeMaxPrimeLen := by decide
  unfold saeSetGroup at h
  split at h
  · cases h
  split at h
  · cases h
  split at h
  · next primeLen orderLen hec =>
    obtain rfl := Option.some.inj h
    have hlens := hos group primeLen orderLen hec
    exact ⟨hlens.1.trans hmax, hlens.2.trans hmax⟩
  · split at h
    · next primeLen orderLen hdh =>
      split at h
      · cases h
      next hprime =>
      split at h
      · cases h
      split at h
      · cases h
      obtain rfl := Option.some.inj h
      have hprime := Nat.not_lt.mp hprime
      exact ⟨hprime, (dhGroupsGet_order_le hdh).trans hprime⟩
    · cases h

end Sizes

section Inside
variable {sae : Input} {build : Build}

/-- Where the PMK is as long as the hash, the hash has to be the shortest one. -/
def Input.Fits (sae : Input) : Prop :=
  wpaKeyMgmtSaeExtKey sae.akmp = true → sae.h2e = true →
    sae.group.primeLen ≤ if sae.group.ffc then 256 else 32

theorem hashLen_bounds (sae : Input) : 32 ≤ sae.hashLen ∧ sae.hashLen ≤ saeMaxHashLen := by
  unfold Input.hashLen saeFfcPrimeLen2HashLen saeEccPrimeLen2HashLen saeMaxHashLen
  split
  · decide
  · split <;> split <;> try split
    all_goals decide

theorem hashLen_eq_iff (sae : Input) : sae.hashLen ≤ 32 ↔
    (sae.h2e = true → sae.group.primeLen ≤ if sae.group.ffc then 256 else 32) := by
  unfold Input.hashLen saeFfcPrimeLen2HashLen saeEccPrimeLen2HashLen
  cases sae.h2e with
  | false => simp
  | true =>
    cases sae.group.ffc with
    | false =>
      by_cases h : sae.group.primeLen ≤ 32
      · simp [h]
      · by_cases h' : sae.group.primeLen ≤ 48 <;> simp [h, h']
    | true =>
      by_cases h : sae.group.primeLen ≤ 256
      · simp [h]
      · by_cases h' : sae.group.primeLen ≤ 384 <;> simp [h, h']

theorem pmkLen_le_iff (sae : Input) : sae.pmkLen ≤ saePmkLen ↔ sae.Fits := by
  unfold Input.pmkLen Input.Fits
  by_cases hext : wpaKeyMgmtSaeExtKey sae.akmp = true
  · rw [if_pos hext]
    exact (hashLen_eq_iff sae).trans ⟨fun h _ => h, fun h => h hext⟩
  · rw [if_neg hext]
    exact iff_of_true le_rfl fun h => absurd h hext

theorem salt_inside (sae : Input) : ∀ a ∈ sae.saltAccesses, a.Inside := by
  have hhash := (hashLen_bounds sae).2
  unfold Input.saltAccesses
  simp only
  split
  · split
    · simp [Access.Inside, Buffer.size]
    · simp [Access.Inside, Buffer.size, Nat.add_comm]
  · simp [Access.Inside, Buffer.size, hhash]

/-- With a PMK of 32 octets the KDF output and all copies out of it fit. -/
theorem copies_inside (build : Build) (hpmk : sae.pmkLen ≤ saePmkLen) :
    sae.keysLen build ≤ 2 * saeMaxHashLen + saePmkLen ∧
      ∀ a ∈ sae.copyAccesses build, a.Inside := by
  have hhash := (hashLen_bounds sae).2
  have hpmkid : saePmkidLen ≤ saeMaxPrimeLen := by decide
  constructor
  · unfold Input.keysLen
    split <;> omega
  · intro a ha
    rcases List.mem_append.mp ha with ha | ha
    · simp only [List.mem_cons, List.not_mem_nil, or_false] at ha
      rcases ha with rfl | rfl | rfl | rfl | rfl | rfl <;>
        simp only [Access.Inside, Buffer.size] <;> omega
    · split at ha
      · simp only [List.mem_cons, List.not_mem_nil, or_false] at ha
        rcases ha with rfl | rfl <;> simp only [Access.Inside, Buffer.size] <;> omega
      · cases ha

theorem saeDeriveKeys_inside (hprime : sae.group.primeLen ≤ saeMaxPrimeLen)
    (horder : sae.group.orderLen ≤ saeMaxPrimeLen) (hpmk : sae.pmkLen ≤ saePmkLen) (o : Outcome) :
    ∀ a ∈ sae.saeDeriveKeys build o, a.Inside := by
  have hhash := (hashLen_bounds sae).2
  obtain ⟨hkeys, hcopies⟩ := copies_inside build hpmk
  have hinside {b : Buffer} {n : ℕ} (h : n ≤ b.size) : Access.Inside ⟨b, 0, n⟩ := by
    show 0 + n ≤ b.size
    omega
  intro a ha
  unfold Input.saeDeriveKeys at ha
  split at ha
  · cases ha
  split at ha
  · cases ha
  rcases List.mem_append.mp ha with ha | ha
  · rcases List.mem_append.mp ha with ha | ha
    · exact salt_inside sae a ha
    · simp only [List.mem_cons, List.not_mem_nil, or_false] at ha
      rcases ha with rfl | rfl
      · exact hinside hprime
      · exact hinside hhash
  · split at ha
    · cases ha
    split at ha
    · cases ha
    rcases List.mem_append.mp ha with ha | ha
    · simp only [List.mem_cons, List.not_mem_nil, or_false] at ha
      rcases ha with rfl | rfl | rfl
      · exact hinside horder
      · exact hinside hhash
      · exact hinside hkeys
    · split at ha
      · cases ha
      · exact hcopies a ha

/-- For every accepted group and every flag: whatever fails, all octets that are read and written
are inside their arrays, exactly when the PMK is not as long as a hash of more than 256 bits. -/
theorem keyBuffers_iff (build : Build) (os : Platform) (hos : os.Sound) (group : ℕ) (sae : Input)
    (hgroup : saeSetGroup build os group = some sae.group) :
    (∀ o, ∀ a ∈ sae.saeDeriveKeys build o, a.Inside) ↔ sae.Fits := by
  obtain ⟨hprime, horder⟩ := saeSetGroup_lens hos hgroup
  rw [← pmkLen_le_iff]
  constructor
  · intro h
    have hmem : ⟨.pmk, 0, sae.pmkLen⟩ ∈ sae.saeDeriveKeys build ⟨true, true, true, true, true⟩ := by
      simp [Input.saeDeriveKeys, Input.copyAccesses]
    have hpmk : 0 + sae.pmkLen ≤ saePmkLen := h _ _ hmem
    omega
  · intro h o
    exact saeDeriveKeys_inside hprime horder h o

/-- The curves of P-256, P-384 and P-521. -/
def nistCurves : Platform where
  ecInit group := [(19, 32, 32), (20, 48, 48), (21, 66, 66)].lookup group
  tmpAlloc := true
  primeInit := true
  orderInit := true

theorem nistCurves_sound : nistCurves.Sound := by
  intro group primeLen orderLen h
  obtain ⟨l₁, l₂, hl, -⟩ := List.lookup_eq_some_iff.mp h
  have hmem := List.mem_append_right l₁ (List.mem_cons_self (a := (group, primeLen, orderLen)) (l := l₂))
  rw [← hl] at hmem
  have hle : ∀ x ∈ [(19, 32, 32), (20, 48, 48), (21, 66, 66)],
      x.2.1 ≤ saeMaxEccPrimeLen ∧ x.2.2 ≤ saeMaxEccPrimeLen := by decide
  exact hle _ hmem

/-- SAE-EXT-KEY on P-256 with SAE-PK. -/
def extKeyP256 : Input := ⟨⟨false, 32, 32⟩, true, true, keyMgmtSaeExtKey, some 2, none, false⟩

/-- The copy of its PMK. -/
theorem extKeyP256_inside : Access.Inside ⟨.pmk, 0, 32⟩ :=
  (keyBuffers_iff ⟨false, true, true⟩ nistCurves nistCurves_sound 19 extKeyP256 (by decide)).mpr
    (fun _ _ => by decide) ⟨true, true, true, true, true⟩ ⟨.pmk, 0, 32⟩ (by decide)

/-- On P-384 the PMK of 48 octets is copied to the array of 32. -/
theorem pmk_overflows :
    ¬∀ (build : Build) (os : Platform), os.Sound → ∀ (group : ℕ) (sae : Input),
      saeSetGroup build os group = some sae.group →
        ∀ o, ∀ a ∈ sae.saeDeriveKeys build o, a.Inside := by
  intro h
  have hinside := h ⟨false, true, false⟩ nistCurves nistCurves_sound 20
    ⟨⟨false, 48, 48⟩, true, false, keyMgmtSaeExtKey, none, none, false⟩ (by decide)
    ⟨true, true, true, true, true⟩ ⟨.pmk, 0, 48⟩ (by decide)
  revert hinside
  decide

end Inside

end Wpa.Sae.KeyBuffers
