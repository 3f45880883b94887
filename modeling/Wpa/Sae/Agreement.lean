import Wpa.Sae.Keys

/-! Two parties that process each other's commit have the same keys, and each accepts the confirm
message of the other. -/

namespace Wpa.Sae
open Lib Bytes
variable {E : Type}

section Algebra
variable [AddCommGroup E]

/-- The mask cancels: what is left is the product of the two secrets times the password element. -/
theorem shared_element {r : ℕ} {p : E} (hp : r • p = 0) (rand peerRand peerMask : ℕ) :
    rand • (((peerRand + peerMask) % r) • p + -(peerMask • p)) = (rand * peerRand) • p := by
  have hmod : ((peerRand + peerMask) % r) • p = (peerRand + peerMask) • p :=
    (nsmul_eq_mod_nsmul _ hp).symm
  rw [hmod, add_nsmul, add_neg_cancel_right, mul_nsmul']

end Algebra

section Prepare

/-- What `sae_derive_commit` leaves behind, for the secrets it has drawn. -/
structure Prepared (ops : Ops E) (g : Group E) (p : E) (rand mask : ℕ) (tmp : Tmp E) : Prop where
  group : tmp.group = some g
  pwe : tmp.pwe.map Pwe.element = some p
  saeRand : tmp.saeRand = some rand
  ownCommitScalar : tmp.ownCommitScalar = some ((rand + mask) % g.order)
  ownCommitElement : ∃ point element, ops.mul p mask = some point ∧
    ops.invert point = some element ∧ tmp.ownCommitElement = some element

theorem acceptedScalar_spec {order rand mask scalar : ℕ} {draw : Option ℕ × Option ℕ}
    (h : acceptedScalar order draw = some (rand, mask, scalar)) :
    1 < rand ∧ 1 < mask ∧ 1 < scalar ∧ scalar = (rand + mask) % order := by
  simp only [acceptedScalar, Option.bind_eq_bind, Option.bind_eq_some_iff, Option.guard_eq_some',
    exists_and_left, Option.pure_def, Option.some.injEq, Prod.mk.injEq] at h
  obtain ⟨r, -, hr, -, m, -, hm, hs, rfl, rfl, -, -, rfl⟩ := h
  exact ⟨hr, hm, hs, rfl⟩

theorem dragonflyGenerateScalar_spec {order rand mask scalar : ℕ}
    {draws : List (Option ℕ × Option ℕ)}
    (h : dragonflyGenerateScalar order draws = some (rand, mask, scalar)) :
    1 < rand ∧ 1 < mask ∧ 1 < scalar ∧ scalar = (rand + mask) % order := by
  obtain ⟨draw, -, hdraw⟩ := List.exists_of_findSome?_eq_some h
  exact acceptedScalar_spec hdraw

theorem saeDeriveCommit_spec {ops : Ops E} {draws : List (Option ℕ × Option ℕ)} {tmp tmp' : Tmp E}
    {g : Group E} {pwe : Pwe E} (h : saeDeriveCommit ops draws tmp = some tmp')
    (hgroup : tmp.group = some g) (hpwe : tmp.pwe = some pwe) :
    ∃ rand mask, Prepared ops g pwe.element rand mask tmp' ∧
      tmp'.ownRejectedGroups = tmp.ownRejectedGroups ∧ tmp'.ownAddrHigher = tmp.ownAddrHigher := by
  simp only [saeDeriveCommit, hgroup, hpwe, Option.bind_eq_bind, Option.bind_some,
    Option.bind_eq_some_iff, Option.pure_def, Option.some.injEq] at h
  obtain ⟨⟨rand, mask, scalar⟩, hscalar, point, hmul, element, hinvert, rfl⟩ := h
  obtain ⟨-, -, -, rfl⟩ := dragonflyGenerateScalar_spec hscalar
  exact ⟨rand, mask, ⟨rfl, rfl, rfl, rfl, point, element, hmul, hinvert, rfl⟩, rfl, rfl⟩

/-- The call by which a party prepares its commit, by the way the password element was derived. -/
def prepare (ops : Ops E) (draws : List (Option ℕ × Option ℕ)) (h2e : Bool) (pwe : Pwe E)
    (addr1 addr2 : Bytes) (rejectedGroups : Option (List ℕ)) (sae : Data E) : Option (Data E) :=
  if h2e then saePrepareCommitPt ops draws (some pwe) addr1 addr2 rejectedGroups sae
  else saePrepareCommit ops draws (some pwe) sae

theorem prepare_spec {ops : Ops E} {draws : List (Option ℕ × Option ℕ)} {h2e : Bool} {pwe : Pwe E}
    {addr1 addr2 : Bytes} {rejectedGroups : Option (List ℕ)} {sae sae' : Data E} {g : Group E}
    (hgroup : sae.tmp.bind Tmp.group = some g)
    (h : prepare ops draws h2e pwe addr1 addr2 rejectedGroups sae = some sae') :
    ∃ tmp rand mask, sae'.tmp = some tmp ∧ Prepared ops g pwe.element rand mask tmp ∧
      sae'.h2e = h2e ∧ sae'.akmp = sae.akmp ∧
      (h2e = true → tmp.ownAddrHigher = decide (0 < memcmp addr1 addr2)) := by
  cases h2e with
  | false =>
    simp only [prepare, saePrepareCommit, Bool.false_eq_true, if_false, Option.bind_eq_bind,
      Option.bind_some, Option.bind_eq_some_iff, Option.pure_def, Option.some.injEq] at h
    obtain ⟨tmp, htmp, tmp', hderive, rfl⟩ := h
    rw [htmp] at hgroup
    obtain ⟨rand, mask, hprep, -⟩ := saeDeriveCommit_spec hderive hgroup rfl
    exact ⟨tmp', rand, mask, rfl, hprep, rfl, rfl, fun h => absurd h (by decide)⟩
  | true =>
    simp only [prepare, saePrepareCommitPt, if_true, Option.bind_eq_bind,
      Option.bind_some, Option.bind_eq_some_iff, Option.pure_def, Option.some.injEq] at h
    obtain ⟨tmp, htmp, tmp', hderive, rfl⟩ := h
    rw [htmp] at hgroup
    obtain ⟨rand, mask, hprep, -, hhigher⟩ := saeDeriveCommit_spec hderive hgroup rfl
    exact ⟨tmp', rand, mask, rfl, hprep, rfl, rfl, fun _ => hhigher⟩

end Prepare

section Exchange

/-- The instance when it has parsed the commit of `peer`. -/
def receiveCommit (own peer : Data E) : Data E :=
  { own with
    peerCommitScalar := peer.tmp.bind Tmp.ownCommitScalar
    tmp := own.tmp.map fun tmp => { tmp with
      peerCommitElement := peer.tmp.bind Tmp.ownCommitElement
      peerRejectedGroups := peer.tmp.bind Tmp.ownRejectedGroups } }

/-- What the two parties have in common when both have prepared their commits. -/
structure Exchange (ops : Ops E) (g : Group E) (p : E) (own peer : Data E) where
  ownTmp : Tmp E
  peerTmp : Tmp E
  own_tmp : own.tmp = some ownTmp
  peer_tmp : peer.tmp = some peerTmp
  ownRand : ℕ
  ownMask : ℕ
  peerRand : ℕ
  peerMask : ℕ
  own_prepared : Prepared ops g p ownRand ownMask ownTmp
  peer_prepared : Prepared ops g p peerRand peerMask peerTmp
  h2e : own.h2e = peer.h2e
  akmp : own.akmp = peer.akmp
  higher : own.h2e = true → ownTmp.ownAddrHigher = !peerTmp.ownAddrHigher

namespace Exchange
variable {ops : Ops E} {g : Group E} {p : E} {own peer : Data E}

def swap (x : Exchange ops g p own peer) : Exchange ops g p peer own where
  ownTmp := x.peerTmp
  peerTmp := x.ownTmp
  own_tmp := x.peer_tmp
  peer_tmp := x.own_tmp
  ownRand := x.peerRand
  ownMask := x.peerMask
  peerRand := x.ownRand
  peerMask := x.ownMask
  own_prepared := x.peer_prepared
  peer_prepared := x.own_prepared
  h2e := x.h2e.symm
  akmp := x.akmp.symm
  higher h := by rw [x.higher (x.h2e.trans h), Bool.not_not]

/-- The temporary data of the instance with the commit of the peer. -/
def tmp (x : Exchange ops g p own peer) : Tmp E :=
  { x.ownTmp with
    peerCommitElement := x.peerTmp.ownCommitElement
    peerRejectedGroups := x.peerTmp.ownRejectedGroups }

theorem receiveCommit_eq (x : Exchange ops g p own peer) :
    receiveCommit own peer =
      { own with peerCommitScalar := x.peerTmp.ownCommitScalar, tmp := some x.tmp } := by
  simp only [receiveCommit, x.own_tmp, x.peer_tmp, Option.bind_some, Option.map_some, tmp]

/-- What the parties derive k from. -/
theorem saeDeriveK_eq [AddCommGroup E] (hops : ops.Lawful g) (x : Exchange ops g p own peer)
    {k : Bytes} (h : saeDeriveK ops (receiveCommit own peer) = some k) :
    g.xBin ((x.ownRand * x.peerRand) • p) = some k := by
  obtain ⟨pwe, hpwe, hp⟩ := Option.map_eq_some_iff.mp x.own_prepared.pwe
  obtain ⟨masked, element, hmasked, hinvert, helement⟩ := x.peer_prepared.ownCommitElement
  rw [x.receiveCommit_eq] at h
  simp only [saeDeriveK, tmp, x.own_prepared.group, hpwe, hp, x.peer_prepared.ownCommitScalar,
    x.own_prepared.saeRand, helement, Option.bind_eq_bind, Option.bind_some,
    Option.bind_eq_some_iff] at h
  obtain ⟨scaled, hscaled, sum, hsum, point, hpoint, -, -, hk⟩ := h
  have hvalue : point = (x.ownRand * x.peerRand) • p := by
    rw [hops.mul_eq hpoint, hops.add_eq hsum, hops.mul_eq hscaled, hops.invert_eq hinvert,
      hops.mul_eq hmasked]
    exact shared_element (hops.order_nsmul p) _ _ _
  rw [← hvalue]
  exact hk

/-- The salt does not depend on which of the parties computes it. -/
theorem saeSalt_swap (x : Exchange ops g p own peer) (hashLen : ℕ) :
    saeSalt own.h2e x.ownTmp.ownAddrHigher x.ownTmp.ownRejectedGroups x.peerTmp.ownRejectedGroups
      hashLen =
    saeSalt peer.h2e x.peerTmp.ownAddrHigher x.peerTmp.ownRejectedGroups
      x.ownTmp.ownRejectedGroups hashLen := by
  unfold saeSalt
  rw [← x.h2e, Bool.or_comm]
  cases hh2e : own.h2e with
  | false => rfl
  | true =>
    rw [x.higher hh2e]
    cases x.peerTmp.ownAddrHigher <;> rfl

def hashLen (_ : Exchange ops g p own peer) : ℕ := saeHashLen g own.h2e

def pmkLen (x : Exchange ops g p own peer) : ℕ :=
  if wpaKeyMgmtSaeExtKey own.akmp then x.hashLen else saePmkLen

/-- The sum of the scalars, from which the PMKID is taken. -/
def val (x : Exchange ops g p own peer) : Bytes :=
  ofBeNat (((x.ownRand + x.ownMask) % g.order + (x.peerRand + x.peerMask) % g.order) % g.order)
    g.orderLen

/-- The output of the key derivation. -/
def keys (x : Exchange ops g p own peer) (cr : Crypto) (k : Bytes) : Option Bytes := do
  let salt := saeSalt own.h2e x.ownTmp.ownAddrHigher x.ownTmp.ownRejectedGroups
    x.peerTmp.ownRejectedGroups x.hashLen
  let keyseed ← hkdfExtract cr x.hashLen salt k
  saeKdfHash cr x.hashLen keyseed "SAE KCK and PMK" x.val (x.hashLen + x.pmkLen)

/-- The instance of a party when it has derived `keys`. -/
def derived (x : Exchange ops g p own peer) (keys : Bytes) : Data E :=
  { receiveCommit own peer with
    pmk := slice keys x.hashLen x.pmkLen
    pmkid := x.val.take saePmkidLen
    tmp := some { x.tmp with kck := keys.take x.hashLen } }

theorem hashLen_swap (x : Exchange ops g p own peer) : x.swap.hashLen = x.hashLen := by
  rw [hashLen, hashLen, x.h2e]

theorem pmkLen_swap (x : Exchange ops g p own peer) : x.swap.pmkLen = x.pmkLen := by
  rw [pmkLen, pmkLen, hashLen_swap, x.akmp]

theorem val_swap (x : Exchange ops g p own peer) : x.swap.val = x.val := by
  rw [val, val]
  exact congrArg (fun n => ofBeNat (n % g.order) g.orderLen) (Nat.add_comm _ _)

theorem keys_swap (x : Exchange ops g p own peer) (cr : Crypto) (k : Bytes) :
    x.swap.keys cr k = x.keys cr k := by
  rw [keys, keys, hashLen_swap, pmkLen_swap, val_swap, x.saeSalt_swap]
  rfl

theorem saeDeriveKeys_eq (x : Exchange ops g p own peer) (cr : Crypto) (k : Bytes) :
    saeDeriveKeys cr k (receiveCommit own peer) = (x.keys cr k).map x.derived := by
  have hown := x.own_prepared.ownCommitScalar
  have hpeer := x.peer_prepared.ownCommitScalar
  have hgroup : x.tmp.group = some g := x.own_prepared.group
  have hscalar : x.tmp.ownCommitScalar = some ((x.ownRand + x.ownMask) % g.order) := hown
  unfold derived
  rw [x.receiveCommit_eq]
  simp only [saeDeriveKeys, keys, hgroup, hscalar, hpeer, Option.bind_eq_bind, Option.bind_some,
    Option.pure_def, Option.map_eq_bind, Option.bind_assoc]
  rfl

theorem saeProcessCommit_eq [AddCommGroup E] (hops : ops.Lawful g) (x : Exchange ops g p own peer)
    {cr : Crypto} {own' : Data E}
    (h : saeProcessCommit cr ops (receiveCommit own peer) = some own') :
    ∃ k keys, saeDeriveK ops (receiveCommit own peer) = some k ∧
      g.xBin ((x.ownRand * x.peerRand) • p) = some k ∧ x.keys cr k = some keys ∧
      own' = x.derived keys := by
  obtain ⟨k, hk, hderive⟩ := Option.bind_eq_some_iff.mp h
  rw [x.saeDeriveKeys_eq] at hderive
  obtain ⟨keys, hkeys, rfl⟩ := Option.map_eq_some_iff.mp hderive
  exact ⟨k, keys, hk, x.saeDeriveK_eq hops hk, hkeys, rfl⟩

theorem hkdfExtract_length {cr : Crypto} {hashLen : ℕ} {salt data out : Bytes}
    (h : hkdfExtract cr hashLen salt data = some out) : out.length = hashLen := by
  obtain ⟨alg, halg, hmac⟩ := Option.bind_eq_some_iff.mp h
  rw [cr.mac_length hmac]
  unfold hmacOfHashLen at halg
  split_ifs at halg <;> cases halg <;> simp_all [Mac.size]

/-- The message of one party passes the check of the other, whatever the confirm counters are. -/
theorem saeCheckConfirm_derived (x : Exchange ops g p own peer) {cr : Crypto} {keys msg : Bytes}
    {m n : ℕ} {sae : Data E}
    (h : saeWriteConfirm cr { x.derived keys with sendConfirm := m } = (sae, some msg)) :
    saeCheckConfirm cr { x.swap.derived keys with sendConfirm := n } msg = true := by
  obtain ⟨-, ownElement, -, -, hown⟩ := x.own_prepared.ownCommitElement
  obtain ⟨-, peerElement, -, -, hpeer⟩ := x.peer_prepared.ownCommitElement
  have hconfirm := congrArg Prod.snd h
  simp only [saeWriteConfirm, derived, x.receiveCommit_eq, tmp, x.own_prepared.group,
    x.own_prepared.ownCommitScalar, x.peer_prepared.ownCommitScalar, hown, hpeer,
    Option.bind_eq_bind, Option.bind_some] at hconfirm
  obtain ⟨confirm, hcn, rfl⟩ := Option.map_eq_some_iff.mp hconfirm
  have hsc : ∀ sc, (putLe16 sc).length = 2 := fun sc => rfl
  have hlen : confirm.length = (keys.take x.hashLen).length := by
    simp only [saeCnConfirm, Option.bind_eq_bind, Option.bind_eq_some_iff] at hcn
    obtain ⟨_, -, _, -, _, -, _, -, hcn⟩ := hcn
    exact hkdfExtract_length hcn
  have hverifier : ∀ sc, saeVerifier cr { x.swap.derived keys with sendConfirm := n } sc =
      saeCnConfirm cr g (keys.take x.hashLen) sc ((x.ownRand + x.ownMask) % g.order) ownElement
        ((x.peerRand + x.peerMask) % g.order) peerElement := by
    intro sc
    simp only [saeVerifier, derived, x.swap.receiveCommit_eq, tmp, swap, x.peer_prepared.group,
      x.own_prepared.ownCommitScalar, x.peer_prepared.ownCommitScalar, hown, hpeer,
      Option.bind_eq_bind, Option.bind_some]
    rw [← x.hashLen_swap]
    rfl
  unfold saeCheckConfirm
  simp only [hverifier, List.take_left' (hsc _), hcn, Option.any_some]
  simp only [derived, Option.any_some, hashLen_swap, slice, List.drop_left' (hsc _), ← hlen,
    List.take_length, List.length_append, hsc, le_refl, decide_true, beq_self_eq_true,
    Bool.and_self]

end Exchange
/-- With distinct addresses exactly one of the parties has the higher one. -/
theorem memcmp_swap {addr1 addr2 : Bytes} (hlen : addr1.length = addr2.length)
    (hne : addr1 ≠ addr2) : decide (0 < memcmp addr1 addr2) = !decide (0 < memcmp addr2 addr1) := by
  have hvalue : addr1.beNat ≠ addr2.beNat := fun h => hne (beNat_injective hlen h)
  rw [Bool.eq_not, ne_eq, decide_eq_decide, memcmp_pos_iff hlen, memcmp_pos_iff hlen.symm]
  omega

/-- The commits that two parties have prepared for each other. -/
theorem exists_exchange {ops : Ops E} {g : Group E} {p : E} {h2e : Bool} {pwe1 pwe2 : Pwe E}
    (hpwe1 : pwe1.element = p) (hpwe2 : pwe2.element = p) {addr1 addr2 : Bytes}
    (hlen : addr1.length = addr2.length) (hne : addr1 ≠ addr2)
    {draws1 draws2 : List (Option ℕ × Option ℕ)} {rejected1 rejected2 : Option (List ℕ)}
    {start1 start2 sae1 sae2 : Data E} (hgroup1 : start1.tmp.bind Tmp.group = some g)
    (hgroup2 : start2.tmp.bind Tmp.group = some g) (hakmp : start1.akmp = start2.akmp)
    (h1 : prepare ops draws1 h2e pwe1 addr1 addr2 rejected1 start1 = some sae1)
    (h2 : prepare ops draws2 h2e pwe2 addr2 addr1 rejected2 start2 = some sae2) :
    Nonempty (Exchange ops g p sae1 sae2) := by
  obtain ⟨tmp1, rand1, mask1, htmp1, hprep1, hh2e1, hakmp1, hhigher1⟩ := prepare_spec hgroup1 h1
  obtain ⟨tmp2, rand2, mask2, htmp2, hprep2, hh2e2, hakmp2, hhigher2⟩ := prepare_spec hgroup2 h2
  rw [hpwe1] at hprep1
  rw [hpwe2] at hprep2
  refine ⟨⟨tmp1, tmp2, htmp1, htmp2, rand1, mask1, rand2, mask2, hprep1, hprep2,
    hh2e1.trans hh2e2.symm, ?_, fun h => ?_⟩⟩
  · rw [hakmp1, hakmp2, hakmp]
  · have hh2e : h2e = true := hh2e1.symm.trans h
    rw [hhigher1 hh2e, hhigher2 hh2e]
    exact memcmp_swap hlen hne

/-- Two parties with one group, password element, way of its derivation and AKM, that have processed
each other's commits, have the same k, KCK, PMK and PMKID, and accept each other's confirms. -/
theorem key_agreement [AddCommGroup E] {ops : Ops E} {g : Group E} (hops : ops.Lawful g)
    (cr : Crypto) {h2e : Bool} {pwe1 pwe2 : Pwe E} (hpwe : pwe1.element = pwe2.element)
    {addr1 addr2 : Bytes} (hlen : addr1.length = addr2.length) (hne : addr1 ≠ addr2)
    {draws1 draws2 : List (Option ℕ × Option ℕ)} {rejected1 rejected2 : Option (List ℕ)}
    {start1 start2 sae1 sae2 sae1' sae2' : Data E} (hgroup1 : start1.tmp.bind Tmp.group = some g)
    (hgroup2 : start2.tmp.bind Tmp.group = some g) (hakmp : start1.akmp = start2.akmp)
    (h1 : prepare ops draws1 h2e pwe1 addr1 addr2 rejected1 start1 = some sae1)
    (h2 : prepare ops draws2 h2e pwe2 addr2 addr1 rejected2 start2 = some sae2)
    (hp1 : saeProcessCommit cr ops (receiveCommit sae1 sae2) = some sae1')
    (hp2 : saeProcessCommit cr ops (receiveCommit sae2 sae1) = some sae2') :
    (∃ k, saeDeriveK ops (receiveCommit sae1 sae2) = some k ∧
      saeDeriveK ops (receiveCommit sae2 sae1) = some k) ∧
    sae1'.tmp.map Tmp.kck = sae2'.tmp.map Tmp.kck ∧ sae1'.pmk = sae2'.pmk ∧
    sae1'.pmkid = sae2'.pmkid ∧
    (∀ m n sae msg, saeWriteConfirm cr { sae1' with sendConfirm := m } = (sae, some msg) →
      saeCheckConfirm cr { sae2' with sendConfirm := n } msg = true) ∧
    (∀ m n sae msg, saeWriteConfirm cr { sae2' with sendConfirm := m } = (sae, some msg) →
      saeCheckConfirm cr { sae1' with sendConfirm := n } msg = true) := by
  obtain ⟨x⟩ := exists_exchange rfl hpwe.symm hlen hne hgroup1 hgroup2 hakmp h1 h2
  obtain ⟨k, keys, hk, hx, hkeys, rfl⟩ := x.saeProcessCommit_eq hops hp1
  obtain ⟨k', keys', hk', hx', hkeys', rfl⟩ := x.swap.saeProcessCommit_eq hops hp2
  have hsame : k' = k := by
    have hcomm : x.swap.ownRand * x.swap.peerRand = x.ownRand * x.peerRand := Nat.mul_comm _ _
    rw [hcomm] at hx'
    exact Option.some.inj (hx'.symm.trans hx)
  subst hsame
  have hkeys_same : keys' = keys := by
    rw [x.keys_swap] at hkeys'
    exact Option.some.inj (hkeys'.symm.trans hkeys)
  subst hkeys_same
  refine ⟨⟨k', hk, hk'⟩, ?_, ?_, ?_, ?_, ?_⟩
  · simp only [Exchange.derived, Option.map_some, Exchange.hashLen_swap]
  · simp only [Exchange.derived, Exchange.hashLen_swap, Exchange.pmkLen_swap]
  · simp only [Exchange.derived, Exchange.val_swap]
  · exact fun m n sae msg => x.saeCheckConfirm_derived
  · exact fun m n sae msg => x.swap.saeCheckConfirm_derived

def cyclicStart : Data (ZMod 11) :=
  { group := 19, akmp := keyMgmtSaeExtKey, tmp := some { group := some cyclicGroup } }

def cyclicPwe : Pwe (ZMod 11) := { element := 1, origin := { group := 19, h2e := true, password := [] } }

def cyclicPrepare (draw : Option ℕ × Option ℕ) (addr1 addr2 : Bytes) : Option (Data (ZMod 11)) :=
  prepare cyclicOps [draw] true cyclicPwe addr1 addr2 (some [19]) cyclicStart

def cyclicSae1 : Data (ZMod 11) := (cyclicPrepare (some 2, some 3) [1] [2]).getD cyclicStart
def cyclicSae2 : Data (ZMod 11) := (cyclicPrepare (some 4, some 5) [2] [1]).getD cyclicStart

def cyclicKeys1 : Data (ZMod 11) :=
  (saeProcessCommit default cyclicOps (receiveCommit cyclicSae1 cyclicSae2)).getD cyclicStart

def cyclicKeys2 : Data (ZMod 11) :=
  (saeProcessCommit default cyclicOps (receiveCommit cyclicSae2 cyclicSae1)).getD cyclicStart

def cyclicConfirm : Bytes := ((saeWriteConfirm default cyclicKeys1).2).getD []

theorem cyclic_key_agreement :
    cyclicPrepare (some 2, some 3) [1] [2] = some cyclicSae1 ∧
    cyclicPrepare (some 4, some 5) [2] [1] = some cyclicSae2 ∧
    saeProcessCommit default cyclicOps (receiveCommit cyclicSae1 cyclicSae2) = some cyclicKeys1 ∧
    saeProcessCommit default cyclicOps (receiveCommit cyclicSae2 cyclicSae1) = some cyclicKeys2 ∧
    cyclicKeys1.pmk = cyclicKeys2.pmk ∧
    (saeWriteConfirm default cyclicKeys1).2 = some cyclicConfirm ∧
    saeCheckConfirm default cyclicKeys2 cyclicConfirm = true := by
  have hops : cyclicOps.Lawful cyclicGroup :=
    ⟨fun h => (Option.some.inj h).symm, fun h => (Option.some.inj h).symm,
      fun h => (Option.some.inj h).symm, by decide⟩
  have h1 : cyclicPrepare (some 2, some 3) [1] [2] = some cyclicSae1 :=
    eq_some_getD (by decide) _
  have h2 : cyclicPrepare (some 4, some 5) [2] [1] = some cyclicSae2 :=
    eq_some_getD (by decide) _
  have hp1 : saeProcessCommit default cyclicOps (receiveCommit cyclicSae1 cyclicSae2) =
      some cyclicKeys1 := eq_some_getD (by decide) _
  have hp2 : saeProcessCommit default cyclicOps (receiveCommit cyclicSae2 cyclicSae1) =
      some cyclicKeys2 := eq_some_getD (by decide) _
  have hw : (saeWriteConfirm default cyclicKeys1).2 = some cyclicConfirm :=
    eq_some_getD (by decide) _
  have hagree := key_agreement hops default rfl (by rfl) (by decide) rfl rfl rfl h1 h2 hp1 hp2
  have hwrite : saeWriteConfirm default cyclicKeys1 =
      ((saeWriteConfirm default cyclicKeys1).1, some cyclicConfirm) := Prod.ext rfl hw
  exact ⟨h1, h2, hp1, hp2, hagree.2.2.1, hw,
    hagree.2.2.2.2.1 cyclicKeys1.sendConfirm cyclicKeys2.sendConfirm _ _ hwrite⟩

end Exchange
end Wpa.Sae
