import Mathlib.Data.ZMod.Basic
import Mathlib.GroupTheory.OrderOfElement
import Wpa.Sae.Commit

/-! Own commit values, the keys that follow from both commits, and the confirm message:
`sae_derive_commit` up to `sae_check_confirm` of `common/sae.c`, with
`dragonfly_generate_scalar`. The derivation of the password element is a parameter. -/

namespace Wpa.Sae
open Lib Bytes
variable {E : Type}

/-- `crypto_ec_point_mul`, `_add`, `_invert` and `_is_at_infinity`, or their counterparts modulo
the prime. -/
structure Ops (E : Type) where
  mul : E → ℕ → Option E
  add : E → E → Option E
  invert : E → Option E
  isIdentity : E → Bool

/-- The operations are those of a commutative group whose elements have the order of `g`. -/
structure Ops.Lawful [AddCommGroup E] (ops : Ops E) (g : Group E) : Prop where
  mul_eq : ∀ {x y : E} {n : ℕ}, ops.mul x n = some y → y = n • x
  add_eq : ∀ {x y z : E}, ops.add x y = some z → z = x + y
  invert_eq : ∀ {x y : E}, ops.invert x = some y → y = -x
  order_nsmul : ∀ x : E, g.order • x = 0

section Commit

/-- One round of the loop: what `crypto_bignum_rand` gave for `rand` and `mask`. -/
def acceptedScalar (order : ℕ) (draw : Option ℕ × Option ℕ) : Option (ℕ × ℕ × ℕ) := do
  let rand ← draw.1
  guard (1 < rand)
  let mask ← draw.2
  guard (1 < mask)
  let scalar := (rand + mask) % order
  guard (1 < scalar)
  return (rand, mask, scalar)

def dragonflyGenerateScalar (order : ℕ) (draws : List (Option ℕ × Option ℕ)) :
    Option (ℕ × ℕ × ℕ) :=
  (draws.take 100).findSome? (acceptedScalar order)

def saeDeriveCommit (ops : Ops E) (draws : List (Option ℕ × Option ℕ)) (tmp : Tmp E) :
    Option (Tmp E) := do
  let g ← tmp.group
  let (rand, mask, scalar) ← dragonflyGenerateScalar g.order draws
  let pwe ← tmp.pwe
  let element ← ops.invert (← ops.mul pwe.element mask)
  return { tmp with
    saeRand := some rand
    ownCommitScalar := some scalar
    ownCommitElement := some element }

def saePrepareCommit (ops : Ops E) (draws : List (Option ℕ × Option ℕ)) (pwe : Option (Pwe E))
    (sae : Data E) : Option (Data E) := do
  let tmp ← sae.tmp
  let pwe ← pwe
  let tmp ← saeDeriveCommit ops draws { tmp with pwe := some pwe }
  return { sae with h2e := false, pk := false, tmp := some tmp }

def saePrepareCommitPt (ops : Ops E) (draws : List (Option ℕ × Option ℕ)) (pwe : Option (Pwe E))
    (addr1 addr2 : Bytes) (rejectedGroups : Option (List ℕ)) (sae : Data E) :
    Option (Data E) := do
  let tmp ← sae.tmp
  let pwe ← pwe
  let tmp ← saeDeriveCommit ops draws { tmp with
    ownAddrHigher := decide (0 < memcmp addr1 addr2)
    ownRejectedGroups := rejectedGroups.map fun groups => groups.flatMap putLe16
    pwe := some pwe }
  return { sae with h2e := true, tmp := some tmp }

end Commit

section Keys

def saePmkLen : ℕ := 32
def saePmkidLen : ℕ := 16

def hmacOfHashLen (hashLen : ℕ) : Option Mac :=
  if hashLen = 32 then some .hmacSha256
  else if hashLen = 48 then some .hmacSha384
  else if hashLen = 64 then some .hmacSha512
  else none

def hkdfExtract (cr : Crypto) (hashLen : ℕ) (salt data : Bytes) : Option Bytes :=
  (hmacOfHashLen hashLen).bind fun alg => cr.mac alg salt data

def saeKdfHash (cr : Crypto) (hashLen : ℕ) (k : Bytes) (label : String) (context : Bytes)
    (outLen : ℕ) : Option Bytes :=
  if hashLen = 32 then cr.prf .sha256 k label context outLen
  else if hashLen = 48 then cr.prf .sha384 k label context outLen
  else if hashLen = 64 then cr.prf .sha512 k label context outLen
  else none

/-- `sae_derive_k_ecc` and `sae_derive_k_ffc`. -/
def saeDeriveK (ops : Ops E) (sae : Data E) : Option Bytes := do
  let tmp ← sae.tmp
  let g ← tmp.group
  let pwe ← tmp.pwe
  let point ← ops.mul pwe.element (← sae.peerCommitScalar)
  let point ← ops.add point (← tmp.peerCommitElement)
  let point ← ops.mul point (← tmp.saeRand)
  guard !(ops.isIdentity point)
  g.xBin point

def saeHashLen (g : Group E) (h2e : Bool) : ℕ :=
  if !h2e then 32
  else if g.ffc then saeFfcPrimeLen2HashLen g.primeLen
  else saeEccPrimeLen2HashLen g.primeLen

/-- The lists of rejected groups, that of the higher address first, or zeros. -/
def saeSalt (h2e ownAddrHigher : Bool) (own peer : Option Bytes) (hashLen : ℕ) : Bytes :=
  if h2e && (own.isSome || peer.isSome) then
    if ownAddrHigher then own.getD [] ++ peer.getD [] else peer.getD [] ++ own.getD []
  else zeros hashLen

/-- `sae_derive_keys`. The octets of the PMK are those that are copied, whatever the size of
their array. -/
def saeDeriveKeys (cr : Crypto) (k : Bytes) (sae : Data E) : Option (Data E) := do
  let tmp ← sae.tmp
  let g ← tmp.group
  let hashLen := saeHashLen g sae.h2e
  let pmkLen := if wpaKeyMgmtSaeExtKey sae.akmp then hashLen else saePmkLen
  let salt := saeSalt sae.h2e tmp.ownAddrHigher tmp.ownRejectedGroups tmp.peerRejectedGroups hashLen
  let keyseed ← hkdfExtract cr hashLen salt k
  let val := ofBeNat (((← tmp.ownCommitScalar) + (← sae.peerCommitScalar)) % g.order) g.orderLen
  let keys ← saeKdfHash cr hashLen keyseed "SAE KCK and PMK" val (hashLen + pmkLen)
  return { sae with
    pmk := slice keys hashLen pmkLen
    pmkid := val.take saePmkidLen
    tmp := some { tmp with kck := keys.take hashLen } }

def saeProcessCommit (cr : Crypto) (ops : Ops E) (sae : Data E) : Option (Data E) := do
  let k ← saeDeriveK ops sae
  saeDeriveKeys cr k sae

end Keys

section Confirm

/-- `sae_cn_confirm_ecc` and `sae_cn_confirm_ffc`. -/
def saeCnConfirm (cr : Crypto) (g : Group E) (kck sc : Bytes) (scalar1 : ℕ) (element1 : E)
    (scalar2 : ℕ) (element2 : E) : Option Bytes := do
  let elementB1 ← g.toBin element1
  let elementB2 ← g.toBin element2
  let scalarB1 ← bignumToBin scalar1 g.primeLen
  let scalarB2 ← bignumToBin scalar2 g.primeLen
  hkdfExtract cr kck.length kck (sc ++ scalarB1 ++ elementB1 ++ scalarB2 ++ elementB2)

/-- The counter advances also when the confirm value cannot be computed. -/
def saeWriteConfirm (cr : Crypto) (sae : Data E) : Data E × Option Bytes :=
  match sae.tmp with
  | none => (sae, none)
  | some tmp =>
    let sendConfirm := if sae.sendConfirm < 0xffff then sae.sendConfirm + 1 else sae.sendConfirm
    let sc := putLe16 sendConfirm
    let confirm := do
      let g ← tmp.group
      saeCnConfirm cr g tmp.kck sc (← tmp.ownCommitScalar) (← tmp.ownCommitElement)
        (← sae.peerCommitScalar) (← tmp.peerCommitElement)
    ({ sae with sendConfirm }, confirm.map (sc ++ ·))

/-- The value a confirm message with the send-confirm octets `sc` has to carry. -/
def saeVerifier (cr : Crypto) (sae : Data E) (sc : Bytes) : Option Bytes := do
  let tmp ← sae.tmp
  let g ← tmp.group
  saeCnConfirm cr g tmp.kck sc (← sae.peerCommitScalar) (← tmp.peerCommitElement)
    (← tmp.ownCommitScalar) (← tmp.ownCommitElement)

def saeCheckConfirm (cr : Crypto) (sae : Data E) (data : Bytes) : Bool :=
  sae.tmp.any fun tmp =>
    decide (2 + tmp.kck.length ≤ data.length) &&
      (saeVerifier cr sae (data.take 2)).any fun verifier =>
        verifier == slice data 2 tmp.kck.length

end Confirm

section Cyclic

/-- The numbers modulo 11 as a group of order 11. -/
def cyclicGroup : Group (ZMod 11) where
  ffc := false
  prime := 11
  primeLen := 1
  order := 11
  orderLen := 1
  toBin x := some [UInt8.ofNat x.val, 0]
  xBin x := some [UInt8.ofNat x.val]
  fromBin b := b.head?.map fun x => (x.toNat : ZMod 11)
  isOnCurve _ := true
  prime_lt := by decide
  order_le := by decide

def cyclicOps : Ops (ZMod 11) where
  mul x n := some (n • x)
  add x y := some (x + y)
  invert x := some (-x)
  isIdentity x := decide (x = 0)

theorem eq_some_getD {α : Type} {o : Option α} (h : o.isSome = true) (d : α) :
    o = some (o.getD d) := by
  obtain ⟨a, rfl⟩ := Option.isSome_iff_exists.mp h
  rfl

end Cyclic
end Wpa.Sae
