import Wpa.Common.Crypto

/-! The state of one SAE instance, `struct sae_data` of `common/sae.h`, over the group operations
of the crypto library. The fields `*_ecc` and `*_ffc` of the source are one field here: which of
the two is in use is a property of the group. Built without `CONFIG_SAE_PK`, as the port is. -/

namespace Wpa.Sae
open Lib Bytes

inductive State where
  | nothing
  | committed
  | confirmed
  | accepted
  deriving DecidableEq

/-- A group as `crypto_ec_init` or `dh_groups_get` gives it. The elements are those of a curve,
or numbers modulo the prime if `ffc` is set. -/
structure Group (E : Type) where
  ffc : Bool
  prime : ℕ
  primeLen : ℕ
  order : ℕ
  orderLen : ℕ
  /-- `crypto_ec_point_to_bin` with both coordinates, or `crypto_bignum_to_bin`. -/
  toBin : E → Option Bytes
  /-- The octets of the first coordinate, or of the number. -/
  xBin : E → Option Bytes
  /-- `crypto_ec_point_from_bin`, or `crypto_bignum_init_set`. -/
  fromBin : Bytes → Option E
  isOnCurve : E → Bool
  prime_lt : prime < 256 ^ primeLen
  order_le : order ≤ 256 ^ primeLen

namespace Group
variable {E : Type} (g : Group E)

def elementLen : ℕ := if g.ffc then g.primeLen else 2 * g.primeLen

end Group

def saeEccPrimeLen2HashLen (primeLen : ℕ) : ℕ :=
  if primeLen ≤ 32 then 32 else if primeLen ≤ 48 then 48 else 64

def saeFfcPrimeLen2HashLen (primeLen : ℕ) : ℕ :=
  if primeLen ≤ 256 then 32 else if primeLen ≤ 384 then 48 else 64

/-- What a password element was derived from; the source keeps the element only. -/
structure PweOrigin where
  group : ℕ
  h2e : Bool
  password : Bytes
  deriving DecidableEq

structure Pwe (E : Type) where
  element : E
  origin : PweOrigin

/-- `struct sae_temporary_data`; `group` is empty if neither `ec` nor `dh` is set. -/
structure Tmp (E : Type) where
  kck : Bytes := []
  ownCommitScalar : Option ℕ := none
  ownCommitElement : Option E := none
  peerCommitElement : Option E := none
  pwe : Option (Pwe E) := none
  saeRand : Option ℕ := none
  group : Option (Group E) := none
  pwId : Option Bytes := none
  vlanId : ℕ := 0
  antiCloggingToken : Option Bytes := none
  ownRejectedGroups : Option Bytes := none
  peerRejectedGroups : Option Bytes := none
  ownAddrHigher : Bool := false

structure Data (E : Type) where
  state : State := .nothing
  sendConfirm : ℕ := 0
  pmk : Bytes := []
  akmp : ℕ := 0
  ownAkmSuiteSelector : ℕ := 0
  peerAkmSuiteSelector : ℕ := 0
  pmkid : Bytes := []
  peerCommitScalar : Option ℕ := none
  peerCommitScalarAccepted : Option ℕ := none
  group : ℕ := 0
  sync : ℕ := 0
  rc : ℕ := 0
  h2e : Bool := false
  pk : Bool := false
  tmp : Option (Tmp E) := none

def Data.modifyTmp {E : Type} (f : Tmp E → Tmp E) (sae : Data E) : Data E :=
  { sae with tmp := sae.tmp.map f }

def saeClearTempData {E : Type} (sae : Data E) : Data E := { sae with tmp := none }

def saeClearData {E : Type} : Data E := {}

/-- `dragonfly_suitable_group` with `ecc_only` not set. -/
def dragonflySuitableGroup (group : ℕ) : Bool :=
  [19, 20, 21, 15, 16, 17, 18].contains group

/-- The instance and whether the call succeeded. -/
def saeSetGroup {E : Type} (lib : ℕ → Option (Group E)) (group : ℕ) (sae : Data E) :
    Data E × Bool :=
  if !dragonflySuitableGroup group then (sae, false)
  else
    match lib group with
    | some g => ({ group, tmp := some { group := some g } }, true)
    | none => ({ tmp := some {} }, false)

/-- The part of an allocated string that the string functions see. -/
def cString (b : Bytes) : Bytes := b.takeWhile (· != 0)

def putLe16 (n : ℕ) : Bytes := (ofBeNat n 2).reverse

/-- The data elements that may follow the scalar and the element of a commit message. -/
def extElement (id : UInt8) (data : Bytes) : Bytes :=
  [255, UInt8.ofNat (1 + data.length), id] ++ data

def extPasswordIdentifier : UInt8 := 33
def extRejectedGroups : UInt8 := 92
def extAntiCloggingToken : UInt8 := 93
def extAkmSuiteSelector : UInt8 := 114

def rsnAuthKeyMgmtSae : ℕ := 0x000fac08
def rsnAuthKeyMgmtFtSae : ℕ := 0x000fac09
def rsnAuthKeyMgmtSaeExtKey : ℕ := 0x000fac18

/-- `wpa_akm_to_suite` for the SAE suites, in the order in which the source tests them. -/
def wpaAkmToSuite (akmp : ℕ) : ℕ :=
  if hasBits akmp keyMgmtSae then rsnAuthKeyMgmtSae
  else if hasBits akmp keyMgmtSaeExtKey then rsnAuthKeyMgmtSaeExtKey
  else if hasBits akmp keyMgmtFtSae then rsnAuthKeyMgmtFtSae
  else 0

end Wpa.Sae
