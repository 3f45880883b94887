import Mathlib.Data.Nat.Bits
import Wpa.Lib.Bytes

/-! Cipher suites, key management suites and protocol constants of `common/defs.h`, and the key
and MIC lengths of `common/wpa_common.c`. Suites stay the bit masks of the source, because
several predicates test masks that cover more than one suite. -/

namespace Wpa
open Lib

/-- `flags & mask` as a C condition. -/
def hasBits (flags mask : ℕ) : Bool := flags &&& mask != 0

def cipherNone : ℕ := 2 ^ 0
def cipherTkip : ℕ := 2 ^ 3
def cipherCcmp : ℕ := 2 ^ 4
def cipherAes128Cmac : ℕ := 2 ^ 5
def cipherGcmp : ℕ := 2 ^ 6
def cipherGcmp256 : ℕ := 2 ^ 8
def cipherCcmp256 : ℕ := 2 ^ 9
def cipherBipGmac128 : ℕ := 2 ^ 11
def cipherBipGmac256 : ℕ := 2 ^ 12
def cipherBipCmac256 : ℕ := 2 ^ 13
def cipherGtkNotUsed : ℕ := 2 ^ 14

def keyMgmtIeee8021x : ℕ := 2 ^ 0
def keyMgmtPsk : ℕ := 2 ^ 1
def keyMgmtFtIeee8021x : ℕ := 2 ^ 5
def keyMgmtFtPsk : ℕ := 2 ^ 6
def keyMgmtIeee8021xSha256 : ℕ := 2 ^ 7
def keyMgmtPskSha256 : ℕ := 2 ^ 8
def keyMgmtSae : ℕ := 2 ^ 10
def keyMgmtFtSae : ℕ := 2 ^ 11
def keyMgmtCckm : ℕ := 2 ^ 14
def keyMgmtOsen : ℕ := 2 ^ 15
def keyMgmtIeee8021xSuiteB : ℕ := 2 ^ 16
def keyMgmtIeee8021xSuiteB192 : ℕ := 2 ^ 17
def keyMgmtFilsSha256 : ℕ := 2 ^ 18
def keyMgmtFilsSha384 : ℕ := 2 ^ 19
def keyMgmtFtFilsSha256 : ℕ := 2 ^ 20
def keyMgmtFtFilsSha384 : ℕ := 2 ^ 21
def keyMgmtOwe : ℕ := 2 ^ 22
def keyMgmtDpp : ℕ := 2 ^ 23
def keyMgmtFtIeee8021xSha384 : ℕ := 2 ^ 24
def keyMgmtSaeExtKey : ℕ := 2 ^ 26

def keyMgmtFt : ℕ :=
  keyMgmtFtPsk ||| keyMgmtFtIeee8021x ||| keyMgmtFtIeee8021xSha384 ||| keyMgmtFtSae |||
    keyMgmtFtFilsSha256 ||| keyMgmtFtFilsSha384

def wpaKeyMgmtWpaIeee8021x (akm : ℕ) : Bool :=
  hasBits akm (keyMgmtIeee8021x ||| keyMgmtFtIeee8021x ||| keyMgmtFtIeee8021xSha384 |||
    keyMgmtCckm ||| keyMgmtOsen ||| keyMgmtIeee8021xSha256 ||| keyMgmtIeee8021xSuiteB |||
    keyMgmtIeee8021xSuiteB192 ||| keyMgmtFilsSha256 ||| keyMgmtFilsSha384 |||
    keyMgmtFtFilsSha256 ||| keyMgmtFtFilsSha384)

def wpaKeyMgmtWpaPsk (akm : ℕ) : Bool :=
  hasBits akm (keyMgmtPsk ||| keyMgmtFtPsk ||| keyMgmtPskSha256 ||| keyMgmtSae |||
    keyMgmtSaeExtKey ||| keyMgmtFtSae)

def wpaKeyMgmtFt (akm : ℕ) : Bool := hasBits akm keyMgmtFt

def wpaKeyMgmtFtPsk (akm : ℕ) : Bool := hasBits akm keyMgmtFtPsk

def wpaKeyMgmtSae (akm : ℕ) : Bool :=
  hasBits akm (keyMgmtSae ||| keyMgmtSaeExtKey ||| keyMgmtFtSae)

def wpaKeyMgmtSaeExtKey (akm : ℕ) : Bool := hasBits akm keyMgmtSaeExtKey

def wpaKeyMgmtFils (akm : ℕ) : Bool :=
  hasBits akm (keyMgmtFilsSha256 ||| keyMgmtFilsSha384 ||| keyMgmtFtFilsSha256 |||
    keyMgmtFtFilsSha384)

def wpaKeyMgmtSha256 (akm : ℕ) : Bool :=
  hasBits akm (keyMgmtPskSha256 ||| keyMgmtIeee8021xSha256 ||| keyMgmtSae ||| keyMgmtFtSae |||
    keyMgmtOsen ||| keyMgmtIeee8021xSuiteB ||| keyMgmtFilsSha256 ||| keyMgmtFtFilsSha256)

def wpaKeyMgmtSha384 (akm : ℕ) : Bool :=
  hasBits akm (keyMgmtIeee8021xSuiteB192 ||| keyMgmtFtIeee8021xSha384 ||| keyMgmtFilsSha384 |||
    keyMgmtFtFilsSha384)

def wpaKeyMgmtSuiteB (akm : ℕ) : Bool :=
  hasBits akm (keyMgmtIeee8021xSuiteB ||| keyMgmtIeee8021xSuiteB192)

inductive Proto where
  | wpa
  | rsn
  | osen
  deriving DecidableEq

/-- The recurring test `proto == RSN || proto == OSEN`. -/
def Proto.isRsnOrOsen : Proto → Bool
  | .wpa => false
  | .rsn => true
  | .osen => true

inductive WpaAlg where
  | none
  | tkip
  | ccmp
  | bipCmac128
  | gcmp
  | gcmp256
  | ccmp256
  | bipGmac128
  | bipGmac256
  | bipCmac256
  deriving DecidableEq

/-- The states of `enum wpa_states` that the key handshakes set or test. -/
inductive WpaState where
  | disconnected
  | associated
  | fourWayHandshake
  | groupHandshake
  | completed
  deriving DecidableEq

def wpaCipherKeyLen (cipher : ℕ) : ℕ :=
  if cipher = cipherCcmp256 ∨ cipher = cipherGcmp256 ∨ cipher = cipherBipGmac256 ∨
      cipher = cipherBipCmac256 then 32
  else if cipher = cipherCcmp ∨ cipher = cipherGcmp ∨ cipher = cipherAes128Cmac ∨
      cipher = cipherBipGmac128 then 16
  else if cipher = cipherTkip then 32
  else 0

def wpaCipherRscLen (cipher : ℕ) : ℕ :=
  if cipher = cipherCcmp256 ∨ cipher = cipherGcmp256 ∨ cipher = cipherCcmp ∨
      cipher = cipherGcmp ∨ cipher = cipherTkip then 6
  else 0

def wpaCipherToAlg (cipher : ℕ) : WpaAlg :=
  if cipher = cipherCcmp256 then .ccmp256
  else if cipher = cipherGcmp256 then .gcmp256
  else if cipher = cipherCcmp then .ccmp
  else if cipher = cipherGcmp then .gcmp
  else if cipher = cipherTkip then .tkip
  else if cipher = cipherAes128Cmac then .bipCmac128
  else if cipher = cipherBipGmac128 then .bipGmac128
  else if cipher = cipherBipGmac256 then .bipGmac256
  else if cipher = cipherBipCmac256 then .bipCmac256
  else .none

def wpaCipherValidPairwise (cipher : ℕ) : Bool :=
  cipher == cipherCcmp256 || cipher == cipherGcmp256 || cipher == cipherCcmp ||
    cipher == cipherGcmp || cipher == cipherTkip

def wpaCipherValidMgmtGroup (cipher : ℕ) : Bool :=
  cipher == cipherGtkNotUsed || cipher == cipherAes128Cmac || cipher == cipherBipGmac128 ||
    cipher == cipherBipGmac256 || cipher == cipherBipCmac256

/-- The suites whose KCK and MIC grow with the PMK. -/
def pmkSizedAkm (akmp : ℕ) : Bool :=
  akmp == keyMgmtDpp || akmp == keyMgmtOwe || akmp == keyMgmtSaeExtKey

/-- The suites that protect EAPOL-Key frames with an AEAD cipher instead of a MIC. -/
def filsAkm (akmp : ℕ) : Bool :=
  akmp == keyMgmtFilsSha256 || akmp == keyMgmtFtFilsSha256 || akmp == keyMgmtFilsSha384 ||
    akmp == keyMgmtFtFilsSha384

def wpaKckLen (akmp pmkLen : ℕ) : ℕ :=
  if akmp = keyMgmtIeee8021xSuiteB192 ∨ akmp = keyMgmtFtIeee8021xSha384 then 24
  else if filsAkm akmp then 0
  else if pmkSizedAkm akmp then pmkLen / 2
  else 16

def wpaKekLen (akmp pmkLen : ℕ) : ℕ :=
  if akmp = keyMgmtFilsSha384 ∨ akmp = keyMgmtFtFilsSha384 then 64
  else if akmp = keyMgmtIeee8021xSuiteB192 ∨ akmp = keyMgmtFilsSha256 ∨
      akmp = keyMgmtFtFilsSha256 ∨ akmp = keyMgmtFtIeee8021xSha384 then 32
  else if pmkSizedAkm akmp then if pmkLen ≤ 32 then 16 else 32
  else 16

def wpaMicLen (akmp pmkLen : ℕ) : ℕ :=
  if akmp = keyMgmtIeee8021xSuiteB192 ∨ akmp = keyMgmtFtIeee8021xSha384 then 24
  else if filsAkm akmp then 0
  else if pmkSizedAkm akmp then pmkLen / 2
  else 16

def wpaUseAkmDefined (akmp : ℕ) : Bool :=
  akmp == keyMgmtOsen || akmp == keyMgmtOwe || akmp == keyMgmtDpp ||
    akmp == keyMgmtFtIeee8021xSha384 || wpaKeyMgmtSae akmp || wpaKeyMgmtSuiteB akmp ||
    wpaKeyMgmtFils akmp

def wpaUseCmac (akmp : ℕ) : Bool :=
  akmp == keyMgmtOsen || akmp == keyMgmtOwe || akmp == keyMgmtDpp || wpaKeyMgmtFt akmp ||
    wpaKeyMgmtSha256 akmp || wpaKeyMgmtSae akmp || wpaKeyMgmtSuiteB akmp

def wpaUseAesKeyWrap (akmp : ℕ) : Bool :=
  akmp == keyMgmtOsen || akmp == keyMgmtOwe || akmp == keyMgmtDpp || wpaKeyMgmtFt akmp ||
    wpaKeyMgmtSha256 akmp || wpaKeyMgmtSae akmp || wpaKeyMgmtSuiteB akmp

def ethAlen : ℕ := 6
def wpaNonceLen : ℕ := 32
def wpaReplayCounterLen : ℕ := 8
def pmkLen : ℕ := 32
def pmkLenSuiteB192 : ℕ := 48
def pmkidLen : ℕ := 16
def wpaKdkMaxLen : ℕ := 32
def aesBlockSize : ℕ := 16

def keyFlagModify : ℕ := 2 ^ 0
def keyFlagDefault : ℕ := 2 ^ 1
def keyFlagRx : ℕ := 2 ^ 2
def keyFlagTx : ℕ := 2 ^ 3
def keyFlagGroup : ℕ := 2 ^ 4
def keyFlagPairwise : ℕ := 2 ^ 5
def keyFlagRxTx : ℕ := keyFlagRx ||| keyFlagTx
def keyFlagGroupRx : ℕ := keyFlagGroup ||| keyFlagRx
def keyFlagGroupRxTxDefault : ℕ := keyFlagGroup ||| keyFlagRxTx ||| keyFlagDefault
def keyFlagPairwiseRxTxModify : ℕ := keyFlagPairwise ||| keyFlagRxTx ||| keyFlagModify

def broadcastEtherAddr : Bytes := List.replicate 6 0xff

/-- `inc_byte_array`: the big-endian counter plus one, wrapping at its width. -/
def incByteArray (counter : Bytes) : Bytes :=
  Bytes.ofBeNat ((Bytes.beNat counter + 1) % 256 ^ counter.length) counter.length

theorem wpaMicLen_of_filsAkm {akmp : ℕ} (h : filsAkm akmp) (n : ℕ) : wpaMicLen akmp n = 0 := by
  have h₁ : akmp ≠ keyMgmtIeee8021xSuiteB192 := by rintro rfl; revert h; decide
  have h₂ : akmp ≠ keyMgmtFtIeee8021xSha384 := by rintro rfl; revert h; decide
  simp [wpaMicLen, h, h₁, h₂]

theorem wpaMicLen_eq_zero {akmp n : ℕ} (h : wpaMicLen akmp n = 0) :
    filsAkm akmp ∨ (pmkSizedAkm akmp ∧ n < 2) := by
  unfold wpaMicLen at h
  split_ifs at h with h₁ h₂ h₃
  · exact .inl h₂
  · exact .inr ⟨h₃, by omega⟩

end Wpa
