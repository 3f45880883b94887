import Wpa.Common.EapolKey

/-! The cryptographic primitives as opaque functions, and what `common/wpa_common.c` computes with
them: the EAPOL-Key MIC and the derivations of the PTK. -/

namespace Wpa
open Lib Bytes

inductive Hash where
  | sha1
  | sha256
  | sha384
  | sha512
  deriving DecidableEq

inductive Mac where
  | hmacMd5
  | hmacSha1
  | hmacSha256
  | hmacSha384
  | hmacSha512
  | aesCmac
  deriving DecidableEq

def Mac.size : Mac → ℕ
  | hmacMd5 => 16
  | hmacSha1 => 20
  | hmacSha256 => 32
  | hmacSha384 => 48
  | hmacSha512 => 64
  | aesCmac => 16

/-- The primitives of `src/crypto`. A failed call is `none`; a successful call returns the number
of octets its interface promises. -/
structure Crypto where
  mac : Mac → Bytes → Bytes → Option Bytes
  hash : Hash → Bytes → Option Bytes
  prf : Hash → Bytes → String → Bytes → ℕ → Option Bytes
  rc4Skip : Bytes → Bytes → Option Bytes
  aesWrap : Bytes → Bytes → Option Bytes
  aesUnwrap : Bytes → Bytes → Option Bytes
  aesSivEncrypt : Bytes → Bytes → Bytes → Option Bytes
  aesSivDecrypt : Bytes → Bytes → Bytes → Option Bytes
  mac_length : ∀ {alg k m out}, mac alg k m = some out → out.length = alg.size
  prf_length : ∀ {h k l d n out}, prf h k l d n = some out → out.length = n

/-- Primitives that meet the interface: constant MACs, and a PRF that copies its input. -/
instance : Inhabited Crypto where
  default :=
    { mac := fun alg _ _ => some (zeros alg.size)
      hash := fun _ _ => none
      prf := fun _ _ _ data n => some ((data ++ zeros n).take n)
      rc4Skip := fun _ data => some data
      aesWrap := fun _ data => some (zeros 8 ++ data)
      aesUnwrap := fun _ data => some (data.drop 8)
      aesSivEncrypt := fun _ data _ => some data
      aesSivDecrypt := fun _ _ _ => none
      mac_length := by
        rintro alg k m out h
        cases h
        exact zeros_length _
      prf_length := by
        rintro h k l d n out h
        cases h
        simp }

structure Ptk where
  kck : Bytes := []
  kek : Bytes := []
  tk : Bytes := []
  kdk : Bytes := []
  installed : Bool := false
  deriving DecidableEq

/-- The fields of `struct rsn_pmksa_cache_entry` that the handshakes read. -/
structure Pmksa where
  pmkid : Bytes
  pmk : Bytes
  deriving DecidableEq

/-- The hash used by the AKMs whose KCK length selects it. -/
def macOfKckLen (n : ℕ) : Option Mac :=
  if n = 16 then some .hmacSha256
  else if n = 24 then some .hmacSha384
  else if n = 32 then some .hmacSha512
  else none

/-- `wpa_eapol_key_mic`: the octets written to the Key MIC field. -/
def wpaEapolKeyMic (cr : Crypto) (kck : Bytes) (akmp ver : ℕ) (buf : Bytes) : Option Bytes :=
  if kck.length = 0 then none
  else if ver = keyInfoTypeHmacMd5Rc4 then cr.mac .hmacMd5 kck buf
  else if ver = keyInfoTypeHmacSha1Aes then (cr.mac .hmacSha1 kck buf).map (·.take 16)
  else if ver = keyInfoTypeAes128Cmac then cr.mac .aesCmac (kck.take 16) buf
  else if ver = keyInfoTypeAkmDefined then
    if akmp = keyMgmtSae ∨ akmp = keyMgmtFtSae ∨ akmp = keyMgmtOsen then
      cr.mac .aesCmac (kck.take 16) buf
    else if akmp = keyMgmtIeee8021xSuiteB then (cr.mac .hmacSha256 kck buf).map (·.take 16)
    else if akmp = keyMgmtIeee8021xSuiteB192 ∨ akmp = keyMgmtFtIeee8021xSha384 then
      (cr.mac .hmacSha384 kck buf).map (·.take 24)
    else if pmkSizedAkm akmp then
      (macOfKckLen kck.length).bind fun alg => (cr.mac alg kck buf).map (·.take kck.length)
    else none
  else none

/-- The frame buffer after `wpa_eapol_key_mic` has written the MIC for `kck` into it. -/
def withMic (cr : Crypto) (kck : Bytes) (akmp ver micLen : ℕ) (tmp : Bytes) : Option Bytes :=
  (wpaEapolKeyMic cr kck akmp ver (zeroMic tmp micLen)).map
    ((zeroMic tmp micLen).writeAt micOffset ·)

/-- The MIC computed with `kck` equals the one received. -/
def micMatches (cr : Crypto) (kck : Bytes) (akmp ver micLen : ℕ) (tmp mic : Bytes) : Bool :=
  (withMic cr kck akmp ver micLen tmp).any fun b => b.slice micOffset micLen == mic

/-- The lower of two strings in `memcmp` order, first, then the other, as the derivation input
concatenates addresses and nonces. -/
def minMax (a b : Bytes) : Bytes := if memcmp a b < 0 then a ++ b else b ++ a

def maxZLen : ℕ := 66

/-- The PRF hash of `wpa_pmk_to_ptk`; `none` where the PMK length is not known for the AKM. -/
def ptkPrfHash (akmp pmkLen : ℕ) (owePtkWorkaround : Bool) : Option Hash :=
  let bySize : Option Hash :=
    if pmkLen = 32 then some .sha256
    else if pmkLen = 48 then some .sha384
    else if pmkLen = 64 then some .sha512
    else none
  if wpaKeyMgmtSha384 akmp then some .sha384
  else if wpaKeyMgmtSha256 akmp then some .sha256
  else if akmp = keyMgmtOwe then if owePtkWorkaround then some .sha256 else bySize
  else if akmp = keyMgmtDpp then bySize
  else if wpaKeyMgmtSaeExtKey akmp then bySize
  else some .sha1

/-- `wpa_pmk_to_ptk`. The fields of the PTK that the function does not write are taken over from
`ptk`. -/
def wpaPmkToPtk (cr : Crypto) (pmk addr1 addr2 nonce1 nonce2 : Bytes) (ptk : Ptk)
    (akmp cipher : ℕ) (z : Bytes) (kdkLen : ℕ) : Option Ptk :=
  let owePtkWorkaround := akmp == keyMgmtOwe ||| keyMgmtPskSha256
  let akmp := if owePtkWorkaround then keyMgmtOwe else akmp
  let kckLen := wpaKckLen akmp pmk.length
  let kekLen := wpaKekLen akmp pmk.length
  let tkLen := wpaCipherKeyLen cipher
  if pmk.length = 0 then none
  else if z.length > maxZLen then none
  else if kdkLen > wpaKdkMaxLen then none
  else if tkLen = 0 then none
  else do
    let h ← ptkPrfHash akmp pmk.length owePtkWorkaround
    let data := minMax addr1 addr2 ++ minMax nonce1 nonce2 ++ z
    let out ← cr.prf h pmk "Pairwise key expansion" data (kckLen + kekLen + tkLen + kdkLen)
    some { ptk with
      kck := out.slice 0 kckLen
      kek := out.slice kckLen kekLen
      tk := out.slice (kckLen + kekLen) tkLen
      kdk := if kdkLen = 0 then ptk.kdk else out.slice (kckLen + kekLen + tkLen) kdkLen }

def ssidMaxLen : ℕ := 32
def ftR0khIdMaxLen : ℕ := 48
def wpaPmkNameLen : ℕ := 16

def asciiBytes (s : String) : Bytes := s.toUTF8.toList

/-- `wpa_derive_pmk_r0`: PMK-R0 and PMKR0Name. -/
def wpaDerivePmkR0 (cr : Crypto) (xxkey ssid mdid r0khId s0khId : Bytes) (useSha384 : Bool) :
    Option (Bytes × Bytes) :=
  let q := if useSha384 then 48 else 32
  let h : Hash := if useSha384 then .sha384 else .sha256
  if ssid.length > ssidMaxLen ∨ r0khId.length > ftR0khIdMaxLen then none
  else if xxkey.length ≠ q then none
  else do
    let data := [UInt8.ofNat ssid.length] ++ ssid ++ mdid ++ [UInt8.ofNat r0khId.length] ++
      r0khId ++ s0khId
    let r0KeyData ← cr.prf h xxkey "FT-R0" data (q + 16)
    let name ← cr.hash h (asciiBytes "FT-R0N" ++ r0KeyData.slice q 16)
    some (r0KeyData.take q, name.take wpaPmkNameLen)

/-- `wpa_derive_pmk_r1`: PMK-R1 and PMKR1Name. -/
def wpaDerivePmkR1 (cr : Crypto) (pmkR0 pmkR0Name r1khId s1khId : Bytes) :
    Option (Bytes × Bytes) :=
  if pmkR0.length ≠ 48 ∧ pmkR0.length ≠ 32 then none
  else do
    let h : Hash := if pmkR0.length = 48 then .sha384 else .sha256
    let pmkR1 ← cr.prf h pmkR0 "FT-R1" (r1khId ++ s1khId) pmkR0.length
    let name ← cr.hash h (asciiBytes "FT-R1N" ++ pmkR0Name ++ r1khId ++ s1khId)
    some (pmkR1, name.take wpaPmkNameLen)

def wpaKck2Len (akmp : ℕ) : ℕ :=
  if akmp = keyMgmtFtFilsSha256 then 16 else if akmp = keyMgmtFtFilsSha384 then 24 else 0

def wpaKek2Len (akmp : ℕ) : ℕ :=
  if akmp = keyMgmtFtFilsSha256 then 16 else if akmp = keyMgmtFtFilsSha384 then 32 else 0

/-- `wpa_pmk_r1_to_ptk`. KCK2 and KEK2 only pad the derived octets here: they protect the
reassociation exchange, which is not part of the key handshakes. -/
def wpaPmkR1ToPtk (cr : Crypto) (pmkR1 snonce anonce staAddr bssid pmkR1Name : Bytes) (ptk : Ptk)
    (akmp cipher kdkLen : ℕ) : Option Ptk :=
  let useSha384 := wpaKeyMgmtSha384 akmp
  let h : Hash := if useSha384 then .sha384 else .sha256
  let kckLen := wpaKckLen akmp pmkLen
  let kekLen := wpaKekLen akmp pmkLen
  let tkLen := wpaCipherKeyLen cipher
  let len2 := wpaKck2Len akmp + wpaKek2Len akmp
  if kdkLen > wpaKdkMaxLen then none
  else if pmkR1.length ≠ (if useSha384 then 48 else 32) then none
  else do
    let out ← cr.prf h pmkR1 "FT-PTK" (snonce ++ anonce ++ bssid ++ staAddr)
      (kckLen + kekLen + tkLen + len2 + kdkLen)
    let _ ← cr.hash .sha256
      (pmkR1Name ++ asciiBytes "FT-PTKN" ++ snonce ++ anonce ++ bssid ++ staAddr)
    some { ptk with
      kck := out.slice 0 kckLen
      kek := out.slice kckLen kekLen
      tk := out.slice (kckLen + kekLen) tkLen
      kdk := out.slice (kckLen + kekLen + tkLen + len2) kdkLen }

section Derivation
variable {cr : Crypto} {pmk addr₁ addr₂ nonce₁ nonce₂ z : Bytes} {ptk₀ ptk : Ptk}
  {akmp cipher kdkLen : ℕ}

/-- An AEAD suite derives no KCK. -/
theorem wpaPmkToPtk_kck_of_fils
    (h : wpaPmkToPtk cr pmk addr₁ addr₂ nonce₁ nonce₂ ptk₀ akmp cipher z kdkLen = some ptk)
    (hf : filsAkm akmp) : ptk.kck = [] := by
  have hakmp : (akmp == keyMgmtOwe ||| keyMgmtPskSha256) = false := by
    rw [beq_eq_false_iff_ne]
    rintro rfl
    revert hf
    decide
  have hkck : wpaKckLen akmp pmk.length = 0 := wpaMicLen_of_filsAkm hf _
  simp only [wpaPmkToPtk, hakmp, Bool.false_eq_true, if_false, hkck] at h
  split_ifs at h
  all_goals
    simp only [Option.bind_eq_bind, Option.bind_eq_some_iff, Option.some.injEq] at h
    obtain ⟨-, -, out, -, rfl⟩ := h
    simp [slice]

/-- Suites whose lengths follow the PMK derive nothing from a PMK of unknown size. -/
theorem ptkPrfHash_of_sized {pmkLen : ℕ} {h : Hash} (hs : pmkSizedAkm akmp)
    (hh : ptkPrfHash akmp pmkLen false = some h) : 2 ≤ pmkLen := by
  have hbySize : (if pmkLen = 32 then some Hash.sha256 else if pmkLen = 48 then some .sha384
      else if pmkLen = 64 then some .sha512 else none) = some h → 2 ≤ pmkLen := by
    intro hsize
    split_ifs at hsize <;> omega
  simp only [pmkSizedAkm, Bool.or_eq_true, beq_iff_eq] at hs
  obtain (rfl | rfl) | rfl := hs
  · exact hbySize hh
  · exact hbySize hh
  · exact hbySize hh

theorem wpaPmkToPtk_pmk_of_sized
    (h : wpaPmkToPtk cr pmk addr₁ addr₂ nonce₁ nonce₂ ptk₀ akmp cipher z kdkLen = some ptk)
    (hs : pmkSizedAkm akmp) : 2 ≤ pmk.length := by
  have hakmp : (akmp == keyMgmtOwe ||| keyMgmtPskSha256) = false := by
    rw [beq_eq_false_iff_ne]
    rintro rfl
    revert hs
    decide
  simp only [wpaPmkToPtk, hakmp, Bool.false_eq_true, if_false] at h
  split_ifs at h
  all_goals
    simp only [Option.bind_eq_bind, Option.bind_eq_some_iff] at h
    obtain ⟨hash, hhash, -⟩ := h
    exact ptkPrfHash_of_sized hs hhash

theorem wpaPmkR1ToPtk_kck_of_fils {pmkR1 snonce anonce staAddr bssid pmkR1Name : Bytes}
    (h : wpaPmkR1ToPtk cr pmkR1 snonce anonce staAddr bssid pmkR1Name ptk₀ akmp cipher kdkLen =
      some ptk) (hf : filsAkm akmp) : ptk.kck = [] := by
  have hkck : wpaKckLen akmp pmkLen = 0 := wpaMicLen_of_filsAkm hf _
  simp only [wpaPmkR1ToPtk, hkck] at h
  split_ifs at h
  all_goals
    simp only [Option.bind_eq_bind, Option.bind_eq_some_iff, Option.some.injEq] at h
    obtain ⟨out, -, -, -, rfl⟩ := h
    simp [slice]

end Derivation

section Mic
variable {cr : Crypto} {kck buf m : Bytes} {akmp ver : ℕ}

theorem wpaEapolKeyMic_kck_length (h : wpaEapolKeyMic cr kck akmp ver buf = some m) :
    0 < kck.length := by
  refine Nat.pos_of_ne_zero fun hzero => ?_
  rw [wpaEapolKeyMic, if_pos hzero] at h
  cases h

end Mic

/-- `rsn_pmkid`; a failed hash leaves the octets of the buffer, taken as zero. -/
def rsnPmkid (cr : Crypto) (pmk aa spa : Bytes) (akmp : ℕ) : Bytes :=
  let alg : Mac :=
    if wpaKeyMgmtSha384 akmp then .hmacSha384
    else if wpaKeyMgmtSha256 akmp then .hmacSha256
    else .hmacSha1
  ((cr.mac alg pmk (asciiBytes "PMK Name" ++ aa ++ spa)).getD (zeros 16)).take pmkidLen

def rsnPmkidSuiteB (cr : Crypto) (kck aa spa : Bytes) : Bytes :=
  ((cr.mac .hmacSha256 kck (asciiBytes "PMK Name" ++ aa ++ spa)).getD (zeros 16)).take pmkidLen

def rsnPmkidSuiteB192 (cr : Crypto) (kck aa spa : Bytes) : Bytes :=
  ((cr.mac .hmacSha384 kck (asciiBytes "PMK Name" ++ aa ++ spa)).getD (zeros 16)).take pmkidLen

end Wpa
