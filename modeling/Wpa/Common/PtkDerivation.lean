import Wpa.Common.Crypto

/-! The PTK of `wpa_pmk_to_ptk` is the same for both sides of a link, and fits its buffers. -/

namespace Wpa
open Lib Bytes

section Call

def wpaKckMaxLen : ℕ := 32
def wpaKekMaxLen : ℕ := 64
def wpaTkMaxLen : ℕ := 32
def pmkLenMax : ℕ := 64

/-- The sizes of the arrays `tmp` and `data`. -/
def ptkTmpSize : ℕ := wpaKckMaxLen + wpaKekMaxLen + wpaTkMaxLen + wpaKdkMaxLen
def ptkDataSize : ℕ := 2 * ethAlen + 2 * wpaNonceLen + maxZLen

/-- A PRF call, and the lengths of the keys that its output is cut into. -/
structure PtkCall where
  hash : Hash
  data : Bytes
  kckLen : ℕ
  kekLen : ℕ
  tkLen : ℕ
  kdkLen : ℕ

def PtkCall.ptkLen (call : PtkCall) : ℕ := call.kckLen + call.kekLen + call.tkLen + call.kdkLen

def PtkCall.keys (call : PtkCall) (ptk : Ptk) (out : Bytes) : Ptk :=
  { ptk with
    kck := out.slice 0 call.kckLen
    kek := out.slice call.kckLen call.kekLen
    tk := out.slice (call.kckLen + call.kekLen) call.tkLen
    kdk := if call.kdkLen = 0 then ptk.kdk
      else out.slice (call.kckLen + call.kekLen + call.tkLen) call.kdkLen }

/-- `wpa_pmk_to_ptk` up to its PRF call, if it gets there. -/
def ptkCall (pmkLen : ℕ) (addr1 addr2 nonce1 nonce2 : Bytes) (akmp cipher : ℕ) (z : Bytes)
    (kdkLen : ℕ) : Option PtkCall :=
  let owePtkWorkaround := akmp == keyMgmtOwe ||| keyMgmtPskSha256
  let akmp := if owePtkWorkaround then keyMgmtOwe else akmp
  let tkLen := wpaCipherKeyLen cipher
  if pmkLen = 0 then none
  else if z.length > maxZLen then none
  else if kdkLen > wpaKdkMaxLen then none
  else if tkLen = 0 then none
  else
    (ptkPrfHash akmp pmkLen owePtkWorkaround).map fun hash =>
      { hash
        data := minMax addr1 addr2 ++ minMax nonce1 nonce2 ++ z
        kckLen := wpaKckLen akmp pmkLen
        kekLen := wpaKekLen akmp pmkLen
        tkLen
        kdkLen }

variable (cr : Crypto) (pmk addr1 addr2 nonce1 nonce2 z : Bytes) (ptk : Ptk)
  (akmp cipher kdkLen : ℕ)

theorem wpaPmkToPtk_eq :
    wpaPmkToPtk cr pmk addr1 addr2 nonce1 nonce2 ptk akmp cipher z kdkLen =
      (ptkCall pmk.length addr1 addr2 nonce1 nonce2 akmp cipher z kdkLen).bind fun call =>
        (cr.prf call.hash pmk "Pairwise key expansion" call.data call.ptkLen).map
          (call.keys ptk) := by
  unfold wpaPmkToPtk ptkCall
  dsimp only
  generalize (if akmp == keyMgmtOwe ||| keyMgmtPskSha256 then keyMgmtOwe else akmp) = akmp'
  by_cases hpmk : pmk.length = 0
  · rw [if_pos hpmk, if_pos hpmk, Option.bind_none]
  by_cases hz : z.length > maxZLen
  · rw [if_neg hpmk, if_pos hz, if_neg hpmk, if_pos hz, Option.bind_none]
  by_cases hkdk : kdkLen > wpaKdkMaxLen
  · rw [if_neg hpmk, if_neg hz, if_pos hkdk, if_neg hpmk, if_neg hz, if_pos hkdk, Option.bind_none]
  by_cases htk : wpaCipherKeyLen cipher = 0
  · rw [if_neg hpmk, if_neg hz, if_neg hkdk, if_pos htk, if_neg hpmk, if_neg hz, if_neg hkdk,
      if_pos htk, Option.bind_none]
  · rw [if_neg hpmk, if_neg hz, if_neg hkdk, if_neg htk, if_neg hpmk, if_neg hz, if_neg hkdk,
      if_neg htk, Option.bind_map]
    apply congrArg
    funext hash
    exact Option.map_eq_bind.symm

end Call

section Roles

/-- The lower one comes first, from whichever side. -/
theorem minMax_comm {a b : Bytes} (h : a.length = b.length) : minMax a b = minMax b a := by
  unfold minMax
  by_cases hab : a.beNat < b.beNat
  · rw [if_pos ((memcmp_neg_iff h).mpr hab), if_neg]
    rw [memcmp_neg_iff h.symm]
    exact lt_asymm hab
  · rw [if_neg (mt (memcmp_neg_iff h).mp hab)]
    split
    · rfl
    · rename_i hba
      have hle := not_lt.mp (mt (memcmp_neg_iff h.symm).mpr hba)
      rw [beNat_injective h (le_antisymm hle (not_lt.mp hab))]

theorem minMax_length (a b : Bytes) : (minMax a b).length = a.length + b.length := by
  unfold minMax
  split
  · exact List.length_append
  · rw [List.length_append, Nat.add_comm]

theorem wpaKckLen_le {akmp n : ℕ} (h : n ≤ pmkLenMax) : wpaKckLen akmp n ≤ wpaKckMaxLen := by
  have h : n ≤ 64 := h
  unfold wpaKckLen wpaKckMaxLen
  split_ifs <;> omega

theorem wpaKekLen_le (akmp n : ℕ) : wpaKekLen akmp n ≤ wpaKekMaxLen := by
  unfold wpaKekLen wpaKekMaxLen
  split_ifs <;> omega

theorem wpaCipherKeyLen_le (cipher : ℕ) : wpaCipherKeyLen cipher ≤ wpaTkMaxLen := by
  unfold wpaCipherKeyLen wpaTkMaxLen
  split_ifs <;> omega

/-- The keys of a call fit their fields, and all of them the buffer that is cut. -/
structure PtkCall.Fits (call : PtkCall) : Prop where
  kck : call.kckLen ≤ wpaKckMaxLen
  kek : call.kekLen ≤ wpaKekMaxLen
  tk : call.tkLen ≤ wpaTkMaxLen
  kdk : call.kdkLen ≤ wpaKdkMaxLen
  tmp : call.ptkLen ≤ ptkTmpSize
  data : call.data.length ≤ ptkDataSize

theorem ptkCall_fits {pmkLen : ℕ} {addr1 addr2 nonce1 nonce2 z : Bytes} {akmp cipher kdkLen : ℕ}
    {call : PtkCall} (hpmk : pmkLen ≤ pmkLenMax) (haddr1 : addr1.length = ethAlen)
    (haddr2 : addr2.length = ethAlen) (hnonce1 : nonce1.length = wpaNonceLen)
    (hnonce2 : nonce2.length = wpaNonceLen)
    (h : ptkCall pmkLen addr1 addr2 nonce1 nonce2 akmp cipher z kdkLen = some call) :
    call.Fits := by
  unfold ptkCall at h
  dsimp only at h
  split at h
  · cases h
  split at h
  · cases h
  rename_i hz
  split at h
  · cases h
  rename_i hkdk
  split at h
  · cases h
  obtain ⟨hash, -, rfl⟩ := Option.map_eq_some_iff.mp h
  have hkck := @wpaKckLen_le
    (if akmp == keyMgmtOwe ||| keyMgmtPskSha256 then keyMgmtOwe else akmp) pmkLen hpmk
  have hkek := wpaKekLen_le
    (if akmp == keyMgmtOwe ||| keyMgmtPskSha256 then keyMgmtOwe else akmp) pmkLen
  have htk := wpaCipherKeyLen_le cipher
  have hkdk := not_lt.mp hkdk
  refine ⟨hkck, hkek, htk, hkdk, ?_, ?_⟩
  · exact add_le_add (add_le_add (add_le_add hkck hkek) htk) hkdk
  · simp only [List.length_append, minMax_length, haddr1, haddr2, hnonce1, hnonce2, ptkDataSize]
    omega

/-- Both sides derive the same keys, in bounds. -/
theorem wpaPmkToPtk_roles (cr : Crypto) (pmk addr1 addr2 nonce1 nonce2 z : Bytes) (ptk : Ptk)
    (akmp cipher kdkLen : ℕ) (haddr1 : addr1.length = ethAlen) (haddr2 : addr2.length = ethAlen)
    (hnonce1 : nonce1.length = wpaNonceLen) (hnonce2 : nonce2.length = wpaNonceLen) :
    wpaPmkToPtk cr pmk addr1 addr2 nonce1 nonce2 ptk akmp cipher z kdkLen =
        wpaPmkToPtk cr pmk addr2 addr1 nonce2 nonce1 ptk akmp cipher z kdkLen ∧
      (pmk.length ≤ pmkLenMax →
        ∀ call ∈ ptkCall pmk.length addr1 addr2 nonce1 nonce2 akmp cipher z kdkLen, call.Fits) := by
  constructor
  · have haddr := minMax_comm (haddr1.trans haddr2.symm)
    have hnonce := minMax_comm (hnonce1.trans hnonce2.symm)
    unfold wpaPmkToPtk
    rw [haddr, hnonce]
  · intro hpmk call hcall
    exact ptkCall_fits hpmk haddr1 haddr2 hnonce1 hnonce2 hcall

theorem wpaPmkToPtk_roles_ccmp :
    wpaPmkToPtk default (zeros 32) (zeros 6) broadcastEtherAddr (zeros 32) (zeros 32) {}
          keyMgmtPsk cipherCcmp [] 0 =
        wpaPmkToPtk default (zeros 32) broadcastEtherAddr (zeros 6) (zeros 32) (zeros 32) {}
          keyMgmtPsk cipherCcmp [] 0 ∧
      (ptkCall 32 (zeros 6) broadcastEtherAddr (zeros 32) (zeros 32) keyMgmtPsk cipherCcmp
        [] 0).map PtkCall.ptkLen = some 48 :=
  ⟨(wpaPmkToPtk_roles default (zeros 32) (zeros 6) broadcastEtherAddr (zeros 32) (zeros 32) [] {}
    keyMgmtPsk cipherCcmp 0 rfl rfl rfl rfl).1, by decide⟩

end Roles
end Wpa
