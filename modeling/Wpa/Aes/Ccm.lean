import Wpa.Lib.BlockCipher
import Wpa.Lib.InPlace
import Wpa.Lib.Chaining

/-! AES-CCM (`crypto/aes-ccm.c`): the round trip, and the octets that the counter mode writes. -/

namespace Wpa.Ccm
open Lib Bytes

/-- `aes_encrypt` with the context of a key. -/
abbrev AesEncrypt := BlockFunction 16

/-- The flags of `B_0` for `L = 2`. -/
def flags (M aadLen : ℕ) : UInt8 :=
  (if aadLen ≠ 0 then 0x40 else 0) ||| UInt8.ofNat ((M - 2) / 2 * 8) ||| 1

/-- `B_0`: flags, nonce and the length of the message. -/
def firstBlock (nonce : Bytes) (M aadLen plainLen : ℕ) : Bytes :=
  flags M aadLen :: nonce.take 13 ++ ofBeNat plainLen 2

/-- `aes_ccm_auth_start`. -/
def aesCcmAuthStart (aes : AesEncrypt) (M : ℕ) (nonce aad : Bytes) (plainLen : ℕ) : Bytes :=
  let x := aes.run (firstBlock nonce M aad.length plainLen)
  if aad.length = 0 then x
  else
    let aadBuf := (ofBeNat aad.length 2 ++ aad ++ zeros 30).take 32
    let x := aes.run (xor (aadBuf.take 16) x)
    if aad.length > 14 then aes.run (xor (aadBuf.drop 16) x) else x

/-- The whole blocks of `aes_ccm_auth`. -/
def authBlocks (aes : AesEncrypt) : ℕ → Bytes → Bytes → Bytes
  | 0, _, x => x
  | n + 1, data, x => authBlocks aes n (data.drop 16) (aes.run (xor x (data.take 16)))

/-- `aes_ccm_auth`. -/
def aesCcmAuth (aes : AesEncrypt) (data x : Bytes) : Bytes :=
  let last := data.length % 16
  let x := authBlocks aes (data.length / 16) data x
  if last ≠ 0 then
    aes.run (xor (x.take last) (data.drop (16 * (data.length / 16))) ++ x.drop last)
  else x

/-- `A_i`: the flags, the nonce and a counter of two octets. -/
def counterBlock (nonce : Bytes) (i : ℕ) : Bytes := 1 :: nonce.take 13 ++ ofBeNat i 2

/-- A block of `aes_ccm_encr`: the key stream goes to the output, and `len` octets of the input are
added there. -/
def encrBlock (aes : AesEncrypt) (nonce inp : Bytes) (len : ℕ) (out : Bytes) (i : ℕ) :
    Option Bytes := do
  let out ← out.store (16 * i) (aes.run (counterBlock nonce (i + 1)))
  out.store (16 * i) (xor (out.slice (16 * i) len) (inp.slice (16 * i) len))

/-- `aes_ccm_encr`. -/
def aesCcmEncr (aes : AesEncrypt) (nonce inp out : Bytes) : Option Bytes := do
  let last := inp.length % 16
  let out ← (List.range (inp.length / 16)).foldlM (encrBlock aes nonce inp 16) out
  if last ≠ 0 then encrBlock aes nonce inp last out (inp.length / 16) else some out

/-- What `aes_ccm_encr_auth` and `aes_ccm_decr_auth` make of `M` octets: `S_0` is added. -/
def addS0 (aes : AesEncrypt) (M : ℕ) (nonce x : Bytes) : Bytes :=
  xor (x.take M) ((aes.run (counterBlock nonce 0)).take M)

/-- `aes_ccm_ae` with the outcome of `aes_encrypt_init`: the value returned and the two buffers;
nothing for a write beyond one of them. -/
def aesCcmAe (ctx : Option AesEncrypt) (nonce : Bytes) (M : ℕ) (plain aad crypt auth : Bytes) :
    Option (ℤ × Bytes × Bytes) :=
  if aad.length > 30 ∨ M > 16 then some (-1, crypt, auth)
  else
    match ctx with
    | none => some (-1, crypt, auth)
    | some aes => do
      let x := aesCcmAuth aes plain (aesCcmAuthStart aes M nonce aad plain.length)
      let crypt ← aesCcmEncr aes nonce plain crypt
      let auth ← auth.store 0 (addS0 aes M nonce x)
      return (0, crypt, auth)

/-- `aes_ccm_ad`: the value returned and the buffer of the plaintext. -/
def aesCcmAd (ctx : Option AesEncrypt) (nonce : Bytes) (M : ℕ) (crypt aad auth plain : Bytes) :
    Option (ℤ × Bytes) :=
  if aad.length > 30 ∨ M > 16 then some (-1, plain)
  else
    match ctx with
    | none => some (-1, plain)
    | some aes => do
      let t := addS0 aes M nonce auth
      let plain ← aesCcmEncr aes nonce crypt plain
      let x := aesCcmAuth aes (plain.take crypt.length)
        (aesCcmAuthStart aes M nonce aad crypt.length)
      return (if x.take M = t then 0 else -1, plain)

/-- `S_1`, `S_2` and so on. -/
def keyStream (aes : AesEncrypt) (nonce : Bytes) (i : ℕ) : Bytes :=
  aes.run (counterBlock nonce (i + 1))

section Encr
variable {aes : AesEncrypt} {nonce inp out done rest : Bytes} {q n M : ℕ}

theorem length_keyStream (i : ℕ) : (keyStream aes nonce i).length = 16 := aes.length_run _

theorem length_slice_block (hinp : 16 * q + n ≤ inp.length) : (inp.slice (16 * q) n).length = n := by
  rw [slice_length]
  omega

/-- What is in front stays; a block of the key stream is behind it, with the input added. -/
theorem encrBlock_eq (hdone : done.length = 16 * q) (hrest : 16 ≤ rest.length) (hn : n ≤ 16)
    (hinp : 16 * q + n ≤ inp.length) :
    encrBlock aes nonce inp n (done ++ rest) q =
      some (done ++ (xor ((keyStream aes nonce q).take n) (inp.slice (16 * q) n) ++
        ((keyStream aes nonce q).drop n ++ rest.drop 16))) := by
  have hks := @length_keyStream aes nonce q
  have hsrc := length_slice_block hinp
  have hfirst : (done ++ rest).store (16 * q) (keyStream aes nonce q) =
      some (done ++ (keyStream aes nonce q ++ rest.drop (keyStream aes nonce q).length)) :=
    store_front rfl hdone (by omega)
  have hsplit : done ++ (keyStream aes nonce q ++ rest.drop 16) =
      done ++ ((keyStream aes nonce q).take n ++ ((keyStream aes nonce q).drop n ++ rest.drop 16)) := by
    rw [← List.append_assoc ((keyStream aes nonce q).take n), List.take_append_drop]
  have htake : ((keyStream aes nonce q).take n).length = n := by
    rw [List.length_take, hks]
    omega
  have hlen : ((keyStream aes nonce q).take n).length =
      (xor ((keyStream aes nonce q).take n) (inp.slice (16 * q) n)).length := by
    rw [length_xor (htake.trans hsrc.symm), hsrc, htake]
  rw [hks] at hfirst
  show ((done ++ rest).store (16 * q) (keyStream aes nonce q)).bind _ = _
  rw [hfirst]
  show Bytes.store _ _ (xor (slice _ (16 * q) n) (inp.slice (16 * q) n)) = _
  rw [slice_part hsplit hdone htake]
  exact store_part hsplit hdone hlen

theorem encrBlock_short (hout : out.length < 16 * q + 16) :
    encrBlock aes nonce inp n out q = none := by
  have hstore : out.store (16 * q) (keyStream aes nonce q) = none := by
    rw [store, length_keyStream, if_neg (by omega)]
  show (out.store (16 * q) (keyStream aes nonce q)).bind _ = none
  rw [hstore, Option.bind_none]

theorem length_masked (hinp : 16 * q ≤ inp.length) :
    (xor (blocks (keyStream aes nonce) q) (inp.take (16 * q))).length = 16 * q := by
  have hblocks := length_blocks (@length_keyStream aes nonce) q
  have htake : (inp.take (16 * q)).length = 16 * q := by
    rw [List.length_take]
    omega
  rw [length_xor (hblocks.trans htake.symm), htake]

/-- The whole blocks, and behind them a part of one more. -/
theorem masked_append (hinp : 16 * q + n ≤ inp.length) :
    xor (blocks (keyStream aes nonce) q) (inp.take (16 * q)) ++
        xor ((keyStream aes nonce q).take n) (inp.slice (16 * q) n) =
      xor (blocks (keyStream aes nonce) q ++ (keyStream aes nonce q).take n)
        (inp.take (16 * q + n)) := by
  have htake : (inp.take (16 * q)).length = 16 * q := by
    rw [List.length_take]
    omega
  rw [List.take_add, xor_append ((length_blocks length_keyStream q).trans htake.symm)]
  rfl

theorem encrBlocks_eq (hinp : 16 * q ≤ inp.length) (hout : 16 * q ≤ out.length) :
    (List.range q).foldlM (encrBlock aes nonce inp 16) out =
      some (xor (blocks (keyStream aes nonce) q) (inp.take (16 * q)) ++ out.drop (16 * q)) := by
  induction q with
  | zero => rfl
  | succ q ih =>
    have hks := @length_keyStream aes nonce q
    have htake : (keyStream aes nonce q).take 16 = keyStream aes nonce q :=
      List.take_of_length_le hks.le
    have hstep := @encrBlock_eq aes nonce inp _ (out.drop (16 * q)) q 16
      (@length_masked aes nonce inp q (by omega)) (by rw [List.length_drop]; omega) le_rfl hinp
    rw [← List.append_assoc, masked_append hinp, htake, List.drop_eq_nil_of_le hks.le,
      List.nil_append, List.drop_drop] at hstep
    rw [List.range_succ, List.foldlM_append, ih (by omega) (by omega), blocks_succ, Nat.mul_succ]
    show (encrBlock aes nonce inp 16 _ q).bind _ = _
    rw [hstep]
    rfl

theorem encrBlocks_short (hinp : 16 * q ≤ inp.length) (hout : out.length < 16 * q) :
    (List.range q).foldlM (encrBlock aes nonce inp 16) out = none := by
  induction q with
  | zero => exact absurd hout (Nat.not_lt_zero _)
  | succ q ih =>
    rw [List.range_succ, List.foldlM_append]
    by_cases hfirst : out.length < 16 * q
    · rw [ih (by omega) hfirst]
      rfl
    · rw [encrBlocks_eq (by omega) (by omega)]
      have hlen : (xor (blocks (keyStream aes nonce) q) (inp.take (16 * q)) ++
          out.drop (16 * q)).length < 16 * q + 16 := by
        rw [List.length_append, length_masked (by omega), List.length_drop]
        omega
      show (encrBlock aes nonce inp 16 _ q).bind _ = none
      rw [encrBlock_short hlen, Option.bind_none]

/-- The octets under the key stream. -/
def masked (aes : AesEncrypt) (nonce inp : Bytes) : Bytes :=
  xor (stream 16 (keyStream aes nonce) inp.length) inp

theorem length_masked_all : (masked aes nonce inp).length = inp.length :=
  length_xor (length_stream length_keyStream (by decide) _)

theorem masked_masked : masked aes nonce (masked aes nonce inp) = inp := by
  have hlen := length_stream (@length_keyStream aes nonce) (by decide) inp.length
  rw [masked, length_masked_all, masked, Bytes.xor_comm, Bytes.xor_comm _ inp,
    xor_xor_cancel hlen.symm]

/-- With room for whole blocks the input is added to the key stream; what is behind the last block
stays. -/
theorem aesCcmEncr_room (hout : 16 * ((inp.length + 15) / 16) ≤ out.length) :
    ∃ tail, aesCcmEncr aes nonce inp out = some (masked aes nonce inp ++ tail) ∧
      inp.length + tail.length = out.length := by
  have hsplit := Nat.div_add_mod inp.length 16
  have hlast := Nat.mod_lt inp.length (show 0 < 16 by decide)
  have hstream := stream_split (@length_keyStream aes nonce) hlast (q := inp.length / 16)
  have hblocks := @encrBlocks_eq aes nonce inp out (inp.length / 16) (by omega) (by omega)
  rw [hsplit] at hstream
  rw [aesCcmEncr, hblocks]
  show ∃ tail, (if inp.length % 16 ≠ 0 then _ else _) = _ ∧ _
  by_cases hzero : inp.length % 16 = 0
  · refine ⟨out.drop (16 * (inp.length / 16)), ?_, ?_⟩
    · rw [if_neg (not_not.mpr hzero), masked, hstream, hzero, List.take_zero, List.append_nil,
        List.take_of_length_le (by omega)]
    · rw [List.length_drop]
      omega
  · have hmasked := @masked_append aes nonce inp (inp.length / 16) (inp.length % 16) hsplit.le
    rw [hsplit, List.take_length, ← hstream] at hmasked
    refine ⟨(keyStream aes nonce (inp.length / 16)).drop (inp.length % 16) ++
      (out.drop (16 * (inp.length / 16))).drop 16, ?_, ?_⟩
    · rw [if_pos hzero, encrBlock_eq (length_masked (by omega)) (by rw [List.length_drop]; omega)
        hlast.le hsplit.le, ← List.append_assoc, hmasked]
      rfl
    · rw [List.length_append, List.length_drop, List.length_drop, List.length_drop, length_keyStream]
      omega

theorem aesCcmEncr_short (hout : out.length < 16 * ((inp.length + 15) / 16)) :
    aesCcmEncr aes nonce inp out = none := by
  have hsplit := Nat.div_add_mod inp.length 16
  have hlast := Nat.mod_lt inp.length (show 0 < 16 by decide)
  rw [aesCcmEncr]
  by_cases hblocks : out.length < 16 * (inp.length / 16)
  · rw [encrBlocks_short (by omega) hblocks]
    rfl
  · have hlen : (xor (blocks (keyStream aes nonce) (inp.length / 16))
        (inp.take (16 * (inp.length / 16))) ++ out.drop (16 * (inp.length / 16))).length <
          16 * (inp.length / 16) + 16 := by
      rw [List.length_append, length_masked (by omega), List.length_drop]
      omega
    rw [encrBlocks_eq (by omega) (by omega)]
    show (if inp.length % 16 ≠ 0 then _ else _) = none
    rw [if_pos (by omega), encrBlock_short hlen]

end Encr

section Auth
variable {aes : AesEncrypt} {nonce aad data x : Bytes} {M : ℕ}

theorem length_aesCcmAuthStart (plainLen : ℕ) :
    (aesCcmAuthStart aes M nonce aad plainLen).length = 16 := by
  unfold aesCcmAuthStart
  dsimp only
  split
  · exact aes.length_run _
  · split
    · exact aes.length_run _
    · exact aes.length_run _

theorem length_authBlocks (q : ℕ) (hx : x.length = 16) : (authBlocks aes q data x).length = 16 := by
  induction q generalizing data x with
  | zero => exact hx
  | succ q ih => exact ih (aes.length_run _)

theorem length_aesCcmAuth (hx : x.length = 16) : (aesCcmAuth aes data x).length = 16 := by
  unfold aesCcmAuth
  dsimp only
  split
  · exact aes.length_run _
  · exact length_authBlocks _ hx

/-- The authentication value of a message. -/
def authValue (aes : AesEncrypt) (M : ℕ) (nonce aad plain : Bytes) : Bytes :=
  aesCcmAuth aes plain (aesCcmAuthStart aes M nonce aad plain.length)

theorem length_authValue (data : Bytes) : (authValue aes M nonce aad data).length = 16 :=
  length_aesCcmAuth (length_aesCcmAuthStart _)

theorem length_addS0 (hM : M ≤ 16) (hx : M ≤ x.length) : (addS0 aes M nonce x).length = M := by
  have hS0 := aes.length_run (counterBlock nonce 0)
  rw [addS0, length_xor_min, List.length_take, List.length_take]
  omega

theorem addS0_addS0 (hM : M ≤ 16) (hx : M ≤ x.length) :
    addS0 aes M nonce (addS0 aes M nonce x) = x.take M := by
  have hS0 := aes.length_run (counterBlock nonce 0)
  have hlen : (x.take M).length = ((aes.run (counterBlock nonce 0)).take M).length := by
    rw [List.length_take, List.length_take]
    omega
  have htake := List.take_of_length_le (@length_addS0 aes nonce x M hM hx).le
  rw [addS0, htake, addS0, xor_xor_cancel hlen]

theorem addS0_take : addS0 aes M nonce (x.take M) = addS0 aes M nonce x := by
  rw [addS0, List.take_take, Nat.min_self, addS0]

end Auth

section RoundTrip
variable {aes : AesEncrypt} {nonce plain crypt aad auth out : Bytes} {M : ℕ}

theorem store_all {b src : Bytes} (h : b.length = src.length) : b.store 0 src = some src := by
  rw [store, if_pos (by omega), writeAt_eq (by omega), List.take_zero, List.nil_append,
    List.drop_eq_nil_of_le (by omega), List.append_nil]

theorem aesCcmAe_room (haad : aad.length ≤ 30) (hM : M ≤ 16) (hauth : auth.length = M)
    (hout : 16 * ((plain.length + 15) / 16) ≤ crypt.length) :
    ∃ tail, aesCcmAe (some aes) nonce M plain aad crypt auth =
      some (0, masked aes nonce plain ++ tail, addS0 aes M nonce (authValue aes M nonce aad plain)) ∧
        plain.length + tail.length = crypt.length := by
  obtain ⟨tail, hencr, hlen⟩ := @aesCcmEncr_room aes nonce plain crypt hout
  have hvalue := @length_addS0 aes nonce (authValue aes M nonce aad plain) M hM
    (hM.trans (length_authValue plain).ge)
  refine ⟨tail, ?_, hlen⟩
  rw [aesCcmAe, if_neg (by omega), hencr]
  show (Bytes.store auth 0 (addS0 aes M nonce (authValue aes M nonce aad plain))).bind _ = _
  rw [store_all (hauth.trans hvalue.symm)]
  rfl

theorem aesCcmAe_short (haad : aad.length ≤ 30) (hM : M ≤ 16)
    (hout : crypt.length < 16 * ((plain.length + 15) / 16)) :
    aesCcmAe (some aes) nonce M plain aad crypt auth = none := by
  rw [aesCcmAe, if_neg (by omega), aesCcmEncr_short hout]
  rfl

theorem aesCcmAd_room (haad : aad.length ≤ 30) (hM : M ≤ 16)
    (hout : 16 * ((crypt.length + 15) / 16) ≤ plain.length) :
    ∃ tail, aesCcmAd (some aes) nonce M crypt aad auth plain =
      some (if (authValue aes M nonce aad (masked aes nonce crypt)).take M = addS0 aes M nonce auth
          then 0 else -1, masked aes nonce crypt ++ tail) ∧
        crypt.length + tail.length = plain.length := by
  obtain ⟨tail, hencr, hlen⟩ := @aesCcmEncr_room aes nonce crypt plain hout
  have htake : (masked aes nonce crypt ++ tail).take crypt.length = masked aes nonce crypt :=
    List.take_left' length_masked_all
  refine ⟨tail, ?_, hlen⟩
  rw [aesCcmAd, if_neg (by omega), hencr, authValue, length_masked_all]
  show some (if (aesCcmAuth aes ((masked aes nonce crypt ++ tail).take crypt.length) _).take M = _
    then 0 else -1, _) = _
  rw [htake]

theorem aesCcmAd_short (haad : aad.length ≤ 30) (hM : M ≤ 16)
    (hout : plain.length < 16 * ((crypt.length + 15) / 16)) :
    aesCcmAd (some aes) nonce M crypt aad auth plain = none := by
  rw [aesCcmAd, if_neg (by omega), aesCcmEncr_short hout]
  rfl

/-- In buffers of the lengths that the caller promises nothing is written beyond them, and the
plaintext comes back. -/
def RoundTrips (aes : AesEncrypt) (nonce : Bytes) (M : ℕ) (aad plain : Bytes) : Prop :=
  ∀ cbuf abuf : Bytes, cbuf.length = plain.length → abuf.length = M →
    ∃ crypt auth, aesCcmAe (some aes) nonce M plain aad cbuf abuf = some (0, crypt, auth) ∧
      crypt.length = plain.length ∧ auth.length = M ∧
        ∀ pbuf : Bytes, pbuf.length = plain.length →
          aesCcmAd (some aes) nonce M crypt aad auth pbuf = some (0, plain)

/-- What is accepted as this plaintext, in a buffer of any size, is what is made of it. -/
def Authentic (aes : AesEncrypt) (nonce : Bytes) (M : ℕ) (aad plain : Bytes) : Prop :=
  ∀ crypt auth pbuf out cbuf abuf c a : Bytes, ∀ r,
    crypt.length = plain.length → auth.length = M → abuf.length = M →
      aesCcmAd (some aes) nonce M crypt aad auth pbuf = some (0, out) →
      out.take plain.length = plain →
      aesCcmAe (some aes) nonce M plain aad cbuf abuf = some (r, c, a) →
        r = 0 ∧ c.take plain.length = crypt ∧ a = auth

theorem authentic (haad : aad.length ≤ 30) (hM : M ≤ 16) : Authentic aes nonce M aad plain := by
  intro crypt auth pbuf out cbuf abuf c a r hcrypt hauth habuf had hplain hae
  by_cases hp : pbuf.length < 16 * ((crypt.length + 15) / 16)
  · rw [aesCcmAd_short haad hM hp] at had
    cases had
  by_cases hc : cbuf.length < 16 * ((plain.length + 15) / 16)
  · rw [aesCcmAe_short haad hM hc] at hae
    cases hae
  obtain ⟨tail, hout, -⟩ := @aesCcmAd_room aes nonce pbuf crypt aad auth M haad hM (Nat.not_lt.mp hp)
  obtain ⟨tail', hout', -⟩ :=
    @aesCcmAe_room aes nonce plain cbuf aad abuf M haad hM habuf (Nat.not_lt.mp hc)
  rw [had] at hout
  rw [hae] at hout'
  obtain ⟨hret, rfl⟩ := Prod.mk.inj (Option.some.inj hout)
  rw [← hcrypt, List.take_left' length_masked_all] at hplain
  subst hplain
  obtain ⟨rfl, hrest⟩ := Prod.mk.inj (Option.some.inj hout')
  obtain ⟨rfl, rfl⟩ := Prod.mk.inj hrest
  have hvalue : (authValue aes M nonce aad (masked aes nonce crypt)).take M =
      addS0 aes M nonce auth := by
    by_contra hne
    rw [if_neg hne] at hret
    exact absurd hret (by decide)
  refine ⟨rfl, ?_, ?_⟩
  · rw [masked_masked, ← hcrypt, List.take_left]
  · rw [← addS0_take, hvalue, addS0_addS0 hM hauth.ge, ← hauth, List.take_length]

theorem roundTrips_of_dvd (haad : aad.length ≤ 30) (hM : M ≤ 16) (h : 16 ∣ plain.length) :
    RoundTrips aes nonce M aad plain := by
  intro cbuf abuf hcbuf habuf
  obtain ⟨tail, hae, hlen⟩ := @aesCcmAe_room aes nonce plain cbuf aad abuf M haad hM habuf (by omega)
  obtain rfl := List.length_eq_zero_iff.mp (show tail.length = 0 by omega)
  rw [List.append_nil] at hae
  have hvalue := hM.trans (@length_authValue aes nonce aad M plain).ge
  refine ⟨_, _, hae, length_masked_all, length_addS0 hM hvalue, ?_⟩
  intro pbuf hpbuf
  obtain ⟨tail, had, hlen⟩ := @aesCcmAd_room aes nonce pbuf (masked aes nonce plain) aad
    (addS0 aes M nonce (authValue aes M nonce aad plain)) M haad hM
      (by rw [length_masked_all]; omega)
  rw [length_masked_all] at hlen
  obtain rfl := List.length_eq_zero_iff.mp (show tail.length = 0 by omega)
  rw [had, masked_masked, addS0_addS0 hM hvalue, if_pos rfl, List.append_nil]

end RoundTrip

/-- The round trip in the buffers of the caller is kept for exactly the messages of whole blocks: of
a partial block the key stream of a whole one goes to the buffer. -/
theorem aesCcm_meets_iff (aes : AesEncrypt) (nonce aad plain : Bytes) (M : ℕ)
    (hM : 2 ≤ M ∧ M ≤ 16) (haad : aad.length ≤ 30) :
    (RoundTrips aes nonce M aad plain ∧ Authentic aes nonce M aad plain) ↔ 16 ∣ plain.length := by
  constructor
  · intro h
    by_contra hpart
    obtain ⟨crypt, auth, hae, -⟩ := h.1 plain (zeros M) rfl (zeros_length M)
    rw [aesCcmAe_short haad hM.2 (by omega)] at hae
    cases hae
  · intro h
    exact ⟨roundTrips_of_dvd haad hM.2 h, authentic haad hM.2⟩

def zeroAes : AesEncrypt := .const (zeros 16)

theorem zeroAes_block : RoundTrips zeroAes (zeros 13) 8 [] (zeros 16) :=
  ((aesCcm_meets_iff zeroAes (zeros 13) [] (zeros 16) 8 (by decide) (by decide)).mpr (by decide)).1

/-- A message of one octet: fifteen octets behind it are overwritten where they are there, and the
write leaves the buffer where they are not. -/
theorem aesCcmAe_octet :
    aesCcmAe (some zeroAes) (zeros 13) 8 [1] [] (List.replicate 16 0xff) (zeros 8) =
      some (0, 1 :: zeros 15, zeros 8) ∧
    ¬ RoundTrips zeroAes (zeros 13) 8 [] [1] := by
  have hout : aesCcmAe (some zeroAes) (zeros 13) 8 [1] [] [0] (zeros 8) = none := by decide
  refine ⟨by decide, ?_⟩
  intro h
  obtain ⟨crypt, auth, hae, -⟩ := h [0] (zeros 8) rfl rfl
  rw [hout] at hae
  cases hae

end Wpa.Ccm
