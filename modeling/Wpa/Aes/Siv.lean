import Wpa.Aes.Omac1
import Wpa.Lib.S2v

/-! AES-SIV (`crypto/aes-siv.c` and `crypto/aes-ctr.c`): the round trip, and S2V for strings whose
length is an `int`. -/

namespace Wpa.Siv
open Lib Bytes Omac1

/-- `omac1_aes_vector` of one string under a key, where it does not fail. -/
abbrev Omac := Bytes → Bytes → Option Bytes

/-- A `size_t` that is passed as an `int`. -/
def toInt (n : ℕ) : ℤ := if n % 2 ^ 32 < 2 ^ 31 then n % 2 ^ 32 else n % 2 ^ 32 - 2 ^ 32

/-- `dbl`. -/
def dbl (pad : Bytes) : Bytes := gfMulx pad

/-- `xorend` with a second string of one block. -/
def xorend (a : Bytes) (alen : ℤ) (b : Bytes) : Bytes :=
  if alen < 16 then a
  else a.writeAt (alen.toNat - 16) (xor (a.slice (alen.toNat - 16) 16) b)

/-- `pad_block`. -/
def padBlock (addr : Bytes) : Bytes := addr ++ 0x80 :: zeros (15 - addr.length)

/-- `aes_s2v` from the first string on. `memory` is the outcome of `os_memdup`. -/
def s2vFrom (omac1 : Omac) (memory : Bool) (key : Bytes) : Bytes → List Bytes → Option Bytes
  | _, [] => none
  | tmp, [addr] =>
    if 16 ≤ addr.length then
      if memory then omac1 key (xorend addr (toInt addr.length) tmp) else none
    else omac1 key (xor (dbl tmp) (padBlock addr))
  | tmp, addr :: next :: rest => do
    let tmp2 ← omac1 key addr
    s2vFrom omac1 memory key (xor (dbl tmp) tmp2) (next :: rest)

/-- `aes_s2v`: the code, unless a call fails. -/
def aesS2v (omac1 : Omac) (memory : Bool) (key : Bytes) (addr : List Bytes) : Option Bytes :=
  match addr with
  | [] => omac1 key (zeros 15 ++ [1])
  | addr :: rest => do
    let tmp ← omac1 key (zeros 16)
    s2vFrom omac1 memory key tmp (addr :: rest)

/-- The counter and whether it has wrapped. -/
def increment : Bytes → Bytes × Bool
  | [] => ([], true)
  | x :: counter =>
    let (rest, carry) := increment counter
    if carry then ((x + 1) :: rest, x + 1 = 0) else (x :: rest, false)

/-- The `n` turns of the loop of `aes_ctr_encrypt`. -/
def ctrFrom (aes : AesEncrypt) : ℕ → Bytes → Bytes → Bytes
  | 0, _, _ => []
  | n + 1, counter, data =>
    xor (data.take 16) (aes.run counter) ++ ctrFrom aes n (increment counter).1 (data.drop 16)

/-- `aes_ctr_encrypt`, unless `aes_encrypt_init` fails. -/
def aesCtrEncrypt (init : Bytes → Option AesEncrypt) (key nonce data : Bytes) : Option Bytes :=
  (init key).map fun aes => ctrFrom aes ((data.length + 15) / 16) nonce data

/-- The synthetic IV without the 63rd and the 31st bit, from the right. -/
def ctrStart (v : Bytes) : Bytes := (v.modify 8 (· &&& 0x7f)).modify 12 (· &&& 0x7f)

def validKeyLen (key : Bytes) : Prop := key.length = 32 ∨ key.length = 48 ∨ key.length = 64

instance (key : Bytes) : Decidable (validKeyLen key) := inferInstanceAs (Decidable (_ ∨ _))

/-- `aes_siv_encrypt`: the output of a call that returns 0. -/
def aesSivEncrypt (omac1 : Omac) (init : Bytes → Option AesEncrypt) (memory : Bool)
    (key pw : Bytes) (addr : List Bytes) : Option Bytes :=
  if addr.length > 5 ∨ ¬ validKeyLen key then none
  else do
    let keyLen := key.length / 2
    let v ← aesS2v omac1 memory (key.take keyLen) (addr ++ [pw])
    let cryptPw ← aesCtrEncrypt init (key.drop keyLen) (ctrStart v) pw
    return v ++ cryptPw

/-- `aes_siv_decrypt`. -/
def aesSivDecrypt (omac1 : Omac) (init : Bytes → Option AesEncrypt) (memory : Bool)
    (key ivCrypt : Bytes) (addr : List Bytes) : Option Bytes :=
  if ivCrypt.length < 16 ∨ addr.length > 5 ∨ ¬ validKeyLen key then none
  else do
    let keyLen := key.length / 2
    let iv := ivCrypt.take 16
    let out ← aesCtrEncrypt init (key.drop keyLen) (ctrStart iv) (ivCrypt.drop 16)
    let check ← aesS2v omac1 memory (key.take keyLen) (addr ++ [out])
    if check = iv then some out else none

/-- The code for one string, from the code for a vector. -/
def omac1Of (init : Bytes → Option AesEncrypt) : Omac := fun key data =>
  (omac1AesVector (init key) [data]).join

section Ctr
variable {aes : AesEncrypt} {init : Bytes → Option AesEncrypt} {n : ℕ} {counter data key nonce : Bytes}

theorem length_xor_run (counter : Bytes) :
    (xor (data.take 16) (aes.run counter)).length = (data.take 16).length := by
  rw [length_xor_min, aes.length_run, List.length_take]
  omega

theorem length_ctrFrom (h : data.length ≤ 16 * n) :
    (ctrFrom aes n counter data).length = data.length := by
  induction n generalizing counter data with
  | zero => exact (Nat.le_zero.mp h).symm
  | succ n ih =>
    have hdrop : (data.drop 16).length = data.length - 16 := List.length_drop
    rw [ctrFrom, List.length_append, length_xor_run, ih (by omega), List.length_take]
    omega

/-- Adding the key stream twice. -/
theorem ctrFrom_ctrFrom (h : data.length ≤ 16 * n) :
    ctrFrom aes n counter (ctrFrom aes n counter data) = data := by
  induction n generalizing counter data with
  | zero => exact (List.length_eq_zero_iff.mp (Nat.le_zero.mp h)).symm
  | succ n ih =>
    have hdrop : (data.drop 16).length = data.length - 16 := List.length_drop
    have hlen := @length_xor_run aes data counter
    have hrest := @length_ctrFrom aes n (increment counter).1 (data.drop 16) (by omega)
    have hparts : (ctrFrom aes (n + 1) counter data).take 16 = xor (data.take 16) (aes.run counter) ∧
        (ctrFrom aes (n + 1) counter data).drop 16 = ctrFrom aes n (increment counter).1 (data.drop 16) := by
      rw [List.length_take] at hlen
      rw [ctrFrom]
      by_cases hwhole : 16 ≤ data.length
      · exact ⟨List.take_left' (by omega), List.drop_left' (by omega)⟩
      · have hnil : ctrFrom aes n (increment counter).1 (data.drop 16) = [] :=
          List.length_eq_zero_iff.mp (by omega)
        rw [hnil, List.append_nil]
        exact ⟨List.take_of_length_le (by omega), List.drop_eq_nil_of_le (by omega)⟩
    have htake : (data.take 16).length ≤ (aes.run counter).length := by
      rw [aes.length_run, List.length_take]
      exact Nat.min_le_left _ _
    rw [ctrFrom, hparts.1, hparts.2, ih (by omega), xor_xor_cancel_of_le htake,
      List.take_append_drop]

theorem length_aesCtrEncrypt {out : Bytes} (h : aesCtrEncrypt init key nonce data = some out) :
    out.length = data.length := by
  obtain ⟨aes, -, rfl⟩ := Option.map_eq_some_iff.mp h
  exact length_ctrFrom (by omega)

theorem aesCtrEncrypt_twice {out : Bytes} (h : aesCtrEncrypt init key nonce data = some out) :
    aesCtrEncrypt init key nonce out = some data := by
  have hlen := length_aesCtrEncrypt h
  obtain ⟨aes, haes, rfl⟩ := Option.map_eq_some_iff.mp h
  rw [aesCtrEncrypt, haes, Option.map_some, hlen, ctrFrom_ctrFrom (by omega)]

end Ctr

section RoundTrip
variable {omac1 : Omac} {init : Bytes → Option AesEncrypt} {memory : Bool}
  {key pw out ivCrypt : Bytes} {addr : List Bytes}

/-- A call that succeeds, taken apart. -/
theorem aesSivEncrypt_eq_some : aesSivEncrypt omac1 init memory key pw addr = some out ↔
    (addr.length ≤ 5 ∧ validKeyLen key) ∧ ∃ v cryptPw,
      aesS2v omac1 memory (key.take (key.length / 2)) (addr ++ [pw]) = some v ∧
        aesCtrEncrypt init (key.drop (key.length / 2)) (ctrStart v) pw = some cryptPw ∧
          v ++ cryptPw = out := by
  have hguard : addr.length > 5 ∨ ¬ validKeyLen key ↔ ¬ (addr.length ≤ 5 ∧ validKeyLen key) := by
    rw [not_and_or, not_le]
  rw [aesSivEncrypt]
  by_cases hvalid : addr.length ≤ 5 ∧ validKeyLen key
  · rw [if_neg (hguard.not.mpr (not_not.mpr hvalid))]
    simp only [hvalid, true_and, Option.bind_eq_bind, Option.bind_eq_some_iff, Option.pure_def,
      Option.some.injEq]
    exact ⟨fun ⟨v, hv, c, hc, h⟩ => ⟨v, c, hv, hc, h⟩, fun ⟨v, c, hv, hc, h⟩ => ⟨v, hv, c, hc, h⟩⟩
  · rw [if_pos (hguard.mpr hvalid)]
    exact iff_of_false (Option.some_ne_none _).symm fun h => hvalid h.1

theorem aesSivDecrypt_eq_some : aesSivDecrypt omac1 init memory key ivCrypt addr = some out ↔
    (16 ≤ ivCrypt.length ∧ addr.length ≤ 5 ∧ validKeyLen key) ∧
      aesCtrEncrypt init (key.drop (key.length / 2)) (ctrStart (ivCrypt.take 16))
        (ivCrypt.drop 16) = some out ∧
      aesS2v omac1 memory (key.take (key.length / 2)) (addr ++ [out]) = some (ivCrypt.take 16) := by
  have hguard : ivCrypt.length < 16 ∨ addr.length > 5 ∨ ¬ validKeyLen key ↔
      ¬ (16 ≤ ivCrypt.length ∧ addr.length ≤ 5 ∧ validKeyLen key) := by
    rw [not_and_or, not_and_or, not_le, not_le]
  rw [aesSivDecrypt]
  by_cases hvalid : 16 ≤ ivCrypt.length ∧ addr.length ≤ 5 ∧ validKeyLen key
  · rw [if_neg (hguard.not.mpr (not_not.mpr hvalid))]
    simp only [hvalid, true_and, Option.bind_eq_bind, Option.bind_eq_some_iff]
    constructor
    · rintro ⟨out', hout, check, hcheck, h⟩
      split at h
      · rename_i heq
        cases h
        exact ⟨hout, heq ▸ hcheck⟩
      · cases h
    · rintro ⟨hout, hcheck⟩
      exact ⟨out, hout, _, hcheck, if_pos rfl⟩
  · rw [if_pos (hguard.mpr hvalid)]
    exact iff_of_false (Option.some_ne_none _).symm fun h => hvalid h.1

theorem aesSivDecrypt_aesSivEncrypt
    (hlen : ∀ k elems v, aesS2v omac1 memory k elems = some v → v.length = 16)
    (h : aesSivEncrypt omac1 init memory key pw addr = some out) :
    aesSivDecrypt omac1 init memory key out addr = some pw := by
  obtain ⟨⟨hcount, hkey⟩, v, cryptPw, hv, hcrypt, rfl⟩ := aesSivEncrypt_eq_some.mp h
  have hvlen := hlen _ _ _ hv
  rw [aesSivDecrypt_eq_some, List.take_left' hvlen, List.drop_left' hvlen, List.length_append]
  exact ⟨⟨by omega, hcount, hkey⟩, aesCtrEncrypt_twice hcrypt, hv⟩

theorem aesSivEncrypt_aesSivDecrypt
    (h : aesSivDecrypt omac1 init memory key ivCrypt addr = some out) :
    aesSivEncrypt omac1 init memory key out addr = some ivCrypt := by
  obtain ⟨⟨-, hcount, hkey⟩, hout, hcheck⟩ := aesSivDecrypt_eq_some.mp h
  exact aesSivEncrypt_eq_some.mpr ⟨⟨hcount, hkey⟩, _, _, hcheck, aesCtrEncrypt_twice hout,
    List.take_append_drop _ _⟩

end RoundTrip

/-- A code of one block for each key, where the key is taken. -/
def omacOf (mac : Bytes → Option (BlockFunction 16)) : Omac := fun key data =>
  (mac key).map (·.run data)

def cmacOf (aes : AesEncrypt) : BlockFunction 16 := ⟨Cmac.cmac aes, Cmac.length_cmac⟩

/-- The function that the program calls is CMAC. -/
theorem omac1Of_eq (init : Bytes → Option AesEncrypt) :
    omac1Of init = omacOf fun key => (init key).map cmacOf := by
  funext key data
  rw [omac1Of, omacOf]
  cases init key with
  | none => rfl
  | some aes =>
    rw [omac1AesVector_of_gapless (List.pairwise_singleton _ _), List.flatten_singleton]
    rfl

section S2v
variable {mac : Bytes → Option (BlockFunction 16)} {E : BlockFunction 16} {key d s : Bytes}
  {elems : List Bytes}

/-- The end of `aes_s2v`. -/
def s2vLast (mac : Bytes → Bytes) (tmp addr : Bytes) : Bytes :=
  if 16 ≤ addr.length then mac (xorend addr (toInt addr.length) tmp)
  else mac (xor (dbl tmp) (padBlock addr))

theorem s2vFrom_append (hmac : mac key = some E) (hd : d.length = 16) :
    s2vFrom (omacOf mac) true key d (elems ++ [s]) = some (s2vLast E.run (S2v.state E.run d elems) s) := by
  have homac (data : Bytes) : omacOf mac key data = some (E.run data) := by
    rw [omacOf, hmac, Option.map_some]
  induction elems generalizing d with
  | nil =>
    rw [List.nil_append, s2vFrom, if_pos rfl, homac, homac, ← apply_ite some]
    rfl
  | cons t elems ih =>
    obtain ⟨u, rest, hrest⟩ : ∃ u rest, elems ++ [s] = u :: rest :=
      List.exists_cons_of_ne_nil (List.append_ne_nil_of_right_ne_nil _ (List.cons_ne_nil _ _))
    have hdbl : dbl d = doubled d := gfMulx_eq hd
    have hnext : s2vFrom (omacOf mac) true key d (t :: u :: rest) =
        s2vFrom (omacOf mac) true key (xor (doubled d) (E.run t)) (u :: rest) := by
      rw [s2vFrom, homac, hdbl]
      rfl
    have hlen : (xor (doubled d) (E.run t)).length = 16 :=
      (length_xor ((length_doubled d).trans (E.length_run t).symm)).trans (E.length_run t)
    rw [List.cons_append, hrest, hnext, ← hrest, ih hlen]
    rfl

theorem aesS2v_append (hmac : mac key = some E) :
    aesS2v (omacOf mac) true key (elems ++ [s]) =
      some (s2vLast E.run (S2v.state E.run (E.run (zeros 16)) elems) s) := by
  have homac : omacOf mac key (zeros 16) = some (E.run (zeros 16)) := by
    rw [omacOf, hmac, Option.map_some]
  rw [← s2vFrom_append hmac (E.length_run _)]
  cases elems with
  | nil =>
    rw [List.nil_append, aesS2v, homac]
    rfl
  | cons t elems =>
    rw [List.cons_append, aesS2v, homac]
    rfl

theorem length_omacOf {data v : Bytes} (h : omacOf mac key data = some v) : v.length = 16 := by
  obtain ⟨E, -, rfl⟩ := Option.map_eq_some_iff.mp h
  exact E.length_run _

theorem length_s2vFrom {memory : Bool} {tmp v : Bytes}
    (h : s2vFrom (omacOf mac) memory key tmp elems = some v) : v.length = 16 := by
  fun_induction s2vFrom (omacOf mac) memory key tmp elems with
  | case1 => cases h
  | case2 => exact length_omacOf h
  | case3 => cases h
  | case4 => exact length_omacOf h
  | case5 tmp addr next rest ih =>
    obtain ⟨tmp2, -, hrest⟩ := Option.bind_eq_some_iff.mp h
    exact ih tmp2 hrest

theorem length_aesS2v {memory : Bool} {v : Bytes} (h : aesS2v (omacOf mac) memory key elems = some v) :
    v.length = 16 := by
  cases elems with
  | nil => exact length_omacOf h
  | cons addr rest =>
    obtain ⟨tmp, -, hfrom⟩ := Option.bind_eq_some_iff.mp h
    exact length_s2vFrom hfrom

theorem toInt_of_lt {n : ℕ} (h : n < 2 ^ 31) : toInt n = n := by
  have hmod : n % 2 ^ 32 = n := Nat.mod_eq_of_lt (h.trans (by decide))
  have hint : (n : ℤ) % 2 ^ 32 = n := by exact_mod_cast congrArg Nat.cast hmod
  rw [toInt, hmod, if_pos h, hint]

theorem xorend_eq {a b : Bytes} (ha : 16 ≤ a.length) (hint : a.length < 2 ^ 31) (hb : b.length = 16) :
    xorend a (toInt a.length) b = S2v.xorend a b := by
  have hwhole : ¬ (a.length : ℤ) < 16 := by omega
  have hblock : (a.drop (a.length - 16)).length = 16 := by
    rw [List.length_drop]
    omega
  have hlen : (xor (a.drop (a.length - 16)) b).length = 16 := (length_xor (hblock.trans hb.symm)).trans hb
  have hend : a.length - 16 + (xor (a.drop (a.length - 16)) b).length = a.length := by omega
  rw [toInt_of_lt hint, xorend, if_neg hwhole, Int.toNat_natCast, slice,
    List.take_of_length_le hblock.le, writeAt_eq hend.le, hend, List.drop_length, List.append_nil,
    S2v.xorend, hb]

theorem s2vLast_eq {f : Bytes → Bytes} (hd : d.length = 16) (h : s.length < 2 ^ 31) :
    s2vLast f d s = S2v.chain f d [s] := by
  have hdbl : dbl d = doubled d := gfMulx_eq hd
  rw [s2vLast, hdbl, S2v.chain]
  by_cases hwhole : 16 ≤ s.length
  · rw [if_pos hwhole, if_pos hwhole, xorend_eq hwhole h hd]
  · rw [if_neg hwhole, if_neg hwhole]
    rfl

/-- The last block is outside of what `xorend` changes once the length has lost its upper bits. -/
theorem drop_xorend {a b : Bytes} (ha : 2 ^ 31 ≤ a.length) (hb : b.length = 16) :
    (xorend a (toInt a.length) b).length = a.length ∧
      (xorend a (toInt a.length) b).drop (a.length - 16) = a.drop (a.length - 16) := by
  by_cases hneg : toInt a.length < 16
  · rw [xorend, if_pos hneg]
    exact ⟨rfl, rfl⟩
  · have hlow : (toInt a.length).toNat ≤ a.length - 16 := by
      rw [toInt] at hneg ⊢
      split at hneg
      · rename_i hmod
        rw [if_pos hmod]
        omega
      · omega
    have hmin := length_xor_min (a.slice ((toInt a.length).toNat - 16) 16) b
    have hfront : (a.take (a.length - 16)).length = a.length - 16 :=
      List.length_take_of_le (Nat.sub_le _ _)
    have happend := @writeAt_append_left (a.take (a.length - 16)) (a.drop (a.length - 16))
      ((toInt a.length).toNat - 16) (xor (a.slice ((toInt a.length).toNat - 16) 16) b) (by omega)
    rw [List.take_append_drop] at happend
    rw [xorend, if_neg hneg]
    refine ⟨writeAt_length _ _ _, ?_⟩
    rw [happend, List.drop_left' ((writeAt_length _ _ _).trans hfront)]

/-- The code that is the last block. -/
def lastBlock : BlockFunction 16 where
  run := fun s => (zeros 16 ++ s).drop s.length
  length_run := fun s => by
    rw [List.length_drop, List.length_append, zeros_length, Nat.add_sub_cancel]

def plusOne (E : BlockFunction 16) : BlockFunction 16 where
  run := fun s => xor (E.run s) S2v.one
  length_run := fun s => length_xor (E.length_run s)

theorem lastBlock_run (h : 16 ≤ s.length) : lastBlock.run s = s.drop (s.length - 16) := by
  have hzeros : (zeros 16).length ≤ s.length := h
  show (zeros 16 ++ s).drop s.length = _
  rw [List.drop_append, List.drop_eq_nil_of_le hzeros, List.nil_append, zeros_length]

section Lost
variable {v e : Bytes} (hs : 2 ^ 31 ≤ s.length)
include hs

theorem lastBlock_code (hd : d.length = 16) :
    lastBlock.run (xorend s (toInt s.length) d) = s.drop (s.length - 16) := by
  obtain ⟨hlen, hdrop⟩ := drop_xorend hs hd
  rw [lastBlock_run (by omega), hlen, hdrop]

theorem lastBlock_spec (hd : d.length = 16) :
    lastBlock.run (S2v.xorend s d) = xor (s.drop (s.length - 16)) d := by
  have hfront : (s.take (s.length - 16)).length = s.length - 16 :=
    List.length_take_of_le (Nat.sub_le _ _)
  have hblock : (s.drop (s.length - 16)).length = d.length := by
    rw [List.length_drop]
    omega
  have hlen : (S2v.xorend s d).length = s.length := by
    rw [S2v.xorend, hd, List.length_append, hfront, length_xor hblock]
    omega
  rw [lastBlock_run (by omega), hlen, S2v.xorend, hd, List.drop_left' hfront]

/-- The chain in front of a long last string is lost. -/
theorem chain_lost (hd : d.length = 16) (he : e.length = 16)
    (hfirst : s2vLast lastBlock.run d s = S2v.chain lastBlock.run d [s])
    (hsecond : s2vLast (plusOne lastBlock).run e s = S2v.chain (plusOne lastBlock).run e [s]) :
    d = e := by
  have hwhole : 16 ≤ s.length := le_trans (by decide) hs
  have hblock : (s.drop (s.length - 16)).length = 16 := by
    rw [List.length_drop]
    omega
  have hlen {a : Bytes} (ha : a.length = 16) : (xor (s.drop (s.length - 16)) a).length = 16 :=
    (length_xor (hblock.trans ha.symm)).trans ha
  have hone : S2v.one.length = 16 := rfl
  rw [s2vLast, S2v.chain, if_pos hwhole, if_pos hwhole, lastBlock_code hs hd, lastBlock_spec hs hd]
    at hfirst
  rw [s2vLast, S2v.chain, if_pos hwhole, if_pos hwhole] at hsecond
  change xor (lastBlock.run _) S2v.one = xor (lastBlock.run _) S2v.one at hsecond
  rw [lastBlock_code hs he, lastBlock_spec hs he] at hsecond
  have hplain : s.drop (s.length - 16) = xor (s.drop (s.length - 16)) e := by
    have hcancel := congrArg (xor · S2v.one) hsecond
    rwa [xor_xor_cancel (hblock.trans hone.symm), xor_xor_cancel ((hlen he).trans hone.symm)] at hcancel
  have hsame : xor (s.drop (s.length - 16)) d = xor (s.drop (s.length - 16)) e :=
    hfirst.symm.trans hplain
  rw [← xor_xor_cancel (hd.trans hblock.symm), Bytes.xor_comm d, hsame, Bytes.xor_comm _ e,
    xor_xor_cancel (he.trans hblock.symm)]

end Lost

/-- The code of RFC 5297, whatever the code it rests on. -/
def S2vMeets (elems : List Bytes) : Prop :=
  ∀ (mac : Bytes → Option (BlockFunction 16)) (key : Bytes) (E : BlockFunction 16),
    mac key = some E → aesS2v (omacOf mac) true key elems = some (S2v.s2v E.run elems)

/-- The length of the last string is an `int`. -/
def LastFits (elems : List Bytes) : Prop := ∀ s ∈ elems.getLast?, s.length < 2 ^ 31

theorem s2vMeets_of_lastFits (h : LastFits elems) : S2vMeets elems := by
  intro mac key E hmac
  obtain rfl | ⟨init, s, rfl⟩ := List.eq_nil_or_concat' elems
  · rw [aesS2v, omacOf, hmac]
    rfl
  · have hlen := @S2v.length_state E.run (E.run (zeros 16)) init E.length_run (E.length_run _)
    have hfits : s.length < 2 ^ 31 := h s List.getLast?_concat
    rw [aesS2v_append hmac, S2v.s2v_append, s2vLast_eq hlen hfits]

theorem lastFits_of_s2vMeets (hcount : elems.length ≤ 127) (h : S2vMeets elems) :
    LastFits elems := by
  obtain rfl | ⟨init, s, rfl⟩ := List.eq_nil_or_concat' elems
  · intro s hs
    cases hs
  · intro t ht
    cases List.getLast?_concat.symm.trans ht
    by_contra hlong
    have hs : 2 ^ 31 ≤ s.length := Nat.le_of_not_lt hlong
    have hends (E : BlockFunction 16) :
        s2vLast E.run (S2v.state E.run (E.run (zeros 16)) init) s =
          S2v.chain E.run (S2v.state E.run (E.run (zeros 16)) init) [s] := by
      have heq := h (fun _ => some E) [] E rfl
      rw [aesS2v_append rfl, S2v.s2v_append] at heq
      exact Option.some.inj heq
    have hlen (E : BlockFunction 16) :=
      @S2v.length_state E.run (E.run (zeros 16)) init E.length_run (E.length_run _)
    have hshort : init.length < 128 := by
      rw [List.length_append, List.length_singleton] at hcount
      omega
    exact S2v.state_ne lastBlock.length_run hshort
      (chain_lost hs (hlen _) (hlen _) (hends lastBlock) (hends (plusOne lastBlock))).symm

end S2v

/-- Round trip, exactness of the synthetic IV, and S2V for the strings `elems`. -/
structure Correct (elems : List Bytes) : Prop where
  succeeds : ∀ (mac : Bytes → Option (BlockFunction 16)) (init : Bytes → Option AesEncrypt)
    (key pw : Bytes) (addr : List Bytes), (∀ k, (mac k).isSome) → (∀ k, (init k).isSome) →
      validKeyLen key → addr.length ≤ 5 → (aesSivEncrypt (omacOf mac) init true key pw addr).isSome
  decrypts : ∀ (mac : Bytes → Option (BlockFunction 16)) (init : Bytes → Option AesEncrypt)
    (memory : Bool) (key pw out : Bytes) (addr : List Bytes),
      aesSivEncrypt (omacOf mac) init memory key pw addr = some out →
        aesSivDecrypt (omacOf mac) init memory key out addr = some pw
  authentic : ∀ (mac : Bytes → Option (BlockFunction 16)) (init : Bytes → Option AesEncrypt)
    (memory : Bool) (key pw ivCrypt : Bytes) (addr : List Bytes),
      aesSivDecrypt (omacOf mac) init memory key ivCrypt addr = some pw →
        aesSivEncrypt (omacOf mac) init memory key pw addr = some ivCrypt
  s2v : S2vMeets elems

theorem aesSivEncrypt_isSome {mac : Bytes → Option (BlockFunction 16)}
    {init : Bytes → Option AesEncrypt} {key pw : Bytes} {addr : List Bytes}
    (hmac : ∀ k, (mac k).isSome) (hinit : ∀ k, (init k).isSome) (hkey : validKeyLen key)
    (haddr : addr.length ≤ 5) : (aesSivEncrypt (omacOf mac) init true key pw addr).isSome := by
  obtain ⟨E, hE⟩ := Option.isSome_iff_exists.mp (hmac (key.take (key.length / 2)))
  obtain ⟨aes, haes⟩ := Option.isSome_iff_exists.mp (hinit (key.drop (key.length / 2)))
  have hcrypt (nonce : Bytes) : aesCtrEncrypt init (key.drop (key.length / 2)) nonce pw =
      some (ctrFrom aes ((pw.length + 15) / 16) nonce pw) := by
    rw [aesCtrEncrypt, haes, Option.map_some]
  exact Option.isSome_iff_exists.mpr
    ⟨_, aesSivEncrypt_eq_some.mpr ⟨⟨haddr, hkey⟩, _, _, aesS2v_append hE, hcrypt _, rfl⟩⟩

theorem correct_of_s2vMeets {elems : List Bytes} (h : S2vMeets elems) : Correct elems where
  succeeds _ _ _ _ _ := aesSivEncrypt_isSome
  decrypts _ _ _ _ _ _ _ := aesSivDecrypt_aesSivEncrypt fun _ _ _ => length_aesS2v
  authentic _ _ _ _ _ _ _ := aesSivEncrypt_aesSivDecrypt
  s2v := h

/-- S2V takes 127 strings at most; up to there the last one has to fit. -/
theorem aesSiv_correct_iff (elems : List Bytes) :
    (LastFits elems → Correct elems) ∧ (elems.length ≤ 127 → (Correct elems ↔ LastFits elems)) := by
  have hfits (h : LastFits elems) : Correct elems := correct_of_s2vMeets (s2vMeets_of_lastFits h)
  exact ⟨hfits, fun hcount => ⟨fun h => lastFits_of_s2vMeets hcount h.s2v, hfits⟩⟩

theorem aesSiv_two_strings : Correct [[1], List.replicate 16 2] :=
  ((aesSiv_correct_iff [[1], List.replicate 16 2]).2 (by decide)).mpr fun s hs => by
    cases hs
    decide

/-- One string of 2^31 octets. -/
theorem aesS2v_long : ¬ Correct [zeros (2 ^ 31)] := by
  intro h
  have hfits := lastFits_of_s2vMeets (Nat.le_of_ble_eq_true rfl) h.s2v (zeros (2 ^ 31)) rfl
  rw [zeros_length] at hfits
  exact absurd hfits (Nat.lt_irrefl _)

end Wpa.Siv
