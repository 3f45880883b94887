import Wpa.Lib.Galois
import Wpa.Lib.Reads
import Wpa.Aes.Omac1

/-! AES-GCM (`crypto/aes-gcm.c`): the multiplication in GF(2^128), and encryption and decryption
with a tag. -/

namespace Wpa.Gcm
open Lib Bytes Omac1

/-- `inc32`. -/
def inc32 (block : Bytes) : Bytes :=
  block.writeAt 12 (ofBeNat ((block.be32 12 + 1) % 2 ^ 32) 4)

/-- `xor_block`. -/
def xorBlock (dst src : Bytes) : Bytes := xor dst (src.take 16)

/-- `shift_right_block`: four words, each with the last bit of the octet in front of it. -/
def shiftRightBlock (v : Bytes) : Bytes :=
  ofBeNat (v.be32 0 >>> 1) 4 ++
    (ofBeNat (v.be32 4 >>> 1 ||| if v.byteAt 3 &&& 1 ≠ 0 then 0x80000000 else 0) 4 ++
      (ofBeNat (v.be32 8 >>> 1 ||| if v.byteAt 7 &&& 1 ≠ 0 then 0x80000000 else 0) 4 ++
        ofBeNat (v.be32 12 >>> 1 ||| if v.byteAt 11 &&& 1 ≠ 0 then 0x80000000 else 0) 4))

/-- `V_(i + 1)`. -/
def shiftV (v : Bytes) : Bytes :=
  if v.byteAt 15 &&& 1 ≠ 0 then (shiftRightBlock v).modify 0 (· ^^^ 0xe1) else shiftRightBlock v

/-- The turn of the inner loop of `gf_mult` for one bit. -/
def multBit (bit : Bool) (zv : Bytes × Bytes) : Bytes × Bytes :=
  (if bit then xorBlock zv.1 zv.2 else zv.1, shiftV zv.2)

/-- The turns for the bits of one octet. -/
def multOctet (zv : Bytes × Bytes) (x : UInt8) : Bytes × Bytes :=
  (List.range 8).foldl (fun zv j => multBit (x.toNat.testBit (7 - j)) zv) zv

/-- `gf_mult`. -/
def gfMult (x y : Bytes) : Bytes := (x.foldl multOctet (zeros 16, y)).1

/-- The whole blocks of `ghash`. -/
def ghashBlocks (h : Bytes) : ℕ → Bytes → Bytes → Bytes
  | 0, _, y => y
  | m + 1, xpos, y => ghashBlocks h m (xpos.drop 16) (gfMult (xorBlock y xpos) h)

/-- `ghash`. -/
def ghash (h x y : Bytes) : Bytes :=
  let m := x.length / 16
  let y := ghashBlocks h m x y
  let xpos := x.drop (16 * m)
  if xpos.length > 0 then gfMult (xorBlock y (xpos ++ zeros (16 - xpos.length))) h else y

/-- The full blocks of `aes_gctr`, and the counter behind them. -/
def gctrBlocks (aes : AesEncrypt) : ℕ → Bytes → Bytes → Bytes × Bytes
  | 0, cb, _ => ([], cb)
  | n + 1, cb, xpos =>
    let (ypos, cb') := gctrBlocks aes n (inc32 cb) (xpos.drop 16)
    (xorBlock (aes.run cb) xpos ++ ypos, cb')

/-- `aes_gctr`. -/
def aesGctr (aes : AesEncrypt) (icb x : Bytes) : Bytes :=
  if x.length = 0 then []
  else
    let n := x.length / 16
    let (y, cb) := gctrBlocks aes n icb x
    let xpos := x.drop (16 * n)
    if xpos.length ≠ 0 then y ++ xor xpos (aes.run cb) else y

/-- `aes_gcm_init_hash_subkey`, where `aes_encrypt_init` has not failed. -/
def hashSubkey (aes : AesEncrypt) : Bytes := aes.run (zeros 16)

/-- `WPA_PUT_BE64` of a length in bits, which is a `size_t` of 64 bits. -/
def putLen (a : Bytes) : Bytes := ofBeNat (a.length * 8 % 2 ^ 64) 8

/-- `aes_gcm_prepare_j0`. -/
def prepareJ0 (iv h : Bytes) : Bytes :=
  if iv.length = 12 then (iv ++ zeros 4).writeAt 15 [1]
  else ghash h (zeros 8 ++ putLen iv) (ghash h iv (zeros 16))

/-- `aes_gcm_gctr`. -/
def aesGcmGctr (aes : AesEncrypt) (j0 data : Bytes) : Bytes :=
  if data.length = 0 then [] else aesGctr aes (inc32 j0) data

/-- `aes_gcm_ghash`. -/
def aesGcmGhash (h aad crypt : Bytes) : Bytes :=
  ghash h (putLen aad ++ putLen crypt) (ghash h crypt (ghash h aad (zeros 16)))

/-- `aes_gcm_ae`: the ciphertext and the tag of a call that returns 0. `ctx` is the outcome of
`aes_encrypt_init`. -/
def aesGcmAe (ctx : Option AesEncrypt) (iv plain aad : Bytes) : Option (Bytes × Bytes) :=
  ctx.map fun aes =>
    let h := hashSubkey aes
    let j0 := prepareJ0 iv h
    let crypt := aesGcmGctr aes j0 plain
    (crypt, aesGctr aes j0 (aesGcmGhash h aad crypt))

/-- `aes_gcm_ad`: the plaintext of a call that returns 0. -/
def aesGcmAd (ctx : Option AesEncrypt) (iv crypt aad tag : Bytes) : Option Bytes :=
  ctx.bind fun aes =>
    let h := hashSubkey aes
    let j0 := prepareJ0 iv h
    let plain := aesGcmGctr aes j0 crypt
    let t := aesGctr aes j0 (aesGcmGhash h aad crypt)
    if tag.take 16 = t then some plain else none

section Shift
variable {v : Bytes}

theorem beNat_append (a b : Bytes) : beNat (a ++ b) = 2 ^ (8 * b.length) * beNat a + beNat b := by
  induction a with
  | nil => rw [List.nil_append, beNat, Nat.mul_zero, Nat.zero_add]
  | cons x a ih =>
    rw [List.cons_append, beNat_cons, beNat_cons, ih, List.length_append, Nat.mul_add, Nat.mul_add,
      pow_add]
    ring

/-- The words of a block. -/
theorem beNat_words (h : v.length = 16) :
    beNat v = v.be32 0 * 2 ^ 96 + v.be32 4 * 2 ^ 64 + v.be32 8 * 2 ^ 32 + v.be32 12 := by
  have hword (n : ℕ) (hn : n ≤ 12) :
      beNat (v.drop n) = 2 ^ (8 * (12 - n)) * v.be32 n + beNat (v.drop (n + 4)) := by
    have hlen : (v.drop n).length = 16 - n := by rw [List.length_drop, h]
    have hrest : 16 - (n + 4) = 12 - n := by omega
    have hsplit := beNat_append ((v.drop n).take 4) ((v.drop n).drop 4)
    rw [List.take_append_drop, ← be32_eq_beNat (by omega), be32_drop, Nat.add_zero, List.drop_drop,
      List.length_drop, h, hrest] at hsplit
    exact hsplit
  have hfirst : beNat v = 2 ^ 96 * v.be32 0 + beNat (v.drop 4) := hword 0 (by decide)
  have hsecond : beNat (v.drop 4) = 2 ^ 64 * v.be32 4 + beNat (v.drop 8) := hword 4 (by decide)
  have hthird : beNat (v.drop 8) = 2 ^ 32 * v.be32 8 + beNat (v.drop 12) := hword 8 (by decide)
  have hfourth : beNat (v.drop 12) = 2 ^ 0 * v.be32 12 + beNat (v.drop 16) := hword 12 (by decide)
  rw [List.drop_eq_nil_of_le h.le, beNat] at hfourth
  omega

/-- The last bit of a word is that of its last octet. -/
theorem byteAt_mod_two (v : Bytes) (i : ℕ) : v.byteAt (i + 3) % 2 = v.be32 i % 2 := by
  have hlast : i + 2 + 1 = i + 3 := rfl
  rw [be32, be16, be16, hlast]
  omega

/-- A word under the bit that comes in. -/
theorem shiftWord {w x : ℕ} (hw : w < 2 ^ 32) :
    (w >>> 1 ||| if x &&& 1 ≠ 0 then 0x80000000 else 0) = w / 2 + x % 2 * 2 ^ 31 := by
  have hhalf : w >>> 1 = w / 2 := Nat.shiftRight_eq_div_pow w 1
  have hbit : x &&& 1 = x % 2 := Nat.and_two_pow_sub_one_eq_mod x 1
  rw [hhalf, hbit]
  obtain hx | hx := Nat.mod_two_eq_zero_or_one x
  · rw [hx, if_neg (not_not.mpr rfl), Nat.or_zero, Nat.zero_mul, Nat.add_zero]
  · have hadd := @Nat.two_pow_add_eq_or_of_lt 31 (w / 2) (by omega) 1
    rw [hx, if_pos Nat.one_ne_zero, Nat.or_comm, Nat.one_mul, Nat.add_comm]
    exact hadd.symm

theorem length_shiftRightBlock (v : Bytes) : (shiftRightBlock v).length = 16 := by
  rw [shiftRightBlock, List.length_append, List.length_append, List.length_append, ofBeNat_length,
    ofBeNat_length, ofBeNat_length, ofBeNat_length]

theorem beNat_shiftRightBlock (h : v.length = 16) : beNat (shiftRightBlock v) = beNat v / 2 := by
  have hfirst := v.be32_lt 0
  have hsecond := v.be32_lt 4
  have hthird := v.be32_lt 8
  have hfourth := v.be32_lt 12
  have hhalf : v.be32 0 >>> 1 = v.be32 0 / 2 := Nat.shiftRight_eq_div_pow _ 1
  rw [shiftRightBlock, shiftWord hsecond, shiftWord hthird, shiftWord hfourth, hhalf,
    byteAt_mod_two v 0, byteAt_mod_two v 4, byteAt_mod_two v 8, beNat_append, beNat_append,
    beNat_append, List.length_append, List.length_append, ofBeNat_length, ofBeNat_length,
    ofBeNat_length, beNat_ofBeNat (by omega), beNat_ofBeNat (by omega),
    beNat_ofBeNat (by omega), beNat_ofBeNat (by omega), beNat_words h]
  omega

end Shift

section Mult
variable {R : Type*} [CommRing R] [Algebra (ZMod 2) R] {r : R} {v : Bytes} {zv : Bytes × Bytes}

/-- The value of a block. -/
def blockValue (r : R) (b : Bytes) : R := bitValue r 128 (beNat b)

theorem length_shiftV (v : Bytes) : (shiftV v).length = 16 := by
  rw [shiftV]
  split
  · rw [List.length_modify, length_shiftRightBlock]
  · exact length_shiftRightBlock v

theorem modify_front {b : Bytes} (h : b.length = 16) (m : UInt8) :
    b.modify 0 (· ^^^ m) = xor b (m :: zeros 15) := by
  obtain _ | ⟨x, rest⟩ := b
  · cases h
  · have hrest : rest.length ≤ 15 := (Nat.succ.inj h).le
    show (x ^^^ m) :: rest = (x ^^^ m) :: xor rest (zeros 15)
    rw [xor_zeros hrest]

/-- The shift is the product with the root. -/
theorem blockValue_shiftV (hroot : r ^ 128 = r ^ 7 + r ^ 2 + r + 1) (h : v.length = 16) :
    blockValue r (shiftV v) = r * blockValue r v := by
  have hlt := beNat_lt_two_pow v
  rw [h] at hlt
  have hmul := mul_bitValue r hlt
  have hlast : v.byteAt 15 &&& 1 = beNat v % 2 := by
    have hbit : v.byteAt 15 &&& 1 = v.byteAt 15 % 2 := Nat.and_two_pow_sub_one_eq_mod _ 1
    rw [hbit, byteAt_mod_two v 12, beNat_words h]
    omega
  have hconst : bitValue r 128 (beNat (0xe1 :: zeros 15)) = r ^ 128 := by
    have hvalue : beNat (0xe1 :: zeros 15) = 2 ^ 120 * 0xe1 + 0 := rfl
    have hfront : bitValue r 8 0xe1 = r ^ 128 := by
      rw [hroot, bitValue]
      simp [Finset.sum_range_succ, Nat.testBit]
      ring
    have happend := bitValue_append (w := 120) (n := 0) r (by positivity) 0xe1 8
    rw [hvalue, happend, hfront, bitValue_zero, mul_zero, add_zero]
  rw [blockValue, shiftV, hlast]
  by_cases hodd : beNat v % 2 = 1
  · have hne : beNat v % 2 ≠ 0 := by omega
    have hlen : (shiftRightBlock v).length = (0xe1 :: zeros 15).length := length_shiftRightBlock v
    rw [if_pos hne, modify_front (length_shiftRightBlock v), beNat_xor hlen, bitValue_xor, hconst,
      beNat_shiftRightBlock h]
    rw [if_pos hodd] at hmul
    exact hmul.symm
  · rw [if_neg (by omega), beNat_shiftRightBlock h]
    rw [if_neg hodd, add_zero] at hmul
    exact hmul.symm

/-- Two blocks. -/
def Whole (zv : Bytes × Bytes) : Prop := zv.1.length = 16 ∧ zv.2.length = 16

theorem xorBlock_eq {a b : Bytes} (hb : b.length = 16) : xorBlock a b = xor a b := by
  rw [xorBlock, List.take_of_length_le hb.le]

theorem Whole.multBit (h : Whole zv) (bit : Bool) : Whole (multBit bit zv) := by
  refine ⟨?_, length_shiftV zv.2⟩
  show (if bit then xorBlock zv.1 zv.2 else zv.1).length = 16
  cases bit with
  | false => exact h.1
  | true =>
    rw [if_pos rfl, xorBlock_eq h.2]
    exact (length_xor (h.1.trans h.2.symm)).trans h.2

/-- The step: a multiple of `V` is added, and `V` goes on to the next power. -/
theorem blockValue_multBit (hroot : r ^ 128 = r ^ 7 + r ^ 2 + r + 1) (h : Whole zv) (bit : Bool) :
    blockValue r (multBit bit zv).1 =
        blockValue r zv.1 + (if bit then 1 else 0) * blockValue r zv.2 ∧
      blockValue r (multBit bit zv).2 = r * blockValue r zv.2 := by
  refine ⟨?_, blockValue_shiftV hroot h.2⟩
  cases bit with
  | false => simp [multBit]
  | true =>
    show blockValue r (xorBlock zv.1 zv.2) = _
    rw [xorBlock_eq h.2, blockValue, beNat_xor (h.1.trans h.2.symm), bitValue_xor, if_pos rfl, one_mul]
    rfl

/-- The turns for the first `n` bits of an octet. -/
theorem foldl_multBit (hroot : r ^ 128 = r ^ 7 + r ^ 2 + r + 1) (h : Whole zv) (x : UInt8) (n : ℕ) :
    Whole ((List.range n).foldl (fun zv j => multBit (x.toNat.testBit (7 - j)) zv) zv) ∧
      blockValue r ((List.range n).foldl (fun zv j => multBit (x.toNat.testBit (7 - j)) zv) zv).1 =
        blockValue r zv.1 + (∑ j ∈ Finset.range n, if x.toNat.testBit (7 - j) then r ^ j else 0) *
          blockValue r zv.2 ∧
      blockValue r ((List.range n).foldl (fun zv j => multBit (x.toNat.testBit (7 - j)) zv) zv).2 =
        r ^ n * blockValue r zv.2 := by
  induction n with
  | zero =>
    refine ⟨h, ?_, ?_⟩
    · rw [Finset.sum_range_zero, zero_mul, add_zero]
      rfl
    · rw [pow_zero, one_mul]
      rfl
  | succ n ih =>
    obtain ⟨hwhole, hz, hv⟩ := ih
    rw [List.range_succ, List.foldl_append, List.foldl_cons, List.foldl_nil]
    generalize (List.range n).foldl _ zv = zv' at hwhole hz hv
    obtain ⟨hstepz, hstepv⟩ := blockValue_multBit hroot hwhole (x.toNat.testBit (7 - n))
    refine ⟨hwhole.multBit _, ?_, ?_⟩
    · rw [hstepz, hz, hv, Finset.sum_range_succ, add_mul, add_assoc, ← mul_assoc, ite_mul, one_mul,
        zero_mul]
    · rw [hstepv, hv, ← mul_assoc, ← pow_succ']

theorem blockValue_multOctet (hroot : r ^ 128 = r ^ 7 + r ^ 2 + r + 1) (h : Whole zv) (x : UInt8) :
    Whole (multOctet zv x) ∧
      blockValue r (multOctet zv x).1 =
        blockValue r zv.1 + bitValue r 8 x.toNat * blockValue r zv.2 ∧
      blockValue r (multOctet zv x).2 = r ^ 8 * blockValue r zv.2 := foldl_multBit hroot h x 8

/-- The run over octets. -/
theorem foldl_multOctet (hroot : r ^ 128 = r ^ 7 + r ^ 2 + r + 1) (h : Whole zv) (x : Bytes) :
    Whole (x.foldl multOctet zv) ∧
      blockValue r (x.foldl multOctet zv).1 =
        blockValue r zv.1 + bitValue r (8 * x.length) (beNat x) * blockValue r zv.2 := by
  induction x generalizing zv with
  | nil =>
    refine ⟨h, ?_⟩
    show blockValue r zv.1 = _ + bitValue r 0 0 * _
    rw [bitValue_zero, zero_mul, add_zero]
  | cons x rest ih =>
    obtain ⟨hwhole, hz, hv⟩ := blockValue_multOctet hroot h x
    obtain ⟨hrest, hvalue⟩ := ih hwhole
    have hbits : bitValue r (8 * (x :: rest).length) (beNat (x :: rest)) =
        bitValue r 8 x.toNat + r ^ 8 * bitValue r (8 * rest.length) (beNat rest) := by
      rw [beNat_cons, List.length_cons, Nat.mul_succ, Nat.add_comm,
        bitValue_append r (beNat_lt_two_pow rest)]
    refine ⟨hrest, ?_⟩
    rw [List.foldl_cons, hvalue, hz, hv, hbits]
    ring

end Mult

section Ring
variable {y : Bytes}

theorem length_gfMult (x : Bytes) (hy : y.length = 16) : (gfMult x y).length = 16 := by
  have hstart : Whole (zeros 16, y) := ⟨zeros_length 16, hy⟩
  exact (foldl_multOctet root_pow hstart x).1.1

/-- `gf_mult` is the product of blocks. -/
theorem gfMult_eq (x : Bytes) (hy : y.length = 16) : gfMult x y = blockMul x y := by
  have hstart : Whole (zeros 16, y) := ⟨zeros_length 16, hy⟩
  have hvalue := (foldl_multOctet root_pow hstart x).2
  have hzero : blockValue (AdjoinRoot.root blockModulus) (zeros 16) = 0 := bitValue_zero _ _
  rw [eq_blockMul_iff (length_gfMult x hy), mk_bitPoly, mk_bitPoly, mk_bitPoly,
    length_gfMult x hy, hy]
  rw [hzero, zero_add] at hvalue
  exact hvalue

/-- 1 is the first bit, and the root the second. -/
example : gfMult (0x40 :: zeros 15) (zeros 15 ++ [1]) = 0xe1 :: zeros 15 := by decide

end Ring

section Hash
variable {h x y : Bytes} {n : ℕ}

theorem length_hashFrom (hy : y.length = 16) : (Galois.hashFrom h n y x).length = 16 := by
  induction n generalizing x y with
  | zero => exact hy
  | succ n ih => exact ih (length_blockMul _ _)

theorem ghashBlocks_eq (hh : h.length = 16) (n : ℕ) (x y : Bytes) :
    ghashBlocks h n x y = Galois.hashFrom h n y x := by
  induction n generalizing x y with
  | zero => rfl
  | succ n ih => rw [ghashBlocks, gfMult_eq _ hh, ih, Galois.hashFrom, xorBlock]

/-- `ghash` goes on over the padded string. -/
theorem ghash_eq (hh : h.length = 16) (x y : Bytes) :
    ghash h x y = Galois.hashFrom h ((x.length + 15) / 16) y (Galois.pad x) := by
  have hlen : (x.drop (16 * (x.length / 16))).length = x.length % 16 := by
    rw [List.length_drop]
    omega
  have hfront : (x.take (16 * (x.length / 16))).length = 16 * (x.length / 16) :=
    List.length_take_of_le (Nat.mul_div_le _ _)
  have hblocks : ghashBlocks h (x.length / 16) x y =
      Galois.hashFrom h (x.length / 16) y (x.take (16 * (x.length / 16))) := by
    have happend := hashFrom_append (h := h) (y := y) (b := x.drop (16 * (x.length / 16))) hfront 0
    rw [List.take_append_drop] at happend
    rw [ghashBlocks_eq hh]
    exact happend
  rw [ghash, hlen, hblocks]
  by_cases hpart : x.length % 16 > 0
  · have hpad : Galois.pad x = x.take (16 * (x.length / 16)) ++
        (x.drop (16 * (x.length / 16)) ++ zeros (16 - x.length % 16)) := by
      rw [Galois.pad, ← List.append_assoc, List.take_append_drop, Nat.mod_eq_of_lt (by omega)]
    have hcount : (x.length + 15) / 16 = x.length / 16 + 1 := by omega
    rw [if_pos hpart, gfMult_eq _ hh, hcount, hpad, hashFrom_append hfront]
    rfl
  · have hpad : Galois.pad x = x.take (16 * (x.length / 16)) := by
      have hnil : x.drop (16 * (x.length / 16)) = [] := List.length_eq_zero_iff.mp (by omega)
      have hzero : (16 - x.length % 16) % 16 = 0 := by omega
      have hsplit := List.take_append_drop (16 * (x.length / 16)) x
      rw [hnil, List.append_nil] at hsplit
      rw [Galois.pad, hzero, hsplit]
      exact List.append_nil x
    have hcount : (x.length + 15) / 16 = x.length / 16 := by omega
    rw [if_neg hpart, hcount, hpad]

theorem length_ghash (hh : h.length = 16) (x : Bytes) (hy : y.length = 16) :
    (ghash h x y).length = 16 := by
  rw [ghash_eq hh]
  exact length_hashFrom hy

/-- A whole block is not padded. -/
theorem ghash_block (hh : h.length = 16) (hx : x.length = 16) (y : Bytes) :
    ghash h x y = Galois.hashFrom h 1 y x := by
  have hpad : Galois.pad x = x := by
    rw [Galois.pad, hx]
    exact List.append_nil x
  rw [ghash_eq hh, hpad, hx]

/-- Two strings one behind the other, and a block. -/
theorem ghash_append (hh : h.length = 16) {a b : Bytes} (hb : b.length = 16) (x : Bytes) :
    Galois.ghash h (Galois.pad x ++ (Galois.pad a ++ b)) =
      ghash h b (ghash h a (ghash h x (zeros 16))) := by
  have hlen : (Galois.pad x ++ (Galois.pad a ++ b)).length / 16 =
      (x.length + 15) / 16 + ((a.length + 15) / 16 + 1) := by
    rw [List.length_append, List.length_append, length_pad, length_pad, hb]
    omega
  rw [Galois.ghash, hlen, hashFrom_append (length_pad x), hashFrom_append (length_pad a),
    ghash_block hh hb, ghash_eq hh, ghash_eq hh]

theorem ghash_single (hh : h.length = 16) {b : Bytes} (hb : b.length = 16) (x : Bytes) :
    Galois.ghash h (Galois.pad x ++ b) = ghash h b (ghash h x (zeros 16)) := by
  have hlen : (Galois.pad x ++ b).length / 16 = (x.length + 15) / 16 + 1 := by
    rw [List.length_append, length_pad, hb]
    omega
  rw [Galois.ghash, hlen, hashFrom_append (length_pad x), ghash_block hh hb, ghash_eq hh]

end Hash

section Counter
variable {aes : AesEncrypt} {cb x : Bytes} {n : ℕ}

theorem inc32_eq (h : cb.length = 16) : inc32 cb = Galois.inc cb := by
  have hrest : (cb.drop 12).length = 4 := by rw [List.length_drop, h]
  have hword : cb.be32 12 = beNat (cb.drop 12) := by
    have hfront := be32_eq_beNat hrest.ge
    rw [be32_drop, Nat.add_zero, List.take_of_length_le hrest.le] at hfront
    exact hfront
  have hend : 12 + (ofBeNat ((beNat (cb.drop 12) + 1) % 2 ^ 32) 4).length = cb.length := by
    rw [ofBeNat_length, h]
  rw [inc32, hword, writeAt_eq hend.le, hend, List.drop_length, List.append_nil]
  rfl

theorem length_inc (h : cb.length = 16) : (Galois.inc cb).length = 16 := by
  rw [Galois.inc, List.length_append, ofBeNat_length, List.length_take_of_le (by omega)]

theorem gctrBlocks_eq (h : cb.length = 16) (hx : 16 * n ≤ x.length) :
    gctrBlocks aes n cb x =
      (xor (x.take (16 * n)) (blocks (fun i => aes.run (Galois.inc^[i] cb)) n), Galois.inc^[n] cb) := by
  induction n generalizing cb x with
  | zero => rfl
  | succ n ih =>
    have htake : (x.take 16).length = (aes.run cb).length := by
      rw [List.length_take_of_le (by omega), aes.length_run]
    have hdrop : 16 * n ≤ (x.drop 16).length := by
      rw [List.length_drop]
      omega
    rw [gctrBlocks, inc32_eq h, ih (length_inc h) hdrop, Nat.mul_succ, Nat.add_comm, List.take_add,
      blocks_front, xorBlock, Bytes.xor_comm (aes.run cb), Function.iterate_zero, id, xor_append htake]
    rfl

/-- `aes_gctr` is the counter mode. -/
theorem aesGctr_eq (h : cb.length = 16) (x : Bytes) : aesGctr aes cb x = Galois.gctr aes cb x := by
  have hsplit : 16 * (x.length / 16) + x.length % 16 = x.length := Nat.div_add_mod x.length 16
  have hrun (i : ℕ) : (aes.run (Galois.inc^[i] cb)).length = 16 := aes.length_run _
  have hstream := stream_split hrun (Nat.mod_lt x.length (by decide)) (q := x.length / 16)
  rw [hsplit] at hstream
  have hfront : (x.take (16 * (x.length / 16))).length =
      (blocks (fun i => aes.run (Galois.inc^[i] cb)) (x.length / 16)).length := by
    rw [List.length_take_of_le (by omega), length_blocks hrun]
  have hlast : (x.drop (16 * (x.length / 16))).length = x.length % 16 := by
    rw [List.length_drop]
    omega
  have hparts : Galois.gctr aes cb x =
      xor (x.take (16 * (x.length / 16))) (blocks (fun i => aes.run (Galois.inc^[i] cb)) (x.length / 16)) ++
        xor (x.drop (16 * (x.length / 16)))
          ((aes.run (Galois.inc^[x.length / 16] cb)).take (x.length % 16)) := by
    rw [Galois.gctr, hstream, ← xor_append hfront, List.take_append_drop]
  have hcut : xor (x.drop (16 * (x.length / 16)))
        ((aes.run (Galois.inc^[x.length / 16] cb)).take (x.length % 16)) =
      xor (x.drop (16 * (x.length / 16))) (aes.run (Galois.inc^[x.length / 16] cb)) := by
    have htake := take_xor (a := x.drop (16 * (x.length / 16)))
      (b := aes.run (Galois.inc^[x.length / 16] cb)) (x.length % 16)
    have hshort : (xor (x.drop (16 * (x.length / 16)))
        (aes.run (Galois.inc^[x.length / 16] cb))).length ≤ x.length % 16 := by
      rw [length_xor_min, hlast]
      exact Nat.min_le_left _ _
    rw [List.take_of_length_le hshort, List.take_of_length_le hlast.le] at htake
    exact htake.symm
  have hblocks := @gctrBlocks_eq aes cb x (x.length / 16) h (by omega)
  by_cases hnil : x.length = 0
  · obtain rfl := List.length_eq_zero_iff.mp hnil
    rfl
  · rw [aesGctr, if_neg hnil, hparts, hcut]
    dsimp only
    rw [hblocks]
    by_cases hpart : x.length % 16 = 0
    · have hzero : x.drop (16 * (x.length / 16)) = [] := List.length_eq_zero_iff.mp (hlast.trans hpart)
      rw [hzero]
      exact (List.append_nil _).symm
    · exact if_pos fun hzero => hpart (hlast.symm.trans hzero)

theorem length_gctr (icb x : Bytes) : (Galois.gctr aes icb x).length = x.length := by
  have hlen : (stream 16 (fun i => aes.run (Galois.inc^[i] icb)) x.length).length = x.length :=
    length_stream (fun _ => aes.length_run _) (by decide) x.length
  rw [Galois.gctr, length_xor hlen.symm, hlen]

/-- The stream is added twice. -/
theorem gctr_gctr (icb x : Bytes) : Galois.gctr aes icb (Galois.gctr aes icb x) = x := by
  have hlen : (stream 16 (fun i => aes.run (Galois.inc^[i] icb)) x.length).length = x.length :=
    length_stream (fun _ => aes.length_run _) (by decide) x.length
  have htwice : Galois.gctr aes icb (Galois.gctr aes icb x) = xor (Galois.gctr aes icb x)
      (stream 16 (fun i => aes.run (Galois.inc^[i] icb)) (Galois.gctr aes icb x).length) := rfl
  rw [htwice, length_gctr, Galois.gctr, xor_xor_cancel hlen.symm]

theorem aesGcmGctr_eq (h : cb.length = 16) (x : Bytes) :
    aesGcmGctr aes cb x = Galois.gctr aes (Galois.inc cb) x := by
  rw [aesGcmGctr, inc32_eq h]
  by_cases hnil : x.length = 0
  · obtain rfl := List.length_eq_zero_iff.mp hnil
    rfl
  · rw [if_neg hnil, aesGctr_eq (length_inc h)]

end Counter

section Mode
variable {aes : AesEncrypt} {iv plain aad crypt tag h : Bytes}

theorem length_hashSubkey (aes : AesEncrypt) : (hashSubkey aes).length = 16 := aes.length_run _

theorem length_prepareJ0 (hh : h.length = 16) (iv : Bytes) : (prepareJ0 iv h).length = 16 := by
  rw [prepareJ0]
  by_cases hiv : iv.length = 12
  · rw [if_pos hiv, writeAt_length, List.length_append, hiv, zeros_length]
  · rw [if_neg hiv]
    exact length_ghash hh _ (length_ghash hh _ (zeros_length 16))

theorem length_aesGcmGhash (hh : h.length = 16) (aad crypt : Bytes) :
    (aesGcmGhash h aad crypt).length = 16 :=
  length_ghash hh _ (length_ghash hh _ (length_ghash hh _ (zeros_length 16)))

theorem length_tag (aes : AesEncrypt) (iv aad crypt : Bytes) :
    (aesGctr aes (prepareJ0 iv (hashSubkey aes)) (aesGcmGhash (hashSubkey aes) aad crypt)).length = 16 := by
  rw [aesGctr_eq (length_prepareJ0 (length_hashSubkey aes) iv), length_gctr,
    length_aesGcmGhash (length_hashSubkey aes)]

theorem aesGcmGctr_twice (aes : AesEncrypt) (iv data : Bytes) :
    aesGcmGctr aes (prepareJ0 iv (hashSubkey aes))
      (aesGcmGctr aes (prepareJ0 iv (hashSubkey aes)) data) = data := by
  have hj0 := length_prepareJ0 (length_hashSubkey aes) iv
  rw [aesGcmGctr_eq hj0, aesGcmGctr_eq hj0, gctr_gctr]

/-- The length of a string, in bits, has 64 bits. -/
def LengthFits (a : Bytes) : Prop := 8 * a.length < 2 ^ 64

theorem putLen_eq {a : Bytes} (ha : LengthFits a) : putLen a = Galois.bitLength a := by
  rw [putLen, Nat.mul_comm, Nat.mod_eq_of_lt ha]
  rfl

theorem prepareJ0_eq (hiv : LengthFits iv) : prepareJ0 iv (hashSubkey aes) = Galois.j0 aes iv := by
  rw [prepareJ0, Galois.j0]
  by_cases hshort : iv.length = 12
  · have hlast := writeAt_append_right iv (b := zeros 4) 3 [1] (by decide)
    rw [hshort] at hlast
    rw [if_pos hshort, if_pos hshort, hlast]
    rfl
  · have hlen : (zeros 8 ++ Galois.bitLength iv).length = 16 := by
      rw [List.length_append, Galois.bitLength, ofBeNat_length, zeros_length]
    rw [if_neg hshort, if_neg hshort, putLen_eq hiv]
    exact (ghash_single (length_hashSubkey aes) hlen iv).symm

theorem aesGcmGhash_eq (haad : LengthFits aad) (hcrypt : LengthFits crypt) :
    aesGcmGhash (hashSubkey aes) aad crypt = Galois.ghash (Galois.subkey aes)
      (Galois.pad aad ++ (Galois.pad crypt ++ (Galois.bitLength aad ++ Galois.bitLength crypt))) := by
  have hlen : (Galois.bitLength aad ++ Galois.bitLength crypt).length = 16 := by
    rw [List.length_append, Galois.bitLength, Galois.bitLength, ofBeNat_length, ofBeNat_length]
  rw [aesGcmGhash, putLen_eq haad, putLen_eq hcrypt]
  exact (ghash_append (length_hashSubkey aes) hlen aad).symm

/-- The code is GCM, for lengths that GCM has. -/
theorem aesGcmAe_eq (hiv : LengthFits iv) (hplain : LengthFits plain) (haad : LengthFits aad) :
    aesGcmAe (some aes) iv plain aad = some (Galois.encrypt aes iv plain aad) := by
  have hj0 := length_prepareJ0 (length_hashSubkey aes) iv
  have hcrypt : LengthFits (Galois.gctr aes (Galois.inc (Galois.j0 aes iv)) plain) := by
    rw [LengthFits, length_gctr]
    exact hplain
  rw [aesGcmAe, Option.map_some]
  dsimp only
  rw [aesGcmGctr_eq hj0, aesGctr_eq hj0, prepareJ0_eq hiv, aesGcmGhash_eq haad hcrypt]
  rfl

theorem aesGcmAd_aesGcmAe (h : aesGcmAe (some aes) iv plain aad = some (crypt, tag)) :
    aesGcmAd (some aes) iv crypt aad tag = some plain := by
  obtain ⟨rfl, rfl⟩ := Prod.mk.inj (Option.some.inj h)
  have htag := length_tag aes iv aad
    (aesGcmGctr aes (prepareJ0 iv (hashSubkey aes)) plain)
  rw [aesGcmAd, Option.bind_some, List.take_of_length_le htag.le, if_pos rfl, aesGcmGctr_twice]

theorem aesGcmAe_aesGcmAd (h : aesGcmAd (some aes) iv crypt aad tag = some plain) :
    aesGcmAe (some aes) iv plain aad = some (crypt, tag.take 16) := by
  rw [aesGcmAd, Option.bind_some] at h
  dsimp only at h
  split at h
  · rename_i htag
    cases h
    rw [aesGcmAe, Option.map_some]
    dsimp only
    rw [aesGcmGctr_twice, htag]
  · cases h

end Mode

/-- `gf_mult` on blocks: the product of the polynomials of their bits modulo
X^128 + X^7 + X^2 + X + 1. -/
structure Multiplies (x y : Bytes) : Prop where
  length : (gfMult x y).length = 16
  product : bitPoly (gfMult x y) = bitPoly x * bitPoly y %ₘ blockModulus
  comm : gfMult x y = gfMult y x
  distrib : ∀ x', x'.length = 16 → gfMult (xor x x') y = xor (gfMult x y) (gfMult x' y)

theorem multiplies {x y : Bytes} (hx : x.length = 16) (hy : y.length = 16) : Multiplies x y where
  length := length_gfMult x hy
  product := by rw [gfMult_eq x hy, bitPoly_blockMul]
  comm := by rw [gfMult_eq x hy, gfMult_eq y hx, blockMul_comm]
  distrib x' hx' := by
    rw [gfMult_eq _ hy, gfMult_eq _ hy, gfMult_eq _ hy, blockMul_xor (hx.trans hx'.symm)]

/-- The multiplication is that of GCM; what is encrypted is decrypted, and nothing is decrypted but
what is encrypted to the tag that is given. For lengths that GCM has, the output is that of GCM. -/
theorem aesGcm_implements (aes : AesEncrypt) (iv aad : Bytes) :
    (∀ x y : Bytes, x.length = 16 → y.length = 16 → Multiplies x y) ∧
    (∀ plain : Bytes, ∃ crypt tag, aesGcmAe (some aes) iv plain aad = some (crypt, tag) ∧
      aesGcmAd (some aes) iv crypt aad tag = some plain ∧
      (LengthFits iv → LengthFits plain → LengthFits aad →
        (crypt, tag) = Galois.encrypt aes iv plain aad)) ∧
    ∀ plain crypt tag : Bytes, aesGcmAd (some aes) iv crypt aad tag = some plain →
      aesGcmAe (some aes) iv plain aad = some (crypt, tag.take 16) := by
  refine ⟨fun x y => multiplies, fun plain => ?_, fun plain crypt tag => aesGcmAe_aesGcmAd⟩
  refine ⟨_, _, rfl, aesGcmAd_aesGcmAe rfl, fun hiv hplain haad => ?_⟩
  exact Option.some.inj (aesGcmAe_eq hiv hplain haad)

end Wpa.Gcm
