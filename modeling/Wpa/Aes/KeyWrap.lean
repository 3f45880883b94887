import Wpa.Lib.BlockCipher

/-! AES key wrap (`crypto/aes-wrap.c` and `crypto/aes-unwrap.c`): the two routines are inverse, and
exactly the images of the one are accepted by the other. -/

namespace Wpa.KeyWrap
open Lib Bytes

abbrev aesBlockSize : ℕ := 16

/-- The contexts that `aes_encrypt_init` and `aes_decrypt_init` make of one key. -/
abbrev Aes := BlockCipher aesBlockSize

/-- A product of the type `int`. One that overflows is undefined. -/
def intMul (a b : ℕ) : Option ℕ := if a * b < 2 ^ 31 then some (a * b) else none

/-- The integrity register in front and the registers `R[1]` to `R[n]`. -/
structure Registers where
  a : Bytes
  r : Bytes
  deriving DecidableEq

/-- What the step counter is folded into `A` with. -/
def counterMask (t : UInt32) : Bytes :=
  [0, 0, 0, 0, (t >>> 24).toUInt8, (t >>> 16).toUInt8, (t >>> 8).toUInt8, t.toUInt8]

/-- `t = n * j + i`, for the register at `i - 1`. It stays an `int`, as `8 * n` is one. -/
def counter (n j i : ℕ) : UInt32 := UInt32.ofNat (n * j + (i + 1))

/-- A turn of the inner loop of `aes_wrap`. -/
def wrapStep (aes : Aes) (n j : ℕ) (s : Registers) (i : ℕ) : Registers :=
  let b := aes.encrypt (s.a ++ s.r.slice (8 * i) 8)
  { a := xor (b.take 8) (counterMask (counter n j i)), r := s.r.writeAt (8 * i) (b.drop 8) }

/-- A turn of the inner loop of `aes_unwrap`. -/
def unwrapStep (aes : Aes) (n j : ℕ) (s : Registers) (i : ℕ) : Registers :=
  let b := aes.decrypt (xor s.a (counterMask (counter n j i)) ++ s.r.slice (8 * i) 8)
  { a := b.take 8, r := s.r.writeAt (8 * i) (b.drop 8) }

def wrapRound (aes : Aes) (n : ℕ) (s : Registers) (j : ℕ) : Registers :=
  (List.range n).foldl (wrapStep aes n j) s

def unwrapRound (aes : Aes) (n : ℕ) (s : Registers) (j : ℕ) : Registers :=
  (List.range n).reverse.foldl (unwrapStep aes n j) s

def initialValue : Bytes := List.replicate 8 0xa6

/-- `aes_wrap`: the value returned, and the `8 * (n + 1)` octets of `cipher`. No context is what is
left of a failed initialization. -/
def aesWrap (ctx : Option Aes) (n : ℕ) (plain : Bytes) : Option (ℤ × Bytes) :=
  (intMul 8 n).map fun len =>
    let s : Registers := { a := initialValue, r := plain.slice 0 len }
    match ctx with
    | none => (-1, s.a ++ s.r)
    | some aes =>
      let s := (List.range 6).foldl (wrapRound aes n) s
      (0, s.a ++ s.r)

/-- `aes_unwrap`: the value returned, and the `8 * n` octets of `plain`. -/
def aesUnwrap (ctx : Option Aes) (n : ℕ) (cipher : Bytes) : Option (ℤ × Bytes) :=
  (intMul 8 n).map fun len =>
    let s : Registers := { a := cipher.slice 0 8, r := cipher.slice 8 len }
    match ctx with
    | none => (-1, s.r)
    | some aes =>
      let s := (List.range 6).reverse.foldl (unwrapRound aes n) s
      (if s.a = initialValue then 0 else -1, s.r)

/-- The registers are as long as they are said to be. -/
structure Registers.Sized (n : ℕ) (s : Registers) : Prop where
  a : s.a.length = 8
  r : s.r.length = 8 * n

section Steps
variable {aes : Aes} {n i j : ℕ} {s : Registers}

theorem length_counterMask (t : UInt32) : (counterMask t).length = 8 := rfl

theorem length_take_half {b : Bytes} (h : b.length = 16) : (b.take 8).length = 8 := by
  rw [List.length_take, h]
  rfl

theorem length_drop_half {b : Bytes} (h : b.length = 16) : (b.drop 8).length = 8 := by
  rw [List.length_drop, h]

theorem length_register (h : s.Sized n) (hi : i < n) : (s.r.slice (8 * i) 8).length = 8 := by
  rw [slice_length, h.r]
  omega

theorem wrapStep_sized (h : s.Sized n) : (wrapStep aes n j s i).Sized n := by
  constructor
  · rw [wrapStep, length_xor, length_counterMask]
    exact length_take_half (aes.length_encrypt _)
  · rw [wrapStep, writeAt_length, h.r]

theorem unwrapStep_sized (h : s.Sized n) : (unwrapStep aes n j s i).Sized n := by
  constructor
  · exact length_take_half (aes.length_decrypt _)
  · rw [unwrapStep, writeAt_length, h.r]

theorem length_block (h : s.Sized n) (hi : i < n) :
    (s.a ++ s.r.slice (8 * i) 8).length = 16 := by
  rw [List.length_append, h.a, length_register h hi]

/-- The halves of a block are put together again. -/
theorem register_written {b : Bytes} (h : s.Sized n) (hi : i < n) (hb : b.length = 16) :
    (s.r.writeAt (8 * i) (b.drop 8)).slice (8 * i) 8 = b.drop 8 ∧
      (s.r.writeAt (8 * i) (b.drop 8)).writeAt (8 * i) (s.r.slice (8 * i) 8) = s.r := by
  have hfits : 8 * i + 8 ≤ s.r.length := by
    rw [h.r]
    omega
  exact ⟨slice_writeAt (length_drop_half hb) hfits, writeAt_undo (length_drop_half hb) hfits⟩

theorem unwrapStep_wrapStep (h : s.Sized n) (hi : i < n) :
    unwrapStep aes n j (wrapStep aes n j s i) i = s := by
  have hb := aes.length_encrypt (s.a ++ s.r.slice (8 * i) 8)
  obtain ⟨hread, hundo⟩ := register_written h hi hb
  have hmask : xor (wrapStep aes n j s i).a (counterMask (counter n j i)) =
      (aes.encrypt (s.a ++ s.r.slice (8 * i) 8)).take 8 :=
    xor_xor_cancel (length_take_half hb)
  rw [unwrapStep, hmask]
  simp only [wrapStep, hread, List.take_append_drop, aes.decrypt_encrypt _ (length_block h hi)]
  rw [List.take_left' h.a, List.drop_left' h.a, hundo]

theorem wrapStep_unwrapStep (h : s.Sized n) (hi : i < n) :
    wrapStep aes n j (unwrapStep aes n j s i) i = s := by
  have hmask : (xor s.a (counterMask (counter n j i))).length = 8 := by
    rw [length_xor h.a, length_counterMask]
  have hlen : (xor s.a (counterMask (counter n j i)) ++ s.r.slice (8 * i) 8).length = 16 := by
    rw [List.length_append, hmask, length_register h hi]
  obtain ⟨hread, hundo⟩ := register_written h hi
    (aes.length_decrypt (xor s.a (counterMask (counter n j i)) ++ s.r.slice (8 * i) 8))
  rw [wrapStep]
  simp only [unwrapStep, hread, List.take_append_drop, aes.encrypt_decrypt _ hlen]
  rw [List.take_left' hmask, List.drop_left' hmask, hundo, xor_xor_cancel h.a]

theorem wrapRound_sized (h : s.Sized n) : (wrapRound aes n s j).Sized n :=
  foldl_keeps (fun _ hs _ _ => wrapStep_sized hs) h

theorem unwrapRound_sized (h : s.Sized n) : (unwrapRound aes n s j).Sized n :=
  foldl_keeps (fun _ hs _ _ => unwrapStep_sized hs) h

theorem unwrapRound_wrapRound (h : s.Sized n) : unwrapRound aes n (wrapRound aes n s j) j = s :=
  foldl_undo (fun _ hs _ _ => wrapStep_sized hs)
    (fun _ hs _ hi => unwrapStep_wrapStep hs (List.mem_range.mp hi)) h

theorem wrapRound_unwrapRound (h : s.Sized n) : wrapRound aes n (unwrapRound aes n s j) j = s :=
  foldl_undo_reverse (fun _ hs _ _ => unwrapStep_sized hs)
    (fun _ hs _ hi => wrapStep_unwrapStep hs (List.mem_range.mp hi)) h

end Steps

section Wrap
variable {aes : Aes} {n : ℕ} {s : Registers} {plain cipher : Bytes}

theorem unwrap_wrap (h : s.Sized n) : (List.range 6).reverse.foldl (unwrapRound aes n)
    ((List.range 6).foldl (wrapRound aes n) s) = s :=
  foldl_undo (fun _ hs _ _ => wrapRound_sized hs) (fun _ hs _ _ => unwrapRound_wrapRound hs) h

theorem wrap_unwrap (h : s.Sized n) : (List.range 6).foldl (wrapRound aes n)
    ((List.range 6).reverse.foldl (unwrapRound aes n) s) = s :=
  foldl_undo_reverse (fun _ hs _ _ => unwrapRound_sized hs)
    (fun _ hs _ _ => wrapRound_unwrapRound hs) h

theorem aesWrap_eq (hn : 8 * n < 2 ^ 31) (hplain : plain.length = 8 * n) :
    aesWrap (some aes) n plain = some (0,
      ((List.range 6).foldl (wrapRound aes n) ⟨initialValue, plain⟩).a ++
        ((List.range 6).foldl (wrapRound aes n) ⟨initialValue, plain⟩).r) := by
  have hslice : plain.slice 0 (8 * n) = plain := by
    rw [slice, List.drop_zero, ← hplain, List.take_length]
  rw [aesWrap, intMul, if_pos hn, Option.map_some, hslice]

theorem aesUnwrap_eq (hn : 8 * n < 2 ^ 31) (h : s.Sized n) :
    aesUnwrap (some aes) n (s.a ++ s.r) = some (
      if ((List.range 6).reverse.foldl (unwrapRound aes n) s).a = initialValue then 0 else -1,
      ((List.range 6).reverse.foldl (unwrapRound aes n) s).r) := by
  have ha : slice (s.a ++ s.r) 0 8 = s.a := by rw [slice, List.drop_zero, List.take_left' h.a]
  have hr : slice (s.a ++ s.r) 8 (8 * n) = s.r := by
    rw [slice, List.drop_left' h.a, ← h.r, List.take_length]
  rw [aesUnwrap, intMul, if_pos hn, Option.map_some, ha, hr]

/-- What is wrapped is unwrapped again. -/
theorem aesUnwrap_aesWrap (hn : 8 * n < 2 ^ 31) (hplain : plain.length = 8 * n) :
    ∃ cipher, aesWrap (some aes) n plain = some (0, cipher) ∧ cipher.length = 8 * (n + 1) ∧
      aesUnwrap (some aes) n cipher = some (0, plain) := by
  have hstart : Registers.Sized n ⟨initialValue, plain⟩ := ⟨rfl, hplain⟩
  have hend : ((List.range 6).foldl (wrapRound aes n) ⟨initialValue, plain⟩).Sized n :=
    foldl_keeps (fun _ hs _ _ => wrapRound_sized hs) hstart
  refine ⟨_, aesWrap_eq hn hplain, ?_, ?_⟩
  · rw [List.length_append, hend.a, hend.r]
    omega
  · rw [aesUnwrap_eq hn hend, unwrap_wrap hstart, if_pos rfl]

/-- What is unwrapped has been wrapped. -/
theorem aesWrap_aesUnwrap (hn : 8 * n < 2 ^ 31) (hcipher : cipher.length = 8 * (n + 1))
    (h : aesUnwrap (some aes) n cipher = some (0, plain)) :
    aesWrap (some aes) n plain = some (0, cipher) := by
  have hstart : Registers.Sized n ⟨cipher.take 8, cipher.drop 8⟩ := by
    constructor
    · rw [List.length_take]
      omega
    · rw [List.length_drop]
      omega
  have hend : ((List.range 6).reverse.foldl (unwrapRound aes n)
      ⟨cipher.take 8, cipher.drop 8⟩).Sized n :=
    foldl_keeps (fun _ hs _ _ => unwrapRound_sized hs) hstart
  have hback := @wrap_unwrap aes n _ hstart
  have hunwrap := @aesUnwrap_eq aes n _ hn hstart
  dsimp only at hunwrap
  rw [List.take_append_drop, h] at hunwrap
  generalize (List.range 6).reverse.foldl (unwrapRound aes n) ⟨cipher.take 8, cipher.drop 8⟩ = s
    at hend hback hunwrap
  obtain ⟨hret, hr⟩ := Prod.mk.inj (Option.some.inj hunwrap)
  have ha : s.a = initialValue := by
    by_contra hne
    rw [if_neg hne] at hret
    exact absurd hret (by decide)
  have hs : (⟨initialValue, plain⟩ : Registers) = s := by rw [← ha, hr]
  rw [aesWrap_eq hn (by rw [hr, hend.r]), hs, hback, List.take_append_drop]

end Wrap

/-- For every key the two routines are inverse, and exactly the wrapped images are accepted. -/
theorem aesWrap_aesUnwrap_inverse (aes : Aes) (n : ℕ) (hn : 1 ≤ n ∧ 8 * n < 2 ^ 31) :
    (∀ plain : Bytes, plain.length = 8 * n →
      ∃ cipher, aesWrap (some aes) n plain = some (0, cipher) ∧ cipher.length = 8 * (n + 1) ∧
        aesUnwrap (some aes) n cipher = some (0, plain)) ∧
    ∀ cipher plain : Bytes, cipher.length = 8 * (n + 1) →
      aesUnwrap (some aes) n cipher = some (0, plain) →
        aesWrap (some aes) n plain = some (0, cipher) :=
  ⟨fun _ => aesUnwrap_aesWrap hn.2, fun _ _ => aesWrap_aesUnwrap hn.2⟩

theorem identity_inverse : ∃ cipher, aesWrap (some (.identity 16)) 1 (zeros 8) = some (0, cipher) ∧
    cipher.length = 16 ∧ aesUnwrap (some (.identity 16)) 1 cipher = some (0, zeros 8) :=
  (aesWrap_aesUnwrap_inverse (.identity 16) 1 (by decide)).1 (zeros 8) rfl

/-- Of 2 GiB and more the length is not an `int`, though the counter would not overflow. -/
theorem aesWrap_overflow : 6 * 2 ^ 28 < 2 ^ 32 ∧ (zeros (8 * 2 ^ 28)).length = 8 * 2 ^ 28 ∧
    ∀ ctx, aesWrap ctx (2 ^ 28) (zeros (8 * 2 ^ 28)) = none := by
  refine ⟨by omega, zeros_length _, ?_⟩
  intro ctx
  have hlen : intMul 8 (2 ^ 28) = none := if_neg (by omega)
  rw [aesWrap, hlen, Option.map_none]

end Wpa.KeyWrap
