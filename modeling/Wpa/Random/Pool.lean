import Mathlib.Logic.Function.Basic
import Wpa.Lib.Bytes

/-! Mixing of octets into the entropy pool (`crypto/random.c`): no two pools become the same by it. -/

namespace Wpa.RandomPool
open Lib

abbrev poolWords : ℕ := 32

def poolWordsMask : UInt32 := 31

def poolTap1 : UInt32 := 26
def poolTap2 : UInt32 := 20
def poolTap3 : UInt32 := 14
def poolTap4 : UInt32 := 7
def poolTap5 : UInt32 := 1

/-- `__ROL32`. -/
def rol32 (x y : UInt32) : UInt32 :=
  if y = 0 then x else (x <<< (y &&& 31)) ||| (x >>> (32 - (y &&& 31)))

def twist : Vector UInt32 8 :=
  #v[0x00000000, 0x3b6e20c8, 0x76dc4190, 0x4db26158, 0xedb88320, 0xd6d6a3e8, 0x9b64c2b0, 0xa00ae278]

theorem and_seven (w : UInt32) : (w &&& 7).toNat = w.toNat % 8 := by
  rw [UInt32.toNat_and]
  exact Nat.and_two_pow_sub_one_eq_mod w.toNat 3

theorem and_seven_lt (w : UInt32) : (w &&& 7).toNat < 8 := by
  rw [and_seven]
  omega

theorem and_mask (i : UInt32) : (i &&& poolWordsMask).toNat = i.toNat % 32 := by
  rw [UInt32.toNat_and]
  exact Nat.and_two_pow_sub_one_eq_mod i.toNat 5

theorem and_mask_lt (i : UInt32) : (i &&& poolWordsMask).toNat < poolWords := by
  rw [and_mask]
  exact Nat.mod_lt _ (by decide)

/-- The word that replaces one of the pool: three bits of `w` are dropped and twisted in again. -/
def twisted (w : UInt32) : UInt32 := (w >>> 3) ^^^ twist.get ⟨(w &&& 7).toNat, and_seven_lt w⟩

/-- An index into the pool. -/
def masked (i : UInt32) : Fin poolWords := ⟨(i &&& poolWordsMask).toNat, and_mask_lt i⟩

/-- The static variables of the pool. -/
structure Mixer where
  pool : Vector UInt32 poolWords
  inputRotate : UInt32
  poolPos : UInt32
  deriving DecidableEq

/-- What the taps at `poolPos` add to the octet. -/
def taps (pool : Vector UInt32 poolWords) (poolPos : UInt32) : UInt32 :=
  pool.get (masked (poolPos + poolTap1)) ^^^ pool.get (masked (poolPos + poolTap2)) ^^^
    pool.get (masked (poolPos + poolTap3)) ^^^ pool.get (masked (poolPos + poolTap4)) ^^^
    pool.get (masked (poolPos + poolTap5))

/-- One turn of the loop of `random_mix_pool`. -/
def mixOctet (st : Mixer) (x : UInt8) : Mixer :=
  let w := rol32 x.toUInt32 (st.inputRotate &&& 31)
  let inputRotate := st.inputRotate + if st.poolPos ≠ 0 then 7 else 14
  let poolPos := (st.poolPos - 1) &&& poolWordsMask
  let w := w ^^^ st.pool.get (masked poolPos)
  let w := w ^^^ taps st.pool poolPos
  { pool := st.pool.set (masked poolPos) (twisted w), inputRotate, poolPos }

def randomMixPool (buf : Bytes) (st : Mixer) : Mixer := buf.foldl mixOctet st

section Twist
variable {w v : UInt32}

/-- The three bits on top of the entries of the table tell them apart. -/
theorem twist_top_inj : ∀ i j : Fin 8, twist.get i >>> 29 = twist.get j >>> 29 → i = j := by
  decide

theorem shift_top (w : UInt32) : (w >>> 3) >>> 29 = 0 := by
  apply UInt32.toNat.inj
  have hlt := w.toNat_lt
  simp only [UInt32.toNat_shiftRight, Nat.shiftRight_eq_div_pow]
  show w.toNat / 2 ^ 3 / 2 ^ 29 = 0
  omega

theorem twisted_top (w : UInt32) :
    twisted w >>> 29 = twist.get ⟨(w &&& 7).toNat, and_seven_lt w⟩ >>> 29 := by
  rw [twisted, UInt32.shiftRight_xor, shift_top, UInt32.zero_xor]

/-- A word is put together from the bits that are kept and those that are dropped. -/
theorem eq_of_parts (hkept : w >>> 3 = v >>> 3) (hdropped : (w &&& 7).toNat = (v &&& 7).toNat) :
    w = v := by
  apply UInt32.toNat.inj
  have hquot := congrArg UInt32.toNat hkept
  simp only [UInt32.toNat_shiftRight, Nat.shiftRight_eq_div_pow] at hquot
  have hquot' : w.toNat / 8 = v.toNat / 8 := hquot
  rw [and_seven, and_seven] at hdropped
  omega

theorem twisted_injective : Function.Injective twisted := by
  intro w v h
  have htop : twisted w >>> 29 = twisted v >>> 29 := by rw [h]
  rw [twisted_top, twisted_top] at htop
  have hindex := congrArg Fin.val (twist_top_inj _ _ htop)
  have hentry : twist.get ⟨(w &&& 7).toNat, and_seven_lt w⟩ =
      twist.get ⟨(v &&& 7).toNat, and_seven_lt v⟩ := congrArg twist.get (Fin.ext hindex)
  rw [twisted, twisted, hentry, UInt32.xor_left_inj] at h
  exact eq_of_parts h hindex

end Twist

section Taps
variable {p : Vector UInt32 poolWords} {i tap v : UInt32}

/-- A tap never hits the word that is replaced. -/
theorem masked_tap_ne (htap : tap.toNat % 32 ≠ 0) : masked (i + tap) ≠ masked i := by
  intro h
  have hval : ((i + tap) &&& poolWordsMask).toNat = (i &&& poolWordsMask).toNat :=
    congrArg (fun j : Fin poolWords => j.val) h
  rw [and_mask, and_mask, UInt32.toNat_add] at hval
  omega

theorem get_set_tap (htap : tap.toNat % 32 ≠ 0) :
    (p.set (masked i) v).get (masked (i + tap)) = p.get (masked (i + tap)) :=
  Vector.getElem_set_ne _ _ fun h => masked_tap_ne htap (Fin.ext h.symm)

theorem taps_set (p : Vector UInt32 poolWords) (i v : UInt32) :
    taps (p.set (masked i) v) i = taps p i := by
  rw [taps, get_set_tap (by decide), get_set_tap (by decide), get_set_tap (by decide),
    get_set_tap (by decide), get_set_tap (by decide)]
  rfl

end Taps

section Mix
variable {st st' : Mixer} {x : UInt8} {buf : Bytes}

/-- What stands beside the pool does not depend on it. -/
structure Aligned (st st' : Mixer) : Prop where
  inputRotate : st.inputRotate = st'.inputRotate
  poolPos : st.poolPos = st'.poolPos

theorem Aligned.mixOctet (h : Aligned st st') : Aligned (mixOctet st x) (mixOctet st' x) := by
  constructor
  · show st.inputRotate + (if st.poolPos ≠ 0 then 7 else 14) =
      st'.inputRotate + (if st'.poolPos ≠ 0 then 7 else 14)
    rw [h.inputRotate, h.poolPos]
  · show (st.poolPos - 1) &&& poolWordsMask = (st'.poolPos - 1) &&& poolWordsMask
    rw [h.poolPos]

/-- Two words set at one place: outside of it nothing has been lost. -/
theorem set_inj {p q : Vector UInt32 poolWords} {i : Fin poolWords} {v v' : UInt32}
    (h : p.set i v = q.set i v') (hi : p.get i = q.get i) : p = q := by
  apply Vector.ext
  intro j hj
  by_cases hij : i.val = j
  · subst hij
    exact hi
  · have hget := congrArg (fun r : Vector UInt32 poolWords => r.get ⟨j, hj⟩) h
    exact (Vector.getElem_set_ne _ _ hij).symm.trans (hget.trans (Vector.getElem_set_ne _ _ hij))

/-- The new word and the taps give the word that has been replaced. -/
theorem twisted_set_inj {p q : Vector UInt32 poolWords} {i w : UInt32}
    (h : p.set (masked i) (twisted (w ^^^ p.get (masked i) ^^^ taps p i)) =
      q.set (masked i) (twisted (w ^^^ q.get (masked i) ^^^ taps q i))) : p = q := by
  have htaps : taps p i = taps q i := by
    have hset := congrArg (fun r => taps r i) h
    simpa only [taps_set] using hset
  have hword := congrArg (fun r : Vector UInt32 poolWords => r.get (masked i)) h
  have htwisted := twisted_injective
    ((Vector.getElem_set_self _).symm.trans (hword.trans (Vector.getElem_set_self _)))
  rw [htaps, UInt32.xor_left_inj, UInt32.xor_right_inj] at htwisted
  exact set_inj h htwisted

/-- The step lemma. -/
theorem mixOctet_inj (h : Aligned st st') (hpool : (mixOctet st x).pool = (mixOctet st' x).pool) :
    st.pool = st'.pool := by
  have hrot := h.inputRotate
  have hpos := h.poolPos
  obtain ⟨p, rotate, pos⟩ := st
  obtain ⟨q, rotate', pos'⟩ := st'
  dsimp only at hrot hpos
  subst hrot hpos
  exact twisted_set_inj hpool

theorem randomMixPool_inj (h : Aligned st st')
    (hpool : (randomMixPool buf st).pool = (randomMixPool buf st').pool) : st.pool = st'.pool := by
  induction buf generalizing st st' with
  | nil => exact hpool
  | cons x buf ih => exact mixOctet_inj h (ih h.mixOctet hpool)

theorem mixOctet_poolPos (st : Mixer) (x : UInt8) : (mixOctet st x).poolPos < 32 :=
  UInt32.lt_iff_toNat_lt.mpr (and_mask_lt (st.poolPos - 1))

theorem randomMixPool_poolPos (h : st.poolPos < 32) : (randomMixPool buf st).poolPos < 32 := by
  induction buf generalizing st with
  | nil => exact h
  | cons x buf ih => exact ih (mixOctet_poolPos st x)

end Mix

/-- Nothing is lost by the mixing, wherever it starts; and the position stays in the pool, once it is
there. -/
theorem randomMixPool_injective (buf : Bytes) (inputRotate poolPos : UInt32) :
    (Function.Injective fun pool => (randomMixPool buf ⟨pool, inputRotate, poolPos⟩).pool) ∧
      ∀ pool, poolPos < 32 ∨ buf ≠ [] →
        (randomMixPool buf ⟨pool, inputRotate, poolPos⟩).poolPos < 32 := by
  constructor
  · intro p q h
    have haligned : Aligned ⟨p, inputRotate, poolPos⟩ ⟨q, inputRotate, poolPos⟩ := ⟨rfl, rfl⟩
    exact randomMixPool_inj haligned h
  · intro pool hstart
    cases buf with
    | nil =>
      obtain hpos | hnil := hstart
      · exact hpos
      · exact absurd rfl hnil
    | cons x buf =>
      have hrest : (randomMixPool buf (mixOctet ⟨pool, inputRotate, poolPos⟩ x)).poolPos < 32 :=
        randomMixPool_poolPos (mixOctet_poolPos _ x)
      exact hrest

theorem randomMixPool_start :
    (randomMixPool [1, 2, 3] ⟨Vector.replicate 32 0, 0, 0⟩).poolPos < 32 :=
  (randomMixPool_injective [1, 2, 3] 0 0).2 _ (.inl (by decide))

end Wpa.RandomPool
