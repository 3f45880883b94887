import Mathlib.Tactic.Common
import Wpa.Utils.BlockAlloc

/-! Runs of the block allocator: every call does to the blocks what the allocator is for, as long as
no pointer far behind the pool is released. -/

namespace Wpa.BlockAlloc
open Lib Runs

section Formed

/-- The words of the bitmap. -/
def PoolInfo.wordCount (b : PoolInfo) : ℕ := (b.maxBlockCount + 31) / 32

def PoolInfo.blocks (b : PoolInfo) : Blocks where
  head := b.head
  size := b.blockSize
  count := b.maxBlockCount
  live := {k | k < b.maxBlockCount ∧ b.bitmap.get k = true}

/-- A pool inside the address space, with no bit set for a block that it does not have. -/
structure PoolInfo.Formed (b : PoolInfo) : Prop where
  head : 0 < b.head
  size : 0 < b.blockSize
  inside : b.head + b.blockSize * b.maxBlockCount ≤ 2 ^ 32
  words : 32 * b.wordCount < 2 ^ 31
  clear : ∀ k : ℕ, b.maxBlockCount ≤ k → k < 32 * b.wordCount → b.bitmap.get k = false

variable {b : PoolInfo}

theorem count_le (b : PoolInfo) : b.maxBlockCount ≤ 32 * b.wordCount := by
  unfold PoolInfo.wordCount
  omega

theorem addr_lt (hb : b.Formed) {k : ℕ} (hk : k < b.maxBlockCount) :
    b.head + b.blockSize * k < 2 ^ 32 := by
  have hmul := Nat.mul_le_mul_left b.blockSize (Nat.succ_le_of_lt hk)
  rw [Nat.mul_succ] at hmul
  have hinside := hb.inside
  have hsize := hb.size
  omega

theorem addr_injective (hb : b.Formed) {k l : ℕ} (h : b.blocks.addr k = b.blocks.addr l) : k = l :=
  Nat.eq_of_mul_eq_mul_left hb.size (Nat.add_left_cancel h)

end Formed

section FreeBlock
variable {b : PoolInfo}

theorem wordOf_cast {k : ℕ} : Words.wordOf (32 * k : ℕ) = k := by
  unfold Words.wordOf
  omega

/-- All bits from a block on are set, up to the one that was found or the last block. -/
def FirstFree (b : PoolInfo) (start : ℕ) : Option ℕ → Prop
  | none => ∀ j, start ≤ j → j < b.maxBlockCount → b.bitmap.get j = true
  | some r => r < 32 * b.wordCount ∧ b.bitmap.get r = false ∧
    ∀ j, start ≤ j → j < r → b.bitmap.get j = true

/-- The words that a loop may consult. -/
def InBitmap (b : PoolInfo) (consulted : List ℤ) : Prop :=
  ∀ w ∈ consulted, 0 ≤ w ∧ w < b.wordCount

/-- A bit of the word that the loop stands at, as the loop tests it. -/
theorem get_of_word {k j : ℕ} (hj : 32 * k ≤ j) (hlt : j < 32 * k + 32) :
    b.bitmap.get j = !(~~~b.bitmap k).getLsbD (j - 32 * k) := by
  have hplace : j - 32 * k < 32 := by omega
  have hword := Words.get_word b.bitmap k hplace
  have hcast : 32 * (k : ℤ) + ((j - 32 * k : ℕ) : ℤ) = j := by omega
  rw [hcast] at hword
  rw [hword, BitVec.getLsbD_not, decide_eq_true hplace, Bool.true_and, Bool.not_not]

/-- The loop stands at the start of a word and finds the first clear bit from there on. -/
theorem baGetFreeBlockFrom_spec (b : PoolInfo) (rounds k : ℕ)
    (hrounds : b.maxBlockCount ≤ 32 * (k + rounds)) :
    InBitmap b (baGetFreeBlockFrom b rounds (32 * k)).2 ∧
      FirstFree b (32 * k) (baGetFreeBlockFrom b rounds (32 * k)).1 := by
  induction rounds generalizing k with
  | zero =>
    constructor
    · intro w hw
      cases hw
    · intro j hj hlt
      omega
  | succ rounds ih =>
    rw [baGetFreeBlockFrom]
    by_cases hmore : 32 * k < b.maxBlockCount
    · have hconsulted : (0 : ℤ) ≤ k ∧ (k : ℤ) < b.wordCount := by
        unfold PoolInfo.wordCount
        omega
      rw [if_pos hmore, wordOf_cast]
      by_cases hfull : ~~~b.bitmap k = 0#32
      · -- every bit of the word is set
        have hset {j : ℕ} (hj : 32 * k ≤ j) (hlt : j < 32 * k + 32) : b.bitmap.get j = true := by
          rw [get_of_word hj hlt, hfull, BitVec.getLsbD_zero, Bool.not_false]
        obtain ⟨hlater, hfirst⟩ := ih (k + 1) (by omega)
        rw [Nat.mul_succ] at hlater hfirst
        simp only [hfull, ffs_zero, ne_eq, not_true_eq_false, if_false]
        constructor
        · intro w hw
          rcases List.mem_cons.mp hw with rfl | hw
          · exact hconsulted
          · exact hlater w hw
        · revert hfirst
          cases (baGetFreeBlockFrom b rounds (32 * k + 32)).1 with
          | none =>
            intro hfirst j hj hlt
            by_cases hhere : j < 32 * k + 32
            · exact hset hj hhere
            · exact hfirst j (Nat.not_lt.mp hhere) hlt
          | some r =>
            rintro ⟨hr, hclear, hfirst⟩
            refine ⟨hr, hclear, fun j hj hlt => ?_⟩
            by_cases hhere : j < 32 * k + 32
            · exact hset hj hhere
            · exact hfirst j (Nat.not_lt.mp hhere) hlt
      · obtain ⟨place, hplace, hffs, hset, hlower⟩ := ffs_spec hfull
        have hne : ffs (~~~b.bitmap k) ≠ 0 := by omega
        have hfound : ffs (~~~b.bitmap k) - 1 + 32 * k = 32 * k + place := by omega
        rw [if_pos hne, hfound]
        constructor
        · intro w hw
          rw [List.mem_singleton.mp hw]
          exact hconsulted
        · refine ⟨by omega, ?_, ?_⟩
          · rw [get_of_word (k := k) (by omega) (by omega), Nat.add_sub_cancel_left, hset,
              Bool.not_true]
          · intro j hj hlt
            rw [get_of_word hj (by omega), hlower (j - 32 * k) (by omega), Bool.not_false]
    · rw [if_neg hmore]
      constructor
      · intro w hw
        cases hw
      · intro j hj hlt
        omega

theorem baGetFreeBlock_spec (b : PoolInfo) :
    InBitmap b (baGetFreeBlock b).2 ∧ FirstFree b 0 (baGetFreeBlock b).1 :=
  baGetFreeBlockFrom_spec b b.maxBlockCount 0 (by omega)

end FreeBlock

section Empty
variable {b : PoolInfo}

theorem isBitmapEmptyFrom_iff (b : PoolInfo) (rounds k : ℕ)
    (hrounds : b.maxBlockCount ≤ 32 * (k + rounds)) :
    isBitmapEmptyFrom b rounds (32 * k) k = true ↔
      ∀ j, 32 * k ≤ j → j < 32 * b.wordCount → b.bitmap.get j = false := by
  induction rounds generalizing k with
  | zero =>
    refine iff_of_true rfl fun j hj hlt => ?_
    unfold PoolInfo.wordCount at hlt
    omega
  | succ rounds ih =>
    rw [isBitmapEmptyFrom]
    by_cases hmore : 32 * k < b.maxBlockCount
    · have hinside : 32 * k + 32 ≤ 32 * b.wordCount := by
        unfold PoolInfo.wordCount
        omega
      have ih := ih (k + 1) (by omega)
      rw [Nat.mul_succ, Nat.cast_succ] at ih
      rw [if_pos hmore]
      by_cases hzero : b.bitmap k = 0#32
      · rw [if_neg (not_not.mpr hzero), ih]
        constructor
        · intro h j hj hlt
          by_cases hhere : j < 32 * k + 32
          · rw [get_of_word hj hhere, BitVec.getLsbD_not, hzero, BitVec.getLsbD_zero,
              decide_eq_true (by omega), Bool.not_false, Bool.true_and, Bool.not_true]
          · exact h j (Nat.not_lt.mp hhere) hlt
        · intro h j hj hlt
          exact h j (by omega) hlt
      · rw [if_pos hzero]
        refine iff_of_false Bool.false_ne_true fun h => hzero ?_
        apply BitVec.eq_of_getLsbD_eq
        intro place hplace
        have hword := Words.get_word b.bitmap k hplace
        have hcast : 32 * (k : ℤ) + (place : ℤ) = ((32 * k + place : ℕ) : ℤ) := by omega
        rw [hcast, h (32 * k + place) (by omega) (by omega)] at hword
        rw [← hword, BitVec.getLsbD_zero]
    · rw [if_neg hmore]
      refine iff_of_true rfl fun j hj hlt => ?_
      unfold PoolInfo.wordCount at hlt
      omega

/-- A pool can be deleted exactly when no block of it is live. -/
theorem baPoolDelete_iff (hb : b.Formed) : baPoolDelete b true = 0 ↔ b.blocks.live = ∅ := by
  have hempty : isBitmapEmpty b = true ↔ ∀ j, j < 32 * b.wordCount → b.bitmap.get j = false := by
    have hall := isBitmapEmptyFrom_iff b b.maxBlockCount 0 (by omega)
    simp only [Nat.mul_zero, Nat.zero_le, forall_const] at hall
    exact hall
  have hdelete : baPoolDelete b true = 0 ↔ isBitmapEmpty b = true := by
    unfold baPoolDelete
    cases isBitmapEmpty b <;> simp
  rw [hdelete, hempty, Set.eq_empty_iff_forall_notMem]
  constructor
  · rintro h k ⟨hk, hset⟩
    rw [h k (hk.trans_le (count_le b))] at hset
    cases hset
  · intro h j hj
    by_cases hk : j < b.maxBlockCount
    · exact eq_false_of_ne_true fun hset => h j ⟨hk, hset⟩
    · exact hb.clear j (Nat.not_lt.mp hk) hj

end Empty

section Steps
variable {b : PoolInfo}

/-- The call did what the allocator is for and consulted only words of the bitmap. -/
structure Served (b : PoolInfo) (call : BaCall) (b' : PoolInfo) (result : BaResult)
    (consulted : List ℤ) : Prop where
  step : b.blocks.Step call result b'.blocks
  inBitmap : InBitmap b consulted

/-- The pool is the same one. -/
structure SamePool (b b' : PoolInfo) : Prop where
  head : b'.head = b.head
  size : b'.blockSize = b.blockSize
  count : b'.maxBlockCount = b.maxBlockCount

theorem SamePool.refl (b : PoolInfo) : SamePool b b := ⟨rfl, rfl, rfl⟩

theorem inBitmap_wordOf {k : ℕ} (hk : k < 32 * b.wordCount) : InBitmap b [Words.wordOf k] := by
  intro w hw
  rw [List.mem_singleton.mp hw]
  unfold Words.wordOf
  omega

theorem live_set {k : ℕ} (hk : k < b.maxBlockCount) :
    { b with bitmap := b.bitmap.set k }.blocks =
      { b.blocks with live := insert k b.blocks.live } := by
  refine Blocks.ext (by rfl) (by rfl) (by rfl) ?_
  apply Set.ext
  intro j
  show j < b.maxBlockCount ∧ (b.bitmap.set k).get j = true ↔
    j = k ∨ j < b.maxBlockCount ∧ b.bitmap.get j = true
  rw [Words.get_set, Bool.or_eq_true, decide_eq_true_eq, Nat.cast_inj]
  constructor
  · rintro ⟨hj, rfl | hset⟩
    · exact .inl rfl
    · exact .inr ⟨hj, hset⟩
  · rintro (rfl | ⟨hj, hset⟩)
    · exact ⟨hk, .inl rfl⟩
    · exact ⟨hj, .inr hset⟩

theorem live_reset (b : PoolInfo) (k : ℕ) :
    { b with bitmap := b.bitmap.reset k }.blocks =
      { b.blocks with live := b.blocks.live \ {k} } := by
  refine Blocks.ext (by rfl) (by rfl) (by rfl) ?_
  apply Set.ext
  intro j
  show j < b.maxBlockCount ∧ (b.bitmap.reset k).get j = true ↔
    (j < b.maxBlockCount ∧ b.bitmap.get j = true) ∧ j ≠ k
  rw [Words.get_reset, Bool.and_eq_true, Bool.not_eq_true', decide_eq_false_iff_not, ne_eq,
    Nat.cast_inj]
  tauto

theorem Formed.set (hb : b.Formed) {k : ℕ} (hk : k < b.maxBlockCount) :
    { b with bitmap := b.bitmap.set k }.Formed where
  head := hb.head
  size := hb.size
  inside := hb.inside
  words := hb.words
  clear j hj hlt := by
    show (b.bitmap.set k).get j = false
    have hne : (j : ℤ) ≠ k := by
      have hj : b.maxBlockCount ≤ j := hj
      omega
    rw [Words.get_set, decide_eq_false hne, Bool.false_or]
    exact hb.clear j hj hlt

theorem Formed.reset (hb : b.Formed) (i : ℤ) :
    { b with bitmap := b.bitmap.reset i }.Formed where
  head := hb.head
  size := hb.size
  inside := hb.inside
  words := hb.words
  clear j hj hlt := by
    show (b.bitmap.reset i).get j = false
    rw [Words.get_reset, hb.clear j hj hlt, Bool.and_false]

/-- Allocation finds a free block wherever there is one, in any word. -/
theorem baBlockAllocate_served (hb : b.Formed) :
    (baBlockAllocate b true).1.Formed ∧ SamePool b (baBlockAllocate b true).1 ∧
      Served b .allocate (baBlockAllocate b true).1 (.block (baBlockAllocate b true).2.1)
        (baBlockAllocate b true).2.2 := by
  obtain ⟨hconsulted, hfirst⟩ := baGetFreeBlock_spec b
  have hfull (h : ∀ j < b.maxBlockCount, b.bitmap.get j = true) :
      b.blocks.Step .allocate (.block none) b.blocks :=
    .full fun k hk => ⟨hk, h k hk⟩
  unfold baBlockAllocate
  rw [if_neg (by decide)]
  cases hget : baGetFreeBlock b with
  | mk found consulted =>
    rw [hget] at hconsulted hfirst
    cases found with
    | none =>
      refine ⟨hb, SamePool.refl b, hfull fun j hj => hfirst j (Nat.zero_le j) hj, hconsulted⟩
    | some r =>
      obtain ⟨hr, hclear, hlower⟩ := hfirst
      simp only
      by_cases hlast : b.maxBlockCount ≤ r
      · -- the free bit is behind the last block
        rw [if_pos hlast]
        exact ⟨hb, SamePool.refl b, hfull fun j hj => hlower j (Nat.zero_le j) (hj.trans_le hlast),
          hconsulted⟩
      · have hk : r < b.maxBlockCount := Nat.not_le.mp hlast
        have hfree : r ∉ b.blocks.live := by
          rintro ⟨-, hset⟩
          rw [hclear] at hset
          cases hset
        rw [if_neg hlast, Nat.mod_eq_of_lt (addr_lt hb hk)]
        refine ⟨Formed.set hb hk, ⟨rfl, rfl, rfl⟩, ?_, ?_⟩
        · show b.blocks.Step _ _ { b with bitmap := b.bitmap.set r }.blocks
          rw [live_set hk]
          exact .allocated r hk hfree
        · intro w hw
          rcases List.mem_append.mp hw with hw | hw
          · exact hconsulted w hw
          · exact inBitmap_wordOf hr w hw

/-- The pointer is refused at once, or its bit is in the bitmap. -/
def ReleasesInside (b : PoolInfo) : BaCall → Prop
  | .allocate => True
  | .release alloc => alloc.toNat < b.head ∨ (alloc.toNat - b.head) % b.blockSize ≠ 0 ∨
    (alloc.toNat - b.head) / b.blockSize < 32 * b.wordCount

theorem asInt_of_lt {n : ℕ} (h : n < 2 ^ 31) : asInt n = n := if_pos h

/-- No `int` but the index itself names a bit of the bitmap. -/
theorem asInt_outside {n : ℕ} (hn : n < 2 ^ 32) (h : 32 * b.wordCount ≤ n) :
    ¬InBitmap b [Words.wordOf (asInt n)] := by
  intro hin
  have hword := hin _ (List.mem_singleton_self _)
  unfold Words.wordOf asInt at hword
  split at hword <;> omega

theorem baBlockRelease_formed (hb : b.Formed) (lock : Bool) (alloc : UInt32) :
    (baBlockRelease b lock alloc).1.Formed ∧ SamePool b (baBlockRelease b lock alloc).1 := by
  unfold baBlockRelease
  split
  · exact ⟨hb, SamePool.refl b⟩
  · simp only
    split
    · exact ⟨hb, SamePool.refl b⟩
    · split
      · exact ⟨hb, SamePool.refl b⟩
      · split
        · exact ⟨hb, SamePool.refl b⟩
        · exact ⟨Formed.reset hb _, rfl, rfl, rfl⟩

/-- A pointer that the first checks refuse is not the start of a block. -/
theorem refused_of_checks (hb : b.Formed) {alloc : UInt32}
    (h : (alloc = 0 ∨ alloc.toNat < b.head) ∨ (alloc.toNat - b.head) % b.blockSize ≠ 0) :
    b.blocks.Step (.release alloc) (.status (-1)) b.blocks := by
  apply Blocks.Step.refused
  rintro k - halloc
  have haddr : alloc.toNat = b.head + b.blockSize * k := halloc
  have hhead := hb.head
  rcases h with (rfl | hlow) | hmod
  · rw [UInt32.toNat_zero] at haddr
    omega
  · omega
  · rw [haddr, Nat.add_sub_cancel_left, Nat.mul_mod_right] at hmod
    exact hmod rfl

theorem baBlockRelease_served_iff (hb : b.Formed) (alloc : UInt32) :
    Served b (.release alloc) (baBlockRelease b true alloc).1
      (.status (baBlockRelease b true alloc).2.1) (baBlockRelease b true alloc).2.2 ↔
    ReleasesInside b (.release alloc) := by
  have hnone : InBitmap b [] := fun w hw => by cases hw
  unfold baBlockRelease ReleasesInside
  by_cases hlow : alloc = 0 ∨ alloc.toNat < b.head
  · rw [if_pos hlow]
    have hinside : alloc.toNat < b.head := by
      rcases hlow with rfl | hlow
      · exact hb.head
      · exact hlow
    exact iff_of_true ⟨refused_of_checks hb (.inl hlow), hnone⟩ (.inl hinside)
  · rw [if_neg hlow]
    simp only
    by_cases hmod : (alloc.toNat - b.head) % b.blockSize ≠ 0
    · rw [if_pos hmod]
      exact iff_of_true ⟨refused_of_checks hb (.inr hmod), hnone⟩ (.inr (.inl hmod))
    · rw [if_neg hmod, if_neg (by decide)]
      have hge : b.head ≤ alloc.toNat := Nat.not_lt.mp fun h => hlow (.inr h)
      have haddr : alloc.toNat =
          b.blocks.addr ((alloc.toNat - b.head) / b.blockSize) := by
        show _ = b.head + b.blockSize * _
        rw [Nat.mul_div_cancel' (Nat.dvd_of_mod_eq_zero (not_not.mp hmod))]
        omega
      have hlt : (alloc.toNat - b.head) / b.blockSize < 2 ^ 32 :=
        (Nat.div_le_self _ _).trans_lt ((Nat.sub_le _ _).trans_lt alloc.toNat_lt)
      generalize (alloc.toNat - b.head) / b.blockSize = k at haddr hlt ⊢
      by_cases hin : k < 32 * b.wordCount
      · refine iff_of_true ?_ (.inr (.inr hin))
        rw [asInt_of_lt (hin.trans hb.words)]
        by_cases hset : b.bitmap.get k = true
        · have hk : k < b.maxBlockCount := by
            by_contra hk
            rw [hb.clear k (Nat.not_lt.mp hk) hin] at hset
            cases hset
          rw [hset, if_neg (by decide)]
          constructor
          · show b.blocks.Step _ _ { b with bitmap := b.bitmap.reset k }.blocks
            rw [live_reset]
            exact .released k alloc ⟨hk, hset⟩ haddr
          · exact inBitmap_wordOf hin
        · rw [eq_false_of_ne_true hset, if_pos (by decide)]
          refine ⟨.refused alloc ?_, inBitmap_wordOf hin⟩
          rintro j ⟨-, hj⟩ halloc
          exact hset (addr_injective hb (haddr.symm.trans halloc) ▸ hj)
      · -- the bit is in some other memory
        refine iff_of_false (fun hserved => ?_) ?_
        · have hout := asInt_outside hlt (Nat.not_lt.mp hin)
          apply hout
          have hconsulted := hserved.inBitmap
          split at hconsulted
          · exact hconsulted
          · exact hconsulted
        · rintro (h | h | h)
          · exact hlow (.inr h)
          · exact hmod h
          · exact hin h

end Steps

section Create
variable {os : Platform} {blockSize buf poolSize : ℕ} {pool : PoolInfo}

/-- An allocation is not empty and has its place beside the pool. -/
def Platform.Sound (os : Platform) (poolSize : ℕ) : Prop :=
  ∀ size, os.zalloc size = true → 0 < size ∧ size + poolSize ≤ 2 ^ 32

/-- The size that is asked for is that of all words, or nothing that can be had. -/
theorem bitmapBytes_eq {n : ℕ} (hn : n ≤ poolSize) (hpool : poolSize < 2 ^ 32)
    (hpos : 0 < bitmapBytes n) (hroom : bitmapBytes n + poolSize ≤ 2 ^ 32) :
    bitmapBytes n = 4 * ((n + 31) / 32) ∧ 32 * ((n + 31) / 32) < 2 ^ 31 := by
  unfold bitmapBytes asInt at *
  simp only at hpos hroom ⊢
  split at hroom <;> omega

theorem baPoolCreate_eq_some (h : baPoolCreate os blockSize buf poolSize = some pool) :
    buf ≠ 0 ∧ poolSize % blockSize = 0 ∧ poolSize / blockSize ≠ 0 ∧
      os.zalloc (bitmapBytes (poolSize / blockSize)) = true ∧
      pool = ⟨buf, fun w => if 0 ≤ w ∧ 4 * w < bitmapBytes (poolSize / blockSize) then 0
        else os.around w, poolSize / blockSize, blockSize⟩ := by
  unfold baPoolCreate at h
  simp only at h
  split at h
  · cases h
  next hbuf =>
  split at h
  · cases h
  split at h
  · cases h
  next hmod =>
  split at h
  · cases h
  split at h
  · cases h
  split at h
  · cases h
  next hcount =>
  split at h
  · cases h
  next hzalloc =>
  refine ⟨hbuf, not_not.mp hmod, hcount, ?_, (Option.some.inj h).symm⟩
  revert hzalloc
  cases os.zalloc (bitmapBytes (poolSize / blockSize)) <;> decide

/-- A pool that is created has no live block. -/
theorem baPoolCreate_formed (hos : os.Sound poolSize) (hsize : 0 < blockSize)
    (hbuf : buf + poolSize ≤ 2 ^ 32) (h : baPoolCreate os blockSize buf poolSize = some pool) :
    pool.Formed ∧ pool.blocks = ⟨buf, blockSize, poolSize / blockSize, ∅⟩ ∧
      0 < poolSize / blockSize := by
  obtain ⟨hpos, hmod, hcount, hzalloc, rfl⟩ := baPoolCreate_eq_some h
  have hprod : blockSize * (poolSize / blockSize) = poolSize :=
    Nat.mul_div_cancel' (Nat.dvd_of_mod_eq_zero hmod)
  have hbytes := bitmapBytes_eq (Nat.div_le_self poolSize blockSize) (by omega)
    (hos _ hzalloc).1 (hos _ hzalloc).2
  generalize poolSize / blockSize = n at hcount hprod hbytes ⊢
  rw [hbytes.1]
  have hclear (k : ℕ) (hk : k < 32 * ((n + 31) / 32)) : Words.get
      (fun w => if 0 ≤ w ∧ 4 * w < (4 * ((n + 31) / 32) : ℕ) then 0 else os.around w) k = false := by
    have hword : 0 ≤ Words.wordOf k ∧ 4 * Words.wordOf k < (4 * ((n + 31) / 32) : ℕ) := by
      unfold Words.wordOf
      omega
    rw [Words.get_eq, if_pos hword]
    exact BitVec.getLsbD_zero
  refine ⟨⟨Nat.pos_of_ne_zero hpos, hsize, ?_, hbytes.2, fun k _ hk => hclear k hk⟩, ?_,
    Nat.pos_of_ne_zero hcount⟩
  · show buf + blockSize * n ≤ 2 ^ 32
    rw [hprod]
    exact hbuf
  · refine Blocks.ext (by rfl) (by rfl) (by rfl) ?_
    apply Set.eq_empty_of_forall_notMem
    rintro k ⟨hk, hset⟩
    have hlt : k < 32 * ((n + 31) / 32) := by
      have hk : k < n := hk
      omega
    have hset := hset.symm.trans (hclear k hlt)
    cases hset

end Create

section Runs

abbrev BaEvent := Event PoolInfo LockedCall BaOut

/-- The event did what the allocator is for and consulted only words of the bitmap. -/
def Good (t : BaEvent) : Prop :=
  ∃ out, t.out = [out] ∧ Served t.pre t.input.call t.post out.result out.consulted

variable {b pool : PoolInfo}

theorem baStep_formed (hb : b.Formed) (input : LockedCall) :
    (baStep b input).1.Formed ∧ SamePool b (baStep b input).1 := by
  obtain ⟨lock, call⟩ := input
  cases call with
  | allocate =>
    cases lock with
    | false => exact ⟨hb, SamePool.refl b⟩
    | true => exact ⟨(baBlockAllocate_served hb).1, (baBlockAllocate_served hb).2.1⟩
  | release alloc => exact baBlockRelease_formed hb lock alloc

theorem SamePool.trans {b' : PoolInfo} (h : SamePool pool b) (h' : SamePool b b') :
    SamePool pool b' :=
  ⟨h'.head.trans h.head, h'.size.trans h.size, h'.count.trans h.count⟩

theorem good_iff (hb : b.Formed) {input : LockedCall} (hlock : input.lock = true) :
    Good (event baStep b input) ↔ ReleasesInside b input.call := by
  obtain ⟨lock, call⟩ := input
  obtain rfl : lock = true := hlock
  cases call with
  | allocate => exact iff_of_true ⟨_, rfl, (baBlockAllocate_served hb).2.2⟩ trivial
  | release alloc =>
    rw [← baBlockRelease_served_iff hb alloc]
    constructor
    · rintro ⟨out, hout, hserved⟩
      obtain rfl := List.singleton_inj.mp hout
      exact hserved
    · intro hserved
      exact ⟨_, rfl, hserved⟩

theorem ReleasesInside.congr (h : SamePool pool b) (call : BaCall) :
    ReleasesInside b call ↔ ReleasesInside pool call := by
  cases call with
  | allocate => exact Iff.rfl
  | release alloc =>
    unfold ReleasesInside PoolInfo.wordCount
    rw [h.head, h.size, h.count]

/-- What every state of a run is. -/
theorem final_formed (hpool : pool.Formed) (calls : List LockedCall) :
    (final baStep pool calls).Formed := by
  induction calls generalizing pool with
  | nil => exact hpool
  | cons c calls ih => exact ih (baStep_formed hpool c).1

/-- The calls of a run that get the lock. -/
theorem all_served_iff (hpool : pool.Formed) (calls : List LockedCall)
    (hlocks : ∀ c ∈ calls, c.lock = true) :
    (∀ t ∈ trace baStep pool calls, Good t) ↔ ∀ c ∈ calls, ReleasesInside pool c.call := by
  have hrun := @all_good_iff _ _ _ baStep (fun b => b.Formed ∧ SamePool pool b)
    (fun t => t.input.lock = true → Good t)
    (fun _ c => c.lock = true → ReleasesInside pool c.call)
    (fun b c hb => forall_congr' fun hlock =>
      (good_iff hb.1 hlock).trans (ReleasesInside.congr hb.2 c.call))
    (fun b c hb _ => ⟨(baStep_formed hb.1 c).1, hb.2.trans (baStep_formed hb.1 c).2⟩)
    pool ⟨hpool, SamePool.refl pool⟩ calls
  have hinput : ∀ t ∈ trace baStep pool calls, t.input ∈ calls := by
    intro t ht
    have hmap := List.mem_map_of_mem (f := Event.input) ht
    rwa [map_input_trace] at hmap
  constructor
  · intro h c hc
    obtain ⟨t, ht, rfl⟩ : ∃ t ∈ trace baStep pool calls, t.input = c := by
      have hmap : c ∈ (trace baStep pool calls).map Event.input := by
        rw [map_input_trace]
        exact hc
      exact List.mem_map.mp hmap
    exact hrun.mp (fun t ht _ => h t ht) t ht (hlocks _ hc)
  · intro h t ht
    exact hrun.mpr (fun t ht _ => h _ (hinput t ht)) t ht (hlocks _ (hinput t ht))

/-- From a new pool, where every lock is got: all calls of a run are served exactly when no pointer
is released that the first checks let pass and whose bit is not in the bitmap; and whatever was
released, the pool can be deleted exactly when no block is live. -/
theorem blocks_iff (os : Platform) (blockSize buf poolSize : ℕ) (hos : os.Sound poolSize)
    (hsize : 0 < blockSize) (hbuf : buf + poolSize ≤ 2 ^ 32) (pool : PoolInfo)
    (hpool : baPoolCreate os blockSize buf poolSize = some pool) (calls : List LockedCall)
    (hlocks : ∀ c ∈ calls, c.lock = true) :
    (pool.blocks = ⟨buf, blockSize, poolSize / blockSize, ∅⟩ ∧ 0 < poolSize / blockSize) ∧
    ((∀ t ∈ trace baStep pool calls, Good t) ↔ ∀ c ∈ calls, ReleasesInside pool c.call) ∧
    (baPoolDelete (final baStep pool calls) true = 0 ↔
      (final baStep pool calls).blocks.live = ∅) := by
  obtain ⟨hformed, hblocks, hcount⟩ := baPoolCreate_formed hos hsize hbuf hpool
  refine ⟨⟨hblocks, hcount⟩, ?_, baPoolDelete_iff (final_formed hformed calls)⟩
  exact all_served_iff hformed calls hlocks

/-- Memory for the bitmap of one block, between words that are all ones. -/
def roomForOne : Platform where
  info := true
  mutexCreate := true
  zalloc size := decide (0 < size ∧ size ≤ 4)
  around _ := BitVec.allOnes 32

/-- The pool of one block of four octets at 4096. -/
def oneBlock : PoolInfo where
  head := 4096
  bitmap w := if 0 ≤ w ∧ 4 * w < (4 : ℕ) then 0 else BitVec.allOnes 32
  maxBlockCount := 1
  blockSize := 4

/-- The pool is allocated from until it is full, and the block is released twice. -/
def fullPool : List LockedCall :=
  [⟨true, .allocate⟩, ⟨true, .allocate⟩, ⟨true, .release 4096⟩, ⟨true, .release 4096⟩]

theorem oneBlock_served :
    (∀ t ∈ trace baStep oneBlock fullPool, Good t) ∧
      (final baStep oneBlock fullPool).blocks.live = ∅ := by
  have hiff := blocks_iff roomForOne 4 4096 4 (by
    intro size hsize
    have hroom : 0 < size ∧ size ≤ 4 := of_decide_eq_true hsize
    omega) (by decide) (by decide) oneBlock rfl fullPool (by decide)
  refine ⟨hiff.2.1.mpr ?_, hiff.2.2.mp (by decide)⟩
  intro c hc
  simp only [fullPool, List.mem_cons, List.not_mem_nil, or_false] at hc
  rcases hc with rfl | rfl | rfl | rfl
  · trivial
  · trivial
  · exact .inr (.inr (by decide))
  · exact .inr (.inr (by decide))

/-- The word behind the bitmap is taken for a block, and cleared. -/
theorem release_behind :
    ¬∀ (os : Platform) (blockSize buf poolSize : ℕ), os.Sound poolSize → 0 < blockSize →
      buf + poolSize ≤ 2 ^ 32 → ∀ pool, baPoolCreate os blockSize buf poolSize = some pool →
        ∀ calls : List LockedCall, (∀ c ∈ calls, c.lock = true) →
          ∀ t ∈ trace baStep pool calls, Good t := by
  intro h
  have hgood := h roomForOne 4 4096 4 (by
    intro size hsize
    have hroom : 0 < size ∧ size ≤ 4 := of_decide_eq_true hsize
    omega) (by decide) (by decide) oneBlock rfl [⟨true, .release 4224⟩] (by decide)
    _ (List.mem_singleton_self _)
  obtain ⟨out, hout, hserved⟩ := hgood
  have hevent : (event baStep oneBlock ⟨true, .release 4224⟩).out = [⟨.status 0, [1]⟩] := by
    decide
  have hword : (1 : ℤ) ∈ out.consulted := by
    rw [List.singleton_inj.mp (hout.symm.trans hevent)]
    exact List.mem_singleton_self 1
  exact absurd (hserved.inBitmap 1 hword).2 (by decide)

end Runs

end Wpa.BlockAlloc
