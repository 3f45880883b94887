import Mathlib.Data.Set.Insert
import Wpa.Lib.Bitmap
import Wpa.Lib.Runs

/-! The block allocator over 32-bit addresses: a pool of blocks of one size, and a bitmap of the
blocks that are allocated. -/

namespace Wpa.BlockAlloc
open Lib

section Abstract

/-- A pool for its users: where its blocks stand and which of them are live. -/
@[ext] structure Blocks where
  head : ℕ
  size : ℕ
  count : ℕ
  live : Set ℕ

inductive BaCall
  | allocate
  | release (alloc : UInt32)
  deriving DecidableEq

inductive BaResult
  | block (ptr : Option ℕ)
  | status (code : ℤ)
  deriving DecidableEq

namespace Blocks

def addr (b : Blocks) (k : ℕ) : ℕ := b.head + b.size * k

/-- What the allocator is for. -/
inductive Step (b : Blocks) : BaCall → BaResult → Blocks → Prop
  | allocated (k : ℕ) (hk : k < b.count) (hfree : k ∉ b.live) :
    Step b .allocate (.block (some (b.addr k))) { b with live := insert k b.live }
  | full (h : ∀ k < b.count, k ∈ b.live) : Step b .allocate (.block none) b
  | released (k : ℕ) (alloc : UInt32) (hk : k ∈ b.live) (halloc : alloc.toNat = b.addr k) :
    Step b (.release alloc) (.status 0) { b with live := b.live \ {k} }
  | refused (alloc : UInt32) (h : ∀ k ∈ b.live, alloc.toNat ≠ b.addr k) :
    Step b (.release alloc) (.status (-1)) b

end Blocks
end Abstract

section Pool

structure PoolInfo where
  head : ℕ
  /-- The memory from the bitmap on, and before it. -/
  bitmap : Words
  maxBlockCount : ℕ
  blockSize : ℕ

/-- What the allocations and the mutex of the platform answer while a pool is created. -/
structure Platform where
  info : Bool
  mutexCreate : Bool
  zalloc : ℕ → Bool
  /-- The memory around the bitmap. -/
  around : Words

/-- A 32-bit value in an `int`. -/
def asInt (n : ℕ) : ℤ := if n < 2 ^ 31 then n else n - 2 ^ 32

/-- The octets of the bitmap, as `os_zalloc` is asked for them. -/
def bitmapBytes (maxBlockCount : ℕ) : ℕ :=
  let allocBytes := asInt ((maxBlockCount + 31) % 2 ^ 32 / 32 * 32)
  (allocBytes / 8 % 2 ^ 32).toNat

def baPoolCreate (os : Platform) (blockSize buf poolSize : ℕ) : Option PoolInfo :=
  if buf = 0 then none
  else if buf % 4 ≠ 0 then none
  else if poolSize % blockSize ≠ 0 then none
  else if !os.info then none
  else if !os.mutexCreate then none
  else
    let maxBlockCount := poolSize / blockSize
    if maxBlockCount = 0 then none
    else
      let size := bitmapBytes maxBlockCount
      if !os.zalloc size then none
      else some
        { head := buf
          bitmap := fun w => if 0 ≤ w ∧ 4 * w < size then 0 else os.around w
          maxBlockCount
          blockSize }

variable (b : PoolInfo)

/-- The loop of `ba_get_free_block` with the words it consults; no round is without a step of 32. -/
def baGetFreeBlockFrom : ℕ → ℕ → Option ℕ × List ℤ
  | 0, _ => (none, [])
  | rounds + 1, i =>
    if i < b.maxBlockCount then
      let blockNum := ffs (~~~b.bitmap (Words.wordOf i))
      if blockNum ≠ 0 then (some (blockNum - 1 + i), [Words.wordOf i])
      else
        let later := baGetFreeBlockFrom rounds (i + 32)
        (later.1, Words.wordOf i :: later.2)
    else (none, [])

def baGetFreeBlock : Option ℕ × List ℤ := baGetFreeBlockFrom b b.maxBlockCount 0

def isBitmapEmptyFrom : ℕ → ℕ → ℤ → Bool
  | 0, _, _ => true
  | rounds + 1, i, word =>
    if i < b.maxBlockCount then
      if b.bitmap word ≠ 0#32 then false else isBitmapEmptyFrom rounds (i + 32) (word + 1)
    else true

def isBitmapEmpty : Bool := isBitmapEmptyFrom b b.maxBlockCount 0 0

/-- The status of `ba_pool_delete`. -/
def baPoolDelete (lock : Bool) : ℤ := if isBitmapEmpty b then if !lock then -1 else 0 else -1

/-- The new pool, the pointer and the words consulted. -/
def baBlockAllocate (lock : Bool) : PoolInfo × Option ℕ × List ℤ :=
  if !lock then (b, none, [])
  else
    match baGetFreeBlock b with
    | (none, consulted) => (b, none, consulted)
    | (some blockNum, consulted) =>
      if b.maxBlockCount ≤ blockNum then (b, none, consulted)
      else ({ b with bitmap := b.bitmap.set blockNum },
        some ((b.head + b.blockSize * blockNum) % 2 ^ 32), consulted ++ [Words.wordOf blockNum])

def baBlockRelease (lock : Bool) (alloc : UInt32) : PoolInfo × ℤ × List ℤ :=
  if alloc = 0 ∨ alloc.toNat < b.head then (b, -1, [])
  else
    let diff := alloc.toNat - b.head
    if diff % b.blockSize ≠ 0 then (b, -1, [])
    else
      let diff := asInt (diff / b.blockSize)
      if !lock then (b, -1, [])
      else if !b.bitmap.get diff then (b, -1, [Words.wordOf diff])
      else ({ b with bitmap := b.bitmap.reset diff }, 0, [Words.wordOf diff])

/-- A call with what `OSA_MutexLock` answers to it. -/
structure LockedCall where
  lock : Bool
  call : BaCall
  deriving DecidableEq

structure BaOut where
  result : BaResult
  consulted : List ℤ
  deriving DecidableEq

def baStep (b : PoolInfo) (input : LockedCall) : PoolInfo × List BaOut :=
  match input.call with
  | .allocate =>
    let (b, ptr, consulted) := baBlockAllocate b input.lock
    (b, [⟨.block ptr, consulted⟩])
  | .release alloc =>
    let (b, status, consulted) := baBlockRelease b input.lock alloc
    (b, [⟨.status status, consulted⟩])

end Pool

end Wpa.BlockAlloc
