import Mathlib.Data.Int.ModEq
import Mathlib.Data.List.Basic

/-! A queue in an array of `n` cells: elements are written at the tail and read at the head, both
indices move modulo `n`, and one cell stays free so that equal indices mean an empty queue. -/

namespace Lib

structure RingQueue (α : Type) where
  cells : List (Option α)
  head : ℕ
  tail : ℕ

namespace RingQueue
variable {α : Type} (n : ℕ)

/-- All cells are null and both indices at the first. -/
def empty : RingQueue α := ⟨List.replicate n none, 0, 0⟩

variable (r : RingQueue α)

def isFull : Bool := (r.tail + 1) % n == r.head

def isEmpty : Bool := r.head == r.tail

def push (x : α) : RingQueue α :=
  { r with cells := r.cells.set r.tail (some x), tail := (r.tail + 1) % n }

/-- The cell at the head; a read outside the array and a null cell both answer `none`. -/
def front : Option α := (r.cells[r.head]?).join

def pop : RingQueue α := { r with head := (r.head + 1) % n }

/-- The array holds the elements of `q` from the head on, up to the tail. -/
structure Holds (q : List α) : Prop where
  length : r.cells.length = n
  head_lt : r.head < n
  room : q.length < n
  tail_eq : r.tail = (r.head + q.length) % n
  cell : ∀ i x, q[i]? = some x → r.cells[(r.head + i) % n]? = some (some x)

variable {n r} {q : List α} {x : α}

theorem mod_ne {h i k : ℕ} (hik : i < k) (hk : k < n) : (h + i) % n ≠ (h + k) % n := by
  intro heq
  have hcancel : i ≡ k [MOD n] := Nat.ModEq.add_left_cancel' h heq
  exact hik.ne (hcancel.eq_of_lt_of_lt (hik.trans hk) hk)

theorem holds_empty (hn : 0 < n) : Holds n (empty n : RingQueue α) [] where
  length := List.length_replicate
  head_lt := hn
  room := hn
  tail_eq := (Nat.zero_mod n).symm
  cell i x h := by cases h

namespace Holds
variable (h : Holds n r q)
include h

theorem tail_lt : r.tail < n := by
  rw [h.tail_eq]
  exact Nat.mod_lt _ (Nat.zero_lt_of_lt h.head_lt)

theorem isEmpty_iff : r.isEmpty = true ↔ q = [] := by
  have hfirst : r.head % n = r.head := Nat.mod_eq_of_lt h.head_lt
  rw [isEmpty, beq_iff_eq, h.tail_eq, ← List.length_eq_zero_iff]
  constructor
  · intro heq
    by_contra hne
    have := mod_ne (h := r.head) (Nat.pos_of_ne_zero hne) h.room
    rw [Nat.add_zero, hfirst] at this
    exact this heq
  · intro hzero
    rw [hzero, Nat.add_zero, hfirst]

/-- The room is used up exactly if the elements fill all cells but one. -/
theorem isFull_iff : isFull n r = true ↔ q.length + 1 = n := by
  have hfirst : r.head % n = r.head := Nat.mod_eq_of_lt h.head_lt
  have hnext : (r.tail + 1) % n = (r.head + (q.length + 1)) % n := by
    rw [h.tail_eq, Nat.mod_add_mod, Nat.add_assoc]
  rw [isFull, beq_iff_eq, hnext]
  constructor
  · intro heq
    by_contra hne
    have hlt : q.length + 1 < n := lt_of_le_of_ne h.room hne
    have := mod_ne (h := r.head) (Nat.succ_pos q.length) hlt
    rw [Nat.add_zero, hfirst] at this
    exact this heq.symm
  · intro hall
    rw [hall, Nat.add_mod_right, hfirst]

theorem push (hroom : q.length + 1 < n) : Holds n (r.push n x) (q ++ [x]) where
  length := by rw [RingQueue.push, List.length_set, h.length]
  head_lt := h.head_lt
  room := by rwa [List.length_append, List.length_singleton]
  tail_eq := by
    change (r.tail + 1) % n = (r.head + (q ++ [x]).length) % n
    rw [h.tail_eq, Nat.mod_add_mod, List.length_append, List.length_singleton, Nat.add_assoc]
  cell i y hy := by
    change (r.cells.set r.tail (some x))[(r.head + i) % n]? = some (some y)
    rcases Nat.lt_trichotomy i q.length with hi | rfl | hi
    · rw [List.getElem?_append_left hi] at hy
      have hother : r.tail ≠ (r.head + i) % n := by
        rw [h.tail_eq]
        exact (mod_ne hi h.room).symm
      rw [List.getElem?_set_ne hother]
      exact h.cell i y hy
    · rw [List.getElem?_concat_length, Option.some_inj] at hy
      rw [← h.tail_eq, List.getElem?_set_self (by rw [h.length]; exact h.tail_lt), hy]
    · rw [List.getElem?_eq_none (by rw [List.length_append, List.length_singleton]; omega)] at hy
      cases hy

end Holds

theorem Holds.front (h : Holds n r (x :: q)) : r.front = some x := by
  have hcell := h.cell 0 x rfl
  rw [Nat.add_zero, Nat.mod_eq_of_lt h.head_lt] at hcell
  rw [RingQueue.front, hcell]
  rfl

theorem Holds.pop (h : Holds n r (x :: q)) : Holds n (r.pop n) q where
  length := h.length
  head_lt := Nat.mod_lt _ (Nat.zero_lt_of_lt h.head_lt)
  room := Nat.lt_of_succ_lt h.room
  tail_eq := by
    change r.tail = ((r.head + 1) % n + q.length) % n
    rw [h.tail_eq, Nat.mod_add_mod, List.length_cons]
    congr 1
    omega
  cell i y hy := by
    change r.cells[((r.head + 1) % n + i) % n]? = some (some y)
    have hcell := h.cell (i + 1) y (by simpa using hy)
    rw [Nat.mod_add_mod, Nat.add_assoc, Nat.add_comm 1 i]
    exact hcell

end RingQueue
end Lib
