import Mathlib.Data.List.Perm.Basic
import Mathlib.Logic.Function.Basic

/-! Objects of one kind in memory, and the answers that an allocator may give: a pointer at which
nothing is allocated, or for a reallocation the old one as well. -/

namespace Lib

abbrev Ptr := ℕ

abbrev Heap (α : Type) := Ptr → Option α

/-- What a call of `malloc` and one of `realloc` return, given what is allocated. -/
structure Allocator where
  alloc : (Ptr → Bool) → Option Ptr
  realloc : (Ptr → Bool) → Ptr → Option Ptr
  alloc_fresh : ∀ {live p}, alloc live = some p → live p = false
  realloc_fresh : ∀ {live p q}, realloc live p = some q → q = p ∨ live q = false

/-- Memory at the given places only, and no reallocation. -/
def Allocator.ofPlaces (places : List Ptr) : Allocator where
  alloc live := places.find? fun p => !live p
  realloc _ _ := none
  alloc_fresh := by
    intro live p hp
    simpa using List.find?_some hp
  realloc_fresh := by
    intro live p q hq
    cases hq

namespace Heap
variable {α : Type} (h : Heap α)

def live (p : Ptr) : Bool := (h p).isSome

def set (p : Ptr) (x : α) : Heap α := Function.update h p (some x)

def free (p : Ptr) : Heap α := Function.update h p none

/-- The object at a pointer; where nothing is allocated any one may be read. -/
def read (stale : α) (p : Ptr) : α := (h p).getD stale

variable {h} {p q : Ptr} {x stale : α}

@[simp] theorem set_self : h.set p x p = some x := Function.update_self ..

theorem set_of_ne (hne : q ≠ p) : h.set p x q = h q := Function.update_of_ne hne ..

@[simp] theorem free_self : h.free p p = none := Function.update_self ..

theorem free_of_ne (hne : q ≠ p) : h.free p q = h q := Function.update_of_ne hne ..

@[simp] theorem read_set_self : (h.set p x).read stale p = x := by
  rw [read, set_self]
  rfl

theorem read_set_of_ne (hne : q ≠ p) : (h.set p x).read stale q = h.read stale q := by
  rw [read, set_of_ne hne]
  rfl

theorem read_free_of_ne (hne : q ≠ p) : (h.free p).read stale q = h.read stale q := by
  rw [read, free_of_ne hne]
  rfl

theorem eq_none_of_fresh (hfresh : h.live p = false) : h p = none := by
  simpa [live] using hfresh

/-- A write to an object allocates nothing. -/
theorem live_set (hlive : h.live p = true) (x : α) : (h.set p x).live = h.live := by
  funext q
  by_cases hq : q = p
  · rw [hq, hlive, live, set_self, Option.isSome_some]
  · rw [live, set_of_ne hq, live]

theorem set_set (y : α) : (h.set p x).set p y = h.set p y := Function.update_idem ..

theorem free_set : (h.set p x).free p = h.free p := Function.update_idem ..

theorem set_free : (h.free p).set p x = h.set p x := Function.update_idem ..

theorem set_read (hlive : h.live p) : h.set p (h.read stale p) = h := by
  obtain ⟨y, hy⟩ := Option.isSome_iff_exists.mp hlive
  rw [set, read, hy, Option.getD_some, ← hy, Function.update_eq_self]

theorem read_stale (hlive : h.live p) (stale' : α) : h.read stale' p = h.read stale p := by
  obtain ⟨y, hy⟩ := Option.isSome_iff_exists.mp hlive
  rw [read, read, hy]
  rfl

end Heap

section Links
variable {l : List Ptr} {p q : Ptr}

/-- A link that is replaced leaves the other ones where they are. -/
theorem perm_replace (hp : p ∈ l) : (l.replace p q).Perm (q :: l.erase p) := by
  induction l with
  | nil => cases hp
  | cons r l ih =>
    by_cases hr : r = p
    · subst hr
      rw [List.replace_cons_self, List.erase_cons_head]
    · have hrest : p ∈ l := (List.mem_cons.mp hp).resolve_left (Ne.symm hr)
      have hbeq : (p == r) = false := beq_false_of_ne (Ne.symm hr)
      have hbeq' : (r == p) = false := beq_false_of_ne hr
      rw [List.replace_cons, hbeq, List.erase_cons_tail (by simp [hbeq'])]
      exact ((ih hrest).cons r).trans (List.Perm.swap q r _)

theorem replace_self (l : List Ptr) (p : Ptr) : l.replace p p = l := by
  induction l with
  | nil => rfl
  | cons r l ih =>
    rw [List.replace_cons, ih]
    split
    · rename_i hr
      rw [eq_of_beq hr]
    · rfl

theorem mem_replace {r : Ptr} (h : r ∈ l.replace p q) : r = q ∨ r ∈ l.erase p := by
  by_cases hp : p ∈ l
  · exact List.mem_cons.mp ((perm_replace hp).mem_iff.mp h)
  · rw [List.replace_of_not_mem hp] at h
    rw [List.erase_of_not_mem hp]
    exact .inr h

theorem nodup_replace (hl : l.Nodup) (hq : q = p ∨ q ∉ l) : (l.replace p q).Nodup := by
  by_cases hp : p ∈ l
  · rw [(perm_replace hp).nodup_iff, List.nodup_cons]
    refine ⟨?_, hl.erase p⟩
    intro hmem
    rcases hq with rfl | hq
    · exact hl.not_mem_erase hmem
    · exact hq (List.mem_of_mem_erase hmem)
  · rw [List.replace_of_not_mem hp]
    exact hl

theorem map_replace {β : Type} {f g : Ptr → β} (hp : p ∈ l) (hl : l.Nodup) (hq : g q = f p)
    (h : ∀ r ∈ l.erase p, g r = f r) : (l.replace p q).map g = l.map f := by
  induction l with
  | nil => cases hp
  | cons r l ih =>
    by_cases hr : r = p
    · subst hr
      rw [List.erase_cons_head] at h
      rw [List.replace_cons_self, List.map_cons, List.map_cons, hq, List.map_congr_left h]
    · have hrest : p ∈ l := (List.mem_cons.mp hp).resolve_left (Ne.symm hr)
      have hbeq : (p == r) = false := beq_false_of_ne (Ne.symm hr)
      have hbeq' : (r == p) = false := beq_false_of_ne hr
      rw [List.erase_cons_tail (by simp [hbeq']), List.forall_mem_cons] at h
      rw [List.replace_cons, hbeq]
      show g r :: _ = f r :: _
      rw [h.1, ih hrest hl.of_cons h.2]

end Links
end Lib
