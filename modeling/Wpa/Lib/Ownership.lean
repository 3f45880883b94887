import Mathlib.Data.List.Nodup
import Wpa.Lib.Prog

/-! Who owns a block of memory: programs that allocate, copy and free, whose allocations may fail,
and triples about the pointers that such a program holds. A program that frees what it does not
hold, or holds something at its end, has no triple. -/

namespace Lib.Ownership
open Lib Prog

section Programs

/-- Nothing, memory of somebody else, or the block of an allocation. -/
inductive Pointer
  | null
  | foreign (id : ℕ)
  | block (id : ℕ)
  deriving DecidableEq

/-- What a program does to memory, and its other actions. -/
inductive Action (ω : Type)
  | allocated (id : ℕ)
  | freed (p : Pointer)
  | nullRead
  | other (o : ω)
  deriving DecidableEq

structure Os where
  /-- Whether an allocation succeeds, by its number. -/
  malloc : ℕ → Bool
  /-- Whether there is memory at the null pointer to copy from. -/
  nullReadable : Bool

/-- The state is the number of allocations that were tried. -/
abbrev MemProg (ω α : Type) := Prog Os ℕ (Action ω) α

variable {ω α β : Type}

def malloc : MemProg ω Pointer := fun os c =>
  if os.malloc c.st then (.block c.st, ⟨c.st + 1, c.out ++ [.allocated c.st]⟩)
  else (.null, ⟨c.st + 1, c.out⟩)

def free (p : Pointer) : MemProg ω Unit := if p = .null then pure () else emit (.freed p)

/-- Copy some octets from a pointer. -/
def readFrom (p : Pointer) (len : ℕ) : MemProg ω Unit :=
  if p = .null ∧ len ≠ 0 then emit .nullRead else pure ()

def perform (o : ω) : MemProg ω Unit := emit (.other o)

/-- Nothing, or a block of one's own. -/
def Pointer.Ours : Pointer → Prop
  | .foreign _ => False
  | _ => True

/-- Nothing, or memory of somebody else. -/
def Pointer.Theirs : Pointer → Prop
  | .block _ => False
  | _ => True

instance : DecidablePred Pointer.Ours
  | .null => isTrue trivial
  | .foreign _ => isFalse id
  | .block _ => isTrue trivial

end Programs

section Logs
variable {ω α β : Type}

def Action.block? : Action ω → Option ℕ
  | .allocated id => some id
  | _ => none

def Action.free? : Action ω → Option Pointer
  | .freed p => some p
  | _ => none

def blocks (log : List (Action ω)) : List ℕ := log.filterMap Action.block?

def frees (log : List (Action ω)) : List Pointer := log.filterMap Action.free?

/-- Exactly the allocated blocks are freed, each once; nothing is copied from a null pointer that has
no memory; and the other actions meet their condition. -/
structure Balanced (os : Os) (P : ω → Prop) (log : List (Action ω)) : Prop where
  nodup : (blocks log).Nodup
  perm : (frees log).Perm ((blocks log).map .block)
  reads : .nullRead ∈ log → os.nullReadable = true
  others : ∀ o, .other o ∈ log → P o

/-- Memory of somebody else is never freed. -/
theorem Balanced.freed_notMem {os : Os} {P : ω → Prop} {log : List (Action ω)}
    (h : Balanced os P log) {p : Pointer} (hne : p ≠ .null) (htheirs : p.Theirs) :
    .freed p ∉ log := by
  intro hmem
  have hfree : p ∈ frees log := List.mem_filterMap.mpr ⟨_, hmem, rfl⟩
  obtain ⟨id, -, rfl⟩ := List.mem_map.mp (h.perm.subset hfree)
  exact htheirs

/-- So far the program holds these pointers; null pointers do not count. -/
structure Owns (os : Os) (P : ω → Prop) (held : List Pointer) (c : Cfg ℕ (Action ω)) : Prop where
  nodup : (blocks c.out).Nodup
  fresh : ∀ id ∈ blocks c.out, id < c.st
  perm : (frees c.out ++ held.filter (· ≠ .null)).Perm ((blocks c.out).map .block)
  reads : .nullRead ∈ c.out → os.nullReadable = true
  others : ∀ o, .other o ∈ c.out → P o

variable {os : Os} {P : ω → Prop} {held held' : List Pointer} {c : Cfg ℕ (Action ω)}

theorem Owns.start (os : Os) (P : ω → Prop) : Owns os P [] ⟨0, []⟩ where
  nodup := List.nodup_nil
  fresh _ h := by cases h
  perm := List.Perm.refl _
  reads h := by cases h
  others _ h := by cases h

theorem Owns.balanced (h : Owns os P [] c) : Balanced os P c.out where
  nodup := h.nodup
  perm := by
    have hperm := h.perm
    rw [List.filter_nil, List.append_nil] at hperm
    exact hperm
  reads := h.reads
  others := h.others

theorem Owns.of_perm (h : Owns os P held c) (hheld : held.Perm held') : Owns os P held' c :=
  { h with perm := ((hheld.filter _).append_left _).symm.trans h.perm }

theorem Owns.cons_null : Owns os P (.null :: held) c ↔ Owns os P held c := by
  have hfilter : (Pointer.null :: held).filter (· ≠ .null) = held.filter (· ≠ .null) := by simp
  constructor
  · intro h
    exact { h with perm := hfilter ▸ h.perm }
  · intro h
    exact { h with perm := hfilter.symm ▸ h.perm }

/-- An action that is neither an allocation nor a free. -/
theorem Owns.emit {a : Action ω} (h : Owns os P held c) (hblock : a.block? = none)
    (hfree : a.free? = none) (hreads : a = .nullRead → os.nullReadable = true)
    (hothers : ∀ o, a = .other o → P o) : Owns os P held ⟨c.st, c.out ++ [a]⟩ := by
  have hblocks : blocks (c.out ++ [a]) = blocks c.out := by
    simp [blocks, List.filterMap_append, hblock]
  have hfrees : frees (c.out ++ [a]) = frees c.out := by
    simp [frees, List.filterMap_append, hfree]
  constructor
  · rw [hblocks]
    exact h.nodup
  · rw [hblocks]
    exact h.fresh
  · rw [hblocks, hfrees]
    exact h.perm
  · intro hmem
    rcases List.mem_append.mp hmem with hmem | hmem
    · exact h.reads hmem
    · exact hreads (List.mem_singleton.mp hmem).symm
  · intro o hmem
    rcases List.mem_append.mp hmem with hmem | hmem
    · exact h.others o hmem
    · exact hothers o (List.mem_singleton.mp hmem).symm

theorem Owns.malloc (h : Owns os P held c) :
    (malloc os c : Pointer × Cfg ℕ (Action ω)).1.Ours ∧
      Owns os P ((malloc os c : Pointer × Cfg ℕ (Action ω)).1 :: held) (malloc os c).2 := by
  unfold Ownership.malloc
  split
  · refine ⟨trivial, ?_⟩
    have hblocks : blocks (c.out ++ [.allocated c.st]) = blocks c.out ++ [c.st] := by
      simp [blocks, List.filterMap_append, Action.block?]
    have hfrees : frees (c.out ++ [.allocated c.st]) = frees c.out := by
      simp [frees, List.filterMap_append, Action.free?]
    constructor
    · rw [hblocks]
      refine List.nodup_append.mpr ⟨h.nodup, List.nodup_singleton _, ?_⟩
      intro id hid id' hid' heq
      have hlt := h.fresh id hid
      rw [heq, List.mem_singleton.mp hid'] at hlt
      exact Nat.lt_irrefl _ hlt
    · intro id hid
      rw [hblocks] at hid
      rcases List.mem_append.mp hid with hid | hid
      · exact Nat.lt_succ_of_lt (h.fresh id hid)
      · exact List.mem_singleton.mp hid ▸ Nat.lt_succ_self _
    · have hfilter : (Pointer.block c.st :: held).filter (· ≠ .null) =
          .block c.st :: held.filter (· ≠ .null) := by simp
      rw [hblocks, hfrees, hfilter, List.map_append]
      exact List.perm_middle.trans
        ((h.perm.cons _).trans (List.perm_append_singleton _ _).symm)
    · intro hmem
      rcases List.mem_append.mp hmem with hmem | hmem
      · exact h.reads hmem
      · cases List.mem_singleton.mp hmem
    · intro o hmem
      rcases List.mem_append.mp hmem with hmem | hmem
      · exact h.others o hmem
      · cases List.mem_singleton.mp hmem
  · refine ⟨trivial, Owns.cons_null.mpr ?_⟩
    exact { h with fresh := fun id hid => Nat.lt_succ_of_lt (h.fresh id hid) }

theorem Owns.free {p : Pointer} (h : Owns os P (p :: held) c) : Owns os P held (free p os c).2 := by
  unfold Ownership.free
  by_cases hp : p = .null
  · rw [if_pos hp]
    rw [hp] at h
    exact Owns.cons_null.mp h
  · rw [if_neg hp]
    have hblocks : blocks (c.out ++ [.freed p]) = blocks c.out := by
      simp [blocks, List.filterMap_append, Action.block?]
    have hfrees : frees (c.out ++ [.freed p]) = frees c.out ++ [p] := by
      simp [frees, List.filterMap_append, Action.free?]
    have hfilter : (p :: held).filter (· ≠ .null) = p :: held.filter (· ≠ .null) := by simp [hp]
    have hperm := h.perm
    rw [hfilter] at hperm
    show Owns os P held ⟨c.st, c.out ++ [.freed p]⟩
    constructor
    · rw [hblocks]
      exact h.nodup
    · rw [hblocks]
      exact h.fresh
    · rw [hblocks, hfrees, List.append_assoc]
      exact hperm
    · intro hmem
      rcases List.mem_append.mp hmem with hmem | hmem
      · exact h.reads hmem
      · cases List.mem_singleton.mp hmem
    · intro o hmem
      rcases List.mem_append.mp hmem with hmem | hmem
      · exact h.others o hmem
      · cases List.mem_singleton.mp hmem

end Logs

section Triples
variable {ω α β : Type} {os : Os} {P : ω → Prop} {held held' : List Pointer}

/-- From every configuration with these pointers the program ends with a result and pointers as
the postcondition has them. -/
def Triple (os : Os) (P : ω → Prop) (held : List Pointer) (x : MemProg ω α)
    (post : α → List Pointer → Prop) : Prop :=
  ∀ c, Owns os P held c → ∃ held', post (x os c).1 held' ∧ Owns os P held' (x os c).2

variable {post : β → List Pointer → Prop} {f : α → MemProg ω β}

theorem Triple.pure {b : β} (h : post b held) : Triple os P held (Pure.pure b) post :=
  fun _ hc => ⟨held, h, hc⟩

theorem Triple.bind {x : MemProg ω α} {mid : α → List Pointer → Prop}
    (hx : Triple os P held x mid) (hf : ∀ a held', mid a held' → Triple os P held' (f a) post) :
    Triple os P held (x >>= f) post := by
  intro c hc
  obtain ⟨held', hmid, hc'⟩ := hx c hc
  exact hf _ held' hmid _ hc'

theorem Triple.of_perm {x : MemProg ω β} (hheld : held.Perm held')
    (h : Triple os P held' x post) : Triple os P held x post :=
  fun c hc => h c (hc.of_perm hheld)

/-- A null pointer need not be freed. -/
theorem Triple.of_null {x : MemProg ω β} (h : Triple os P held x post) :
    Triple os P (.null :: held) x post :=
  fun c hc => h c (Owns.cons_null.mp hc)

theorem Triple.with_null {x : MemProg ω β} (h : Triple os P (.null :: held) x post) :
    Triple os P held x post :=
  fun c hc => h c (Owns.cons_null.mpr hc)

theorem Triple.malloc {f : Pointer → MemProg ω β}
    (h : ∀ p : Pointer, p.Ours → Triple os P (p :: held) (f p) post) :
    Triple os P held (malloc >>= f) post := by
  intro c hc
  obtain ⟨hours, howns⟩ := hc.malloc
  exact h _ hours _ howns

theorem Triple.free {p : Pointer} {f : Unit → MemProg ω β} (h : Triple os P held (f ()) post) :
    Triple os P (p :: held) (free p >>= f) post :=
  fun _ hc => h _ hc.free

theorem Triple.readFrom {p : Pointer} {len : ℕ} {f : Unit → MemProg ω β}
    (hread : p = .null → len ≠ 0 → os.nullReadable = true)
    (h : Triple os P held (f ()) post) :
    Triple os P held (readFrom p len >>= f) post := by
  intro c hc
  apply h
  unfold Ownership.readFrom
  split
  · next hnull =>
    exact hc.emit rfl rfl (fun _ => hread hnull.1 hnull.2) (fun _ heq => by cases heq)
  · exact hc

theorem Triple.perform {o : ω} {f : Unit → MemProg ω β} (ho : P o)
    (h : Triple os P held (f ()) post) : Triple os P held (perform o >>= f) post := by
  intro c hc
  apply h
  exact hc.emit rfl rfl (fun heq => by cases heq) (fun _ heq => by cases heq; exact ho)

theorem Triple.ite {p : Prop} [Decidable p] {x y : MemProg ω β}
    (hx : p → Triple os P held x post) (hy : ¬p → Triple os P held y post) :
    Triple os P held (if p then x else y) post := by
  split
  · next h => exact hx h
  · next h => exact hy h

/-- The last free of a program. -/
theorem Triple.free_last {p : Pointer} {post : Unit → List Pointer → Prop} (h : post () held) :
    Triple os P (p :: held) (Ownership.free p) post :=
  fun _ hc => ⟨held, h, hc.free⟩

theorem Triple.perform_last {o : ω} {post : Unit → List Pointer → Prop} (ho : P o)
    (h : post () held) : Triple os P held (Ownership.perform o) post :=
  fun _ hc =>
    ⟨held, h, hc.emit rfl rfl (fun heq => by cases heq) (fun _ heq => by cases heq; exact ho)⟩

/-- A program that starts and ends with nothing is balanced. -/
theorem Triple.balanced {x : MemProg ω β} (h : Triple os P [] x fun _ held => held = []) :
    Balanced os P (exec x os 0).2 := by
  obtain ⟨held, rfl, howns⟩ := h ⟨0, []⟩ (Owns.start os P)
  exact howns.balanced

end Triples
end Lib.Ownership
