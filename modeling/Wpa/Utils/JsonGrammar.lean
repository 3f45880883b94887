import Mathlib.Data.List.MinMax
import Wpa.Utils.Json

/-! The grammar of JSON texts, and the tree of tokens that a value of the grammar is read into. -/

namespace Wpa.Json
open Lib

section Values

inductive Scalar
  | string (str : Bytes)
  | literal (name : Literal)
  | number (num : ℤ)

/-- The values of the grammar: the members of an object have names. -/
inductive Value
  | object (members : List (Bytes × Value))
  | array (elements : List Value)
  | scalar (s : Scalar)

/-- A value as it stands in a container, or at the top, with its name. -/
abbrev Entry := Option Bytes × Value

section Fold
variable {α : Type} (scalar : Scalar → α) (container : Container → List (Option Bytes × α) → α)

mutual

/-- From the scalars up. -/
def Value.fold : Value → α
  | .object members => container .object (foldMembers members)
  | .array elements => container .array (foldElements elements)
  | .scalar s => scalar s

def foldMembers : List (Bytes × Value) → List (Option Bytes × α)
  | [] => []
  | (name, value) :: members => (some name, value.fold) :: foldMembers members

def foldElements : List Value → List (Option Bytes × α)
  | [] => []
  | value :: elements => (none, value.fold) :: foldElements elements

end

end Fold

def Container.named : Container → Bool
  | .array => false
  | .object => true

/-- The value that a container with these entries is. -/
def Container.close : Container → List Entry → Value
  | .object, entries => .object (entries.map fun e => (e.1.getD [], e.2))
  | .array, entries => .array (entries.map Prod.snd)

/-- The entries of an object are named, those of an array are not. -/
def Container.Labels (container : Container) (entries : List Entry) : Prop :=
  ∀ e ∈ entries, e.1.isSome = container.named

section FoldClose
variable {α : Type} (scalar : Scalar → α) (container : Container → List (Option Bytes × α) → α)

theorem foldMembers_eq {entries : List Entry} (h : Container.object.Labels entries) :
    foldMembers scalar container (entries.map fun e => (e.1.getD [], e.2)) =
      entries.map fun e => (e.1, e.2.fold scalar container) := by
  induction entries with
  | nil => rfl
  | cons e entries ih =>
    obtain ⟨name, hname⟩ := Option.isSome_iff_exists.mp (h e (List.mem_cons_self ..))
    rw [List.map_cons, foldMembers, ih fun e he => h e (List.mem_cons_of_mem _ he), List.map_cons,
      hname]
    rfl

theorem foldElements_eq {entries : List Entry} (h : Container.array.Labels entries) :
    foldElements scalar container (entries.map Prod.snd) =
      entries.map fun e => (e.1, e.2.fold scalar container) := by
  induction entries with
  | nil => rfl
  | cons e entries ih =>
    have hname : e.1 = none := Option.not_isSome_iff_eq_none.mp
      (Bool.eq_false_iff.mp (h e (List.mem_cons_self ..)))
    rw [List.map_cons, foldElements, ih fun e he => h e (List.mem_cons_of_mem _ he), List.map_cons,
      hname]

theorem fold_close {c : Container} {entries : List Entry} (h : c.Labels entries) :
    (c.close entries).fold scalar container =
      container c (entries.map fun e => (e.1, e.2.fold scalar container)) := by
  cases c with
  | array => exact congrArg _ (foldElements_eq scalar container h)
  | object => exact congrArg _ (foldMembers_eq scalar container h)

end FoldClose

theorem object_eq_close (members : List (Bytes × Value)) :
    Value.object members = Container.object.close (members.map fun m => (some m.1, m.2)) := by
  rw [Container.close, List.map_map]
  exact congrArg _ (List.map_id'' (fun _ => rfl) members).symm

theorem array_eq_close (elements : List Value) :
    Value.array elements = Container.array.close (elements.map fun v => (none, v)) := by
  rw [Container.close, List.map_map]
  exact congrArg _ (List.map_id'' (fun _ => rfl) elements).symm

/-- Every value is a scalar, or closes a container with entries. -/
@[elab_as_elim]
theorem Value.close_induction {P : Value → Prop} (v : Value) (scalar : ∀ s, P (.scalar s))
    (close : ∀ (c : Container) (entries : List Entry), c.Labels entries →
      (∀ e ∈ entries, P e.2) → P (c.close entries)) : P v := by
  refine @Value.rec P (fun members => ∀ m ∈ members, P m.2) (fun elements => ∀ v ∈ elements, P v)
    (fun m => P m.2) ?_ ?_ scalar ?_ ?_ ?_ ?_ ?_ v
  · intro members ih
    rw [object_eq_close]
    apply close
    · intro e he
      obtain ⟨m, _, rfl⟩ := List.mem_map.mp he
      rfl
    · intro e he
      obtain ⟨m, hm, rfl⟩ := List.mem_map.mp he
      exact ih m hm
  · intro elements ih
    rw [array_eq_close]
    apply close
    · intro e he
      obtain ⟨v, _, rfl⟩ := List.mem_map.mp he
      rfl
    · intro e he
      obtain ⟨v, hv, rfl⟩ := List.mem_map.mp he
      exact ih v hv
  · intro m hm
    cases hm
  · intro m members hm hmembers
    exact List.forall_mem_cons.mpr ⟨hm, hmembers⟩
  · intro v hv
    cases hv
  · intro v elements hv helements
    exact List.forall_mem_cons.mpr ⟨hv, helements⟩
  · intro name v hv
    exact hv

end Values

section Readings

def Scalar.lexeme : Scalar → Lexeme
  | .string str => .string str
  | .literal name => .literal name
  | .number num => .number num

/-- The token of a scalar, stored over these fields. -/
def Scalar.store (fields : JsonFields) : Scalar → JsonFields
  | .string str => { fields with string := some str, state := .completed, type := .string }
  | .literal name => name.store fields
  | .number num => { fields with number := num, state := .completed, type := .number }

def nameLexemes : Option Bytes → List Lexeme
  | none => []
  | some name => [.string name, .colon]

/-- With commas between. -/
def separate (entries : List (Option Bytes × List Lexeme)) : List Lexeme :=
  [.comma].intercalate (entries.map fun e => nameLexemes e.1 ++ e.2)

def Value.lexemes : Value → List Lexeme :=
  Value.fold (fun s => [s.lexeme]) fun c entries =>
    .start c :: (separate entries ++ [.finish c])

/-- The token that a value with this name is read into. -/
def Value.token : Value → Option Bytes → JsonToken :=
  Value.fold (fun s name => .node (s.store { name }) []) fun c entries name =>
    .node { type := c.type, state := .completed, name } (entries.map fun e => e.2 e.1)

/-- How deep containers are nested. -/
def Value.depth : Value → ℕ :=
  Value.fold (fun _ => 0) fun _ entries => (entries.map Prod.snd).foldr max 0 + 1

/-- One for each value, and one more for each container that stays empty. -/
def Value.allocations : Value → ℕ :=
  Value.fold (fun _ => 1) fun _ entries =>
    1 + if entries = [] then 1 else (entries.map Prod.snd).sum

def Entry.lexemes (e : Entry) : List Lexeme := nameLexemes e.1 ++ e.2.lexemes

def Entry.token (e : Entry) : JsonToken := e.2.token e.1

/-- Entries with commas between. -/
def entriesLexemes (entries : List Entry) : List Lexeme :=
  [.comma].intercalate (entries.map Entry.lexemes)

@[simp] theorem entriesLexemes_nil : entriesLexemes [] = [] := rfl

@[simp] theorem entriesLexemes_singleton (e : Entry) :
    entriesLexemes [e] = Entry.lexemes e := by
  simp [entriesLexemes]

theorem entriesLexemes_cons_cons (e e' : Entry) (entries : List Entry) :
    entriesLexemes (e :: e' :: entries) =
      Entry.lexemes e ++ .comma :: entriesLexemes (e' :: entries) := by
  simp [entriesLexemes]

variable {c : Container} {entries : List Entry}

theorem lexemes_close (h : c.Labels entries) :
    (c.close entries).lexemes = .start c :: (entriesLexemes entries ++ [.finish c]) := by
  unfold Value.lexemes entriesLexemes
  rw [fold_close _ _ h, separate, List.map_map]
  rfl

theorem token_close (h : c.Labels entries) (name : Option Bytes) :
    (c.close entries).token name =
      .node { type := c.type, state := .completed, name } (entries.map Entry.token) := by
  unfold Value.token
  rw [fold_close _ _ h, List.map_map]
  rfl

theorem depth_close (h : c.Labels entries) :
    (c.close entries).depth = (entries.map fun e => e.2.depth).foldr max 0 + 1 := by
  unfold Value.depth
  rw [fold_close _ _ h, List.map_map]
  rfl

theorem allocations_close (h : c.Labels entries) :
    (c.close entries).allocations =
      1 + if entries = [] then 1 else (entries.map fun e => e.2.allocations).sum := by
  unfold Value.allocations
  rw [fold_close _ _ h, List.map_map]
  simp only [List.map_eq_nil_iff]
  rfl

theorem depth_le_iff {n : ℕ} (entries : List Entry) :
    (entries.map fun e => e.2.depth).foldr max 0 ≤ n ↔ ∀ e ∈ entries, e.2.depth ≤ n := by
  induction entries with
  | nil => simp
  | cons e entries ih =>
    rw [List.map_cons, List.foldr_cons, max_le_iff, ih, List.forall_mem_cons]

theorem allocations_pos (v : Value) : 0 < v.allocations := by
  induction v using Value.close_induction with
  | scalar s => exact Nat.one_pos
  | close c entries h =>
    rw [allocations_close h]
    exact Nat.add_pos_left Nat.one_pos _

end Readings

section Completed

theorem allCompleted_iff (tokens : List JsonToken) :
    allCompleted tokens = true ↔ ∀ t ∈ tokens, t.completed = true := by
  induction tokens with
  | nil => simp [allCompleted]
  | cons t tokens ih => rw [allCompleted, Bool.and_eq_true, ih, List.forall_mem_cons]

theorem allCompleted_reverse (tokens : List JsonToken) :
    allCompleted tokens.reverse = allCompleted tokens := by
  rw [Bool.eq_iff_iff, allCompleted_iff, allCompleted_iff]
  exact forall_congr' fun t => by rw [List.mem_reverse]

/-- All states in the tree of a value are complete. -/
theorem token_completed (v : Value) (name : Option Bytes) : (v.token name).completed = true := by
  induction v using Value.close_induction generalizing name with
  | scalar s =>
    rcases s with str | (_ | _ | _) | num <;> rfl
  | close c entries h ih =>
    rw [token_close h, JsonToken.completed, Bool.and_eq_true, allCompleted_iff]
    refine ⟨?_, rfl⟩
    intro t ht
    obtain ⟨e, he, rfl⟩ := List.mem_map.mp ht
    exact ih e he e.1

end Completed

section Numbers
variable {ls ls' : List Lexeme} {l : Lexeme}

/-- Two parts around anything but a number. -/
theorem NoAdjacentNumbers.join (h : NoAdjacentNumbers ls) (hl : ∀ num, l ≠ .number num)
    (h' : NoAdjacentNumbers ls') : NoAdjacentNumbers (ls ++ l :: ls') := by
  apply List.isChain_append.mpr
  refine ⟨h, List.isChain_cons.mpr ⟨?_, h'⟩, ?_⟩
  · intro y _ num num' heq
    exact absurd heq (hl num)
  · intro x _ y hy num num' _
    obtain rfl : l = y := Option.some.inj hy
    exact hl num'

theorem NoAdjacentNumbers.entries {entries : List Entry}
    (h : ∀ e ∈ entries, NoAdjacentNumbers e.2.lexemes) :
    NoAdjacentNumbers (entriesLexemes entries) := by
  have hentry : ∀ e ∈ entries, NoAdjacentNumbers (Entry.lexemes e) := by
    rintro ⟨name | name, v⟩ he
    · exact h _ he
    · have hcolon : NoAdjacentNumbers (.colon :: v.lexemes) :=
        join .nil (fun num => by simp) (h _ he)
      exact join .nil (fun num => by simp) hcolon
  clear h
  induction entries with
  | nil => exact .nil
  | cons e entries ih =>
    have he := hentry e (List.mem_cons_self ..)
    have hrest := ih fun e he => hentry e (List.mem_cons_of_mem _ he)
    rcases entries with - | ⟨e', entries⟩
    · rwa [entriesLexemes_singleton]
    · rw [entriesLexemes_cons_cons]
      exact he.join (fun num => by simp) hrest

theorem noAdjacentNumbers_lexemes (v : Value) : NoAdjacentNumbers v.lexemes := by
  induction v using Value.close_induction with
  | scalar s => exact .singleton _
  | close c entries h ih =>
    rw [lexemes_close h]
    have hentries := NoAdjacentNumbers.entries ih
    exact .join .nil (fun num => by simp) (hentries.join (fun num => by simp) .nil)

end Numbers
end Wpa.Json
