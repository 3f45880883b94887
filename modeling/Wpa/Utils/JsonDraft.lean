import Wpa.Utils.JsonGrammar

/-! The tree under construction as a draft of the grammar: entries that are read, containers that
are open, and what stands at the current token. A turn of the parser takes a draft to a draft, or
leaves an incomplete token behind. -/

namespace Wpa.Json
open Lib

section Drafts

/-- What stands at the current token: nothing yet, a name, a name with its colon, or an entry. -/
inductive Pending
  | fresh
  | named (name : Bytes)
  | waiting (name : Bytes)
  | done (e : Entry)

/-- An open container, with the entries before it, the latest first. -/
structure Opened where
  container : Container
  name : Option Bytes
  before : List Entry

structure Draft where
  curr : Pending
  before : List Entry
  parents : List Opened

def Pending.token : Pending → JsonToken
  | .fresh => .fresh
  | .named name => .node { state := .started, name := some name } []
  | .waiting name => .node { state := .waitingValue, name := some name } []
  | .done e => Entry.token e

def Pending.state : Pending → JsonState
  | .fresh => .empty
  | .named _ => .started
  | .waiting _ => .waitingValue
  | .done _ => .completed

def Pending.lexemes : Pending → List Lexeme
  | .fresh => []
  | .named name => [.string name]
  | .waiting name => [.string name, .colon]
  | .done e => Entry.lexemes e

def Pending.allocations : Pending → ℕ
  | .done e => e.2.allocations
  | _ => 1

def entriesAllocations (entries : List Entry) : ℕ := (entries.map fun e => e.2.allocations).sum

def levelLexemes (before : List Entry) : List Lexeme :=
  before.reverse.flatMap fun e => Entry.lexemes e ++ [.comma]

def Opened.frame (o : Opened) : JsonFrame :=
  ⟨{ type := o.container.type, state := .started, name := o.name }, o.before.map Entry.token⟩

def Opened.lexemes (o : Opened) : List Lexeme :=
  levelLexemes o.before ++ nameLexemes o.name ++ [.start o.container]

namespace Draft
variable (d : Draft)

def cursor : JsonCursor :=
  ⟨d.curr.token, d.before.map Entry.token, d.parents.map Opened.frame⟩

def allocations : ℕ :=
  d.curr.allocations + entriesAllocations d.before +
    (d.parents.map fun o => 1 + entriesAllocations o.before).sum

/-- The state that the parser is in. -/
def parser : JsonParser := ⟨some d.cursor, d.parents.length, d.allocations⟩

@[simp] theorem parser_currToken : d.parser.currToken = some d.cursor := rfl

/-- All that has been read. -/
def lexemes : List Lexeme :=
  d.parents.reverse.flatMap Opened.lexemes ++ levelLexemes d.before ++ d.curr.lexemes

end Draft

end Drafts

section Values
variable {s s' : JsonParser} {d : Draft} {name : Option Bytes}

theorem state_of_completed {t : JsonToken} (h : t.completed = true) :
    t.fields.state = .completed := by
  obtain ⟨fields, children⟩ := t
  rw [JsonToken.completed, Bool.and_eq_true, beq_iff_eq] at h
  exact h.2

@[simp] theorem cursor_state (d : Draft) : d.cursor.state = d.curr.state := by
  obtain ⟨curr, before, parents⟩ := d
  cases curr with
  | done e => exact state_of_completed (token_completed e.2 e.1)
  | _ => rfl

/-- The innermost open container is an array. -/
def InArray (parents : List Opened) : Prop := ∃ o ∈ parents.head?, o.container = .array

theorem inArray_iff (d : Draft) : d.cursor.inArray ↔ d.curr = .fresh ∧ InArray d.parents := by
  have hcurr : d.curr.state = .empty ↔ d.curr = .fresh := by
    cases d.curr <;> simp [Pending.state]
  unfold JsonCursor.inArray
  rw [cursor_state, hcurr]
  obtain ⟨curr, before, parents⟩ := d
  cases parents with
  | nil =>
    constructor
    · rintro ⟨_, h, _⟩
      cases h
    · rintro ⟨_, _, h, _⟩
      cases h
  | cons o parents =>
    have htype : o.container.type = .array ↔ o.container = .array := by
      cases o.container <;> simp [Container.type]
    simp only [InArray, Draft.cursor, Opened.frame, List.map_cons, List.head?_cons,
      Option.mem_some_iff, exists_eq_left', htype, true_and]
    exact and_comm

/-- The parser takes a value of this name next, into the draft. -/
inductive Awaits : JsonParser → Draft → Option Bytes → Prop
  | first : Awaits {} ⟨.fresh, [], []⟩ none
  | member {name : Bytes} {before : List Entry} {parents : List Opened} :
    Awaits (Draft.parser ⟨.waiting name, before, parents⟩) ⟨.waiting name, before, parents⟩
      (some name)
  | element {before : List Entry} {parents : List Opened} (h : InArray parents) :
    Awaits (Draft.parser ⟨.fresh, before, parents⟩) ⟨.fresh, before, parents⟩ none

theorem Awaits.valueToken (h : Awaits s d name) : s.valueToken = some (d.cursor, d.parser) := by
  cases h with
  | first => rfl
  | member => rfl
  | element h => exact if_pos (Or.inr ((inArray_iff _).mpr ⟨rfl, h⟩))

theorem awaits_of_valueToken {c : JsonCursor} (h : d.parser.valueToken = some (c, s)) :
    ∃ name, Awaits d.parser d name := by
  obtain ⟨curr, before, parents⟩ := d
  unfold JsonParser.valueToken at h
  split at h
  · next hnone => cases hnone
  · next c hc =>
    obtain rfl : Draft.cursor ⟨curr, before, parents⟩ = c := Option.some.inj hc
    split at h
    · next hor =>
      rcases hor with hwaiting | harray
      · rw [cursor_state] at hwaiting
        cases curr with
        | waiting name => exact ⟨_, .member⟩
        | _ => cases hwaiting
      · obtain ⟨hfresh, harray⟩ := (inArray_iff _).mp harray
        obtain rfl : curr = .fresh := hfresh
        exact ⟨_, .element harray⟩
    · cases h

/-- The draft with its current entry read. -/
def Draft.fill (d : Draft) (e : Entry) : Draft := { d with curr := .done e }

theorem Awaits.children (h : Awaits s d name) : d.cursor.curr.children = [] := by
  cases h <;> rfl

theorem Awaits.allocations (h : Awaits s d name) : d.curr.allocations = 1 := by
  cases h <;> rfl

theorem Awaits.store (h : Awaits s d name) (sc : Scalar) :
    sc.store d.cursor.curr.fields = sc.store { name } := by
  cases h <;> rcases sc with str | (_ | _ | _) | num <;> rfl

/-- The current token filled with a scalar. -/
theorem Awaits.setCurr (h : Awaits s d name) (sc : Scalar) :
    d.parser.setCurr (d.cursor.setFields (sc.store d.cursor.curr.fields)) =
      (d.fill (name, .scalar sc)).parser := by
  rw [h.store]
  unfold JsonCursor.setFields
  rw [h.children]
  have halloc : d.allocations = (d.fill (name, .scalar sc)).allocations :=
    congrArg (· + _ + _) h.allocations
  rw [Draft.parser, Draft.parser, ← halloc]
  rfl

theorem Awaits.scalar (h : Awaits s d name) (sc : Scalar) :
    s.step sc.lexeme = some (d.fill (name, .scalar sc)).parser := by
  rw [← h.setCurr sc]
  rcases sc with str | lit | num
  · cases h with
    | first => rfl
    | @member name before parents =>
      have hnot : ¬(Draft.cursor ⟨.waiting name, before, parents⟩).inArray := by
        rw [inArray_iff]
        rintro ⟨h, -⟩
        cases h
      exact (if_neg hnot).trans rfl
    | element harray => exact if_pos ((inArray_iff _).mpr ⟨rfl, harray⟩)
  · exact congrArg (Option.map _) h.valueToken
  · exact congrArg (Option.map _) h.valueToken

end Values

section Steps
variable {s s' : JsonParser} {d : Draft} {name : Option Bytes} {before entries : List Entry}
  {parents : List Opened}

theorem allocToken_iff : s.allocToken = some s' ↔
    s.tokens + 1 ≤ jsonMaxTokens ∧ s' = { s with tokens := s.tokens + 1 } := by
  unfold JsonParser.allocToken
  split
  · next h =>
    constructor
    · intro hnone
      cases hnone
    · rintro ⟨hle, -⟩
      exact absurd hle (Nat.not_le.mpr h)
  · next h =>
    rw [Option.some.injEq, and_iff_right (Nat.not_lt.mp h)]
    exact eq_comm

theorem allocToken_eq_none_iff : s.allocToken = none ↔ jsonMaxTokens < s.tokens + 1 := by
  unfold JsonParser.allocToken
  split
  · next h => exact iff_of_true rfl h
  · next h => exact iff_of_false (Option.some_ne_none _) h

/-- The draft with a container opened for its current entry. -/
def Draft.start (d : Draft) (c : Container) (name : Option Bytes) : Draft :=
  ⟨.fresh, [], ⟨c, name, d.before⟩ :: d.parents⟩

theorem Awaits.allocations_start (h : Awaits s d name) (c : Container) :
    (d.start c name).allocations = d.allocations + 1 := by
  unfold Draft.allocations Draft.start entriesAllocations
  rw [h.allocations]
  simp only [Pending.allocations, List.map_nil, List.sum_nil, List.map_cons, List.sum_cons]
  omega

theorem Awaits.start_iff (h : Awaits s d name) (c : Container) :
    s.step (.start c) = some s' ↔ d.parents.length + 1 ≤ jsonMaxDepth ∧
      d.allocations + 1 ≤ jsonMaxTokens ∧ s' = (d.start c name).parser := by
  have hfields : ({ d.cursor.curr.fields with type := c.type, state := .started } : JsonFields) =
      { type := c.type, state := .started, name } := by
    cases h <;> rfl
  have hparser : (d.start c name).parser = ⟨some ⟨.fresh, [],
      ⟨{ d.cursor.curr.fields with type := c.type, state := .started }, d.cursor.before⟩ ::
        d.cursor.parents⟩, d.parents.length + 1, d.allocations + 1⟩ := by
    rw [hfields, ← h.allocations_start c]
    rfl
  unfold JsonParser.step JsonParser.startContainer
  rw [h.valueToken, hparser]
  dsimp only [Draft.parser]
  split
  · next hdeep =>
    constructor
    · intro hnone
      cases hnone
    · rintro ⟨hle, -⟩
      exact absurd hle (Nat.not_le.mpr hdeep)
  · next hdeep =>
    rw [and_iff_right (Nat.not_lt.mp hdeep)]
    split
    · next hnone =>
      constructor
      · intro h
        cases h
      · rintro ⟨hle, -⟩
        exact absurd hle (Nat.not_le.mpr (allocToken_eq_none_iff.mp hnone))
    · next s₁ hsome =>
      obtain ⟨hle, rfl⟩ := allocToken_iff.mp hsome
      rw [Option.some.injEq, and_iff_right hle]
      exact eq_comm

theorem step_name (hnot : ¬InArray parents) (str : Bytes) :
    (Draft.parser ⟨.fresh, before, parents⟩).step (.string str) =
      some (Draft.parser ⟨.named str, before, parents⟩) := by
  have hin : ¬(Draft.cursor ⟨.fresh, before, parents⟩).inArray := by
    rw [inArray_iff]
    exact fun h => hnot h.2
  exact (if_neg hin).trans rfl

theorem step_colon (name : Bytes) :
    (Draft.parser ⟨.named name, before, parents⟩).step .colon =
      some (Draft.parser ⟨.waiting name, before, parents⟩) := rfl

theorem allocations_comma (e : Entry) :
    (Draft.mk .fresh (e :: before) parents).allocations =
      (Draft.mk (.done e) before parents).allocations + 1 := by
  unfold Draft.allocations entriesAllocations
  simp only [Pending.allocations, List.map_cons, List.sum_cons]
  omega

theorem step_comma_iff (e : Entry) :
    (Draft.parser ⟨.done e, before, parents⟩).step .comma = some s' ↔
      (Draft.mk (.done e) before parents).allocations + 1 ≤ jsonMaxTokens ∧
        s' = Draft.parser ⟨.fresh, e :: before, parents⟩ := by
  have hparser : Draft.parser ⟨.fresh, e :: before, parents⟩ =
      ⟨some ⟨.fresh, (Pending.done e).token :: before.map Entry.token,
        parents.map Opened.frame⟩, parents.length,
        (Draft.mk (.done e) before parents).allocations + 1⟩ := by
    rw [← allocations_comma]
    rfl
  rw [hparser]
  unfold JsonParser.step JsonParser.comma
  dsimp only [Draft.parser]
  rw [Option.map_eq_some_iff]
  constructor
  · rintro ⟨s₁, hsome, rfl⟩
    obtain ⟨hle, rfl⟩ := allocToken_iff.mp hsome
    exact ⟨hle, rfl⟩
  · rintro ⟨hle, rfl⟩
    exact ⟨_, allocToken_iff.mpr ⟨hle, rfl⟩, rfl⟩

theorem endContainer_draft (curr : Pending) (o : Opened) (type : JsonType) :
    (Draft.parser ⟨curr, before, o :: parents⟩).endContainer type =
      if o.container.type ≠ type then none
      else some ⟨some ⟨.node { type := o.container.type, state := .completed, name := o.name }
          (closeChildren (curr.token :: before.map Entry.token).reverse), o.before.map Entry.token,
            parents.map Opened.frame⟩, parents.length,
        (Draft.mk curr before (o :: parents)).allocations⟩ := rfl

/-- The entries of a container that ends here, the latest first. -/
inductive Closes : Pending → List Entry → List Entry → Prop
  | done (e : Entry) (before : List Entry) : Closes (.done e) before (e :: before)
  | fresh : Closes .fresh [] []

theorem Closes.children {curr : Pending} (h : Closes curr before entries) :
    closeChildren (curr.token :: before.map Entry.token).reverse =
      entries.reverse.map Entry.token := by
  cases h with
  | fresh => rfl
  | done e =>
    have hmap : (Pending.token (.done e) :: before.map Entry.token).reverse =
        (e :: before).reverse.map Entry.token := by
      rw [List.map_reverse]
      rfl
    rw [hmap]
    unfold closeChildren
    split
    · next child hchild =>
      apply if_neg
      rintro ⟨hempty, -⟩
      have hmem : child ∈ (e :: before).reverse.map Entry.token := by
        rw [hchild]
        exact List.mem_singleton_self _
      obtain ⟨e', -, rfl⟩ := List.mem_map.mp hmem
      rw [Entry.token, state_of_completed (token_completed e'.2 e'.1)] at hempty
      cases hempty
    · rfl

theorem Closes.allocations {curr : Pending} (h : Closes curr before entries) (c : Container)
    (hlabels : c.Labels entries.reverse) :
    (c.close entries.reverse).allocations =
      1 + (curr.allocations + entriesAllocations before) := by
  rw [allocations_close hlabels]
  cases h with
  | fresh => rfl
  | done e =>
    rw [if_neg (by simp), List.map_reverse, List.sum_reverse, List.map_cons, List.sum_cons]
    rfl

theorem Closes.allocations_finish {curr : Pending} (h : Closes curr before entries) (o : Opened)
    (hlabels : o.container.Labels entries.reverse) :
    (Draft.mk curr before (o :: parents)).allocations =
      (Draft.mk (.done (o.name, o.container.close entries.reverse)) o.before parents).allocations := by
  unfold Draft.allocations
  simp only [Pending.allocations, h.allocations _ hlabels, List.map_cons, List.sum_cons]
  omega

theorem Closes.finish {curr : Pending} (h : Closes curr before entries) (o : Opened)
    (hlabels : o.container.Labels entries.reverse) :
    (Draft.parser ⟨curr, before, o :: parents⟩).step (.finish o.container) =
      some (Draft.parser
        ⟨.done (o.name, o.container.close entries.reverse), o.before, parents⟩) := by
  have htoken : (Pending.done (o.name, o.container.close entries.reverse)).token =
      .node { type := o.container.type, state := .completed, name := o.name }
        (closeChildren (curr.token :: before.map Entry.token).reverse) := by
    rw [h.children]
    exact token_close hlabels o.name
  apply (endContainer_draft curr o _).trans
  rw [if_neg (not_not.mpr rfl), h.allocations_finish o hlabels, ← htoken]
  rfl

end Steps
end Wpa.Json
