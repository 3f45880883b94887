import Wpa.Utils.JsonLexeme

/-! The JSON parser: a loop over the characters that builds a tree of tokens, with a state in every
token and a check of all states at the end. -/

namespace Wpa.Json
open Lib

section Tokens

/-- `enum json_parsing_state`. -/
inductive JsonState
  | empty | started | waitingValue | completed
  deriving DecidableEq

/-- `struct json_token` without its links. -/
structure JsonFields where
  type : JsonType := .value
  state : JsonState := .empty
  name : Option Bytes := none
  string : Option Bytes := none
  number : ℤ := 0

/-- A token with what hangs on its `child`: the first child and its siblings. -/
inductive JsonToken
  | node (fields : JsonFields) (children : List JsonToken)

def JsonToken.fields : JsonToken → JsonFields
  | .node fields _ => fields

def JsonToken.children : JsonToken → List JsonToken
  | .node _ children => children

/-- What `os_zalloc` gives. -/
def JsonToken.fresh : JsonToken := .node {} []

mutual

/-- `json_check_tree_state`. -/
def JsonToken.completed : JsonToken → Bool
  | .node fields children => allCompleted children && fields.state == .completed

def allCompleted : List JsonToken → Bool
  | [] => true
  | token :: siblings => token.completed && allCompleted siblings

end

end Tokens

section Parser

/-- A container whose end is not read yet, with its earlier siblings, the latest first. -/
structure JsonFrame where
  fields : JsonFields
  before : List JsonToken

/-- `curr_token`: always the last of its siblings, each of its parents too. -/
structure JsonCursor where
  curr : JsonToken
  before : List JsonToken
  parents : List JsonFrame

/-- The variables of `json_parse`. The root is the first token around `curr_token`. -/
structure JsonParser where
  currToken : Option JsonCursor := none
  depth : ℕ := 0
  tokens : ℕ := 0

def jsonMaxDepth : ℕ := 10

def jsonMaxTokens : ℕ := 500

variable (s : JsonParser)

/-- `json_alloc_token`: the token itself is `JsonToken.fresh`. -/
def JsonParser.allocToken : Option JsonParser :=
  if s.tokens + 1 > jsonMaxTokens then none else some { s with tokens := s.tokens + 1 }

def JsonParser.setCurr (c : JsonCursor) : JsonParser := { s with currToken := some c }

def JsonCursor.state (c : JsonCursor) : JsonState := c.curr.fields.state

def JsonCursor.setFields (c : JsonCursor) (fields : JsonFields) : JsonCursor :=
  { c with curr := .node fields c.curr.children }

/-- An array waits for its next element. -/
def JsonCursor.inArray (c : JsonCursor) : Prop :=
  ∃ parent ∈ c.parents.head?, parent.fields.type = .array ∧ parent.fields.state = .started ∧
    c.state = .empty

instance (c : JsonCursor) : Decidable c.inArray :=
  inferInstanceAs (Decidable (∃ parent ∈ c.parents.head?, _))

/-- The token that a value goes to: a new one at the beginning. -/
def JsonParser.valueToken : Option (JsonCursor × JsonParser) :=
  match s.currToken with
  | none => s.allocToken.map fun s => (⟨.fresh, [], []⟩, s.setCurr ⟨.fresh, [], []⟩)
  | some c => if c.state = .waitingValue ∨ c.inArray then some (c, s) else none

def JsonParser.startContainer (type : JsonType) : Option JsonParser :=
  match s.valueToken with
  | none => none
  | some (c, s) =>
    if s.depth + 1 > jsonMaxDepth then none
    else
      match ({ s with depth := s.depth + 1 } : JsonParser).allocToken with
      | none => none
      | some s =>
        let token : JsonFields := { c.curr.fields with type, state := .started }
        some (s.setCurr ⟨.fresh, [], ⟨token, c.before⟩ :: c.parents⟩)

/-- The children of a container at its end: none where the pending one is all there is. -/
def closeChildren (children : List JsonToken) : List JsonToken :=
  match children with
  | [child] => if child.fields.state = .empty ∧ child.children = [] then [] else children
  | _ => children

def JsonParser.endContainer (type : JsonType) : Option JsonParser :=
  match s.currToken with
  | none => none
  | some c =>
    match c.parents with
    | [] => none
    | parent :: parents =>
      if parent.fields.state ≠ .started then none
      else if parent.fields.type ≠ type then none
      else
        let children := closeChildren (c.curr :: c.before).reverse
        some { s with
          depth := s.depth - 1
          currToken := some
            ⟨.node { parent.fields with state := .completed } children, parent.before, parents⟩ }

def JsonParser.string (str : Bytes) : Option JsonParser :=
  let stored (c : JsonCursor) : JsonCursor :=
    c.setFields { c.curr.fields with string := some str, state := .completed, type := .string }
  match s.currToken with
  | none => s.allocToken.map fun s => s.setCurr (stored ⟨.fresh, [], []⟩)
  | some c =>
    if c.inArray then some (s.setCurr (stored c))
    else if c.state = .empty then
      some (s.setCurr
        (c.setFields { c.curr.fields with type := .value, name := some str, state := .started }))
    else if c.state = .waitingValue then some (s.setCurr (stored c))
    else none

def JsonParser.colon : Option JsonParser :=
  match s.currToken with
  | none => none
  | some c =>
    if c.state ≠ .started then none
    else some (s.setCurr (c.setFields { c.curr.fields with state := .waitingValue }))

def JsonParser.comma : Option JsonParser :=
  match s.currToken with
  | none => none
  | some c => s.allocToken.map fun s => s.setCurr ⟨.fresh, c.curr :: c.before, c.parents⟩

def Literal.store (fields : JsonFields) : Literal → JsonFields
  | .true => { fields with type := .boolean, number := 1, state := .completed }
  | .false => { fields with type := .boolean, number := 0, state := .completed }
  | .null => { fields with type := .null, state := .completed }

def JsonParser.literal (name : Literal) : Option JsonParser :=
  s.valueToken.map fun (c, s) => s.setCurr (c.setFields (name.store c.curr.fields))

def JsonParser.number (num : ℤ) : Option JsonParser :=
  s.valueToken.map fun (c, s) => s.setCurr
    (c.setFields { c.curr.fields with number := num, state := .completed, type := .number })

/-- A turn of the loop after reading. -/
def JsonParser.step : Lexeme → Option JsonParser
  | .start container => s.startContainer container.type
  | .finish container => s.endContainer container.type
  | .string str => s.string str
  | .colon => s.colon
  | .comma => s.comma
  | .literal name => s.literal name
  | .number num => s.number num

end Parser

section Parse
/-- The loop of `json_parse`. -/
def parseLoop (s : JsonParser) (data : Bytes) : Option JsonParser :=
  match data with
  | [] => some s
  | x :: pos =>
    if isSpace x then parseLoop s pos
    else
      match _h : scan x pos with
      | none => none
      | some (l, rest) =>
        match s.step l with
        | none => none
        | some s => parseLoop s rest
termination_by data.length
decreasing_by
  · exact Nat.lt_succ_self _
  · exact Nat.lt_succ_of_le (length_scan _h)

/-- All tokens that are reached from the root: it and its siblings, with their children. -/
def JsonCursor.tree (c : JsonCursor) : List JsonToken :=
  c.parents.foldl (fun level parent => (.node parent.fields level :: parent.before).reverse)
    (c.curr :: c.before).reverse

/-- `none` is the null pointer, that of an input without tokens too. -/
def jsonParse (data : Bytes) : Option (List JsonToken) :=
  match parseLoop {} data with
  | none => none
  | some s =>
    match s.currToken with
    | none => none
    | some c => if allCompleted c.tree then some c.tree else none

/-- The turns of the loop on what it reads. -/
def run (s : JsonParser) : List Lexeme → Option JsonParser
  | [] => some s
  | l :: ls =>
    match s.step l with
    | none => none
    | some s => run s ls

@[simp] theorem run_nil (s : JsonParser) : run s [] = some s := rfl

theorem run_cons {s s' : JsonParser} {l : Lexeme} (h : s.step l = some s') (ls : List Lexeme) :
    run s (l :: ls) = run s' ls := by
  rw [run, h]

/-- The loop on a text is the run on what the text spells. -/
theorem parseLoop_of_spells {ls : List Lexeme} {text : Bytes} (h : Spells ls text)
    (hls : NoAdjacentNumbers ls) (s : JsonParser) : parseLoop s text = run s ls := by
  induction h generalizing s with
  | nil => rw [parseLoop, run_nil]
  | space hx h ih => rw [parseLoop, if_pos hx, ih hls]
  | cons hl h ih =>
    obtain ⟨x, tail, rfl, hx, hscan⟩ := hl.scan (h.apart hls)
    rw [List.cons_append, parseLoop, if_neg (Bool.eq_false_iff.mp hx), run]
    split
    · next hnone =>
      rw [hscan] at hnone
      cases hnone
    · next hsome =>
      rw [hscan] at hsome
      cases hsome
      cases s.step _ with
      | none => rfl
      | some s' => exact ih hls.tail s'

/-- Whatever the loop reads to the end is a run on some spelling. -/
theorem spells_of_parseLoop {s s' : JsonParser} {text : Bytes} (h : parseLoop s text = some s') :
    ∃ ls, Spells ls text ∧ run s ls = some s' := by
  fun_induction parseLoop s text with
  | case1 => exact ⟨[], .nil, h⟩
  | case2 s x pos hx ih =>
    obtain ⟨ls, hls, hrun⟩ := ih h
    exact ⟨ls, hls.space hx, hrun⟩
  | case3 => cases h
  | case4 => cases h
  | case5 s x pos _ l rest hscan s₁ hstep ih =>
    obtain ⟨ls, hls, hrun⟩ := ih h
    obtain ⟨word, hword, heq⟩ := spelling_of_scan hscan
    refine ⟨l :: ls, heq ▸ hls.cons hword, ?_⟩
    rw [run_cons hstep, hrun]

end Parse
end Wpa.Json
