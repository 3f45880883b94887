import Wpa.Utils.JsonDraft

/-! What the parser accepts is spelled by the grammar: every turn keeps a draft that has read all of
the text so far, or an incomplete token where the current token never comes again. -/

namespace Wpa.Json
open Lib

section Fits

/-- Entries have names in an object, and at the top behind the first. -/
def position : List Opened → List Entry → Bool
  | [], before => !before.isEmpty
  | o :: _, _ => o.container.named

def EntryFits (parents : List Opened) (before : List Entry) (e : Entry) : Prop :=
  e.1.isSome = position parents before ∧ parents.length + e.2.depth ≤ jsonMaxDepth

def LevelFits (parents : List Opened) : List Entry → Prop
  | [] => True
  | e :: before => EntryFits parents before e ∧ LevelFits parents before

def ParentsFit : List Opened → Prop
  | [] => True
  | o :: parents => o.name.isSome = position parents o.before ∧ LevelFits parents o.before ∧
      ParentsFit parents

def Pending.Fits (parents : List Opened) (before : List Entry) : Pending → Prop
  | .fresh => InArray parents ∨ position parents before = true
  | .named _ => position parents before = true
  | .waiting _ => position parents before = true
  | .done e => EntryFits parents before e

structure Draft.Fits (d : Draft) : Prop where
  depth : d.parents.length ≤ jsonMaxDepth
  allocations : d.allocations ≤ jsonMaxTokens
  curr : d.curr.Fits d.parents d.before
  before : LevelFits d.parents d.before
  parents : ParentsFit d.parents

variable {s : JsonParser} {d : Draft} {name : Option Bytes} {before entries : List Entry}
  {parents : List Opened}

theorem position_inArray (h : InArray parents) (before : List Entry) :
    position parents before = false := by
  obtain ⟨o, ho, harray⟩ := h
  cases parents with
  | nil => cases ho
  | cons o' parents =>
    obtain rfl : o' = o := Option.some.inj ho
    rw [position, harray]
    rfl

theorem inArray_or_position (o : Opened) (before : List Entry) :
    InArray (o :: parents) ∨ position (o :: parents) before = true := by
  obtain ⟨c, name, _⟩ := o
  cases c with
  | array => exact .inl ⟨_, rfl, rfl⟩
  | object => exact .inr rfl

theorem Awaits.position (h : Awaits s d name)
    (hcurr : s = {} ∨ d.curr.Fits d.parents d.before) :
    name.isSome = Json.position d.parents d.before := by
  cases h with
  | first => rfl
  | member =>
    rcases hcurr with h | h
    · cases h
    · exact h.symm
  | element harray => exact (position_inArray harray _).symm

theorem labels_of_levelFits {o : Opened} (h : LevelFits (o :: parents) entries) :
    o.container.Labels entries.reverse := by
  intro e he
  rw [List.mem_reverse] at he
  induction entries with
  | nil => cases he
  | cons e' entries ih =>
    rcases List.mem_cons.mp he with rfl | he
    · exact h.1.1
    · exact ih h.2 he

theorem depth_of_levelFits (h : LevelFits parents entries) :
    ∀ e ∈ entries, parents.length + e.2.depth ≤ jsonMaxDepth := by
  intro e he
  induction entries with
  | nil => cases he
  | cons e' entries ih =>
    rcases List.mem_cons.mp he with rfl | he
    · exact h.1.2
    · exact ih h.2 he

end Fits

section Lexemes
variable {s : JsonParser} {d : Draft} {name : Option Bytes} {before entries : List Entry}
  {parents : List Opened}

theorem Awaits.lexemes (h : Awaits s d name) : d.curr.lexemes = nameLexemes name := by
  cases h <;> rfl

theorem Awaits.lexemes_fill (h : Awaits s d name) (v : Value) :
    (d.fill (name, v)).lexemes = d.lexemes ++ v.lexemes := by
  unfold Draft.lexemes
  rw [h.lexemes]
  exact (List.append_assoc _ _ _).symm

theorem Awaits.lexemes_start (h : Awaits s d name) (c : Container) :
    (d.start c name).lexemes = d.lexemes ++ [.start c] := by
  unfold Draft.lexemes Draft.start
  rw [h.lexemes, List.reverse_cons, List.flatMap_append]
  simp [Opened.lexemes, levelLexemes, Pending.lexemes]

theorem lexemes_comma (e : Entry) (before : List Entry) (parents : List Opened) :
    (Draft.mk .fresh (e :: before) parents).lexemes =
      (Draft.mk (.done e) before parents).lexemes ++ [.comma] := by
  simp [Draft.lexemes, levelLexemes, Pending.lexemes]

theorem entriesLexemes_append (entries : List Entry) (e : Entry) :
    entriesLexemes (entries ++ [e]) =
      (entries.flatMap fun e => Entry.lexemes e ++ [.comma]) ++ Entry.lexemes e := by
  induction entries with
  | nil => exact entriesLexemes_singleton e
  | cons e' entries ih =>
    obtain ⟨e'', rest, hrest⟩ := List.exists_cons_of_ne_nil
      (List.append_ne_nil_of_right_ne_nil entries (List.cons_ne_nil e []))
    rw [List.cons_append, hrest, entriesLexemes_cons_cons, ← hrest, ih, List.flatMap_cons]
    simp

theorem Closes.lexemes {curr : Pending} (h : Closes curr before entries) :
    levelLexemes before ++ curr.lexemes = entriesLexemes entries.reverse := by
  cases h with
  | fresh => rfl
  | done e =>
    rw [List.reverse_cons, entriesLexemes_append]
    rfl

theorem Closes.lexemes_finish {curr : Pending} (h : Closes curr before entries) (o : Opened)
    (hlabels : o.container.Labels entries.reverse) :
    (Draft.mk (.done (o.name, o.container.close entries.reverse)) o.before parents).lexemes =
      (Draft.mk curr before (o :: parents)).lexemes ++ [.finish o.container] := by
  unfold Draft.lexemes
  rw [List.append_assoc _ (levelLexemes before), h.lexemes, Pending.lexemes, Entry.lexemes,
    lexemes_close hlabels]
  simp [Opened.lexemes]

end Lexemes

section Doomed

/-- A token that is not complete stands where the current token never comes again. -/
def JsonCursor.Doomed (c : JsonCursor) : Prop :=
  (∃ t ∈ c.before, t.completed = false) ∨ (c.state = .completed ∧ c.curr.completed = false) ∨
    ∃ parent ∈ c.parents, ∃ t ∈ parent.before, t.completed = false

def JsonParser.Doomed (s : JsonParser) : Prop := ∃ c, s.currToken = some c ∧ c.Doomed

variable {s s' : JsonParser} {c : JsonCursor} {l : Lexeme}

theorem valueToken_eq_some {t : JsonParser} {c' : JsonCursor} (hs : s.currToken = some c)
    (h : s.valueToken = some (c', t)) : c' = c ∧ t = s ∧ c.state ≠ .completed := by
  unfold JsonParser.valueToken at h
  rw [hs] at h
  dsimp only at h
  split at h
  · next hor =>
    cases h
    refine ⟨rfl, rfl, ?_⟩
    intro hcompleted
    rcases hor with hwaiting | ⟨_, _, _, _, hempty⟩
    · rw [hcompleted] at hwaiting
      cases hwaiting
    · rw [hcompleted] at hempty
      cases hempty
  · cases h

theorem JsonCursor.Doomed.setFields (h : c.Doomed) (hc : c.state ≠ .completed)
    (fields : JsonFields) : (c.setFields fields).Doomed := by
  rcases h with h | h | h
  · exact .inl h
  · exact absurd h.1 hc
  · exact .inr (.inr h)

theorem mem_closeChildren {t : JsonToken} {children : List JsonToken} (ht : t ∈ children)
    (h : t.fields.state ≠ .empty ∨ 2 ≤ children.length) : t ∈ closeChildren children := by
  unfold closeChildren
  split
  · next child =>
    obtain rfl := List.mem_singleton.mp ht
    rw [if_neg]
    · exact ht
    · rintro ⟨hempty, -⟩
      rcases h with h | h
      · exact h hempty
      · exact absurd h (by simp)
  · exact ht

/-- A container that ends with an incomplete child is incomplete itself. -/
theorem not_completed_node {t : JsonToken} {children : List JsonToken} (fields : JsonFields)
    (ht : t ∈ children) (h : t.completed = false) :
    (JsonToken.node fields children).completed = false := by
  apply Bool.eq_false_iff.mpr
  intro hcompleted
  rw [JsonToken.completed, Bool.and_eq_true, allCompleted_iff] at hcompleted
  rw [hcompleted.1 t ht] at h
  cases h

theorem doomed_start (hs : s.currToken = some c) (hc : c.Doomed) {type : JsonType}
    (h : s.startContainer type = some s') : s'.Doomed := by
  unfold JsonParser.startContainer at h
  split at h
  · cases h
  · next c' t hvalue =>
    obtain ⟨rfl, rfl, hstate⟩ := valueToken_eq_some hs hvalue
    split at h
    · cases h
    · split at h
      · cases h
      · cases h
        refine ⟨_, rfl, .inr (.inr ?_)⟩
        rcases hc with ⟨t, ht, hfalse⟩ | hcurr | ⟨parent, hparent, t, ht, hfalse⟩
        · exact ⟨_, List.mem_cons_self .., t, ht, hfalse⟩
        · exact absurd hcurr.1 hstate
        · exact ⟨parent, List.mem_cons_of_mem _ hparent, t, ht, hfalse⟩

theorem doomed_finish (hs : s.currToken = some c) (hc : c.Doomed) {type : JsonType}
    (h : s.endContainer type = some s') : s'.Doomed := by
  unfold JsonParser.endContainer at h
  rw [hs] at h
  dsimp only at h
  split at h
  · cases h
  · next parent parents hparents =>
    split at h
    · cases h
    · split at h
      · cases h
      · cases h
        refine ⟨_, rfl, ?_⟩
        rcases hc with ⟨t, ht, hfalse⟩ | ⟨hstate, hfalse⟩ | ⟨p, hp, t, ht, hfalse⟩
        · refine .inr (.inl ⟨rfl, not_completed_node _ (mem_closeChildren ?_ (.inr ?_)) hfalse⟩)
          · exact List.mem_reverse.mpr (List.mem_cons_of_mem _ ht)
          · rw [List.length_reverse, List.length_cons]
            exact Nat.succ_le_succ (List.length_pos_of_mem ht)
        · refine .inr (.inl ⟨rfl, not_completed_node _ (mem_closeChildren ?_ (.inl ?_)) hfalse⟩)
          · exact List.mem_reverse.mpr (List.mem_cons_self ..)
          · rw [show c.curr.fields.state = .completed from hstate]
            intro h
            cases h
        · rw [hparents] at hp
          rcases List.mem_cons.mp hp with rfl | hp
          · exact .inl ⟨t, ht, hfalse⟩
          · exact .inr (.inr ⟨p, hp, t, ht, hfalse⟩)

/-- A string is a name or a value, and fills the current token. -/
theorem string_cases (hs : s.currToken = some c) {str : Bytes} (h : s.string str = some s') :
    (c.state = .empty ∨ c.state = .waitingValue) ∧
      ∃ fields, s' = s.setCurr (c.setFields fields) := by
  unfold JsonParser.string at h
  rw [hs] at h
  dsimp only at h
  split at h
  · next harray =>
    obtain ⟨_, _, _, _, hempty⟩ := harray
    exact ⟨.inl hempty, _, (Option.some.inj h).symm⟩
  · split at h
    · next hempty => exact ⟨.inl hempty, _, (Option.some.inj h).symm⟩
    · split at h
      · next hwaiting => exact ⟨.inr hwaiting, _, (Option.some.inj h).symm⟩
      · cases h

theorem doomed_string (hs : s.currToken = some c) (hc : c.Doomed) {str : Bytes}
    (h : s.string str = some s') : s'.Doomed := by
  obtain ⟨hstate, fields, rfl⟩ := string_cases hs h
  refine ⟨_, rfl, hc.setFields ?_ fields⟩
  intro hcompleted
  rw [hcompleted] at hstate
  rcases hstate with hempty | hwaiting
  · cases hempty
  · cases hwaiting

theorem doomed_colon (hs : s.currToken = some c) (hc : c.Doomed) (h : s.colon = some s') :
    s'.Doomed := by
  unfold JsonParser.colon at h
  rw [hs] at h
  dsimp only at h
  split at h
  · cases h
  · next hstarted =>
    cases h
    exact ⟨_, rfl, hc.setFields (by rw [not_not.mp hstarted]; simp) _⟩

theorem doomed_comma (hs : s.currToken = some c) (h : s.comma = some s')
    (hc : c.curr.completed = false ∨ c.Doomed) : s'.Doomed := by
  unfold JsonParser.comma at h
  rw [hs] at h
  obtain ⟨t, -, rfl⟩ := Option.map_eq_some_iff.mp h
  refine ⟨_, rfl, ?_⟩
  rcases hc with hfalse | ⟨t, ht, hfalse⟩ | ⟨-, hfalse⟩ | hparents
  · exact .inl ⟨_, List.mem_cons_self .., hfalse⟩
  · exact .inl ⟨t, List.mem_cons_of_mem _ ht, hfalse⟩
  · exact .inl ⟨_, List.mem_cons_self .., hfalse⟩
  · exact .inr (.inr hparents)

/-- Filling the current token with a value leaves the incomplete one behind. -/
theorem doomed_value (hs : s.currToken = some c) (hc : c.Doomed) (store : JsonFields → JsonFields)
    (h : (s.valueToken.map fun (c, s) => s.setCurr (c.setFields (store c.curr.fields))) = some s') :
    s'.Doomed := by
  obtain ⟨⟨c', t⟩, hvalue, rfl⟩ := Option.map_eq_some_iff.mp h
  obtain ⟨rfl, rfl, hstate⟩ := valueToken_eq_some hs hvalue
  exact ⟨_, rfl, hc.setFields hstate _⟩

theorem JsonParser.Doomed.step (h : s.Doomed) (hstep : s.step l = some s') : s'.Doomed := by
  obtain ⟨c, hs, hc⟩ := h
  cases l with
  | start container => exact doomed_start hs hc hstep
  | finish container => exact doomed_finish hs hc hstep
  | string str => exact doomed_string hs hc hstep
  | colon => exact doomed_colon hs hc hstep
  | comma => exact doomed_comma hs hstep (.inr hc)
  | literal name => exact doomed_value hs hc (fun fields => name.store fields) hstep
  | number num =>
    exact doomed_value hs hc
      (fun fields => { fields with number := num, state := .completed, type := .number }) hstep

end Doomed

section Steps
variable {s s' : JsonParser} {d : Draft} {name : Option Bytes} {l : Lexeme} {ls : List Lexeme}
  {before entries : List Entry} {parents : List Opened}

/-- Where the parser stands after `ls`. -/
inductive Follows : JsonParser → List Lexeme → Prop
  | start : Follows {} []
  | draft (d : Draft) (h : d.Fits) : Follows d.parser d.lexemes
  | doomed {s : JsonParser} (h : s.Doomed) (ls : List Lexeme) : Follows s ls

/-- What the current token can be filled with lies within the limits. -/
theorem Awaits.follows_fill (h : Awaits s d name)
    (hcurr : s = {} ∨ d.curr.Fits d.parents d.before) (hdepth : d.parents.length ≤ jsonMaxDepth)
    (halloc : d.allocations ≤ jsonMaxTokens) (hbefore : LevelFits d.parents d.before)
    (hparents : ParentsFit d.parents) (sc : Scalar) :
    Follows (d.fill (name, .scalar sc)).parser (d.lexemes ++ [sc.lexeme]) := by
  have hlexemes := h.lexemes_fill (.scalar sc)
  rw [show (Value.scalar sc).lexemes = [sc.lexeme] from rfl] at hlexemes
  rw [← hlexemes]
  apply Follows.draft
  refine ⟨hdepth, ?_, ⟨h.position hcurr, hdepth⟩, hbefore, hparents⟩
  have hsame : (d.fill (name, .scalar sc)).allocations = d.allocations :=
    (congrArg (· + _ + _) h.allocations).symm
  rw [hsame]
  exact halloc

theorem Awaits.follows_start (h : Awaits s d name)
    (hcurr : s = {} ∨ d.curr.Fits d.parents d.before) (hbefore : LevelFits d.parents d.before)
    (hparents : ParentsFit d.parents) {c : Container} (hstep : s.step (.start c) = some s') :
    Follows s' (d.lexemes ++ [.start c]) := by
  obtain ⟨hdepth, halloc, rfl⟩ := (h.start_iff c).mp hstep
  rw [← h.lexemes_start c]
  apply Follows.draft
  refine ⟨hdepth, ?_, inArray_or_position _ _, trivial, h.position hcurr, hbefore, hparents⟩
  rw [h.allocations_start c]
  exact halloc

/-- A turn that reads a value. -/
theorem Awaits.follows (h : Awaits s d name)
    (hcurr : s = {} ∨ d.curr.Fits d.parents d.before) (hdepth : d.parents.length ≤ jsonMaxDepth)
    (halloc : d.allocations ≤ jsonMaxTokens) (hbefore : LevelFits d.parents d.before)
    (hparents : ParentsFit d.parents) (hl : (∃ c, l = .start c) ∨ ∃ sc : Scalar, l = sc.lexeme)
    (hstep : s.step l = some s') : Follows s' (d.lexemes ++ [l]) := by
  rcases hl with ⟨c, rfl⟩ | ⟨sc, rfl⟩
  · exact h.follows_start hcurr hbefore hparents hstep
  · rw [h.scalar sc] at hstep
    cases hstep
    exact h.follows_fill hcurr hdepth halloc hbefore hparents sc

theorem follows_of_begin (hstep : JsonParser.step {} l = some s') : Follows s' [l] := by
  have hvalue := fun hl => Awaits.first.follows (.inl rfl) (Nat.zero_le _) (by decide) trivial
    trivial hl hstep
  cases l with
  | start c => exact hvalue (.inl ⟨c, rfl⟩)
  | string str => exact hvalue (.inr ⟨.string str, rfl⟩)
  | literal name => exact hvalue (.inr ⟨.literal name, rfl⟩)
  | number num => exact hvalue (.inr ⟨.number num, rfl⟩)
  | finish c => cases hstep
  | colon => cases hstep
  | comma => cases hstep

/-- Everything but a finished entry is incomplete. -/
theorem completed_iff (curr : Pending) : curr.token.completed = true ↔ ∃ e, curr = .done e := by
  cases curr with
  | fresh => exact iff_of_false (by decide) fun ⟨_, h⟩ => by cases h
  | named name => exact iff_of_false Bool.false_ne_true fun ⟨_, h⟩ => by cases h
  | waiting name => exact iff_of_false Bool.false_ne_true fun ⟨_, h⟩ => by cases h
  | done e => exact iff_of_true (token_completed e.2 e.1) ⟨e, rfl⟩

theorem Closes.fits {curr : Pending} {o : Opened} (hcloses : Closes curr before entries)
    (h : (Draft.mk curr before (o :: parents)).Fits) (hlabels : o.container.Labels entries.reverse) :
    (Draft.mk (.done (o.name, o.container.close entries.reverse)) o.before parents).Fits := by
  have hlength : parents.length + 1 ≤ jsonMaxDepth := h.depth
  have hdepth : ∀ e ∈ entries, parents.length + 1 + e.2.depth ≤ jsonMaxDepth := by
    cases hcloses with
    | fresh =>
      intro e he
      cases he
    | done e =>
      have hlevel : LevelFits (o :: parents) (e :: before) := ⟨h.curr, h.before⟩
      exact depth_of_levelFits hlevel
  have hmax := (depth_le_iff (n := jsonMaxDepth - (parents.length + 1)) entries.reverse).mpr
    fun e he => Nat.le_sub_of_add_le' (hdepth e (List.mem_reverse.mp he))
  refine ⟨Nat.le_of_succ_le hlength, ?_, ⟨h.parents.1, ?_⟩, h.parents.2.1, h.parents.2.2⟩
  · rw [← hcloses.allocations_finish o hlabels]
    exact h.allocations
  · rw [depth_close hlabels]
    change parents.length + _ ≤ _
    omega

/-- A container that ends with a pending child behind others, or with half a member. -/
theorem doomed_of_not_closes {curr : Pending} (hcloses : ¬∃ entries, Closes curr before entries)
    {fields : JsonFields} (hfields : fields.state = .completed) (siblings : List JsonToken)
    (frames : List JsonFrame) :
    (JsonCursor.mk (.node fields (closeChildren (curr.token :: before.map Entry.token).reverse))
      siblings frames).Doomed := by
  refine .inr (.inl ⟨hfields, ?_⟩)
  have hmem : curr.token ∈ (curr.token :: before.map Entry.token).reverse :=
    List.mem_reverse.mpr (List.mem_cons_self ..)
  apply not_completed_node _ (mem_closeChildren hmem ?_)
  · apply Bool.eq_false_iff.mpr
    intro hcompleted
    obtain ⟨e, rfl⟩ := (completed_iff curr).mp hcompleted
    exact hcloses ⟨_, .done e before⟩
  · cases curr with
    | fresh =>
      rcases before with - | ⟨e, before⟩
      · exact absurd ⟨_, .fresh⟩ hcloses
      · exact .inr (by simp)
    | named => exact .inl fun h => by cases h
    | waiting => exact .inl fun h => by cases h
    | done e => exact absurd ⟨_, .done e before⟩ hcloses

theorem Draft.Fits.follows_finish (h : d.Fits) {c : Container}
    (hstep : d.parser.step (.finish c) = some s') : Follows s' (d.lexemes ++ [.finish c]) := by
  obtain ⟨curr, before, parents⟩ := d
  cases parents with
  | nil => cases hstep
  | cons o parents =>
    have hraw := (endContainer_draft curr o c.type).symm.trans hstep
    split at hraw
    · cases hraw
    next htype =>
    have hc : o.container = c := by
      revert htype
      cases o.container <;> cases c <;> simp [Container.type]
    subst hc
    by_cases hcloses : ∃ entries, Closes curr before entries
    · obtain ⟨entries, hcloses⟩ := hcloses
      have hlevel : LevelFits (o :: parents) entries := by
        cases hcloses with
        | fresh => trivial
        | done e => exact ⟨h.curr, h.before⟩
      have hlabels := labels_of_levelFits hlevel
      rw [hcloses.finish o hlabels] at hstep
      cases hstep
      rw [← hcloses.lexemes_finish o hlabels]
      exact .draft _ (hcloses.fits h hlabels)
    · cases hraw
      exact .doomed ⟨_, rfl, doomed_of_not_closes hcloses rfl _ _⟩ _

theorem Draft.Fits.follows_string (h : d.Fits) {str : Bytes}
    (hstep : d.parser.step (.string str) = some s') : Follows s' (d.lexemes ++ [.string str]) := by
  have hvalue {name : Option Bytes} (ha : Awaits d.parser d name) :=
    ha.follows (.inr h.curr) h.depth h.allocations h.before h.parents
      (.inr ⟨.string str, rfl⟩) hstep
  have hstate := (string_cases d.parser_currToken hstep).1
  rw [cursor_state] at hstate
  obtain ⟨curr, before, parents⟩ := d
  cases curr with
  | waiting name => exact hvalue .member
  | fresh =>
    by_cases harray : InArray parents
    · exact hvalue (.element harray)
    · rw [step_name harray] at hstep
      cases hstep
      have hlexemes : (Draft.mk .fresh before parents).lexemes ++ [.string str] =
          (Draft.mk (.named str) before parents).lexemes := by
        simp [Draft.lexemes, Pending.lexemes]
      rw [hlexemes]
      exact .draft _ ⟨h.depth, h.allocations, h.curr.resolve_left harray, h.before, h.parents⟩
  | named name => rcases hstate with h | h <;> cases h
  | done e => rcases hstate with h | h <;> cases h

theorem Draft.Fits.follows_colon (h : d.Fits) (hstep : d.parser.step .colon = some s') :
    Follows s' (d.lexemes ++ [.colon]) := by
  have hstate : d.cursor.state = .started := by
    by_contra hne
    have hnone := (if_pos hne).symm.trans hstep
    cases hnone
  rw [cursor_state] at hstate
  obtain ⟨curr, before, parents⟩ := d
  cases curr with
  | named name =>
    rw [step_colon] at hstep
    cases hstep
    have hlexemes : (Draft.mk (.named name) before parents).lexemes ++ [.colon] =
        (Draft.mk (.waiting name) before parents).lexemes := by
      simp [Draft.lexemes, Pending.lexemes]
    rw [hlexemes]
    exact .draft _ ⟨h.depth, h.allocations, h.curr, h.before, h.parents⟩
  | fresh => cases hstate
  | waiting name => cases hstate
  | done e => cases hstate

theorem Draft.Fits.follows_comma (h : d.Fits) (hstep : d.parser.step .comma = some s') :
    Follows s' (d.lexemes ++ [.comma]) := by
  obtain ⟨curr, before, parents⟩ := d
  by_cases hdone : ∃ e, curr = .done e
  · obtain ⟨e, rfl⟩ := hdone
    obtain ⟨halloc, rfl⟩ := (step_comma_iff e).mp hstep
    rw [← lexemes_comma]
    refine .draft _ ⟨h.depth, ?_, ?_, ⟨h.curr, h.before⟩, h.parents⟩
    · rw [allocations_comma]
      exact halloc
    · cases parents with
      | nil => exact .inr rfl
      | cons o parents => exact inArray_or_position o _
  · refine .doomed (doomed_comma (Draft.parser_currToken _) hstep (.inl ?_)) _
    exact Bool.eq_false_iff.mpr fun hcompleted => hdone ((completed_iff curr).mp hcompleted)

/-- One turn. -/
theorem Follows.step (h : Follows s ls) (hstep : s.step l = some s') : Follows s' (ls ++ [l]) := by
  cases h with
  | start => exact follows_of_begin hstep
  | doomed h => exact .doomed (h.step hstep) _
  | draft d h =>
    have hvalue {c : JsonCursor} {t : JsonParser} (hl : (∃ c, l = .start c) ∨ ∃ sc : Scalar, l = sc.lexeme)
        (hv : d.parser.valueToken = some (c, t)) : Follows s' (d.lexemes ++ [l]) := by
      obtain ⟨name, ha⟩ := awaits_of_valueToken hv
      exact ha.follows (.inr h.curr) h.depth h.allocations h.before h.parents hl hstep
    cases l with
    | start c =>
      rcases hv : d.parser.valueToken with - | ⟨c', t⟩
      · unfold JsonParser.step JsonParser.startContainer at hstep
        rw [hv] at hstep
        cases hstep
      · exact hvalue (.inl ⟨c, rfl⟩) hv
    | finish c => exact h.follows_finish hstep
    | string str => exact h.follows_string hstep
    | colon => exact h.follows_colon hstep
    | comma => exact h.follows_comma hstep
    | literal name =>
      obtain ⟨⟨c', t⟩, hv, -⟩ := Option.map_eq_some_iff.mp hstep
      exact hvalue (.inr ⟨.literal name, rfl⟩) hv
    | number num =>
      obtain ⟨⟨c', t⟩, hv, -⟩ := Option.map_eq_some_iff.mp hstep
      exact hvalue (.inr ⟨.number num, rfl⟩) hv

/-- The whole loop. -/
theorem Follows.run {ls' : List Lexeme} (h : Follows s ls) (hrun : run s ls' = some s') :
    Follows s' (ls ++ ls') := by
  induction ls' generalizing s ls with
  | nil =>
    cases hrun
    rwa [List.append_nil]
  | cons l ls' ih =>
    rw [Json.run] at hrun
    split at hrun
    · cases hrun
    · next s₁ hstep =>
      have hrest := ih (h.step hstep) hrun
      rwa [List.append_assoc] at hrest

end Steps
end Wpa.Json
