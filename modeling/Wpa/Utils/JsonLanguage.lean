import Wpa.Utils.JsonSound

/-! The language of the JSON parser: a value, and behind it any number of further members without
an object around them. -/

namespace Wpa.Json
open Lib

section Documents

/-- A value with members behind it. -/
def document (v : Value) (members : List (Bytes × Value)) : List Entry :=
  (none, v) :: members.map fun m => (some m.1, m.2)

/-- The limits of the parser. -/
structure Within (entries : List Entry) : Prop where
  depth : ∀ e ∈ entries, e.2.depth ≤ jsonMaxDepth
  allocations : entriesAllocations entries ≤ jsonMaxTokens

theorem document_of_levelFits {e : Entry} {before : List Entry} (h : LevelFits [] (e :: before)) :
    ∃ v members, (e :: before).reverse = document v members := by
  induction before generalizing e with
  | nil =>
    obtain ⟨name, v⟩ := e
    have hname : name = none := Option.not_isSome_iff_eq_none.mp (Bool.eq_false_iff.mp h.1.1)
    exact ⟨v, [], by rw [hname]; rfl⟩
  | cons e' before ih =>
    obtain ⟨v, members, hrest⟩ := ih h.2
    obtain ⟨name, w⟩ := e
    obtain ⟨n, rfl⟩ := Option.isSome_iff_exists.mp (show name.isSome = true from h.1.1)
    refine ⟨v, members ++ [(n, w)], ?_⟩
    rw [List.reverse_cons, hrest]
    simp [document]

end Documents

section Accepted
variable {text : Bytes} {tokens : List JsonToken}

theorem allCompleted_foldl (parents : List JsonFrame) (level : List JsonToken) :
    allCompleted (parents.foldl
      (fun level parent => (.node parent.fields level :: parent.before).reverse) level) = true ↔
    allCompleted level = true ∧ ∀ parent ∈ parents, parent.fields.state = .completed ∧
      allCompleted parent.before = true := by
  induction parents generalizing level with
  | nil => simp
  | cons parent parents ih =>
    have hlevel : allCompleted (JsonToken.node parent.fields level :: parent.before).reverse = true ↔
        allCompleted level = true ∧ parent.fields.state = .completed ∧
          allCompleted parent.before = true := by
      rw [allCompleted_reverse, allCompleted, Bool.and_eq_true, JsonToken.completed,
        Bool.and_eq_true, beq_iff_eq, and_assoc]
    rw [List.foldl_cons, ih, hlevel, List.forall_mem_cons, and_assoc]

theorem tree_completed_iff (c : JsonCursor) :
    allCompleted c.tree = true ↔ (c.curr.completed = true ∧ allCompleted c.before = true) ∧
      ∀ parent ∈ c.parents, parent.fields.state = .completed ∧
        allCompleted parent.before = true := by
  rw [JsonCursor.tree, allCompleted_foldl, allCompleted_reverse, allCompleted, Bool.and_eq_true]

theorem JsonCursor.Doomed.tree {c : JsonCursor} (h : c.Doomed) : allCompleted c.tree = false := by
  apply Bool.eq_false_iff.mpr
  intro hcompleted
  obtain ⟨⟨hcurr, hbefore⟩, hparents⟩ := (tree_completed_iff c).mp hcompleted
  have hnone {tokens : List JsonToken} (hall : allCompleted tokens = true) {t : JsonToken}
      (ht : t ∈ tokens) (hfalse : t.completed = false) : False := by
    rw [(allCompleted_iff tokens).mp hall t ht] at hfalse
    cases hfalse
  rcases h with ⟨t, ht, hfalse⟩ | ⟨-, hfalse⟩ | ⟨parent, hparent, t, ht, hfalse⟩
  · exact hnone hbefore ht hfalse
  · rw [hcurr] at hfalse
    cases hfalse
  · exact hnone (hparents parent hparent).2 ht hfalse

theorem tree_done (e : Entry) (before : List Entry) :
    (Draft.cursor ⟨.done e, before, []⟩).tree = (e :: before).reverse.map Entry.token := by
  rw [List.map_reverse]
  rfl

/-- A draft whose tree is complete has no open container and an entry at its end. -/
theorem accepted_draft {d : Draft} (h : d.Fits) (hcompleted : allCompleted d.cursor.tree = true) :
    ∃ e before, d = ⟨.done e, before, []⟩ := by
  obtain ⟨⟨hcurr, -⟩, hparents⟩ := (tree_completed_iff d.cursor).mp hcompleted
  obtain ⟨curr, before, parents⟩ := d
  obtain ⟨e, rfl⟩ := (completed_iff curr).mp hcurr
  cases parents with
  | nil => exact ⟨e, before, rfl⟩
  | cons o parents => cases (hparents o.frame (List.mem_cons_self ..)).1

theorem within_of_fits {e : Entry} {before : List Entry} (h : (Draft.mk (.done e) before []).Fits) :
    Within (e :: before).reverse := by
  have hlevel : LevelFits [] (e :: before) := ⟨h.curr, h.before⟩
  refine ⟨?_, ?_⟩
  · intro e' he'
    have hdepth := depth_of_levelFits hlevel e' (List.mem_reverse.mp he')
    rwa [List.length_nil, Nat.zero_add] at hdepth
  · rw [entriesAllocations, List.map_reverse, List.sum_reverse]
    exact h.allocations

theorem document_of_jsonParse (h : jsonParse text = some tokens) :
    ∃ v members, Spells (entriesLexemes (document v members)) text ∧ Within (document v members) ∧
      tokens = (document v members).map Entry.token := by
  unfold jsonParse at h
  split at h
  · cases h
  next s hloop =>
  obtain ⟨ls, hspells, hrun⟩ := spells_of_parseLoop hloop
  have hfollows := Follows.start.run hrun
  split at h
  · cases h
  next c hc =>
  split at h
  · next hcompleted =>
    cases h
    cases hfollows with
    | start => cases hc
    | doomed hdoomed =>
      obtain ⟨c', hc', hdoomed⟩ := hdoomed
      obtain rfl := Option.some.inj (hc.symm.trans hc')
      rw [hdoomed.tree] at hcompleted
      cases hcompleted
    | draft d hfits =>
      obtain rfl : d.cursor = c := Option.some.inj hc
      obtain ⟨e, before, rfl⟩ := accepted_draft hfits hcompleted
      obtain ⟨v, members, hdoc⟩ := document_of_levelFits (e := e) ⟨hfits.curr, hfits.before⟩
      have hlexemes : (Draft.mk (.done e) before []).lexemes =
          entriesLexemes (document v members) := by
        rw [← hdoc]
        exact (Closes.done e before).lexemes
      have hwithin := within_of_fits hfits
      rw [hdoc] at hwithin
      refine ⟨v, members, ?_, hwithin, ?_⟩
      · rw [← hlexemes]
        exact hspells
      · rw [← hdoc]
        exact tree_done e before
  · cases h

end Accepted

section Complete
variable {s : JsonParser} {d : Draft} {name : Option Bytes} {entries before : List Entry}
  {parents : List Opened} {ls : List Lexeme}

/-- From wherever a value is awaited, the lexemes of `v` fill the current token with it. -/
def Reads (v : Value) : Prop :=
  ∀ (s : JsonParser) (d : Draft) (name : Option Bytes) (ls : List Lexeme), Awaits s d name →
    d.parents.length + v.depth ≤ jsonMaxDepth →
    d.allocations + v.allocations ≤ jsonMaxTokens + 1 →
    run s (v.lexemes ++ ls) = run (d.fill (name, v)).parser ls

theorem reads_scalar (sc : Scalar) : Reads (.scalar sc) := by
  intro s d name ls h _ _
  exact run_cons (h.scalar sc) ls

theorem run_entry {e : Entry} (hv : Reads e.2) (hname : e.1.isSome = true ↔ ¬InArray parents)
    (hdepth : parents.length + e.2.depth ≤ jsonMaxDepth)
    (halloc : (Draft.mk .fresh before parents).allocations + e.2.allocations ≤ jsonMaxTokens + 1)
    (ls : List Lexeme) :
    run (Draft.parser ⟨.fresh, before, parents⟩) (Entry.lexemes e ++ ls) =
      run (Draft.parser ⟨.done e, before, parents⟩) ls := by
  obtain ⟨name, v⟩ := e
  cases name with
  | none =>
    have harray : InArray parents := by
      by_contra hnot
      cases hname.mpr hnot
    exact hv _ _ _ ls (.element harray) hdepth halloc
  | some name =>
    have hnot := hname.mp rfl
    refine (run_cons (step_name hnot name) _).trans ((run_cons (step_colon name) _).trans ?_)
    exact hv _ _ _ ls .member hdepth halloc

/-- A finished entry takes the place of a fresh token. -/
theorem allocations_done (e : Entry) :
    (Draft.mk (.done e) before parents).allocations + 1 =
      (Draft.mk .fresh before parents).allocations + e.2.allocations := by
  unfold Draft.allocations
  simp only [Pending.allocations]
  omega

theorem run_comma {e : Entry}
    (halloc : (Draft.mk (.done e) before parents).allocations + 1 ≤ jsonMaxTokens)
    (ls : List Lexeme) :
    run (Draft.parser ⟨.done e, before, parents⟩) (.comma :: ls) =
      run (Draft.parser ⟨.fresh, e :: before, parents⟩) ls :=
  run_cons ((step_comma_iff e).mpr ⟨halloc, rfl⟩) ls

/-- Entries with commas between, read one after the other. -/
theorem run_entries {e : Entry} (hv : ∀ e' ∈ e :: entries, Reads e'.2)
    (hname : ∀ e' ∈ e :: entries, e'.1.isSome = true ↔ ¬InArray parents)
    (hdepth : ∀ e' ∈ e :: entries, parents.length + e'.2.depth ≤ jsonMaxDepth)
    (halloc : (Draft.mk .fresh before parents).allocations + entriesAllocations (e :: entries) ≤
      jsonMaxTokens + 1) (ls : List Lexeme) :
    ∃ last before', last :: before' = (e :: entries).reverse ++ before ∧
      run (Draft.parser ⟨.fresh, before, parents⟩) (entriesLexemes (e :: entries) ++ ls) =
        run (Draft.parser ⟨.done last, before', parents⟩) ls := by
  induction entries generalizing e before with
  | nil =>
    rw [List.forall_mem_singleton] at hv hname hdepth
    refine ⟨e, before, rfl, ?_⟩
    rw [entriesLexemes_singleton]
    exact run_entry hv hname hdepth halloc ls
  | cons e' entries ih =>
    rw [List.forall_mem_cons] at hv hname hdepth
    have hsum : entriesAllocations (e :: e' :: entries) =
        e.2.allocations + entriesAllocations (e' :: entries) := List.sum_cons
    have hpos : 0 < entriesAllocations (e' :: entries) :=
      Nat.add_pos_left (allocations_pos e'.2) _
    have hdone := @allocations_done before parents e
    have hcomma := @allocations_comma before parents e
    obtain ⟨last, before', heq, hrun⟩ := ih hv.2 hname.2 hdepth.2
      (show (Draft.mk .fresh (e :: before) parents).allocations + _ ≤ _ by omega)
    refine ⟨last, before', ?_, ?_⟩
    · rw [heq]
      simp
    · rw [entriesLexemes_cons_cons, List.append_assoc, List.cons_append,
        run_entry hv.1 hname.1 hdepth.1 (by omega), run_comma (by omega), hrun]

theorem isSome_iff_not_inArray {c : Container} (hlabels : c.Labels entries)
    (name : Option Bytes) (before : List Entry) :
    ∀ e ∈ entries, e.1.isSome = true ↔ ¬InArray (⟨c, name, before⟩ :: parents) := by
  intro e he
  rw [hlabels e he]
  have hin : InArray (⟨c, name, before⟩ :: parents) ↔ c = .array := by
    simp [InArray]
  rw [hin]
  cases c <;> simp [Container.named]

/-- What is left to read of a container once it is open. -/
theorem run_close {c : Container} (hlabels : c.Labels entries) (hv : ∀ e ∈ entries, Reads e.2)
    (name : Option Bytes)
    (hdepth : ∀ e ∈ entries, parents.length + 1 + e.2.depth ≤ jsonMaxDepth)
    (halloc : (Draft.mk .fresh [] (⟨c, name, before⟩ :: parents)).allocations +
      entriesAllocations entries ≤ jsonMaxTokens + 1) (ls : List Lexeme) :
    run (Draft.parser ⟨.fresh, [], ⟨c, name, before⟩ :: parents⟩)
        (entriesLexemes entries ++ .finish c :: ls) =
      run (Draft.parser ⟨.done (name, c.close entries), before, parents⟩) ls := by
  have hlast : ∃ curr before' entries', Closes curr before' entries' ∧ entries'.reverse = entries ∧
      run (Draft.parser ⟨.fresh, [], ⟨c, name, before⟩ :: parents⟩)
          (entriesLexemes entries ++ .finish c :: ls) =
        run (Draft.parser ⟨curr, before', ⟨c, name, before⟩ :: parents⟩) (.finish c :: ls) := by
    cases entries with
    | nil => exact ⟨_, _, _, .fresh, rfl, rfl⟩
    | cons e entries =>
      obtain ⟨last, before', heq, hrun⟩ := run_entries hv
        (isSome_iff_not_inArray hlabels name before) hdepth halloc (.finish c :: ls)
      refine ⟨_, _, _, .done last before', ?_, hrun⟩
      rw [heq, List.append_nil, List.reverse_reverse]
  obtain ⟨curr, before', entries', hcloses, rfl, hrun⟩ := hlast
  rw [hrun]
  exact run_cons (hcloses.finish ⟨c, name, before⟩ hlabels) ls

theorem reads_close {c : Container} (hlabels : c.Labels entries) (hv : ∀ e ∈ entries, Reads e.2) :
    Reads (c.close entries) := by
  intro s d name ls h hdepth halloc
  rw [depth_close hlabels] at hdepth
  rw [allocations_close hlabels] at halloc
  have hdepths : ∀ e ∈ entries, d.parents.length + 1 + e.2.depth ≤ jsonMaxDepth := by
    intro e he
    have hmax := (depth_le_iff entries).mp le_rfl e he
    omega
  have hsum : 1 ≤ (if entries = [] then 1 else (entries.map fun e => e.2.allocations).sum) ∧
      entriesAllocations entries ≤
        if entries = [] then 1 else (entries.map fun e => e.2.allocations).sum := by
    split
    · next hnil =>
      rw [hnil]
      exact ⟨le_rfl, Nat.zero_le _⟩
    · next hne =>
      obtain ⟨e, rest, rfl⟩ := List.exists_cons_of_ne_nil hne
      exact ⟨Nat.add_pos_left (allocations_pos e.2) _, le_rfl⟩
  have hstart : s.step (.start c) = some (d.start c name).parser :=
    (h.start_iff c).mpr ⟨by omega, by omega, rfl⟩
  have hopened := h.allocations_start c
  rw [lexemes_close hlabels, List.cons_append, List.append_assoc, run_cons hstart]
  apply run_close hlabels hv name hdepths
  change (d.start c name).allocations + _ ≤ _
  omega

theorem reads (v : Value) : Reads v := by
  induction v using Value.close_induction with
  | scalar sc => exact reads_scalar sc
  | close c entries hlabels ih => exact reads_close hlabels ih

/-- A document within the limits is read to its end. -/
theorem run_document (v : Value) (members : List (Bytes × Value)) (h : Within (document v members)) :
    ∃ last before, last :: before = (document v members).reverse ∧
      run {} (entriesLexemes (document v members)) =
        some (Draft.parser ⟨.done last, before, []⟩) := by
  have hsum : v.allocations + entriesAllocations (members.map fun m => (some m.1, m.2)) ≤
      jsonMaxTokens := h.allocations
  have hdepth : ∀ e ∈ document v members, ([] : List Opened).length + e.2.depth ≤ jsonMaxDepth :=
    fun e he => (Nat.zero_add _).trans_le (h.depth e he)
  have hfirst (ls : List Lexeme) : run {} (Entry.lexemes (none, v) ++ ls) =
      run (Draft.parser ⟨.done (none, v), [], []⟩) ls := by
    apply reads v {} _ none ls .first (hdepth _ (List.mem_cons_self ..))
    change 1 + _ ≤ _
    omega
  cases members with
  | nil =>
    refine ⟨(none, v), [], rfl, ?_⟩
    have hrun := hfirst []
    rw [List.append_nil] at hrun
    rw [document, List.map_nil, entriesLexemes_singleton, hrun, run_nil]
  | cons m members =>
    have hnames : ∀ e ∈ (m :: members).map fun m => ((some m.1, m.2) : Entry),
        e.1.isSome = true ↔ ¬InArray [] := by
      intro e he
      obtain ⟨m, -, rfl⟩ := List.mem_map.mp he
      exact iff_of_true rfl fun ⟨_, h, _⟩ => by cases h
    have hpos := allocations_pos m.2
    have hcons : entriesAllocations ((m :: members).map fun m => (some m.1, m.2)) =
        m.2.allocations + entriesAllocations (members.map fun m => (some m.1, m.2)) := List.sum_cons
    have hone : (Draft.mk (.done (none, v)) [] []).allocations = v.allocations := rfl
    have hcomma := @allocations_comma [] [] (none, v)
    rw [List.map_cons] at hsum hcons hnames
    obtain ⟨last, before, heq, hrun⟩ := run_entries (fun e _ => reads e.2) hnames
      (fun e he => hdepth e (List.mem_cons_of_mem _ he))
      (show (Draft.mk .fresh [(none, v)] []).allocations + _ ≤ _ by omega) []
    refine ⟨last, before, ?_, ?_⟩
    · rw [heq, document]
      simp
    · rw [List.append_nil] at hrun
      rw [document, List.map_cons, entriesLexemes_cons_cons, hfirst, run_comma (by omega), hrun,
        run_nil]

theorem jsonParse_of_document {v : Value} {members : List (Bytes × Value)} {text : Bytes}
    (hspells : Spells (entriesLexemes (document v members)) text)
    (h : Within (document v members)) :
    jsonParse text = some ((document v members).map Entry.token) := by
  obtain ⟨last, before, heq, hrun⟩ := run_document v members h
  have hnumbers := NoAdjacentNumbers.entries fun e (_ : e ∈ document v members) =>
    noAdjacentNumbers_lexemes e.2
  have htree : (Draft.cursor ⟨.done last, before, []⟩).tree =
      (document v members).map Entry.token := by
    rw [tree_done, heq, List.reverse_reverse]
  have hcompleted : allCompleted ((document v members).map Entry.token) = true := by
    rw [allCompleted_iff]
    intro t ht
    obtain ⟨e, -, rfl⟩ := List.mem_map.mp ht
    exact token_completed e.2 e.1
  unfold jsonParse
  rw [parseLoop_of_spells hspells hnumbers, hrun]
  dsimp only [Draft.parser]
  rw [htree, if_pos hcompleted]

/-- The language of the parser and what it makes of it. -/
theorem jsonParse_iff {text : Bytes} {tokens : List JsonToken} :
    jsonParse text = some tokens ↔
      ∃ v members, Spells (entriesLexemes (document v members)) text ∧
        Within (document v members) ∧ tokens = (document v members).map Entry.token := by
  constructor
  · exact document_of_jsonParse
  · rintro ⟨v, members, hspells, hwithin, rfl⟩
    exact jsonParse_of_document hspells hwithin

end Complete

section Grammar
variable {text : Bytes}

/-- The text is the value `v` with white space around it and between its parts, nested at most ten
times, with at most 500 allocations. -/
structure InGrammar (v : Value) (text : Bytes) : Prop where
  spells : Spells v.lexemes text
  depth : v.depth ≤ jsonMaxDepth
  allocations : v.allocations ≤ jsonMaxTokens

/-- The parser accepts exactly the texts of the grammar, and reads the tree of the value. -/
def MeetsGrammar (text : Bytes) : Prop :=
  ((∃ tokens, jsonParse text = some tokens) ↔ ∃ v, InGrammar v text) ∧
    ∀ tokens, jsonParse text = some tokens → ∃ v, InGrammar v text ∧ tokens = [v.token none]

/-- Behind a value there are members, with commas before them, all within the limits. -/
def MembersBehind (text : Bytes) : Prop :=
  ∃ v members, members ≠ [] ∧ Spells (entriesLexemes (document v members)) text ∧
    Within (document v members)

theorem inGrammar_iff {v : Value} : InGrammar v text ↔
    Spells (entriesLexemes (document v [])) text ∧ Within (document v []) := by
  have hlexemes : entriesLexemes (document v []) = v.lexemes := entriesLexemes_singleton _
  have halloc : entriesAllocations (document v []) = v.allocations := Nat.add_zero _
  constructor
  · intro h
    exact ⟨hlexemes ▸ h.spells, List.forall_mem_singleton.mpr h.depth, halloc.trans_le h.allocations⟩
  · rintro ⟨hspells, hwithin⟩
    exact ⟨hlexemes ▸ hspells, hwithin.depth _ (List.mem_singleton_self _),
      halloc.symm.trans_le hwithin.allocations⟩

theorem jsonParse_of_inGrammar {v : Value} (h : InGrammar v text) :
    jsonParse text = some [v.token none] := by
  obtain ⟨hspells, hwithin⟩ := inGrammar_iff.mp h
  exact jsonParse_of_document hspells hwithin

/-- The tree of a text with members behind its value has more than one root. -/
theorem not_meetsGrammar (h : MembersBehind text) : ¬MeetsGrammar text := by
  obtain ⟨v, members, hne, hspells, hwithin⟩ := h
  rintro ⟨-, htree⟩
  obtain ⟨w, -, heq⟩ := htree _ (jsonParse_of_document hspells hwithin)
  have hlen := congrArg List.length heq
  rw [List.length_map, document, List.length_cons, List.length_map, List.length_singleton] at hlen
  exact hne (List.eq_nil_of_length_eq_zero (Nat.succ_inj.mp hlen))

/-- The text `1,"a":2`. -/
def memberBehind : Bytes :=
  ['1'.toUInt8, ','.toUInt8, quote, 'a'.toUInt8, quote, ':'.toUInt8, '2'.toUInt8]

end Grammar
end Wpa.Json
