import Mathlib.Data.Finset.Card
import Mathlib.Data.List.Basic
import Mathlib.Data.List.ProdSigma
import Mathlib.Order.Nat

/-! Arrays of a fixed size with a count of the entries in use, and the loops that C code runs over
them: reading one entry after another with an early return, rewriting in place, and removing
entries while iterating. Every access is checked against the size, `none` is an access outside. -/

namespace Lib

structure CountedArray (α : Type) (cap : ℕ) where
  cells : List α
  count : ℕ
  length_cells : cells.length = cap

/-- How one turn of a loop ends; `done` returns from the function. -/
inductive Flow (σ : Type) where
  | next (s : σ)
  | done (s : σ)

def Flow.state {σ : Type} : Flow σ → σ
  | .next s => s
  | .done s => s

namespace CountedArray
variable {α σ : Type} {cap : ℕ}

def used (a : CountedArray α cap) : List α := a.cells.take a.count

def filled (cap : ℕ) (x : α) : CountedArray α cap := ⟨List.replicate cap x, 0, List.length_replicate⟩

/-- The first entries of a list, and a padding behind them. -/
def ofList (cap : ℕ) (l : List α) (pad : α) : CountedArray α cap where
  cells := (l ++ List.replicate cap pad).take cap
  count := min l.length cap
  length_cells := by
    rw [List.length_take, List.length_append, List.length_replicate]
    omega

def read (a : CountedArray α cap) (i : ℕ) : Option α := a.cells[i]?

def write (a : CountedArray α cap) (i : ℕ) (x : α) : Option (CountedArray α cap) :=
  if i < cap then
    some ⟨a.cells.set i x, a.count, by rw [List.length_set, a.length_cells]⟩
  else none

/-- `a[count++] = x` -/
def push (a : CountedArray α cap) (x : α) : Option (CountedArray α cap) :=
  (a.write a.count x).map fun b => ⟨b.cells, a.count + 1, b.length_cells⟩

theorem length_shifted (a : CountedArray α cap) {i k : ℕ} (h : i + 1 + k ≤ cap) :
    (a.cells.take i ++ (a.cells.drop (i + 1)).take k ++ a.cells.drop (i + k)).length = cap := by
  have hlength := a.length_cells
  simp only [List.length_append, List.length_take, List.length_drop]
  omega

/-- `count--; memmove(&a[i], &a[i + 1], count - i)` -/
def remove (a : CountedArray α cap) (i : ℕ) : Option (CountedArray α cap) :=
  let k := a.count - 1 - i
  if h : i + 1 + k ≤ cap then
    some ⟨a.cells.take i ++ (a.cells.drop (i + 1)).take k ++ a.cells.drop (i + k), a.count - 1,
      a.length_shifted h⟩
  else none

section
variable (a : CountedArray α cap)

def forEachFrom (body : α → σ → Option (Flow σ)) : ℕ → ℕ → σ → Option (Flow σ)
  | 0, _, s => some (.next s)
  | n + 1, i, s => do
    let x ← a.read i
    match ← body x s with
    | .next s => forEachFrom body n (i + 1) s
    | .done s => some (.done s)

/-- `for (i = 0; i < count; i++)` over the entries. -/
def forEach (body : α → σ → Option (Flow σ)) (s : σ) : Option (Flow σ) :=
  a.forEachFrom body a.count 0 s

def anyFrom (p : α → Bool) : ℕ → ℕ → Option Bool
  | 0, _ => some false
  | n + 1, i => do
    let x ← a.read i
    if p x then some true else anyFrom p n (i + 1)

/-- A search loop with a `break`. -/
def any (p : α → Bool) : Option Bool := a.anyFrom p a.count 0

/-- A search for the key of `x`, which is appended if the search fails and there is room; a full
array ends the loop. -/
def addTurn {κ : Type} [DecidableEq κ] (key : α → κ) (x : α) (a : CountedArray α cap) :
    Option (Flow (CountedArray α cap)) := do
  if ← a.any (fun y => key y == key x) then some (.next a)
  else if a.count = cap then some (.done a)
  else (a.push x).map .next

end

def mapFrom (f : α → Option α) : ℕ → ℕ → CountedArray α cap → Option (CountedArray α cap)
  | 0, _, a => some a
  | n + 1, i, a => do
    let y ← f (← a.read i)
    mapFrom f n (i + 1) (← a.write i y)

/-- A loop that rewrites every entry in its place. -/
def mapInPlace (f : α → Option α) (a : CountedArray α cap) : Option (CountedArray α cap) :=
  mapFrom f a.count 0 a

/-- One more turn than the bound on the left entries would be a fault. -/
def sweepFrom (f : α → Option α) (drop : α → Bool) :
    ℕ → ℕ → CountedArray α cap → Option (CountedArray α cap)
  | 0, i, a => if i < a.count then none else some a
  | n + 1, i, a =>
    if i < a.count then do
      let y ← f (← a.read i)
      let a ← a.write i y
      if drop y then sweepFrom f drop n i (← a.remove i) else sweepFrom f drop n (i + 1) a
    else some a

/-- `while (i < count)`: the entry at `i` is rewritten and then either removed or passed over. -/
def sweep (f : α → Option α) (drop : α → Bool) (a : CountedArray α cap) :
    Option (CountedArray α cap) :=
  sweepFrom f drop a.count 0 a

/-! ### What the operations do to the entries in use -/

variable {a : CountedArray α cap} {x : α}

theorem length_used (h : a.count ≤ cap) : a.used.length = a.count := by
  rw [used, List.length_take, a.length_cells]
  exact Nat.min_eq_left h

@[simp] theorem used_filled : (filled cap x).used = [] := List.take_zero

theorem take_set_count (h : a.count < cap) :
    (a.cells.set a.count x).take (a.count + 1) = a.used ++ [x] := by
  have hlen : a.count < a.cells.length := by rwa [a.length_cells]
  rw [List.take_set, List.take_add_one, List.getElem?_eq_getElem hlen, Option.toList_some,
    List.set_append_right _ _ (by rw [List.length_take]; omega), List.length_take,
    Nat.min_eq_left hlen.le, Nat.sub_self]
  rfl

/-- The first cell that is not in use is written, and the count is left as it is. -/
theorem write_count_eq (h : a.count < cap) :
    ∃ b, a.write a.count x = some b ∧ b.cells = a.cells.set a.count x ∧ b.count = a.count ∧
      b.used = a.used := by
  refine ⟨⟨a.cells.set a.count x, a.count, by rw [List.length_set, a.length_cells]⟩, ?_, rfl, rfl, ?_⟩
  · exact if_pos h
  · change (a.cells.set a.count x).take a.count = _
    rw [List.take_set_of_le le_rfl]
    rfl

theorem push_eq (h : a.count < cap) :
    ∃ b, a.push x = some b ∧ b.used = a.used ++ [x] ∧ b.count = a.count + 1 := by
  obtain ⟨b, hb, hcells, -, -⟩ := write_count_eq (x := x) h
  refine ⟨⟨b.cells, a.count + 1, b.length_cells⟩, ?_, ?_, rfl⟩
  · rw [push, hb]
    rfl
  · change b.cells.take (a.count + 1) = _
    rw [hcells]
    exact take_set_count h

theorem write_eq {i : ℕ} (hi : i < a.count) (h : a.count ≤ cap) :
    ∃ b, a.write i x = some b ∧ b.used = a.used.set i x ∧ b.count = a.count := by
  refine ⟨⟨a.cells.set i x, a.count, by rw [List.length_set, a.length_cells]⟩, ?_, ?_, rfl⟩
  · exact if_pos (Nat.lt_of_lt_of_le hi h)
  · exact List.take_set

theorem remove_eq {i : ℕ} (hi : i < a.count) (h : a.count ≤ cap) :
    ∃ b, a.remove i = some b ∧ b.used = a.used.eraseIdx i ∧ b.count = a.count - 1 := by
  have hk : i + 1 + (a.count - 1 - i) ≤ cap := by omega
  have hlength := a.length_cells
  refine ⟨_, by rw [remove]; exact dif_pos hk, ?_, rfl⟩
  change List.take (a.count - 1) _ = _
  rw [List.take_append_of_le_length (by simp; omega), List.eraseIdx_eq_take_drop_succ]
  rw [List.take_of_length_le (by simp; omega)]
  rw [used, List.take_take, List.drop_take, Nat.min_eq_left hi.le]
  congr 2
  omega

/-! ### Loops over the entries in use -/

/-- The loop over a list, which a loop over an array amounts to. -/
def loop (body : α → σ → Option (Flow σ)) : List α → σ → Option (Flow σ)
  | [], s => some (.next s)
  | x :: xs, s => do
    match ← body x s with
    | .next s => loop body xs s
    | .done s => some (.done s)

theorem drop_take_succ {l : List α} {i n : ℕ} (h : i < l.length) :
    (l.drop i).take (n + 1) = l[i] :: (l.drop (i + 1)).take n := by
  rw [List.drop_eq_getElem_cons h, List.take_succ_cons]

theorem read_eq {i : ℕ} (h : i < a.cells.length) : a.read i = some a.cells[i] :=
  List.getElem?_eq_getElem h

theorem forEachFrom_eq (body : α → σ → Option (Flow σ)) {n i : ℕ} (h : i + n ≤ cap) (s : σ) :
    a.forEachFrom body n i s = loop body ((a.cells.drop i).take n) s := by
  induction n generalizing i s with
  | zero => rfl
  | succ n ih =>
    have hi : i < a.cells.length := by
      rw [a.length_cells]
      omega
    have hnext : i + 1 + n ≤ cap := by omega
    rw [forEachFrom, read_eq hi, drop_take_succ hi, loop, Option.bind_eq_bind, Option.bind_some]
    congr 1
    funext flow
    cases flow with
    | next s => exact ih hnext s
    | done s => rfl

theorem forEach_eq (h : a.count ≤ cap) (body : α → σ → Option (Flow σ)) (s : σ) :
    a.forEach body s = loop body a.used s := by
  rw [forEach, forEachFrom_eq body (by omega)]
  rfl

theorem anyFrom_eq (p : α → Bool) {n i : ℕ} (h : i + n ≤ cap) :
    a.anyFrom p n i = some (((a.cells.drop i).take n).any p) := by
  induction n generalizing i with
  | zero => rfl
  | succ n ih =>
    have hi : i < a.cells.length := by
      rw [a.length_cells]
      omega
    have hnext : i + 1 + n ≤ cap := by omega
    rw [anyFrom, read_eq hi, drop_take_succ hi, List.any_cons, Option.bind_eq_bind, Option.bind_some]
    split
    case isTrue hp => rw [hp, Bool.true_or]
    case isFalse hp =>
      rw [Bool.eq_false_iff.mpr hp, Bool.false_or]
      exact ih hnext

theorem any_eq (h : a.count ≤ cap) (p : α → Bool) : a.any p = some (a.used.any p) := by
  rw [any, anyFrom_eq p (by omega)]
  rfl

theorem loop_append (body : α → σ → Option (Flow σ)) (l l' : List α) (s : σ) :
    loop body (l ++ l') s = (loop body l s).bind fun flow =>
      match flow with
      | .next s => loop body l' s
      | .done s => some (.done s) := by
  induction l generalizing s with
  | nil => rfl
  | cons x l ih =>
    rw [List.cons_append, loop, loop, Option.bind_eq_bind, Option.bind_assoc]
    congr 1
    funext flow
    cases flow with
    | next s => exact ih s
    | done s => rfl

theorem loop_map {β : Type} (body : β → σ → Option (Flow σ)) (f : α → β) (l : List α) (s : σ) :
    loop body (l.map f) s = loop (fun x => body (f x)) l s := by
  induction l generalizing s with
  | nil => rfl
  | cons x l ih =>
    rw [List.map_cons, loop, loop]
    congr 1
    funext flow
    cases flow with
    | next s => exact ih s
    | done s => rfl

/-- A nested loop, from which both levels return at once, goes through the pairs. -/
theorem loop_nested {β : Type} (body : α → β → σ → Option (Flow σ)) (l : List α) (m : List β)
    (s : σ) :
    loop (fun x => loop (body x) m) l s = loop (fun e => body e.1 e.2) (l ×ˢ m) s := by
  induction l generalizing s with
  | nil => rfl
  | cons x l ih =>
    have hproduct : (x :: l) ×ˢ m = m.map (Prod.mk x) ++ l ×ˢ m := List.product_cons x l m
    rw [hproduct, loop_append, loop_map, loop]
    congr 1
    funext flow
    cases flow with
    | next s => exact ih s
    | done s => rfl

/-- A loop that appends `F x` to what it collects in every turn, and returns once `room` entries
are collected, collects everything where that is not more than the room. -/
theorem loop_collect {β : Type} {body : α → σ → Option (Flow σ)} {I : σ → Prop}
    {view : σ → List β} {F : α → List β} {room : ℕ} {l : List α} {s : σ}
    (hstep : ∀ x ∈ l, ∀ s, I s → (view s).length < room → ∃ flow, body x s = some flow ∧
      I flow.state ∧ view flow.state = view s ++ F x ∧
      ((∃ s', flow = .next s' ∧ (view s').length < room) ∨
        ∃ s', flow = .done s' ∧ (view s').length = room))
    (hI : I s) (hlt : (view s).length < room)
    (hroom : (view s).length + (l.flatMap F).length ≤ room) :
    ∃ flow, loop body l s = some flow ∧ I flow.state ∧ view flow.state = view s ++ l.flatMap F := by
  induction l generalizing s with
  | nil => exact ⟨.next s, rfl, hI, (List.append_nil _).symm⟩
  | cons x l ih =>
    rw [List.flatMap_cons, List.length_append] at hroom
    obtain ⟨flow, hbody, hI', hview, hend⟩ := hstep x (List.mem_cons_self ..) s hI hlt
    have hlength := congrArg List.length hview
    rw [List.length_append] at hlength
    rcases hend with ⟨s', rfl, hlt'⟩ | ⟨s', rfl, hfull⟩
    · obtain ⟨flow, hflow, hI'', hview'⟩ := ih (fun y hy => hstep y (List.mem_cons_of_mem _ hy)) hI'
        hlt' (by rw [hlength]; omega)
      refine ⟨flow, ?_, hI'', ?_⟩
      · rw [loop, hbody]
        exact hflow
      · rw [hview', hview, List.flatMap_cons, List.append_assoc]
    · have hnone : l.flatMap F = [] := by
        rw [Flow.state, hfull] at hlength
        exact List.length_eq_zero_iff.mp (by omega)
      refine ⟨.done s', ?_, hI', ?_⟩
      · rw [loop, hbody]
        rfl
      · rw [hview, List.flatMap_cons, hnone, List.append_nil]

/-- Rewriting the first entry that was not gone through. -/
theorem rewrite_next {done rest : List α} {y : α} (h : a.count ≤ cap)
    (hused : a.used = done ++ x :: rest) :
    done.length < a.count ∧ a.read done.length = some x ∧
    ∃ b, a.write done.length y = some b ∧ b.used = done ++ y :: rest ∧ b.count = a.count := by
  have hcount : a.count = done.length + (rest.length + 1) := by
    rw [← length_used h, hused, List.length_append, List.length_cons]
  have hlt : done.length < a.count := by omega
  refine ⟨hlt, ?_, ?_⟩
  · have hused' : a.used[done.length]? = some x := by
      rw [hused, List.getElem?_append_right le_rfl, Nat.sub_self]
      rfl
    rwa [used, List.getElem?_take_of_lt hlt] at hused'
  · obtain ⟨b, hb, hbused, hbcount⟩ := write_eq (x := y) hlt h
    refine ⟨b, hb, ?_, hbcount⟩
    rw [hbused, hused, List.set_append_right _ _ le_rfl, Nat.sub_self]
    rfl

/-- The entries in `done` are rewritten, the others are still as they were. -/
theorem mapFrom_eq {f : α → Option α} {g : α → α} (done : List α) {rest : List α}
    (hf : ∀ x ∈ rest, f x = some (g x)) (h : a.count ≤ cap) (hused : a.used = done ++ rest) :
    ∃ b, mapFrom f rest.length done.length a = some b ∧ b.used = done ++ rest.map g ∧
      b.count = a.count := by
  induction rest generalizing a done with
  | nil => exact ⟨a, rfl, hused, rfl⟩
  | cons x rest ih =>
    obtain ⟨-, hread, b, hb, hbused, hbcount⟩ := rewrite_next (y := g x) h hused
    rw [List.append_cons] at hbused
    obtain ⟨c, hc, hcused, hccount⟩ :=
      ih (done ++ [g x]) (fun y hy => hf y (List.mem_cons_of_mem _ hy)) (hbcount.trans_le h) hbused
    refine ⟨c, ?_, ?_, hccount.trans hbcount⟩
    · rw [List.length_cons, mapFrom, hread, Option.bind_eq_bind, Option.bind_some,
        hf x (List.mem_cons_self ..), Option.bind_some, hb]
      rwa [List.length_append] at hc
    · rw [hcused, List.append_assoc]
      rfl

theorem mapInPlace_eq {f : α → Option α} {g : α → α} (h : a.count ≤ cap)
    (hf : ∀ x ∈ a.used, f x = some (g x)) :
    ∃ b, mapInPlace f a = some b ∧ b.used = a.used.map g ∧ b.count = a.count := by
  obtain ⟨b, hb⟩ := mapFrom_eq [] hf h rfl
  rw [length_used h] at hb
  exact ⟨b, hb⟩

/-- What was kept stands before `i`, what was not gone through stands behind it. -/
theorem sweepFrom_eq {f : α → Option α} {drop : α → Bool} {g : α → α} (done : List α)
    {rest : List α} (hf : ∀ x ∈ rest, f x = some (g x)) (h : a.count ≤ cap)
    (hused : a.used = done ++ rest) :
    ∃ b, sweepFrom f drop rest.length done.length a = some b ∧
      b.used = done ++ (rest.map g).filter (fun y => !drop y) ∧ b.count ≤ a.count := by
  induction rest generalizing a done with
  | nil =>
    have hcount : ¬ done.length < a.count := by
      rw [← length_used h, hused, List.append_nil]
      exact lt_irrefl _
    exact ⟨a, if_neg hcount, hused, le_rfl⟩
  | cons x rest ih =>
    have hf' : ∀ y ∈ rest, f y = some (g y) := fun y hy => hf y (List.mem_cons_of_mem _ hy)
    obtain ⟨hlt, hread, b, hb, hbused, hbcount⟩ := rewrite_next (y := g x) h hused
    simp only [List.length_cons, sweepFrom, if_pos hlt, hread, hf x (List.mem_cons_self ..), hb,
      Option.bind_eq_bind, Option.bind_some, List.map_cons]
    by_cases hdrop : drop (g x) = true
    · -- the entry goes, and the next one is at the same place
      obtain ⟨c, hc, hcused, hccount⟩ := remove_eq (hlt.trans_eq hbcount.symm) (hbcount.trans_le h)
      rw [hbused, List.eraseIdx_append_of_length_le le_rfl, Nat.sub_self, List.eraseIdx_cons_zero]
        at hcused
      have hcle : c.count ≤ a.count := by omega
      obtain ⟨e, he, heused, hecount⟩ := ih done hf' (hcle.trans h) hcused
      refine ⟨e, ?_, ?_, hecount.trans hcle⟩
      · rwa [if_pos hdrop, hc]
      · rw [heused, List.filter_cons_of_neg (by simp [hdrop])]
    · rw [List.append_cons] at hbused
      obtain ⟨e, he, heused, hecount⟩ := ih (done ++ [g x]) hf' (hbcount.trans_le h) hbused
      refine ⟨e, ?_, ?_, hecount.trans_eq hbcount⟩
      · rw [List.length_append] at he
        rwa [if_neg hdrop]
      · rw [heused, List.filter_cons_of_pos (by simp [hdrop]), List.append_assoc]
        rfl

theorem sweep_eq {f : α → Option α} (drop : α → Bool) {g : α → α} (h : a.count ≤ cap)
    (hf : ∀ x ∈ a.used, f x = some (g x)) :
    ∃ b, sweep f drop a = some b ∧ b.used = (a.used.map g).filter (fun y => !drop y) ∧
      b.count ≤ a.count := by
  obtain ⟨b, hb⟩ := sweepFrom_eq [] hf h rfl
  rw [length_used h] at hb
  exact ⟨b, hb⟩

end CountedArray

/-! ### Lists with a key for each entry and a limited number of entries -/

section
variable {α κ : Type} [DecidableEq κ] (key : α → κ) (cap : ℕ)

/-- An entry is added if its key is new and there is room. -/
def addNew (l : List α) (x : α) : List α :=
  if key x ∈ l.map key ∨ l.length = cap then l else l ++ [x]

def addAll (l xs : List α) : List α := xs.foldl (addNew key cap) l

variable {key cap} {l xs : List α} {x : α}

theorem prefix_addNew : l <+: addNew key cap l x := by
  rw [addNew]
  split
  · exact List.prefix_rfl
  · exact List.prefix_append l [x]

theorem prefix_addAll : l <+: addAll key cap l xs := by
  induction xs generalizing l with
  | nil => exact List.prefix_rfl
  | cons x xs ih => exact prefix_addNew.trans ih

theorem mem_addAll {y : α} (h : y ∈ addAll key cap l xs) : y ∈ l ∨ y ∈ xs := by
  induction xs generalizing l with
  | nil => exact Or.inl h
  | cons x xs ih =>
    rcases ih h with hy | hy
    · rw [addNew] at hy
      split at hy
      · exact Or.inl hy
      · rcases List.mem_append.mp hy with hy | hy
        · exact Or.inl hy
        · exact Or.inr (List.mem_singleton.mp hy ▸ List.mem_cons_self ..)
    · exact Or.inr (List.mem_cons_of_mem _ hy)

theorem addAll_nodup (h : (l.map key).Nodup) : ((addAll key cap l xs).map key).Nodup := by
  induction xs generalizing l with
  | nil => exact h
  | cons x xs ih =>
    apply ih
    rw [addNew]
    split
    · exact h
    · rename_i hnew
      rw [List.map_append, List.nodup_append]
      refine ⟨h, List.nodup_singleton _, ?_⟩
      intro k hk k' hk' heq
      rw [List.map_singleton, List.mem_singleton] at hk'
      exact hnew (Or.inl (hk' ▸ heq ▸ hk))

/-- Once the list is full nothing is added any more. -/
theorem addAll_full (h : l.length = cap) : addAll key cap l xs = l := by
  induction xs with
  | nil => rfl
  | cons x xs ih =>
    rw [addAll, List.foldl_cons, addNew, if_pos (Or.inr h)]
    exact ih

theorem map_addNew_subset : (addNew key cap l x).map key ⊆ l.map key ++ [key x] := by
  rw [addNew]
  split
  · exact List.subset_append_left _ _
  · rw [List.map_append, List.map_singleton]
    exact List.Subset.refl _

/-- If there is room for all keys, every entry with a new key is added. -/
theorem mem_addAll_of_room (h : (l.map key).Nodup) (hxs : (xs.map key).Nodup)
    (hroom : (l.map key ++ xs.map key).toFinset.card ≤ cap) (hx : x ∈ xs)
    (hnew : key x ∉ l.map key) : x ∈ addAll key cap l xs := by
  induction xs generalizing l with
  | nil => cases hx
  | cons y ys ih =>
    rw [List.map_cons, List.nodup_cons] at hxs
    rcases List.mem_cons.mp hx with rfl | hys
    · -- the list is not full, as its keys and the new one fit
      have hlength : l.length ≠ cap := by
        intro hfull
        have hsub : (l.map key ++ [key x]).toFinset ⊆ (l.map key ++ (x :: ys).map key).toFinset := by
          intro k hk
          simp only [List.mem_toFinset, List.mem_append, List.map_cons, List.mem_cons,
            List.not_mem_nil, or_false] at hk ⊢
          exact hk.imp_right Or.inl
        have hnodup : (l.map key ++ [key x]).Nodup := by
          rw [List.nodup_append]
          refine ⟨h, List.nodup_singleton _, ?_⟩
          intro k hk k' hk' heq
          exact hnew (List.mem_singleton.mp hk' ▸ heq ▸ hk)
        have hcard := (Finset.card_le_card hsub).trans hroom
        rw [List.toFinset_card_of_nodup hnodup, List.length_append, List.length_map, hfull,
          List.length_singleton] at hcard
        omega
      rw [addAll, List.foldl_cons]
      apply prefix_addAll.subset
      rw [addNew, if_neg (not_or.mpr ⟨hnew, hlength⟩)]
      exact List.mem_append_right _ (List.mem_singleton_self x)
    · have hone : ((addAll key cap l [y]).map key).Nodup := addAll_nodup h
      refine ih hone hxs.2 (le_trans (Finset.card_le_card ?_) hroom) hys ?_
      · intro k hk
        simp only [List.mem_toFinset, List.mem_append, List.map_cons, List.mem_cons] at hk ⊢
        rcases hk with hk | hk
        · have hk' := map_addNew_subset hk
          simp only [List.mem_append, List.mem_singleton] at hk'
          exact hk'.imp_right Or.inl
        · exact Or.inr (Or.inr hk)
      · intro hk
        have hk' := map_addNew_subset hk
        rw [List.mem_append, List.mem_singleton] at hk'
        rcases hk' with hk' | hk'
        · exact hnew hk'
        · exact hxs.1 (hk' ▸ List.mem_map_of_mem hys)

namespace CountedArray
variable {a : CountedArray α cap}

theorem addTurn_eq (key : α → κ) (h : a.count ≤ cap) (x : α) : ∃ flow, addTurn key x a = some flow ∧
    flow.state.used = addNew key cap a.used x ∧ flow.state.count ≤ cap ∧
    (flow = .next flow.state ∨ flow = .done a ∧ a.used.length = cap) := by
  have hmem : (a.used.any fun y => key y == key x) = true ↔ key x ∈ a.used.map key := by
    simp only [List.any_eq_true, beq_iff_eq, List.mem_map]
  rw [addTurn, any_eq h, Option.bind_eq_bind, Option.bind_some, addNew]
  by_cases hfound : (a.used.any fun y => key y == key x) = true
  · rw [if_pos hfound, if_pos (Or.inl (hmem.mp hfound))]
    exact ⟨.next a, rfl, rfl, h, Or.inl rfl⟩
  · rw [if_neg hfound]
    by_cases hfull : a.count = cap
    · have hlength := (length_used h).trans hfull
      rw [if_pos hfull, if_pos (Or.inr hlength)]
      exact ⟨.done a, rfl, rfl, h, Or.inr ⟨rfl, hlength⟩⟩
    · have hlength : ¬ a.used.length = cap := by rwa [length_used h]
      obtain ⟨b, hb, hused, hcount⟩ := push_eq (x := x) (lt_of_le_of_ne h hfull)
      rw [if_neg hfull, if_neg (not_or.mpr ⟨fun hm => hfound (hmem.mpr hm), hlength⟩), hb]
      refine ⟨.next b, rfl, hused, ?_, Or.inl rfl⟩
      change b.count ≤ cap
      omega

theorem loop_addTurn (key : α → κ) (xs : List α) (h : a.count ≤ cap) : ∃ flow, loop (addTurn key) xs a = some flow ∧
    flow.state.used = addAll key cap a.used xs ∧ flow.state.count ≤ cap := by
  induction xs generalizing a with
  | nil => exact ⟨.next a, rfl, rfl, h⟩
  | cons x xs ih =>
    obtain ⟨flow, hflow, hused, hcount, hend⟩ := addTurn_eq key h x
    rcases hend with hnext | ⟨rfl, hfull⟩
    · obtain ⟨flow', hflow', hused', hcount'⟩ := ih hcount
      refine ⟨flow', ?_, ?_, hcount'⟩
      · rw [loop, hflow, hnext]
        exact hflow'
      · rw [hused', hused]
        rfl
    · refine ⟨.done a, ?_, ?_, h⟩
      · rw [loop, hflow]
        rfl
      · exact (addAll_full hfull).symm

end CountedArray

end
end Lib
