import Mathlib.Data.List.Basic
import Mathlib.Logic.Relation
import Mathlib.Order.Defs.Unbundled

/-! Deterministic programs over a state that also emit a list of observable actions, with the
answers of their surroundings fixed in an environment. `Keeps R` says that a program moves every
configuration along the preorder `R`: frame conditions, invariants and facts about the emitted
actions are all of this form, and its rules follow the structure of the program. -/

namespace Lib

structure Cfg (σ ω : Type) where
  st : σ
  out : List ω

def Prog (ε σ ω α : Type) : Type := ε → Cfg σ ω → α × Cfg σ ω

namespace Prog
variable {ε σ ω α β : Type} {e : ε} {c : Cfg σ ω}

instance : Monad (Prog ε σ ω) where
  pure a := fun _ c => (a, c)
  bind x f := fun e c => f (x e c).1 e (x e c).2

def ask : Prog ε σ ω ε := fun e c => (e, c)

def get : Prog ε σ ω σ := fun _ c => (c.st, c)

def update (f : σ → σ) : Prog ε σ ω Unit := fun _ c => ((), { c with st := f c.st })

def emit (o : ω) : Prog ε σ ω Unit := fun _ c => ((), { c with out := c.out ++ [o] })

def emitAll (os : List ω) : Prog ε σ ω Unit := fun _ c => ((), { c with out := c.out ++ os })

/-- Run a command only if the condition holds. -/
def when (p : Prop) [Decidable p] (x : Prog ε σ ω Unit) : Prog ε σ ω Unit :=
  if p then x else pure ()

@[simp] theorem pure_apply (a : α) : (pure a : Prog ε σ ω α) e c = (a, c) := rfl

@[simp] theorem bind_apply (x : Prog ε σ ω α) (f : α → Prog ε σ ω β) :
    (x >>= f) e c = f (x e c).1 e (x e c).2 := rfl

@[simp] theorem map_apply (x : Prog ε σ ω α) (f : α → β) :
    (f <$> x) e c = (f (x e c).1, (x e c).2) := rfl

@[simp] theorem ask_apply : (ask : Prog ε σ ω ε) e c = (e, c) := rfl

@[simp] theorem get_apply : (get : Prog ε σ ω σ) e c = (c.st, c) := rfl

/-- Stated for the sequence, so that no condition depends on a pending `get`. -/
@[simp] theorem get_bind_apply (f : σ → Prog ε σ ω β) : (get >>= f) e c = f c.st e c := rfl

@[simp] theorem ask_bind_apply (f : ε → Prog ε σ ω β) : (ask >>= f) e c = f e e c := rfl

@[simp] theorem update_apply (f : σ → σ) :
    (update f : Prog ε σ ω Unit) e c = ((), { c with st := f c.st }) := rfl

@[simp] theorem emit_apply (o : ω) :
    (emit o : Prog ε σ ω Unit) e c = ((), { c with out := c.out ++ [o] }) := rfl

@[simp] theorem emitAll_apply (os : List ω) :
    (emitAll os : Prog ε σ ω Unit) e c = ((), { c with out := c.out ++ os }) := rfl

@[simp] theorem when_apply (p : Prop) [Decidable p] (x : Prog ε σ ω Unit) :
    when p x e c = if p then x e c else ((), c) := by
  unfold when
  split_ifs <;> rfl

@[simp] protected theorem ite_apply (p : Prop) [Decidable p] (x y : Prog ε σ ω α) :
    (if p then x else y : Prog ε σ ω α) e c = if p then x e c else y e c := by
  split_ifs <;> rfl

/-- Run from a state with nothing emitted yet. -/
def exec (x : Prog ε σ ω α) (e : ε) (s : σ) : σ × List ω :=
  ((x e ⟨s, []⟩).2.st, (x e ⟨s, []⟩).2.out)

def Keeps (R : Cfg σ ω → Cfg σ ω → Prop) (x : Prog ε σ ω α) (e : ε) : Prop :=
  ∀ c, R c (x e c).2

section Rules
variable {R S : Cfg σ ω → Cfg σ ω → Prop} {x : Prog ε σ ω α} {f : α → Prog ε σ ω β}

theorem Keeps.mono (h : ∀ c c', R c c' → S c c') (hx : Keeps R x e) : Keeps S x e :=
  fun c => h c _ (hx c)

theorem Keeps.pure [Std.Refl R] (a : α) : Keeps R (Pure.pure a : Prog ε σ ω α) e :=
  fun c => refl c

theorem Keeps.ask [Std.Refl R] : Keeps R (Prog.ask : Prog ε σ ω ε) e := fun c => refl c

theorem Keeps.get [Std.Refl R] : Keeps R (Prog.get : Prog ε σ ω σ) e := fun c => refl c

theorem Keeps.bind [IsTrans _ R] (hx : Keeps R x e) (hf : ∀ a, Keeps R (f a) e) :
    Keeps R (x >>= f) e :=
  fun c => IsTrans.trans _ _ _ (hx c) (hf _ _)

/-- Sequencing that remembers what the first command returned and from where it ran. -/
theorem Keeps.bind_of [IsTrans _ R] (hx : Keeps R x e)
    (hf : ∀ c, R (x e c).2 (f (x e c).1 e (x e c).2).2) : Keeps R (x >>= f) e :=
  fun c => IsTrans.trans _ _ _ (hx c) (hf c)

theorem Keeps.ite {p : Prop} [Decidable p] {x y : Prog ε σ ω α} (hx : p → Keeps R x e)
    (hy : ¬p → Keeps R y e) : Keeps R (if p then x else y) e := by
  split_ifs with h
  · exact hx h
  · exact hy h

theorem Keeps.when [Std.Refl R] {p : Prop} [Decidable p] {x : Prog ε σ ω Unit}
    (hx : p → Keeps R x e) : Keeps R (when p x) e :=
  Keeps.ite hx fun _ => Keeps.pure ()

theorem Keeps.ask_bind {f : ε → Prog ε σ ω β} (h : Keeps R (f e) e) :
    Keeps R (Prog.ask >>= f) e := h

theorem Keeps.get_bind {f : σ → Prog ε σ ω β} (h : ∀ c, R c (f c.st e c).2) :
    Keeps R (Prog.get >>= f) e := h

/-- A property of the final configuration alone is established by the last command. -/
theorem Keeps.bind_right {Q : Cfg σ ω → Prop} (hf : ∀ a, Keeps (fun _ c => Q c) (f a) e) :
    Keeps (fun _ c => Q c) (x >>= f) e :=
  fun _ => hf _ _

end Rules

section Moves
variable {Mv : Cfg σ ω → Cfg σ ω → Prop} {x : Prog ε σ ω α}

theorem Keeps.move (h : Keeps Mv x e) : Keeps (Relation.ReflTransGen Mv) x e :=
  fun c => .single (h c)

/-- Sequencing along a path, from a given configuration. -/
theorem path_bind {f : α → Prog ε σ ω β} (hx : Relation.ReflTransGen Mv c (x e c).2)
    (hf : Relation.ReflTransGen Mv (x e c).2 (f (x e c).1 e (x e c).2).2) :
    Relation.ReflTransGen Mv c ((x >>= f) e c).2 :=
  hx.trans hf

theorem path_ite {p : Prop} [Decidable p] {y : Prog ε σ ω α}
    (hx : p → Relation.ReflTransGen Mv c (x e c).2)
    (hy : ¬p → Relation.ReflTransGen Mv c (y e c).2) :
    Relation.ReflTransGen Mv c ((if p then x else y : Prog ε σ ω α) e c).2 := by
  split_ifs with h
  · exact hx h
  · exact hy h

/-- What a preorder allows for every move, it allows for every path of moves. -/
theorem path_induction {R : Cfg σ ω → Cfg σ ω → Prop} [Std.Refl R] [IsTrans _ R]
    (h : ∀ c c', Mv c c' → R c c') {c c' : Cfg σ ω} (hp : Relation.ReflTransGen Mv c c') :
    R c c' := by
  induction hp with
  | refl => exact refl c
  | tail _ hmove ih => exact IsTrans.trans _ _ _ ih (h _ _ hmove)

end Moves

section Frame
variable {τ : Type} {f : σ → τ} {P Q : ω → Prop}

/-- The part `f` of the state is left alone, and all that is emitted satisfies `P`. -/
def Frame (f : σ → τ) (P : ω → Prop) (c c' : Cfg σ ω) : Prop :=
  f c'.st = f c.st ∧ ∃ new, c'.out = c.out ++ new ∧ ∀ o ∈ new, P o

instance : Std.Refl (Frame f P) where
  refl _ := ⟨rfl, [], (List.append_nil _).symm, by simp⟩

instance : IsTrans _ (Frame f P) where
  trans := by
    rintro a b c ⟨hab, n₁, hn₁, hP₁⟩ ⟨hbc, n₂, hn₂, hP₂⟩
    refine ⟨hbc.trans hab, n₁ ++ n₂, ?_, ?_⟩
    · rw [hn₂, hn₁, List.append_assoc]
    · intro o ho
      rcases List.mem_append.mp ho with h | h
      · exact hP₁ o h
      · exact hP₂ o h

theorem Frame.mono (h : ∀ o, P o → Q o) {c c' : Cfg σ ω} (hc : Frame f P c c') :
    Frame f Q c c' := by
  obtain ⟨hst, new, hout, hnew⟩ := hc
  exact ⟨hst, new, hout, fun o ho => h o (hnew o ho)⟩

theorem Frame.mem_out {c c' : Cfg σ ω} (hc : Frame f P c c') {o : ω} (ho : o ∈ c'.out) :
    o ∈ c.out ∨ P o := by
  obtain ⟨-, new, hout, hnew⟩ := hc
  rw [hout, List.mem_append] at ho
  exact ho.imp_right (hnew o)

theorem Frame.out_subset {c c' : Cfg σ ω} (hc : Frame f P c c') {o : ω} (ho : o ∈ c.out) :
    o ∈ c'.out := by
  obtain ⟨-, new, hout, -⟩ := hc
  rw [hout]
  exact List.mem_append_left _ ho

theorem Keeps.frame_update {g : σ → σ} (h : ∀ s, f (g s) = f s) :
    Keeps (Frame f P) (Prog.update g : Prog ε σ ω Unit) e :=
  fun c => ⟨h c.st, [], (List.append_nil _).symm, by simp⟩

theorem Keeps.frame_emit {o : ω} (h : P o) :
    Keeps (Frame f P) (Prog.emit o : Prog ε σ ω Unit) e :=
  fun c => ⟨rfl, [o], rfl, by simpa using h⟩

end Frame

section Preserves
variable {H : List ω → Prop} {I : List ω → σ → Prop}

/-- An invariant of the emitted actions and the state is kept, as long as the actions meet the
assumption `H` all along. -/
def Preserves (H : List ω → Prop) (I : List ω → σ → Prop) (c c' : Cfg σ ω) : Prop :=
  c.out <+: c'.out ∧ ((∀ p, p <+: c'.out → H p) → I c.out c.st → I c'.out c'.st)

instance : Std.Refl (Preserves H I) where
  refl _ := ⟨List.prefix_refl _, fun _ h => h⟩

instance : IsTrans _ (Preserves H I) where
  trans := by
    rintro a b c ⟨hab, hI⟩ ⟨hbc, hI'⟩
    exact ⟨hab.trans hbc, fun hH h => hI' hH (hI (fun p hp => hH p (hp.trans hbc)) h)⟩

/-- A step that emits `new` preserves the invariant if it does so under the assumption at its
end. -/
theorem Preserves.of_append {s s' : σ} {out new : List ω}
    (h : H (out ++ new) → I out s → I (out ++ new) s') :
    Preserves H I ⟨s, out⟩ ⟨s', out ++ new⟩ :=
  ⟨List.prefix_append _ _, fun hH => h (hH _ (List.prefix_refl _))⟩

theorem Preserves.of_state {s s' : σ} {out : List ω} (h : I out s → I out s') :
    Preserves H I ⟨s, out⟩ ⟨s', out⟩ :=
  ⟨List.prefix_refl _, fun _ => h⟩

end Preserves

section History
variable {P : List ω → ω → Prop} {out new : List ω} {o : ω}

/-- Every emitted action stands in the relation `P` to what was emitted before it. -/
def Each (P : List ω → ω → Prop) (out : List ω) : Prop := ∀ p o, p ++ [o] <+: out → P p o

theorem each_nil : Each P [] := by
  intro p o hp
  have hlength := hp.length_le
  simp at hlength

theorem each_concat : Each P (out ++ [o]) ↔ Each P out ∧ P out o := by
  constructor
  · intro h
    exact ⟨fun p a hp => h p a (hp.trans (List.prefix_append _ _)), h out o (List.prefix_refl _)⟩
  · rintro ⟨hout, ho⟩ p a hp
    rcases List.prefix_concat_iff.mp hp with heq | hp
    · obtain ⟨rfl, ha⟩ := List.append_inj' heq rfl
      cases ha
      exact ho
    · exact hout p a hp

/-- Actions of which nothing is asked extend a history. -/
theorem Each.append (h : Each P out) (hnew : ∀ o ∈ new, ∀ p, P p o) : Each P (out ++ new) := by
  induction new generalizing out with
  | nil => rwa [List.append_nil]
  | cons o new ih =>
    rw [List.append_cons]
    refine ih (each_concat.mpr ⟨h, hnew o (List.mem_cons_self ..) out⟩) fun a ha => ?_
    exact hnew a (List.mem_cons_of_mem _ ha)

/-- What an action at a given place stands in relation to. -/
theorem Each.at {p rest : List ω} (h : Each P (p ++ o :: rest)) : P p o :=
  h p o ⟨rest, by simp⟩

end History
end Prog
end Lib
