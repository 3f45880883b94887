import Wpa.Lib.Reads

/-! Parsers that read octets and may refuse what they read. Such a parser gives nothing if it reads
outside the buffer or runs out of fuel; `Yields` is the triple for one that does neither,
`Meets` the one that speaks of its errors too, and `Returns` says what it gives. -/

namespace Lib

abbrev ReadProg (ε α : Type) := ExceptT ε Option α

variable {ε α β : Type} {x : ReadProg ε α} {f : α → ReadProg ε β} {P Q : α → Prop}

/-- The run is inside the buffer and ends, and `P` holds of the result unless it is an error. -/
def Yields (x : ReadProg ε α) (P : α → Prop) : Prop :=
  ∃ r, x.run = some r ∧ ∀ a, r = .ok a → P a

namespace Yields

theorem ret {a : α} (h : P a) : Yields (pure a : ReadProg ε α) P := by
  refine ⟨.ok a, rfl, ?_⟩
  rintro _ ⟨⟩
  exact h

theorem refuse {e : ε} : Yields (throw e : ReadProg ε α) P := by
  refine ⟨.error e, rfl, ?_⟩
  rintro _ ⟨⟩

theorem bind {R : β → Prop} (hx : Yields x Q) (hf : ∀ a, Q a → Yields (f a) R) :
    Yields (x >>= f) R := by
  obtain ⟨r, hr, hq⟩ := hx
  have hrun : (x >>= f).run = some r >>= fun r => ExceptT.bindCont f r := by
    rw [← hr]
    rfl
  unfold Yields
  rw [hrun]
  cases r with
  | error e =>
    refine ⟨.error e, rfl, ?_⟩
    rintro _ ⟨⟩
  | ok a => exact hf a (hq a rfl)

theorem mono (h : ∀ a, P a → Q a) (hx : Yields x P) : Yields x Q := by
  obtain ⟨r, hr, hp⟩ := hx
  exact ⟨r, hr, fun a ha => h a (hp a ha)⟩

theorem read {o : Option α} {a : α} (h : o = some a) (hp : P a) :
    Yields (liftM o : ReadProg ε α) P := by
  subst h
  refine ⟨.ok a, rfl, ?_⟩
  rintro _ ⟨⟩
  exact hp

/-- A result that is computed without the program's own errors. -/
theorem adapt {ε' : Type} {g : ε → ε'} (hx : Yields x P) : Yields (ExceptT.adapt g x) P := by
  obtain ⟨r, hr, hp⟩ := hx
  have hrun : (ExceptT.adapt g x).run = (some r).map (Except.mapError g) := by
    rw [← hr]
    rfl
  refine ⟨r.mapError g, hrun, ?_⟩
  cases r with
  | error e => rintro _ ⟨⟩
  | ok a =>
    rintro _ ⟨⟩
    exact hp a rfl

end Yields

/-- The run is inside the buffer and ends; `E` holds of an error and `P` of a result. -/
def Meets (x : ReadProg ε α) (E : ε → Prop) (P : α → Prop) : Prop :=
  ∃ r, x.run = some r ∧ (∀ e, r = .error e → E e) ∧ ∀ a, r = .ok a → P a

namespace Meets
variable {E : ε → Prop}

theorem ret {a : α} (h : P a) : Meets (pure a : ReadProg ε α) E P := by
  refine ⟨.ok a, rfl, ?_, ?_⟩
  · rintro _ ⟨⟩
  · rintro _ ⟨⟩
    exact h

theorem refuse {e : ε} (h : E e) : Meets (throw e : ReadProg ε α) E P := by
  refine ⟨.error e, rfl, ?_, ?_⟩
  · rintro _ ⟨⟩
    exact h
  · rintro _ ⟨⟩

theorem bind {R : β → Prop} (hx : Meets x E Q) (hf : ∀ a, Q a → Meets (f a) E R) :
    Meets (x >>= f) E R := by
  obtain ⟨r, hr, herr, hq⟩ := hx
  have hrun : (x >>= f).run = some r >>= fun r => ExceptT.bindCont f r := by
    rw [← hr]
    rfl
  unfold Meets
  rw [hrun]
  cases r with
  | error e =>
    refine ⟨.error e, rfl, ?_, ?_⟩
    · rintro _ ⟨⟩
      exact herr e rfl
    · rintro _ ⟨⟩
  | ok a => exact hf a (hq a rfl)

/-- A read, and what is done with the value. -/
theorem bind_read {o : Option β} {g : β → ReadProg ε α} {b : β} (h : o = some b)
    (hg : Meets (g b) E P) : Meets (liftM o >>= g) E P := by
  subst h
  exact hg

theorem mono {F : ε → Prop} (hE : ∀ e, E e → F e) (hP : ∀ a, P a → Q a) (hx : Meets x E P) :
    Meets x F Q := by
  obtain ⟨r, hr, herr, hp⟩ := hx
  exact ⟨r, hr, fun e he => hE e (herr e he), fun a ha => hP a (hp a ha)⟩

/-- A run that has no error to end with. -/
theorem ok (hx : Meets x (fun _ => False) P) : ∃ a, x.run = some (.ok a) ∧ P a := by
  obtain ⟨r, hr, herr, hp⟩ := hx
  cases r with
  | error e => exact (herr e rfl).elim
  | ok a => exact ⟨a, hr, hp a rfl⟩

end Meets

/-- The run is inside the buffer and ends with `r`. -/
def Returns (x : ReadProg ε α) (r : Except ε α) : Prop := x.run = some r

namespace Returns
variable {r : Except ε α} {o : Option α} {a : α}

theorem ret (a : α) : Returns (pure a : ReadProg ε α) (.ok a) := rfl

theorem refuse (e : ε) : Returns (throw e : ReadProg ε α) (.error e) := rfl

theorem read (h : o = some a) : Returns (liftM o : ReadProg ε α) (.ok a) := by
  subst h
  rfl

/-- The rest of the program is only looked at where the first part returns a value. -/
theorem bind {g : α → Except ε β} (hx : Returns x r) (hf : ∀ a, r = .ok a → Returns (f a) (g a)) :
    Returns (x >>= f) (r >>= g) := by
  have hrun : (x >>= f).run = some r >>= fun r => ExceptT.bindCont f r := by
    rw [← hx]
    rfl
  unfold Returns
  rw [hrun]
  cases r with
  | error e => rfl
  | ok a => exact hf a rfl

theorem bind_ok {s : Except ε β} (hx : Returns x (.ok a)) (hf : Returns (f a) s) :
    Returns (x >>= f) s :=
  hx.bind (g := fun _ => s) fun _ hok => by cases hok; exact hf

theorem bind_error {e : ε} (hx : Returns x (.error e)) : Returns (x >>= f) (.error e) :=
  hx.bind (g := fun _ => .error e) fun _ hok => by cases hok

/-- A read, and what is done with the value. -/
theorem bind_read {s : Except ε β} (h : o = some a) (hf : Returns (f a) s) :
    Returns (liftM o >>= f) s :=
  (read h).bind_ok hf

theorem adapt {ε' : Type} {g : ε → ε'} (hx : Returns x r) :
    Returns (ExceptT.adapt g x) (r.mapError g) := by
  have hrun : (ExceptT.adapt g x).run = (some r).map (Except.mapError g) := by
    rw [← hx]
    rfl
  exact hrun

theorem ite {p : Prop} [Decidable p] {y : ReadProg ε α} {s : Except ε α} (hx : p → Returns x r)
    (hy : ¬ p → Returns y s) : Returns (if p then x else y) (if p then r else s) := by
  by_cases h : p
  · rw [if_pos h, if_pos h]
    exact hx h
  · rw [if_neg h, if_neg h]
    exact hy h

end Returns
end Lib
