import Mathlib.Data.List.Basic
import Mathlib.Data.List.Induction

/-! Runs of a machine that takes one input after another and answers each with a list of outputs.
An invariant may speak about the whole past of a run, so that facts about the order of outputs are
invariants as well. -/

namespace Lib

/-- One step of a run: the state before, the input, the state after and the outputs. -/
structure Event (σ ι ω : Type) where
  pre : σ
  input : ι
  post : σ
  out : List ω

namespace Runs
variable {σ ι ω : Type} (step : σ → ι → σ × List ω)

def event (s : σ) (i : ι) : Event σ ι ω := ⟨s, i, (step s i).1, (step s i).2⟩

def trace : σ → List ι → List (Event σ ι ω)
  | _, [] => []
  | s, i :: is => event step s i :: trace (step s i).1 is

def final (s : σ) (is : List ι) : σ := is.foldl (fun s i => (step s i).1) s

def outputs (past : List (Event σ ι ω)) : List ω := past.flatMap Event.out

variable {step}

theorem final_append (s : σ) (is js : List ι) :
    final step s (is ++ js) = final step (final step s is) js :=
  List.foldl_append

theorem trace_append (s : σ) (is js : List ι) :
    trace step s (is ++ js) = trace step s is ++ trace step (final step s is) js := by
  induction is generalizing s with
  | nil => rfl
  | cons i is ih =>
    have htail := ih (step s i).1
    simp only [List.cons_append, trace, htail]
    rfl

@[simp] theorem length_trace (s : σ) (is : List ι) : (trace step s is).length = is.length := by
  induction is generalizing s with
  | nil => rfl
  | cons i is ih =>
    rw [trace, List.length_cons, List.length_cons, ih]

@[simp] theorem map_input_trace (s : σ) (is : List ι) : (trace step s is).map Event.input = is := by
  induction is generalizing s with
  | nil => rfl
  | cons i is ih =>
    rw [trace, List.map_cons, ih]
    rfl

/-- The first part of a trace is the trace of the first inputs. -/
theorem trace_eq_append {s : σ} {is : List ι} {past rest : List (Event σ ι ω)}
    (h : trace step s is = past ++ rest) :
    ∃ js ks, is = js ++ ks ∧ past = trace step s js ∧ rest = trace step (final step s js) ks := by
  refine ⟨is.take past.length, is.drop past.length, (List.take_append_drop ..).symm, ?_⟩
  rw [← List.take_append_drop past.length is, trace_append] at h
  have hlength : past.length ≤ is.length := by
    have hall := congrArg List.length h
    simp only [List.length_append, length_trace, List.length_take, List.length_drop] at hall
    omega
  have hparts := List.append_inj h (by rw [length_trace, List.length_take, Nat.min_eq_left hlength])
  exact ⟨hparts.1.symm, hparts.2.symm⟩

@[simp] theorem outputs_nil : outputs ([] : List (Event σ ι ω)) = [] := rfl

@[simp] theorem outputs_concat (past : List (Event σ ι ω)) (t : Event σ ι ω) :
    outputs (past ++ [t]) = outputs past ++ t.out := by
  simp [outputs]

/-- What holds at the start and survives every step that meets `p` holds at the end of a run
whose steps all meet it, of the past and the state reached. The condition may speak about the
past as well. -/
theorem past_induction {I : List (Event σ ι ω) → σ → Prop} {p : List (Event σ ι ω) → σ → ι → Prop}
    {s : σ} (hinit : I [] s)
    (hstep : ∀ past s i, I past s → p past s i → I (past ++ [event step s i]) (step s i).1)
    (is : List ι)
    (hok : ∀ js i ks, is = js ++ i :: ks → p (trace step s js) (final step s js) i) :
    I (trace step s is) (final step s is) := by
  induction is using List.reverseRecOn with
  | nil => exact hinit
  | append_singleton is i ih =>
    rw [trace_append, final_append]
    refine hstep _ _ i (ih fun js j ks his => ?_) (hok is i [] rfl)
    apply hok js j (ks ++ [i])
    rw [his, List.append_assoc, List.cons_append]

theorem history_induction {I : List (Event σ ι ω) → σ → Prop} {p : σ → ι → Prop} {s : σ}
    (hinit : I [] s)
    (hstep : ∀ past s i, I past s → p s i → I (past ++ [event step s i]) (step s i).1)
    (is : List ι) (hok : ∀ t ∈ trace step s is, p t.pre t.input) :
    I (trace step s is) (final step s is) := by
  apply past_induction (p := fun _ => p) hinit hstep
  intro js i ks his
  apply hok (event step (final step s js) i)
  rw [his, trace_append]
  exact List.mem_append_right _ (List.mem_cons_self ..)

/-- An invariant of the outputs and the state holds at the end of a run whose outputs meet the
assumption `H` all along. -/
theorem outputs_invariant {H : List ω → Prop} {I : List ω → σ → Prop} {s : σ} (hinit : I [] s)
    (hstep : ∀ out s i, I out s → (∀ q, q <+: out ++ (step s i).2 → H q) →
      I (out ++ (step s i).2) (step s i).1)
    (is : List ι) (hH : ∀ q, q <+: outputs (trace step s is) → H q) :
    I (outputs (trace step s is)) (final step s is) := by
  induction is using List.reverseRecOn with
  | nil => exact hinit
  | append_singleton is i ih =>
    have hout : outputs (trace step s (is ++ [i])) =
        outputs (trace step s is) ++ (step (final step s is) i).2 := by
      rw [trace_append]
      exact outputs_concat _ _
    rw [hout] at hH ⊢
    rw [final_append]
    refine hstep _ _ i (ih fun q hq => hH q (hq.trans (List.prefix_append _ _))) hH

/-- An invariant of the state alone holds before and after every step of a run. -/
theorem state_invariant {I : σ → Prop} {p : σ → ι → Prop} {s : σ} (hinit : I s)
    (hstep : ∀ s i, I s → p s i → I (step s i).1) (is : List ι)
    (hok : ∀ t ∈ trace step s is, p t.pre t.input) {t : Event σ ι ω}
    (ht : t ∈ trace step s is) : I t.pre ∧ t = event step t.pre t.input := by
  induction is generalizing s with
  | nil => cases ht
  | cons i is ih =>
    rcases List.mem_cons.mp ht with rfl | ht
    · exact ⟨hinit, rfl⟩
    · refine ih (hstep s i hinit ?_) (fun t ht => hok t (List.mem_cons_of_mem _ ht)) ht
      exact hok (event step s i) (List.mem_cons_self ..)

/-- Where the step from a state in `I` is good exactly if it meets `p`, and good steps stay in
`I`, all steps of a run are good exactly if all of them meet `p`. -/
theorem all_good_iff {I : σ → Prop} {good : Event σ ι ω → Prop} {p : σ → ι → Prop}
    (hstep : ∀ s i, I s → (good (event step s i) ↔ p s i))
    (hnext : ∀ s i, I s → good (event step s i) → I (step s i).1) {s : σ} (hI : I s)
    (is : List ι) :
    (∀ t ∈ trace step s is, good t) ↔ ∀ t ∈ trace step s is, p t.pre t.input := by
  induction is generalizing s with
  | nil => simp [trace]
  | cons i is ih =>
    have hone : good (event step s i) ↔ p (event step s i).pre (event step s i).input :=
      hstep s i hI
    simp only [trace, List.forall_mem_cons]
    rw [← hone]
    exact and_congr_right fun hgood => ih (hnext s i hI hgood)

/-- Every event of a run is the step taken from its first state. -/
theorem mem_trace {s : σ} {is : List ι} {t : Event σ ι ω} (ht : t ∈ trace step s is) :
    t = event step t.pre t.input :=
  (state_invariant (I := fun _ => True) (p := fun _ _ => True) trivial (fun _ _ _ _ => trivial) is
    (fun _ _ => trivial) ht).2

end Runs
end Lib
