import Wpa.Embox.Jobs

/-! The life of a job record: at any time it is in one phase, which says who may touch it, what the
slot and the flags of the record hold, and what has happened to it so far. -/

namespace Wpa.Embox
open Lib

/-- How far `wpa_embox_process_jobs` has got with a job that it has picked. -/
inductive Stage where
  | picked
  | inside
  | ended
  deriving DecidableEq

/-- Why the caller is the one to free a record. -/
inductive Fate where
  | busy
  | served
  | late
  deriving DecidableEq

inductive Phase where
  | unborn
  | fresh (c : Caller)
  | waiting (c : Caller)
  | running (c : Caller) (s : Stage)
  | done (c : Caller)
  | releasing (c : Caller) (f : Fate)
  | orphan (s : Stage)
  | orphanDone
  | gone (f : Fate)
  | goneOrphan
  | goneNoMemory
  deriving DecidableEq

def Stage.past : Stage → List JobEvent
  | .picked => [.picked]
  | .inside => [.picked, .began]
  | .ended => [.picked, .began, .ended]

def Fate.result : Fate → JobResult
  | .busy => .ebusy
  | .served => .ok
  | .late => .eagain

def Fate.past : Fate → List JobEvent
  | .busy => [.allocated]
  | .served => [.allocated, .accepted, .picked, .began, .ended, .finished]
  | .late => [.allocated, .accepted, .withdrawn]

def Phase.past : Phase → List JobEvent
  | .unborn => []
  | .fresh _ => [.allocated]
  | .waiting _ => [.allocated, .accepted]
  | .running _ s => [.allocated, .accepted] ++ s.past
  | .done _ => Fate.served.past
  | .releasing _ f => f.past
  | .orphan s => [.allocated, .accepted] ++ s.past ++ [.returned .eagain]
  | .orphanDone => Fate.served.past ++ [.returned .eagain]
  | .gone f => f.past ++ [.freed, .returned f.result]
  | .goneOrphan => Fate.served.past ++ [.returned .eagain, .freed]
  | .goneNoMemory => [.allocated, .freed, .returned .enomem]

/-- What a caller is doing with a record. -/
inductive CallStage where
  | allocated
  | polling
  | releasing (result : JobResult)
  deriving DecidableEq

inductive WorkStage where
  | at (s : Stage)
  | releasing
  deriving DecidableEq

def CallPc.stage (j : JobId) : CallPc → Option CallStage
  | .outside => none
  | .allocated k _ => if k = j then some .allocated else none
  | .polling k _ _ => if k = j then some .polling else none
  | .releasing k result => if k = j then some (.releasing result) else none

def WorkPc.stage (j : JobId) : WorkPc → Option WorkStage
  | .outside => none
  | .picked k => if k = j then some (.at .picked) else none
  | .inside k => if k = j then some (.at .inside) else none
  | .ended k => if k = j then some (.at .ended) else none
  | .releasing k => if k = j then some .releasing else none

namespace Phase

/-- The callers that hold the record, with what they do. -/
def callStage : Phase → Caller → Option CallStage
  | .fresh c, c' => if c' = c then some .allocated else none
  | .waiting c, c' => if c' = c then some .polling else none
  | .running c _, c' => if c' = c then some .polling else none
  | .done c, c' => if c' = c then some .polling else none
  | .releasing c f, c' => if c' = c then some (.releasing f.result) else none
  | _, _ => none

def workStage : Phase → Option WorkStage
  | .running _ s => some (.at s)
  | .orphan s => some (.at s)
  | .orphanDone => some .releasing
  | _ => none

def inSlot : Phase → Bool
  | .waiting _ => true
  | .running _ _ => true
  | .orphan _ => true
  | _ => false

/-- `done`, `started` and `abandoned` of the record, while it is allocated. -/
def flags : Phase → Option (Bool × Bool × Bool)
  | .fresh _ => some (false, false, false)
  | .waiting _ => some (false, false, false)
  | .running _ _ => some (false, true, false)
  | .done _ => some (true, true, false)
  | .releasing _ .busy => some (false, false, false)
  | .releasing _ .served => some (true, true, false)
  | .releasing _ .late => some (false, false, true)
  | .orphan _ => some (false, true, true)
  | .orphanDone => some (true, true, true)
  | _ => none

end Phase

def Job.flags (job : Job) : Bool × Bool × Bool := (job.done, job.started, job.abandoned)

/-- The record `j` is in the phase `ph`. -/
structure Stands (w : JobWorld) (j : JobId) (ph : Phase) : Prop where
  born : w.next ≤ j ↔ ph = .unborn
  call : ∀ c, (w.call c).stage j = ph.callStage c
  work : w.work.stage j = ph.workStage
  slot : w.slot = some j ↔ ph.inSlot = true
  record : (w.jobs j).map Job.flags = ph.flags

/-- What a return tells about the job at the time of the return. -/
def Timely (past : List JobOut) : JobOut → Prop
  | .returned _ (some j) .ok => JobEvent.began ∈ story j past ∧ JobEvent.ended ∈ story j past
  | .returned _ (some j) .eagain =>
    JobEvent.picked ∈ story j past ∨ JobEvent.withdrawn ∈ story j past
  | .fault _ => False
  | _ => True

/-- Every output fits the outputs before it. -/
def Justified (out : List JobOut) : Prop := ∀ past o, past ++ [o] <+: out → Timely past o

structure Owned (out : List JobOut) (w : JobWorld) : Prop where
  phase : ∀ j, ∃ ph, Stands w j ph ∧ (story j out).Perm ph.past
  justified : Justified out

theorem owned_start : Owned [] .start where
  phase j := by
    refine ⟨.unborn, ⟨?_, fun _ => rfl, rfl, ?_, rfl⟩, List.Perm.nil⟩
    · exact ⟨fun _ => rfl, fun _ => Nat.zero_le j⟩
    · constructor <;> intro h <;> cases h
  justified past o h := absurd (List.prefix_nil.mp h) (List.append_ne_nil_of_right_ne_nil _ (by simp))

theorem Justified.concat {out : List JobOut} {o : JobOut} (h : Justified out)
    (ho : Timely out o) : Justified (out ++ [o]) := by
  intro past o' hpast
  rcases List.prefix_concat_iff.mp hpast with heq | hlt
  · obtain ⟨rfl, hsame⟩ := List.append_inj' heq rfl
    obtain rfl : o' = o := List.singleton_inj.mp hsame
    exact ho
  · exact h past o' hlt

/-! ### One record moves, the others stay -/

/-- The world looks the same from the record `k`. -/
structure SameFor (w w' : JobWorld) (k : JobId) : Prop where
  next : w'.next ≤ k ↔ w.next ≤ k
  call : ∀ c, (w'.call c).stage k = (w.call c).stage k
  work : w'.work.stage k = w.work.stage k
  slot : w'.slot = some k ↔ w.slot = some k
  jobs : w'.jobs k = w.jobs k

theorem Stands.same {w w' : JobWorld} {k : JobId} {ph : Phase} (h : Stands w k ph)
    (hs : SameFor w w' k) : Stands w' k ph where
  born := hs.next.trans h.born
  call c := (hs.call c).trans (h.call c)
  work := hs.work.trans h.work
  slot := hs.slot.trans h.slot
  record := by
    rw [hs.jobs]
    exact h.record

section
variable {out more : List JobOut} {w w' : JobWorld} {j : JobId} {ph ph' : Phase}

theorem Owned.advance (h : Owned out w) (hpast : (story j out).Perm ph.past) (ph' : Phase)
    (hstands : Stands w' j ph') (hmore : (ph.past ++ story j more).Perm ph'.past)
    (hother : ∀ k, k ≠ j → SameFor w w' k ∧ story k more = [])
    (hjustified : Justified (out ++ more)) : Owned (out ++ more) w' where
  phase k := by
    by_cases hk : k = j
    · subst hk
      refine ⟨ph', hstands, ?_⟩
      rw [story_append]
      exact (hpast.append_right _).trans hmore
    · obtain ⟨phk, hphk, hpastk⟩ := h.phase k
      obtain ⟨hsame, hstory⟩ := hother k hk
      refine ⟨phk, hphk.same hsame, ?_⟩
      rwa [story_append, hstory, List.append_nil]
  justified := hjustified

end

section
variable {call : Caller → CallPc} {pc : CallPc} {j k : JobId} {c : Caller} {ph ph' : Phase}

theorem stage_update (hold : (call c).stage k = none) (hnew : pc.stage k = none) (c' : Caller) :
    (Function.update call c pc c').stage k = (call c').stage k := by
  by_cases hc : c' = c
  · subst hc
    rw [Function.update_self, hold, hnew]
  · rw [Function.update_of_ne hc]

/-- Moving the one caller that holds the record. -/
theorem callStage_update {cs : CallStage} (h : ∀ c', (call c').stage j = ph.callStage c')
    (hold : ∀ c', c' ≠ c → ph.callStage c' = none) (hnew : pc.stage j = some cs)
    (hph' : ∀ c', ph'.callStage c' = if c' = c then some cs else none) (c' : Caller) :
    (Function.update call c pc c').stage j = ph'.callStage c' := by
  rw [hph' c']
  by_cases hc : c' = c
  · subst hc
    rw [Function.update_self, hnew, if_pos rfl]
  · rw [Function.update_of_ne hc, if_neg hc, h c', hold c' hc]

/-- The one caller that holds the record lets go of it. -/
theorem callStage_leave (h : ∀ c', (call c').stage j = ph.callStage c')
    (hold : ∀ c', c' ≠ c → ph.callStage c' = none) (hnew : pc.stage j = none)
    (hph' : ∀ c', ph'.callStage c' = none) (c' : Caller) :
    (Function.update call c pc c').stage j = ph'.callStage c' := by
  rw [hph' c']
  by_cases hc : c' = c
  · subst hc
    rw [Function.update_self, hnew]
  · rw [Function.update_of_ne hc, h c', hold c' hc]

end

section
variable {w : JobWorld} {j : JobId} {c : Caller} {ph : Phase}

theorem Stands.of_allocated {t : ℕ} (h : Stands w j ph) (hpc : w.call c = .allocated j t) :
    ph = .fresh c := by
  have hstage := h.call c
  rw [hpc, CallPc.stage, if_pos rfl] at hstage
  cases ph <;> simp [Phase.callStage] at hstage
  rw [hstage]

theorem Stands.of_polling {t waited : ℕ} (h : Stands w j ph)
    (hpc : w.call c = .polling j t waited) :
    ph = .waiting c ∨ (∃ s, ph = .running c s) ∨ ph = .done c := by
  have hstage := h.call c
  rw [hpc, CallPc.stage, if_pos rfl] at hstage
  cases ph <;> simp [Phase.callStage] at hstage
  case waiting => exact Or.inl (by rw [hstage])
  case running s => exact Or.inr (Or.inl ⟨s, by rw [hstage]⟩)
  case done => exact Or.inr (Or.inr (by rw [hstage]))

theorem Stands.of_releasing {r : JobResult} (h : Stands w j ph)
    (hpc : w.call c = .releasing j r) : ∃ f, ph = .releasing c f ∧ r = f.result := by
  have hstage := h.call c
  rw [hpc, CallPc.stage, if_pos rfl] at hstage
  cases ph <;> simp [Phase.callStage] at hstage
  case releasing f => exact ⟨f, by rw [hstage.1], hstage.2⟩

theorem Stands.of_at {s : Stage} (h : Stands w j ph) (hpc : w.work.stage j = some (.at s)) :
    (∃ c, ph = .running c s) ∨ ph = .orphan s := by
  have hstage := h.work
  rw [hpc] at hstage
  cases ph <;> simp [Phase.workStage] at hstage
  case running c s' => exact Or.inl ⟨c, by rw [hstage]⟩
  case orphan => exact Or.inr (by rw [hstage])

theorem Stands.of_dropping (h : Stands w j ph) (hpc : w.work.stage j = some .releasing) :
    ph = .orphanDone := by
  have hstage := h.work
  rw [hpc] at hstage
  cases ph <;> simp [Phase.workStage] at hstage
  rfl

/-- What the slot holds while nobody works on it is a job that waits. -/
theorem Stands.of_slot (h : Stands w j ph) (hslot : w.slot = some j) (hidle : w.work = .outside) :
    ∃ c, ph = .waiting c := by
  have hin := h.slot.mp hslot
  have hstage := h.work
  rw [hidle] at hstage
  cases ph <;> simp [Phase.inSlot, Phase.workStage, WorkPc.stage] at hin hstage
  case waiting c => exact ⟨c, rfl⟩

/-- A record in a phase with flags is allocated, and its flags are those of the phase. -/
theorem Stands.job {fl : Bool × Bool × Bool} (h : Stands w j ph) (hph : ph.flags = some fl) :
    ∃ job, w.jobs j = some job ∧ job.flags = fl := by
  have hrecord := h.record
  rw [hph] at hrecord
  exact Option.map_eq_some_iff.mp hrecord

end

end Wpa.Embox
