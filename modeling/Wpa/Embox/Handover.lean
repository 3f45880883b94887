import Wpa.Embox.JobLife

/-! The hand-over of control jobs between the threads that submit them and the supplicant thread:
every step moves at most one record to its next phase, and the phases say who frees it. -/

namespace Wpa.Embox
open Lib

section
variable {out more : List JobOut} {w w' : JobWorld} {j k : JobId} {c : Caller}

theorem SameFor.refl (w : JobWorld) (k : JobId) : SameFor w w k :=
  ⟨Iff.rfl, fun _ => rfl, rfl, Iff.rfl, rfl⟩

/-- A step that moves no record. -/
theorem Owned.quiet (h : Owned out w) (hmore : ∀ k, story k more = [])
    (hsame : ∀ k, SameFor w w' k) (hjustified : Justified (out ++ more)) :
    Owned (out ++ more) w' where
  phase k := by
    obtain ⟨ph, hph, hpast⟩ := h.phase k
    refine ⟨ph, hph.same (hsame k), ?_⟩
    rwa [story_append, hmore k, List.append_nil]
  justified := hjustified

theorem Owned.idle (h : Owned out w) : Owned (out ++ []) w :=
  h.quiet (fun _ => rfl) (SameFor.refl w) (by rw [List.append_nil]; exact h.justified)

/-- Outputs that promise nothing. -/
theorem Justified.append (h : Justified out) (hmore : ∀ o ∈ more, ∀ past, Timely past o) :
    Justified (out ++ more) := by
  induction more using List.reverseRecOn with
  | nil => rwa [List.append_nil]
  | append_singleton more o ih =>
    rw [← List.append_assoc]
    apply (ih fun o' ho' => hmore o' (List.mem_append_left _ ho')).concat
    exact hmore o (List.mem_append_right _ (List.mem_singleton_self o)) _

theorem CallPc.stage_ne {pc : CallPc} {cs : CallStage} (hpc : pc.stage j = some cs) (hk : k ≠ j) :
    pc.stage k = none := by
  cases pc <;> simp [CallPc.stage] at hpc ⊢ <;> exact fun hsame => hk (hsame.symm.trans hpc.1)

theorem WorkPc.stage_ne {pc : WorkPc} {ws : WorkStage} (hpc : pc.stage j = some ws) (hk : k ≠ j) :
    pc.stage k = none := by
  cases pc <;> simp [WorkPc.stage] at hpc ⊢ <;> exact fun hsame => hk (hsame.symm.trans hpc.1)

theorem slot_ne (hslot : w.slot = some j) (hk : k ≠ j) : ¬ w.slot = some k := by
  rw [hslot, Option.some_inj]
  exact hk.symm

end

section
variable {out : List JobOut} {w : JobWorld} {c : Caller} {j : JobId}

/-- The name of the next record is not in use. -/
theorem Owned.next_unborn (h : Owned out w) :
    Stands w w.next .unborn ∧ (story w.next out).Perm Phase.unborn.past := by
  obtain ⟨ph, hph, hpast⟩ := h.phase w.next
  obtain rfl := hph.born.mp (Nat.le_refl w.next)
  exact ⟨hph, hpast⟩

theorem owned_allocate (h : Owned out w) (hpc : w.call c = .outside) (fn : ℕ) (arg : List UInt8)
    (timeoutMs : ℕ) (jobOk argOk : Bool) :
    Owned (out ++ (w.allocate c fn arg timeoutMs jobOk argOk).2)
      (w.allocate c fn arg timeoutMs jobOk argOk).1 := by
  obtain ⟨hunborn, hpast⟩ := h.next_unborn
  have hnext : ∀ k, k ≠ w.next → (w.next + 1 ≤ k ↔ w.next ≤ k) := by
    intro k hk
    exact ⟨Nat.le_of_succ_le, fun hle => Nat.lt_of_le_of_ne hle hk.symm⟩
  rw [JobWorld.allocate]
  split
  · apply h.quiet (fun _ => rfl) (SameFor.refl w)
    apply h.justified.append
    rintro o ho past
    rw [List.mem_singleton.mp ho]
    trivial
  · split
    · refine h.advance hpast .goneNoMemory ?_ ?_ ?_ ?_
      · refine ⟨?_, hunborn.call, hunborn.work, hunborn.slot, hunborn.record⟩
        exact ⟨fun hle => absurd hle (Nat.not_succ_le_self _), fun hph => by cases hph⟩
      · simp [story, JobOut.about, Phase.past]
      · intro k hk
        refine ⟨⟨hnext k hk, fun _ => rfl, rfl, Iff.rfl, rfl⟩, ?_⟩
        simp [story, JobOut.about, hk.symm]
      · apply h.justified.append
        intro o ho past
        simp only [List.mem_cons, List.not_mem_nil, or_false] at ho
        rcases ho with rfl | rfl | rfl <;> trivial
    · refine h.advance hpast (.fresh c) ?_ ?_ ?_ ?_
      · refine ⟨?_, ?_, hunborn.work, hunborn.slot, ?_⟩
        · exact ⟨fun hle => absurd hle (Nat.not_succ_le_self _), fun hph => by cases hph⟩
        · have hnew : (CallPc.allocated w.next timeoutMs).stage w.next = some .allocated :=
            if_pos rfl
          exact callStage_update hunborn.call (fun _ _ => rfl) hnew fun _ => rfl
        · change Option.map _ (Function.update w.jobs w.next _ w.next) = _
          rw [Function.update_self]
          rfl
      · simp [story, JobOut.about, Phase.past]
      · intro k hk
        refine ⟨⟨hnext k hk, ?_, rfl, Iff.rfl, Function.update_of_ne hk ..⟩, ?_⟩
        · have hold : (w.call c).stage k = none := by
            rw [hpc]
            rfl
          exact stage_update hold (if_neg hk.symm)
        · simp [story, JobOut.about, hk.symm]
      · apply h.justified.append
        intro o ho past
        rw [List.mem_singleton.mp ho]
        trivial

theorem owned_submit {t : ℕ} (h : Owned out w) (hpc : w.call c = .allocated j t) :
    Owned (out ++ (w.submit c j t).2) (w.submit c j t).1 := by
  obtain ⟨ph, hph, hpast⟩ := h.phase j
  obtain rfl := hph.of_allocated hpc
  have hborn : w.next ≤ j ↔ False := hph.born.trans (by simp)
  have honly : ∀ c', c' ≠ c → (Phase.fresh c).callStage c' = none := fun c' hc => if_neg hc
  have hold : (w.call c).stage j = some .allocated := by
    rw [hpc]
    exact if_pos rfl
  rw [JobWorld.submit]
  split
  · refine h.advance hpast (.releasing c .busy) ?_ ?_ ?_ ?_
    · refine ⟨hborn.trans (by simp), ?_, hph.work, hph.slot, hph.record⟩
      exact callStage_update hph.call honly (if_pos rfl) fun _ => rfl
    · exact List.Perm.refl _
    · intro k hk
      refine ⟨⟨Iff.rfl, ?_, rfl, Iff.rfl, rfl⟩, rfl⟩
      exact stage_update (CallPc.stage_ne hold hk) (if_neg hk.symm)
    · rw [List.append_nil]
      exact h.justified
  · rename_i hfree
    have hslot : w.slot = none := by simpa using hfree
    refine h.advance hpast (.waiting c) ?_ ?_ ?_ ?_
    · refine ⟨hborn.trans (by simp), ?_, hph.work, ?_, hph.record⟩
      · exact callStage_update hph.call honly (if_pos rfl) fun _ => rfl
      · exact ⟨fun _ => rfl, fun _ => rfl⟩
    · simp [story, JobOut.about, Phase.past]
    · intro k hk
      refine ⟨⟨Iff.rfl, ?_, rfl, ?_, rfl⟩, ?_⟩
      · exact stage_update (CallPc.stage_ne hold hk) (if_neg hk.symm)
      · change some j = some k ↔ _
        rw [hslot]
        simp [hk.symm]
      · simp [story, JobOut.about, hk.symm]
    · apply h.justified.append
      intro o ho past
      rw [List.mem_singleton.mp ho]
      trivial

theorem owned_poll {t waited : ℕ} (h : Owned out w) (hpc : w.call c = .polling j t waited) :
    Owned (out ++ (w.poll c j t waited).2) (w.poll c j t waited).1 := by
  obtain ⟨ph, hph, hpast⟩ := h.phase j
  have hold : (w.call c).stage j = some .polling := by
    rw [hpc]
    exact if_pos rfl
  have hquiet : Justified (out ++ []) := h.idle.justified
  obtain rfl | ⟨s, rfl⟩ | rfl := hph.of_polling hpc
  · -- the job still waits in the slot: the caller goes on waiting or takes it back
    have honly : ∀ c', c' ≠ c → (Phase.waiting c).callStage c' = none := fun c' hc => if_neg hc
    have hborn : w.next ≤ j ↔ False := hph.born.trans (by simp)
    obtain ⟨job, hjob, hflags⟩ := hph.job rfl
    obtain ⟨hdone, hstarted, -⟩ : job.done = false ∧ job.started = false ∧ job.abandoned = false := by
      simpa [Job.flags] using hflags
    have hslot : w.slot = some j := hph.slot.mpr rfl
    simp only [JobWorld.poll, JobWorld.withJob, hjob, hdone, hstarted]
    simp only [Bool.false_eq_true, if_false, Bool.not_false, if_true]
    split
    · refine h.advance hpast (.releasing c .late) ?_ ?_ ?_ ?_
      · refine ⟨hborn.trans (by simp), ?_, hph.work, ?_, ?_⟩
        · exact callStage_update hph.call honly (if_pos rfl) fun _ => rfl
        · constructor <;> intro hs <;> cases hs
        · change Option.map _ (Function.update w.jobs j _ j) = _
          rw [Function.update_self]
          simp [Job.flags, Phase.flags]
      · simp [story, JobOut.about, Phase.past, Fate.past]
      · intro k hk
        refine ⟨⟨Iff.rfl, ?_, rfl, ?_, Function.update_of_ne hk ..⟩, ?_⟩
        · exact stage_update (CallPc.stage_ne hold hk) (if_neg hk.symm)
        · exact ⟨fun hs => (by cases hs), fun hs => absurd hs (slot_ne hslot hk)⟩
        · simp [story, JobOut.about, hk.symm]
      · apply h.justified.append
        intro o ho past
        rw [List.mem_singleton.mp ho]
        trivial
    · refine h.advance hpast (.waiting c) ?_ (List.Perm.refl _) ?_ hquiet
      · refine ⟨hph.born, ?_, hph.work, hph.slot, hph.record⟩
        exact callStage_update hph.call honly (if_pos rfl) fun _ => rfl
      · intro k hk
        refine ⟨⟨Iff.rfl, ?_, rfl, Iff.rfl, rfl⟩, rfl⟩
        exact stage_update (CallPc.stage_ne hold hk) (if_neg hk.symm)
  · -- the job is running: the caller goes on waiting or leaves it to the supplicant thread
    have honly : ∀ c', c' ≠ c → (Phase.running c s).callStage c' = none := fun c' hc => if_neg hc
    have hborn : w.next ≤ j ↔ False := hph.born.trans (by simp)
    obtain ⟨job, hjob, hflags⟩ := hph.job rfl
    obtain ⟨hdone, hstarted, -⟩ : job.done = false ∧ job.started = true ∧ job.abandoned = false := by
      simpa [Job.flags] using hflags
    simp only [JobWorld.poll, JobWorld.withJob, hjob, hdone, hstarted]
    simp only [Bool.false_eq_true, if_false, Bool.not_true]
    split
    · refine h.advance hpast (.orphan s) ?_ ?_ ?_ ?_
      · refine ⟨hborn.trans (by simp), ?_, hph.work, hph.slot, ?_⟩
        · exact callStage_leave hph.call honly rfl fun _ => rfl
        · change Option.map _ (Function.update w.jobs j _ j) = _
          rw [Function.update_self]
          simp [Job.flags, Phase.flags]
      · simp [story, JobOut.about, Phase.past]
      · intro k hk
        refine ⟨⟨Iff.rfl, ?_, rfl, Iff.rfl, Function.update_of_ne hk ..⟩, ?_⟩
        · exact stage_update (CallPc.stage_ne hold hk) rfl
        · simp [story, JobOut.about, hk.symm]
      · apply h.justified.concat
        refine Or.inl (hpast.mem_iff.mpr ?_)
        cases s <;> simp [Phase.past, Stage.past]
    · refine h.advance hpast (.running c s) ?_ (by rw [story]; simp) ?_ hquiet
      · refine ⟨hph.born, ?_, hph.work, hph.slot, hph.record⟩
        exact callStage_update hph.call honly (if_pos rfl) fun _ => rfl
      · intro k hk
        refine ⟨⟨Iff.rfl, ?_, rfl, Iff.rfl, rfl⟩, rfl⟩
        exact stage_update (CallPc.stage_ne hold hk) (if_neg hk.symm)
  · -- the job is done
    have honly : ∀ c', c' ≠ c → (Phase.done c).callStage c' = none := fun c' hc => if_neg hc
    have hborn : w.next ≤ j ↔ False := hph.born.trans (by simp)
    obtain ⟨job, hjob, hflags⟩ := hph.job rfl
    obtain ⟨hdone, -⟩ : job.done = true ∧ job.started = true ∧ job.abandoned = false := by
      simpa [Job.flags] using hflags
    simp only [JobWorld.poll, JobWorld.withJob, hjob, hdone, if_true]
    refine h.advance hpast (.releasing c .served) ?_ (List.Perm.refl _) ?_ hquiet
    · refine ⟨hborn.trans (by simp), ?_, hph.work, hph.slot, hph.record⟩
      exact callStage_update hph.call honly (if_pos rfl) fun _ => rfl
    · intro k hk
      refine ⟨⟨Iff.rfl, ?_, rfl, Iff.rfl, rfl⟩, rfl⟩
      exact stage_update (CallPc.stage_ne hold hk) (if_neg hk.symm)

theorem owned_release {r : JobResult} (h : Owned out w) (hpc : w.call c = .releasing j r) :
    Owned (out ++ (w.release c j r).2) (w.release c j r).1 := by
  obtain ⟨ph, hph, hpast⟩ := h.phase j
  have hold : (w.call c).stage j = some (.releasing r) := by
    rw [hpc]
    exact if_pos rfl
  obtain ⟨f, rfl, rfl⟩ := hph.of_releasing hpc
  have honly : ∀ c', c' ≠ c → (Phase.releasing c f).callStage c' = none := fun c' hc => if_neg hc
  obtain ⟨job, hjob⟩ : ∃ job, w.jobs j = some job := by
    cases f <;> exact (hph.job rfl).imp fun _ hjob => hjob.1
  simp only [JobWorld.release, JobWorld.withJob, hjob]
  refine h.advance hpast (.gone f) ?_ ?_ ?_ ?_
  · refine ⟨hph.born.trans (by simp), ?_, hph.work, hph.slot, ?_⟩
    · exact callStage_leave hph.call honly rfl fun _ => rfl
    · change Option.map _ (Function.update w.jobs j none j) = _
      rw [Function.update_self]
      rfl
  · simp [story, JobOut.about, Phase.past]
  · intro k hk
    refine ⟨⟨Iff.rfl, ?_, rfl, Iff.rfl, Function.update_of_ne hk ..⟩, ?_⟩
    · exact stage_update (CallPc.stage_ne hold hk) rfl
    · simp [story, JobOut.about, hk.symm]
  · rw [List.append_cons]
    have hfreed : Justified (out ++ [.freed j]) := h.justified.concat trivial
    apply hfreed.concat
    have hmem : ∀ e, e ∈ f.past → e ∈ story j (out ++ [.freed j]) := by
      intro e he
      rw [story_append]
      exact List.mem_append_left _ (hpast.mem_iff.mpr he)
    cases f with
    | busy => trivial
    | served => exact ⟨hmem _ (by decide), hmem _ (by decide)⟩
    | late => exact Or.inr (hmem _ (by decide))

/-! ### The supplicant thread -/

theorem owned_pick (h : Owned out w) (hidle : w.work = .outside) (hslot : w.slot = some j) :
    Owned (out ++ (w.pick j).2) (w.pick j).1 := by
  obtain ⟨ph, hph, hpast⟩ := h.phase j
  obtain ⟨c, rfl⟩ := hph.of_slot hslot hidle
  obtain ⟨job, hjob, hflags⟩ := hph.job rfl
  obtain ⟨hdone, -, habandoned⟩ :
      job.done = false ∧ job.started = false ∧ job.abandoned = false := by
    simpa [Job.flags] using hflags
  simp only [JobWorld.pick, JobWorld.withJob, hjob]
  refine h.advance hpast (.running c .picked) ?_ ?_ ?_ ?_
  · refine ⟨hph.born.trans (by simp), hph.call, if_pos rfl, hph.slot, ?_⟩
    change Option.map _ (Function.update w.jobs j _ j) = _
    rw [Function.update_self]
    simp [Job.flags, Phase.flags, hdone, habandoned]
  · simp [story, JobOut.about, Phase.past, Stage.past]
  · intro k hk
    refine ⟨⟨Iff.rfl, fun _ => rfl, ?_, Iff.rfl, Function.update_of_ne hk ..⟩, ?_⟩
    · rw [hidle]
      exact if_neg hk.symm
    · simp [story, JobOut.about, hk.symm]
  · apply h.justified.concat
    trivial

/-- The supplicant thread gets on with the job that it works on; no flag and no caller moves. -/
theorem owned_proceed {pc : WorkPc} {s s' : Stage} {e : JobEvent} {o : JobOut} (h : Owned out w)
    (hold : w.work.stage j = some (.at s)) (hnew : pc.stage j = some (.at s'))
    (ho : o.about = some (j, e)) (hpast' : s'.past = s.past ++ [e]) (htimely : Timely out o) :
    Owned (out ++ [o]) { w with work := pc } := by
  obtain ⟨ph, hph, hpast⟩ := h.phase j
  have hself : story j [o] = [e] := by simp [story, ho]
  have hother : ∀ k, k ≠ j → SameFor w { w with work := pc } k ∧ story k [o] = [] := by
    intro k hk
    refine ⟨⟨Iff.rfl, fun _ => rfl, ?_, Iff.rfl, rfl⟩, ?_⟩
    · rw [WorkPc.stage_ne hold hk]
      exact WorkPc.stage_ne hnew hk
    · simp [story, ho, hk.symm]
  obtain ⟨c, rfl⟩ | rfl := hph.of_at hold
  · refine h.advance hpast (.running c s') ?_ ?_ hother (h.justified.concat htimely)
    · exact ⟨hph.born.trans (by simp), hph.call, hnew, hph.slot, hph.record⟩
    · rw [hself, Phase.past, Phase.past, hpast', List.append_assoc]
  · refine h.advance hpast (.orphan s') ?_ ?_ hother (h.justified.concat htimely)
    · exact ⟨hph.born.trans (by simp), hph.call, hnew, hph.slot, hph.record⟩
    · -- the caller has returned in between
      rw [hself, Phase.past, Phase.past, hpast', ← List.append_assoc, List.append_assoc _ [e]]
      rw [List.append_assoc _ _ [e]]
      exact List.Perm.append_left _ (List.Perm.swap ..)

theorem owned_mark (h : Owned out w) (hpc : w.work = .ended j) :
    Owned (out ++ (w.mark j).2) (w.mark j).1 := by
  obtain ⟨ph, hph, hpast⟩ := h.phase j
  have hold : w.work.stage j = some (.at .ended) := by
    rw [hpc]
    exact if_pos rfl
  have hjustified : Justified (out ++ [.finished j]) := h.justified.concat trivial
  have hslot : w.slot = some j := by
    obtain ⟨c, rfl⟩ | rfl := hph.of_at hold
    · exact hph.slot.mpr rfl
    · exact hph.slot.mpr rfl
  have hsame : ∀ (job : Option Job) (pc : WorkPc), (∀ k, k ≠ j → pc.stage k = none) →
      ∀ k, k ≠ j → SameFor w { w.setJob j job with slot := none, work := pc } k ∧
        story k [.finished j] = [] := by
    intro job pc hnew k hk
    refine ⟨⟨Iff.rfl, fun _ => rfl, ?_, ?_, Function.update_of_ne hk ..⟩, ?_⟩
    · rw [WorkPc.stage_ne hold hk]
      exact hnew k hk
    · exact ⟨fun hs => (by cases hs), fun hs => absurd hs (slot_ne hslot hk)⟩
    · simp [story, JobOut.about, hk.symm]
  obtain ⟨c, rfl⟩ | rfl := hph.of_at hold
  · -- the caller still polls and will free the record
    obtain ⟨job, hjob, hflags⟩ := hph.job rfl
    obtain ⟨-, hstarted, habandoned⟩ :
        job.done = false ∧ job.started = true ∧ job.abandoned = false := by
      simpa [Job.flags] using hflags
    simp only [JobWorld.mark, JobWorld.withJob, hjob, habandoned, Bool.false_eq_true, if_false]
    refine h.advance hpast (.done c) ?_ ?_ (hsame _ _ fun _ _ => rfl) hjustified
    · refine ⟨hph.born.trans (by simp), hph.call, rfl, ?_, ?_⟩
      · constructor <;> intro hs <;> cases hs
      · change Option.map _ (Function.update w.jobs j _ j) = _
        rw [Function.update_self]
        simp [Job.flags, Phase.flags, hstarted]
    · simp [story, JobOut.about, Phase.past, Stage.past, Fate.past]
  · -- the caller is gone
    obtain ⟨job, hjob, hflags⟩ := hph.job rfl
    obtain ⟨-, hstarted, habandoned⟩ :
        job.done = false ∧ job.started = true ∧ job.abandoned = true := by
      simpa [Job.flags] using hflags
    simp only [JobWorld.mark, JobWorld.withJob, hjob, habandoned, if_true]
    refine h.advance hpast .orphanDone ?_ ?_ ?_ hjustified
    · refine ⟨hph.born.trans (by simp), hph.call, if_pos rfl, ?_, ?_⟩
      · constructor <;> intro hs <;> cases hs
      · change Option.map _ (Function.update w.jobs j _ j) = _
        rw [Function.update_self]
        simp [Job.flags, Phase.flags, hstarted]
    · have hself : story j [.finished j] = [.finished] := by simp [story, JobOut.about]
      rw [hself]
      decide
    · exact hsame _ _ fun k hk => if_neg hk.symm

theorem owned_drop (h : Owned out w) (hpc : w.work = .releasing j) :
    Owned (out ++ (w.step .drop).2) (w.step .drop).1 := by
  obtain ⟨ph, hph, hpast⟩ := h.phase j
  have hold : w.work.stage j = some .releasing := by
    rw [hpc]
    exact if_pos rfl
  obtain rfl := hph.of_dropping hold
  obtain ⟨job, hjob, -⟩ := hph.job rfl
  simp only [JobWorld.step, JobWorld.withJob, hpc, hjob]
  refine h.advance hpast .goneOrphan ?_ ?_ ?_ ?_
  · refine ⟨hph.born.trans (by simp), hph.call, rfl, hph.slot, ?_⟩
    change Option.map _ (Function.update w.jobs j none j) = _
    rw [Function.update_self]
    rfl
  · simp [story, JobOut.about, Phase.past]
  · intro k hk
    refine ⟨⟨Iff.rfl, fun _ => rfl, ?_, Iff.rfl, Function.update_of_ne hk ..⟩, ?_⟩
    · exact (WorkPc.stage_ne hold hk).symm
    · simp [story, JobOut.about, hk.symm]
  · apply h.justified.concat
    trivial

theorem owned_step (h : Owned out w) (a : JobAct) : Owned (out ++ (w.step a).2) (w.step a).1 := by
  cases a with
  | call c fn arg timeoutMs jobOk argOk =>
    rw [JobWorld.step]
    split
    case h_1 hpc => exact owned_allocate h hpc fn arg timeoutMs jobOk argOk
    case h_2 => exact h.idle
  | submit c =>
    rw [JobWorld.step]
    split
    case h_1 hpc => exact owned_submit h hpc
    case h_2 => exact h.idle
  | poll c =>
    rw [JobWorld.step]
    split
    case h_1 hpc => exact owned_poll h hpc
    case h_2 => exact h.idle
  | release c =>
    rw [JobWorld.step]
    split
    case h_1 hpc => exact owned_release h hpc
    case h_2 => exact h.idle
  | pick =>
    rw [JobWorld.step]
    split
    case h_1 hidle hslot => exact owned_pick h hidle hslot
    case h_2 => exact h.idle
  | begin =>
    rw [JobWorld.step]
    split
    case h_1 j hpc =>
      have hold : w.work.stage j = some (.at .picked) := by
        rw [hpc]
        exact if_pos rfl
      obtain ⟨ph, hph, -⟩ := h.phase j
      obtain ⟨job, hjob⟩ : ∃ job, w.jobs j = some job := by
        obtain ⟨c, rfl⟩ | rfl := hph.of_at hold <;>
          exact (hph.job rfl).imp fun _ hjob => hjob.1
      simp only [JobWorld.withJob, hjob]
      exact owned_proceed h hold (if_pos rfl) rfl rfl trivial
    case h_2 => exact h.idle
  | finish =>
    rw [JobWorld.step]
    split
    case h_1 j hpc =>
      have hold : w.work.stage j = some (.at .inside) := by
        rw [hpc]
        exact if_pos rfl
      exact owned_proceed h hold (if_pos rfl) rfl rfl trivial
    case h_2 => exact h.idle
  | mark =>
    rw [JobWorld.step]
    split
    case h_1 hpc => exact owned_mark h hpc
    case h_2 => exact h.idle
  | drop =>
    by_cases hpc : ∃ j, w.work = .releasing j
    · obtain ⟨j, hpc⟩ := hpc
      exact owned_drop h hpc
    · rw [JobWorld.step]
      split
      case h_1 j hj => exact absurd ⟨j, hj⟩ hpc
      case h_2 => exact h.idle

end

/-! ### Whole runs -/

theorem owned_run (acts : List JobAct) :
    Owned (Runs.outputs (Runs.trace JobWorld.step .start acts))
      (Runs.final JobWorld.step .start acts) := by
  refine Runs.outputs_invariant (H := fun _ => True) owned_start ?_ acts fun _ _ => trivial
  intro out w a h _
  exact owned_step h a

section
variable {out : List JobOut} {w : JobWorld} {j : JobId}

/-- The phases up to the name of the caller. -/
def Phase.shapes : List Phase :=
  [.unborn, .fresh 0, .waiting 0, .running 0 .picked, .running 0 .inside, .running 0 .ended,
    .done 0, .releasing 0 .busy, .releasing 0 .served, .releasing 0 .late, .orphan .picked,
    .orphan .inside, .orphan .ended, .orphanDone, .gone .busy, .gone .served, .gone .late,
    .goneOrphan, .goneNoMemory]

theorem Phase.exists_shape (ph : Phase) : ∃ s ∈ Phase.shapes, ph.past = s.past := by
  cases ph with
  | unborn => exact ⟨.unborn, by decide, rfl⟩
  | fresh c => exact ⟨.fresh 0, by decide, rfl⟩
  | waiting c => exact ⟨.waiting 0, by decide, rfl⟩
  | running c s => exact ⟨.running 0 s, by cases s <;> decide, rfl⟩
  | done c => exact ⟨.done 0, by decide, rfl⟩
  | releasing c f => exact ⟨.releasing 0 f, by cases f <;> decide, rfl⟩
  | orphan s => exact ⟨.orphan s, by cases s <;> decide, rfl⟩
  | orphanDone => exact ⟨.orphanDone, by decide, rfl⟩
  | gone f => exact ⟨.gone f, by cases f <;> decide, rfl⟩
  | goneOrphan => exact ⟨.goneOrphan, by decide, rfl⟩
  | goneNoMemory => exact ⟨.goneNoMemory, by decide, rfl⟩

/-- What is true of every shape is true of what has happened to a record. -/
theorem Owned.count_shape (h : Owned out w) (j : JobId) :
    ∃ s ∈ Phase.shapes, ∀ e, (story j out).count e = s.past.count e := by
  obtain ⟨ph, -, hpast⟩ := h.phase j
  obtain ⟨s, hs, heq⟩ := ph.exists_shape
  exact ⟨s, hs, fun e => by rw [hpast.count_eq, heq]⟩

theorem Owned.count_le_one (h : Owned out w) (j : JobId) {e : JobEvent}
    (he : ∀ s ∈ Phase.shapes, s.past.count e ≤ 1) : (story j out).count e ≤ 1 := by
  obtain ⟨s, hs, hcount⟩ := h.count_shape j
  rw [hcount]
  exact he s hs

theorem Owned.excludes (h : Owned out w) {e e' : JobEvent}
    (he : ∀ s ∈ Phase.shapes, e ∈ s.past → e' ∉ s.past) (hmem : e ∈ story j out) :
    e' ∉ story j out := by
  obtain ⟨s, hs, hcount⟩ := h.count_shape j
  rw [← List.count_pos_iff, hcount, List.count_pos_iff] at hmem ⊢
  exact he s hs hmem

/-- A job that was accepted and is neither finished nor taken back. -/
def Unfinished (j : JobId) (out : List JobOut) : Prop :=
  .accepted ∈ story j out ∧ .finished ∉ story j out ∧ .withdrawn ∉ story j out

theorem Owned.unfinished (h : Owned out w) (hj : Unfinished j out) : w.slot = some j := by
  obtain ⟨ph, hph, hpast⟩ := h.phase j
  simp only [Unfinished, hpast.mem_iff] at hj
  apply hph.slot.mpr
  cases ph with
  | waiting | running | orphan => rfl
  | releasing c f | gone f =>
    cases f <;> simp [Phase.past, Fate.past, Fate.result] at hj
  | unborn | fresh | done | orphanDone | goneOrphan | goneNoMemory =>
    simp [Phase.past, Fate.past] at hj

theorem Owned.no_fault (h : Owned out w) (j : JobId) : .fault j ∉ out := by
  intro hmem
  obtain ⟨past, rest, rfl⟩ := List.append_of_mem hmem
  exact h.justified past (.fault j) ⟨rest, by simp⟩

/-- A record that nobody holds any more has been freed. -/
theorem Owned.all_freed (h : Owned out w) (hcall : ∀ c, w.call c = .outside)
    (hwork : w.work = .outside) (j : JobId) :
    (story j out).count .freed = (story j out).count .allocated := by
  obtain ⟨ph, hph, hpast⟩ := h.phase j
  have hcalls : ∀ c, ph.callStage c = none := by
    intro c
    rw [← hph.call c, hcall c]
    rfl
  have hworks : ph.workStage = none := by
    rw [← hph.work, hwork]
    rfl
  rw [hpast.count_eq, hpast.count_eq]
  cases ph with
  | fresh c | waiting c | running c | done c | releasing c => simpa [Phase.callStage] using hcalls c
  | orphan | orphanDone => cases hworks
  | gone f => cases f <;> rfl
  | unborn | goneOrphan | goneNoMemory => rfl

end

/-- However the callers and the supplicant thread interleave: no record is touched after it was
freed, each is freed once and none is left over, `fn` runs at most once, ran to its end where the
caller returns 0 and never runs for a caller that was refused or gave up in time, and at most one
job is under way. -/
theorem jobs_handed_over (acts : List JobAct) :
    let out := Runs.outputs (Runs.trace JobWorld.step .start acts)
    let w := Runs.final JobWorld.step .start acts
    (∀ j, .fault j ∉ out ∧ (story j out).count .freed ≤ 1) ∧
    ((∀ c, w.call c = .outside) → w.work = .outside →
      ∀ j, (story j out).count .freed = (story j out).count .allocated) ∧
    (∀ j, (story j out).count .began ≤ 1) ∧
    (∀ past c j, past ++ [.returned c (some j) .ok] <+: out →
      (story j past).count .began = 1 ∧ (story j past).count .ended = 1 ∧
      (story j out).count .began = 1) ∧
    (∀ j, .returned .ebusy ∈ story j out → .began ∉ story j out) ∧
    (∀ past c j, past ++ [.returned c (some j) .eagain] <+: out → .picked ∉ story j past →
      .began ∉ story j out) ∧
    ∀ j k, Unfinished j out → Unfinished k out → j = k := by
  intro out w
  have h : Owned out w := owned_run acts
  have hbegan : ∀ j, (story j out).count .began ≤ 1 := fun j => h.count_le_one j (by decide)
  have hended : ∀ j, (story j out).count .ended ≤ 1 := fun j => h.count_le_one j (by decide)
  have hsub : ∀ {past o}, past ++ [o] <+: out → ∀ j, (story j past).Sublist (story j out) := by
    rintro past o ⟨rest, hout⟩ j
    rw [← hout, List.append_assoc, story_append]
    exact List.sublist_append_left _ _
  refine ⟨fun j => ⟨h.no_fault j, h.count_le_one j (by decide)⟩, h.all_freed, hbegan, ?_, ?_, ?_, ?_⟩
  · intro past c j hpast
    obtain ⟨hb, he⟩ := h.justified past _ hpast
    have hb := List.count_pos_iff.mpr hb
    have he := List.count_pos_iff.mpr he
    have hbl := (hsub hpast j).count_le .began
    have hel := (hsub hpast j).count_le .ended
    have hbj := hbegan j
    have hej := hended j
    omega
  · intro j
    exact h.excludes (by decide)
  · intro past c j hpast hpicked
    have hwithdrawn := (h.justified past _ hpast).resolve_left hpicked
    apply h.excludes (e := .withdrawn) (by decide)
    exact (hsub hpast j).subset hwithdrawn
  · intro j k hj hk
    exact Option.some_inj.mp ((h.unfinished hj).symm.trans (h.unfinished hk))

theorem jobs_handed_over_once :
    let acts : List JobAct := [.call 3 7 [1] 5000 true true, .submit 3, .pick, .begin, .finish,
      .mark, .poll 3, .release 3]
    let out := Runs.outputs (Runs.trace JobWorld.step .start acts)
    story 0 out = [.allocated, .accepted, .picked, .began, .ended, .finished, .freed,
      .returned .ok] ∧
    (story 0 out).count .freed = (story 0 out).count .allocated := by
  intro acts out
  refine ⟨by decide, (jobs_handed_over acts).2.1 ?_ rfl 0⟩
  intro c
  by_cases hc : c = 3
  · subst hc
    rfl
  · have hcall : (Runs.final JobWorld.step .start acts).call =
        Function.update (Function.update (Function.update (Function.update (fun _ => .outside) 3
          (.allocated 0 5000)) 3 (.polling 0 5000 0)) 3 (.releasing 0 .ok)) 3 .outside := rfl
    rw [hcall]
    simp only [Function.update_of_ne hc]

end Wpa.Embox
