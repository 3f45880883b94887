import Wpa.Eloop.Machine

/-! The timers of the Embox event loop, over whole runs. -/

namespace Wpa.Embox
open Lib Runs Eloop

/-- The call is one that cancels this timeout. -/
def Cancels : EloopCall → Timeout → Prop
  | .cancelTimeout handler eloopData userData, x =>
    x.callback.isMatch handler eloopData userData = true
  | .cancelTimeoutOne callback, x => x.callback = callback
  | _, _ => False

/-- Only a matching call removes an entry. -/
theorem cancels_of_removed {eloop : EloopData} {now : Reading} {call : EloopCall} {id : ℕ}
    (h : .removed id ∈ (eloopCall eloop now call).2) :
    ∃ x ∈ eloop.timeouts, x.id = id ∧ Cancels call x := by
  cases call with
  | registerTimeout memory secs usecs callback =>
    cases memory with
    | true => simp [eloopCall] at h
    | false => simp [eloopCall] at h
  | cancelTimeout handler eloopData userData =>
    simp only [eloopCall, cancelTimeout_eq, List.mem_append, List.mem_singleton, reduceCtorEq,
      or_false, List.mem_map] at h
    obtain ⟨x, hx, hid⟩ := h
    obtain ⟨hmem, hmatch⟩ := List.mem_filter.mp hx
    exact ⟨x, hmem, EloopOut.removed.inj hid, hmatch⟩
  | cancelTimeoutOne callback =>
    rcases cancelTimeoutOne_cases callback eloop.timeouts with
      ⟨hnone, -⟩ | ⟨earlier, x, later, hlist, hcallback, -, hone⟩
    · simp [eloopCall, hnone] at h
    · simp only [eloopCall, hone, Option.toList_some, List.map_cons, List.map_nil,
        List.cons_append, List.mem_cons, EloopOut.removed.injEq] at h
      have hid : id = x.id := by simpa using h
      exact ⟨x, by simp [hlist], hid.symm, hcallback⟩
  | run =>
    unfold eloopCall at h
    simp only at h
    split at h
    · cases h
    · split at h <;> simp at h
  | handlerReturned => cases h

/-- What a call of `eloop_cancel_timeout` or `eloop_cancel_timeout_one` does to the list and says. -/
def CancelsExactly (t : Event EloopData (Reading × EloopCall) EloopOut) : Prop :=
  (∀ handler eloopData userData, t.input.2 = .cancelTimeout handler eloopData userData →
    t.post.timeouts =
        t.pre.timeouts.filter (fun x => !x.callback.isMatch handler eloopData userData) ∧
      t.out = (t.pre.timeouts.filter fun x => x.callback.isMatch handler eloopData userData).map
          (fun x => .removed x.id) ++
        [.returned
          (t.pre.timeouts.countP fun x => x.callback.isMatch handler eloopData userData)]) ∧
  ∀ callback, t.input.2 = .cancelTimeoutOne callback →
    (t.post.timeouts = t.pre.timeouts ∧ t.out = [.returned 0, .remaining ⟨0, 0⟩] ∧
      ∀ x ∈ t.pre.timeouts, x.callback ≠ callback) ∨
    ∃ earlier x later left, t.pre.timeouts = earlier ++ x :: later ∧
      t.post.timeouts = earlier ++ later ∧ x.callback = callback ∧
      (∀ y ∈ earlier, y.callback ≠ callback) ∧
      t.out = [.removed x.id, .returned 1, .remaining left] ∧
      left.micros = x.time.micros - t.input.1.1.micros

theorem cancelsExactly {out : List EloopOut} {eloop : EloopData} (h : Kept out eloop)
    (now : Reading) (call : EloopCall) : CancelsExactly (event eloopStep eloop (now, call)) := by
  constructor
  · rintro handler eloopData userData ⟨⟩
    simp [event, eloopStep, eloopCall, cancelTimeout_eq, List.countP_eq_length_filter]
  · rintro callback ⟨⟩
    rcases cancelTimeoutOne_cases callback eloop.timeouts with
      ⟨hnone, hall⟩ | ⟨earlier, x, later, hlist, hcallback, hall, hone⟩
    · refine .inl ⟨?_, ?_, hall⟩
      · simp [event, eloopStep, eloopCall, hnone]
      · simp [event, eloopStep, eloopCall, hnone, remaining]
    · right
      refine ⟨earlier, x, later, remaining now.1 (some x), hlist, ?_, hcallback, hall, ?_, ?_⟩
      · simp [event, eloopStep, eloopCall, hone]
      · simp [event, eloopStep, eloopCall, hone]
      · exact remaining_spec now.2 (h.normal x (by simp [hlist]))

/-- Along every run the list is sorted, each registration is in exactly one place, no handler runs
before its time, and the cancelling calls do exactly what they say. -/
theorem timers_kept (calls : List (Reading × EloopCall)) :
    (∀ t ∈ trace eloopStep .init calls, Sorted t.post.timeouts ∧ CancelsExactly t ∧
        ∀ id, .removed id ∈ t.out → ∃ x ∈ t.pre.timeouts, x.id = id ∧ Cancels t.input.2 x) ∧
      ∀ id now secs usecs callback,
        .registered id now secs usecs callback ∈ outputs (trace eloopStep .init calls) →
        places (outputs (trace eloopStep .init calls)) (final eloopStep .init calls) id = 1 ∧
        ∀ now', .handled id now' ∈ outputs (trace eloopStep .init calls) →
          now.1.micros + secs * 1000000 + usecs ≤ now'.1.micros := by
  have hrun := @history_induction _ _ _ eloopStep
    (fun past eloop => (∀ t ∈ past, Sorted t.post.timeouts ∧ CancelsExactly t ∧
        ∀ id, .removed id ∈ t.out → ∃ x ∈ t.pre.timeouts, x.id = id ∧ Cancels t.input.2 x) ∧
      Kept (outputs past) eloop)
    (fun _ _ => True) .init ⟨by simp, .init⟩ ?_ calls fun _ _ => trivial
  · refine ⟨hrun.1, fun id now secs usecs callback hregistered => ⟨?_, ?_⟩⟩
    · rw [hrun.2.placed, if_pos (hrun.2.old hregistered)]
    · exact fun now' hhandled => hrun.2.inTime hhandled hregistered
  · rintro past eloop ⟨now, call⟩ ⟨hpast, hkept⟩ -
    rw [outputs_concat]
    refine ⟨fun t ht => ?_, hkept.call now call⟩
    rcases List.mem_append.mp ht with hold | hlast
    · exact hpast t hold
    · rw [List.mem_singleton.mp hlast]
      exact ⟨(hkept.call now call).sorted, cancelsExactly hkept now call, fun id h => cancels_of_removed h⟩

end Wpa.Embox
