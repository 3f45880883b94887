import Wpa.Eloop.Timeouts
import Wpa.Lib.Runs

/-! The timers of the event loop: the Embox port follows the FreeRTOS port here. Handlers run on
the supplicant thread, so a call that a handler makes is one more call, between the entry's being
taken out of the list and the handler's return. -/

namespace Wpa.Eloop
open Lib Runs

/-- What the clock reads. -/
abbrev Reading := { t : OsTime // t.Normal }

/-- `eloop.timeout`, the number of the next registration and the entry whose handler runs. -/
structure EloopData where
  timeouts : List Timeout
  registered : ℕ
  due : Option Timeout

def EloopData.init : EloopData := ⟨[], 0, none⟩

inductive EloopCall where
  | registerTimeout (memory : Bool) (secs usecs : ℕ) (callback : Callback)
  | cancelTimeout (handler : ℕ) (eloopData userData : Ctx)
  | cancelTimeoutOne (callback : Callback)
  /-- `eloop_run` looks for a due timeout. -/
  | run
  | handlerReturned

inductive EloopOut where
  | registered (id : ℕ) (now : Reading) (secs usecs : ℕ) (callback : Callback)
  | removed (id : ℕ)
  | handled (id : ℕ) (now : Reading)
  | returned (result : ℤ)
  | remaining (time : OsTime)
  deriving DecidableEq

def eloopCall (eloop : EloopData) (now : Reading) : EloopCall → EloopData × List EloopOut
  | .registerTimeout memory secs usecs callback =>
    if !memory then (eloop, [.returned (-1)])
    else
      let timeout : Timeout := ⟨eloop.registered, now.1.after secs usecs, callback⟩
      ({ eloop with
          timeouts := addTimeout timeout eloop.timeouts, registered := eloop.registered + 1 },
        [.registered eloop.registered now secs usecs callback, .returned 0])
  | .cancelTimeout handler eloopData userData =>
    let (kept, removed) := cancelTimeout handler eloopData userData eloop.timeouts
    ({ eloop with timeouts := kept },
      removed.map (fun timeout => .removed timeout.id) ++ [.returned removed.length])
  | .cancelTimeoutOne callback =>
    let (kept, removed) := cancelTimeoutOne callback eloop.timeouts
    ({ eloop with timeouts := kept },
      removed.toList.map (fun timeout => .removed timeout.id) ++
        [.returned removed.toList.length, .remaining (remaining now.1 removed)])
  | .run =>
    if eloop.due.isSome then (eloop, [])
    else
      match takeDue now.1 eloop.timeouts with
      | none => (eloop, [])
      | some (due, next) =>
        ({ eloop with timeouts := next, due := some due }, [.handled due.id now])
  | .handlerReturned => ({ eloop with due := none }, [])

/-- A call at an instant. -/
def eloopStep (eloop : EloopData) (input : Reading × EloopCall) : EloopData × List EloopOut :=
  eloopCall eloop input.1 input.2

def removedIds (out : List EloopOut) : List ℕ :=
  out.filterMap fun
    | .removed id => some id
    | _ => none

def handledIds (out : List EloopOut) : List ℕ :=
  out.filterMap fun
    | .handled id _ => some id
    | _ => none

section Outs

@[simp] theorem removedIds_append (out out' : List EloopOut) :
    removedIds (out ++ out') = removedIds out ++ removedIds out' := List.filterMap_append

@[simp] theorem handledIds_append (out out' : List EloopOut) :
    handledIds (out ++ out') = handledIds out ++ handledIds out' := List.filterMap_append

theorem removedIds_map (l : List Timeout) :
    removedIds (l.map fun timeout => .removed timeout.id) = l.map Timeout.id := by
  induction l with
  | nil => rfl
  | cons x l ih => exact congrArg (x.id :: ·) ih

theorem handledIds_map (l : List Timeout) :
    handledIds (l.map fun timeout => .removed timeout.id) = [] := by
  induction l with
  | nil => rfl
  | cons x l ih => exact ih

theorem mem_handledIds {out : List EloopOut} {id : ℕ} :
    id ∈ handledIds out ↔ ∃ now, .handled id now ∈ out := by
  rw [handledIds, List.mem_filterMap]
  constructor
  · rintro ⟨o, ho, hid⟩
    cases o <;> cases hid
    exact ⟨_, ho⟩
  · rintro ⟨now, h⟩
    exact ⟨_, h, rfl⟩

end Outs

/-- In how many of the three places the registration of this number is found. -/
def places (out : List EloopOut) (eloop : EloopData) (id : ℕ) : ℕ :=
  (eloop.timeouts.map Timeout.id).count id + (removedIds out).count id + (handledIds out).count id

/-- The list and the history of the calls agree. -/
structure Kept (out : List EloopOut) (eloop : EloopData) : Prop where
  sorted : Sorted eloop.timeouts
  normal : ∀ x ∈ eloop.timeouts, x.time.Normal
  placed : ∀ id, places out eloop id = if id < eloop.registered then 1 else 0
  old : ∀ {id now secs usecs callback},
    .registered id now secs usecs callback ∈ out → id < eloop.registered
  issued : ∀ id, id < eloop.registered →
    ∃ now secs usecs callback, .registered id now secs usecs callback ∈ out
  entries : ∀ x ∈ eloop.timeouts, ∀ {now secs usecs callback},
    .registered x.id now secs usecs callback ∈ out →
      x.time = now.1.after secs usecs ∧ x.callback = callback
  inTime : ∀ {id now' now secs usecs callback}, .handled id now' ∈ out →
    .registered id now secs usecs callback ∈ out →
      now.1.micros + secs * 1000000 + usecs ≤ now'.1.micros

namespace Kept
variable {out : List EloopOut} {eloop : EloopData}

theorem id_lt (h : Kept out eloop) {x : Timeout} (hx : x ∈ eloop.timeouts) :
    x.id < eloop.registered := by
  by_contra hnot
  have hplaced := h.placed x.id
  rw [if_neg hnot, places] at hplaced
  have hcount : 0 < (eloop.timeouts.map Timeout.id).count x.id :=
    List.count_pos_iff.mpr (List.mem_map_of_mem hx)
  omega

theorem handled_lt (h : Kept out eloop) {id : ℕ} {now : Reading} (hid : .handled id now ∈ out) :
    id < eloop.registered := by
  by_contra hnot
  have hplaced := h.placed id
  rw [if_neg hnot, places] at hplaced
  have hcount : 0 < (handledIds out).count id :=
    List.count_pos_iff.mpr (mem_handledIds.mpr ⟨now, hid⟩)
  omega

theorem init : Kept [] .init where
  sorted := .nil
  normal := by simp [EloopData.init]
  placed := by simp [places, removedIds, handledIds, EloopData.init]
  old := by simp
  issued := by simp [EloopData.init]
  entries := by simp
  inTime := by simp

theorem register (h : Kept out eloop) (now : Reading) (secs usecs : ℕ) (callback : Callback) :
    Kept (out ++ [.registered eloop.registered now secs usecs callback, .returned 0])
      { eloop with
        timeouts := addTimeout ⟨eloop.registered, now.1.after secs usecs, callback⟩ eloop.timeouts
        registered := eloop.registered + 1 } where
  sorted := sorted_addTimeout h.sorted h.normal (OsTime.after_normal _ _ _) fun x hx => h.id_lt hx
  normal := by
    intro x hx
    rcases mem_addTimeout.mp hx with rfl | hx
    · exact OsTime.after_normal _ _ _
    · exact h.normal x hx
  placed := by
    intro id
    have hplaced := h.placed id
    have hperm := ((addTimeout_perm ⟨eloop.registered, now.1.after secs usecs, callback⟩
      eloop.timeouts).map Timeout.id).count_eq id
    simp only [places, removedIds_append, handledIds_append, List.count_append, hperm,
      List.map_cons] at hplaced ⊢
    have hnone : (removedIds [.registered eloop.registered now secs usecs callback,
        .returned 0]).count id = 0 := rfl
    have hnone' : (handledIds [.registered eloop.registered now secs usecs callback,
        .returned 0]).count id = 0 := rfl
    rw [hnone, hnone', List.count_cons]
    by_cases hid : eloop.registered = id
    · subst hid
      simp only [lt_irrefl, if_false, beq_self_eq_true, if_true, Nat.lt_succ_self] at hplaced ⊢
      omega
    · have hbeq : (eloop.registered == id) = false := beq_false_of_ne hid
      simp only [hbeq, Bool.false_eq_true, if_false] at hplaced ⊢
      split_ifs at hplaced ⊢ <;> omega
  old := by
    intro id now' secs' usecs' callback' hmem
    rcases List.mem_append.mp hmem with hold | hnew
    · exact Nat.lt_succ_of_lt (h.old hold)
    · simp only [List.mem_cons, List.not_mem_nil, or_false, reduceCtorEq] at hnew
      cases hnew
      exact Nat.lt_succ_self _
  issued := by
    intro id hid
    rcases Nat.lt_succ_iff_lt_or_eq.mp hid with hlt | rfl
    · obtain ⟨now', secs', usecs', callback', hmem⟩ := h.issued id hlt
      exact ⟨now', secs', usecs', callback', List.mem_append_left _ hmem⟩
    · exact ⟨now, secs, usecs, callback, by simp⟩
  entries := by
    intro x hx now' secs' usecs' callback' hmem
    rcases mem_addTimeout.mp hx with rfl | hx
    · rcases List.mem_append.mp hmem with hold | hnew
      · exact absurd (h.old hold) (lt_irrefl _)
      · simp only [List.mem_cons, List.not_mem_nil, or_false, reduceCtorEq] at hnew
        cases hnew
        exact ⟨rfl, rfl⟩
    · rcases List.mem_append.mp hmem with hold | hnew
      · exact h.entries x hx hold
      · simp only [List.mem_cons, List.not_mem_nil, or_false, reduceCtorEq,
          EloopOut.registered.injEq] at hnew
        exact absurd (h.id_lt hx) (by omega)
  inTime := by
    intro id now'' now' secs' usecs' callback' hhandled hmem
    have hhandled : .handled id now'' ∈ out := by
      simpa using hhandled
    rcases List.mem_append.mp hmem with hold | hnew
    · exact h.inTime hhandled hold
    · simp only [List.mem_cons, List.not_mem_nil, or_false, reduceCtorEq,
        EloopOut.registered.injEq] at hnew
      exact absurd (h.handled_lt hhandled) (by omega)

/-- Entries leave the list for one of the other places. -/
theorem leave (h : Kept out eloop) (due : Option Timeout) {kept : List Timeout}
    (gone : List Timeout) (new : List EloopOut) (hsub : kept.Sublist eloop.timeouts)
    (hperm : eloop.timeouts.Perm (kept ++ gone))
    (hids : ∀ id, (removedIds new).count id + (handledIds new).count id =
      (gone.map Timeout.id).count id)
    (hnew : ∀ {id now secs usecs callback}, .registered id now secs usecs callback ∉ new)
    (hdue : ∀ {id now}, .handled id now ∈ new →
      ∃ x ∈ gone, x.id = id ∧ x.time.micros ≤ now.1.micros) :
    Kept (out ++ new) { eloop with timeouts := kept, due } where
  sorted := h.sorted.sublist hsub
  normal := fun x hx => h.normal x (hsub.subset hx)
  placed := by
    intro id
    have hplaced := h.placed id
    have hcount := (hperm.map Timeout.id).count_eq id
    have hall := hids id
    simp only [places, removedIds_append, handledIds_append, List.count_append, List.map_append]
      at hplaced hcount ⊢
    omega
  old := by
    intro id now secs usecs callback hmem
    rcases List.mem_append.mp hmem with hold | hmem
    · exact h.old hold
    · exact absurd hmem hnew
  issued := by
    intro id hid
    obtain ⟨now, secs, usecs, callback, hmem⟩ := h.issued id hid
    exact ⟨now, secs, usecs, callback, List.mem_append_left _ hmem⟩
  entries := by
    intro x hx now secs usecs callback hmem
    rcases List.mem_append.mp hmem with hold | hmem
    · exact h.entries x (hsub.subset hx) hold
    · exact absurd hmem hnew
  inTime := by
    intro id now' now secs usecs callback hhandled hmem
    rcases List.mem_append.mp hmem with hold | hmem
    · rcases List.mem_append.mp hhandled with hearlier | hhandled
      · exact h.inTime hearlier hold
      · obtain ⟨x, hx, rfl, hle⟩ := hdue hhandled
        have hmem : x ∈ eloop.timeouts := hperm.mem_iff.mpr (List.mem_append_right _ hx)
        rw [(h.entries x hmem hold).1, OsTime.after_micros] at hle
        exact hle
    · exact absurd hmem hnew

/-- Every call keeps the agreement. -/
theorem call (h : Kept out eloop) (now : Reading) (call : EloopCall) :
    Kept (out ++ (eloopCall eloop now call).2) (eloopCall eloop now call).1 := by
  cases call with
  | registerTimeout memory secs usecs callback =>
    cases memory with
    | true => exact h.register now secs usecs callback
    | false =>
      have hkept := h.leave eloop.due [] [.returned (-1)] (.refl _)
        (by simp) (by simp [removedIds, handledIds]) (by simp) (by simp)
      exact hkept
  | cancelTimeout handler eloopData userData =>
    simp only [eloopCall, cancelTimeout_eq]
    apply h.leave eloop.due _ _ List.filter_sublist
    · have hperm := List.filter_append_perm
        (fun x : Timeout => x.callback.isMatch handler eloopData userData) eloop.timeouts
      exact hperm.symm.trans List.perm_append_comm
    · intro id
      rw [removedIds_append, handledIds_append, removedIds_map, handledIds_map]
      simp [removedIds, handledIds]
    · simp
    · simp
  | cancelTimeoutOne callback =>
    rcases cancelTimeoutOne_cases callback eloop.timeouts with
      ⟨hnone, -⟩ | ⟨earlier, timeout, later, hlist, -, -, hone⟩
    · simp only [eloopCall, hnone]
      apply h.leave eloop.due [] _ (.refl _)
      · simp
      · simp [removedIds, handledIds]
      · simp
      · simp
    · simp only [eloopCall, hone]
      apply h.leave eloop.due [timeout]
      · rw [hlist]
        exact (List.Sublist.refl earlier).append (List.sublist_cons_self timeout later)
      · rw [hlist, List.append_assoc]
        exact (List.perm_append_singleton timeout later).symm.append_left earlier
      · simp [removedIds, handledIds]
      · simp
      · simp
  | run =>
    unfold eloopCall
    simp only
    split
    · simpa using h
    · cases htake : takeDue now.1 eloop.timeouts with
      | none => simpa using h
      | some taken =>
        obtain ⟨due, next⟩ := taken
        obtain ⟨hlist, hnot⟩ := takeDue_some htake
        have hnormal : due.time.Normal := h.normal due (by simp [hlist])
        apply h.leave (some due) [due]
        · rw [hlist]
          exact List.sublist_cons_self due next
        · rw [hlist]
          exact (List.perm_append_singleton due next).symm
        · simp [removedIds, handledIds]
        · simp
        · intro id now' hmem
          simp only [List.mem_singleton, EloopOut.handled.injEq] at hmem
          obtain ⟨rfl, rfl⟩ := hmem
          refine ⟨due, List.mem_singleton_self due, rfl, ?_⟩
          by_contra hlt
          have hbefore := (OsTime.before_iff now'.2 hnormal).mpr (Nat.lt_of_not_le hlt)
          rw [hbefore] at hnot
          cases hnot
  | handlerReturned =>
    have hkept := h.leave none [] [] (.refl _) (by simp)
      (by simp [removedIds, handledIds]) (by simp) (by simp)
    exact hkept

/-- The handler that a call runs belongs to an entry that is due. -/
theorem due_of_handled (h : Kept out eloop) {now now' : Reading} {call : EloopCall} {id : ℕ}
    (hid : .handled id now' ∈ (eloopCall eloop now call).2) :
    now' = now ∧ ∃ x ∈ eloop.timeouts, x.id = id ∧ x.time.micros ≤ now.1.micros := by
  cases call with
  | registerTimeout memory secs usecs callback =>
    cases memory <;> simp [eloopCall] at hid
  | cancelTimeout handler eloopData userData => simp [eloopCall] at hid
  | cancelTimeoutOne callback => simp [eloopCall] at hid
  | handlerReturned => cases hid
  | run =>
    unfold eloopCall at hid
    simp only at hid
    split at hid
    · cases hid
    · cases htake : takeDue now.1 eloop.timeouts with
      | none => simp [htake] at hid
      | some taken =>
        obtain ⟨due, next⟩ := taken
        obtain ⟨hlist, hnot⟩ := takeDue_some htake
        simp only [htake, List.mem_singleton, EloopOut.handled.injEq] at hid
        obtain ⟨rfl, rfl⟩ := hid
        refine ⟨rfl, due, by simp [hlist], rfl, ?_⟩
        by_contra hlt
        have hnormal := h.normal due (by simp [hlist])
        have hbefore := (OsTime.before_iff now'.2 hnormal).mpr (Nat.lt_of_not_le hlt)
        rw [hbefore] at hnot
        cases hnot

end Kept

end Wpa.Eloop
