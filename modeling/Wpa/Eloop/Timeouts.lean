import Mathlib.Data.List.Sort
import Wpa.Eloop.OsTime

/-! The list of timeouts of the event loop, as both ports keep it. -/

namespace Wpa.Eloop

/-- What a timeout calls, and with what. -/
structure Callback where
  handler : ℕ
  eloopData : ℕ
  userData : ℕ
  deriving DecidableEq

/-- `struct eloop_timeout`. The number stands for the block of memory: the first registration has
number 0, the next one number 1. -/
structure Timeout where
  id : ℕ
  time : OsTime
  callback : Callback
  deriving DecidableEq

/-- An argument of `eloop_cancel_timeout`: a pointer, or `ELOOP_ALL_CTX`. -/
abbrev Ctx := Option ℕ

/-- The entry is linked in front of the first one that is due later. -/
def addTimeout (timeout : Timeout) : List Timeout → List Timeout
  | [] => [timeout]
  | tmp :: rest =>
    if timeout.time.before tmp.time then timeout :: tmp :: rest
    else tmp :: addTimeout timeout rest

def Callback.isMatch (c : Callback) (handler : ℕ) (eloopData userData : Ctx) : Bool :=
  c.handler == handler && eloopData.all (c.eloopData == ·) && userData.all (c.userData == ·)

/-- The loop of `eloop_cancel_timeout`: the entries left and those removed. -/
def cancelTimeout (handler : ℕ) (eloopData userData : Ctx) :
    List Timeout → List Timeout × List Timeout
  | [] => ([], [])
  | timeout :: next =>
    let (kept, removed) := cancelTimeout handler eloopData userData next
    if timeout.callback.isMatch handler eloopData userData then (kept, timeout :: removed)
    else (timeout :: kept, removed)

/-- The loop of `eloop_cancel_timeout_one`. -/
def cancelTimeoutOne (callback : Callback) : List Timeout → List Timeout × Option Timeout
  | [] => ([], none)
  | timeout :: next =>
    if timeout.callback = callback then (next, some timeout)
    else
      let (kept, removed) := cancelTimeoutOne callback next
      (timeout :: kept, removed)

/-- The time that a removed entry has left. -/
def remaining (now : OsTime) (removed : Option Timeout) : OsTime :=
  match removed with
  | none => ⟨0, 0⟩
  | some timeout => if now.before timeout.time then timeout.time.sub now else ⟨0, 0⟩

/-- The first entry, if it is due, is taken out of the list. -/
def takeDue (now : OsTime) : List Timeout → Option (Timeout × List Timeout)
  | [] => none
  | timeout :: next => if now.before timeout.time then none else some (timeout, next)

/-- Due earlier, or at the same instant and registered earlier. -/
def Earlier (a b : Timeout) : Prop :=
  a.time.micros < b.time.micros ∨ (a.time = b.time ∧ a.id < b.id)

/-- Sorted by deadline, equal ones by registration. -/
def Sorted (l : List Timeout) : Prop := l.Pairwise Earlier

section Facts
variable {l : List Timeout} {timeout : Timeout} {handler : ℕ} {eloopData userData : Ctx}
  {callback : Callback} {now : OsTime}

theorem addTimeout_perm (timeout : Timeout) (l : List Timeout) :
    (addTimeout timeout l).Perm (timeout :: l) := by
  induction l with
  | nil => exact .refl _
  | cons tmp rest ih =>
    rw [addTimeout]
    split
    · exact .refl _
    · exact (ih.cons tmp).trans (.swap timeout tmp rest)

theorem mem_addTimeout {x : Timeout} : x ∈ addTimeout timeout l ↔ x = timeout ∨ x ∈ l := by
  rw [(addTimeout_perm timeout l).mem_iff, List.mem_cons]

/-- A later registration goes behind those that are due at the same instant. -/
theorem sorted_addTimeout (h : Sorted l) (hnormal : ∀ x ∈ l, x.time.Normal)
    (hnew : timeout.time.Normal) (hid : ∀ x ∈ l, x.id < timeout.id) :
    Sorted (addTimeout timeout l) := by
  induction l with
  | nil => exact List.pairwise_singleton _ _
  | cons tmp rest ih =>
    have htmp := hnormal tmp (List.mem_cons_self ..)
    obtain ⟨hfirst, hrest⟩ := List.pairwise_cons.mp h
    rw [addTimeout]
    split
    · rename_i hbefore
      have hlt := (OsTime.before_iff hnew htmp).mp hbefore
      refine List.pairwise_cons.mpr ⟨fun x hx => .inl ?_, h⟩
      rcases List.mem_cons.mp hx with rfl | hx
      · exact hlt
      · rcases hfirst x hx with hearlier | ⟨hsame, -⟩
        · exact hlt.trans hearlier
        · exact hsame ▸ hlt
    · rename_i hnot
      have hle : tmp.time.micros ≤ timeout.time.micros := by
        by_contra hlt
        exact hnot ((OsTime.before_iff hnew htmp).mpr (Nat.lt_of_not_le hlt))
      have htail := ih hrest (fun x hx => hnormal x (List.mem_cons_of_mem _ hx))
        fun x hx => hid x (List.mem_cons_of_mem _ hx)
      refine List.pairwise_cons.mpr ⟨fun x hx => ?_, htail⟩
      rcases mem_addTimeout.mp hx with rfl | hx
      · rcases Nat.lt_or_eq_of_le hle with hlt | hsame
        · exact .inl hlt
        · exact .inr ⟨OsTime.micros_inj htmp hnew hsame, hid tmp (List.mem_cons_self ..)⟩
      · exact hfirst x hx

theorem cancelTimeout_eq (handler : ℕ) (eloopData userData : Ctx) (l : List Timeout) :
    cancelTimeout handler eloopData userData l =
      (l.filter fun x => !x.callback.isMatch handler eloopData userData,
        l.filter fun x => x.callback.isMatch handler eloopData userData) := by
  induction l with
  | nil => rfl
  | cons timeout next ih =>
    rw [cancelTimeout, ih]
    cases hmatch : timeout.callback.isMatch handler eloopData userData with
    | true => simp [hmatch]
    | false => simp [hmatch]

/-- At most the first entry with the callback is removed. -/
theorem cancelTimeoutOne_cases (callback : Callback) (l : List Timeout) :
    (cancelTimeoutOne callback l = (l, none) ∧ ∀ x ∈ l, x.callback ≠ callback) ∨
      ∃ earlier timeout later, l = earlier ++ timeout :: later ∧ timeout.callback = callback ∧
        (∀ x ∈ earlier, x.callback ≠ callback) ∧
        cancelTimeoutOne callback l = (earlier ++ later, some timeout) := by
  induction l with
  | nil => exact .inl ⟨rfl, fun x hx => by cases hx⟩
  | cons first next ih =>
    rw [cancelTimeoutOne]
    split
    · rename_i hfirst
      exact .inr ⟨[], first, next, rfl, hfirst, by simp, rfl⟩
    · rename_i hfirst
      rcases ih with ⟨hnone, hall⟩ | ⟨earlier, timeout, later, rfl, hcallback, hall, hone⟩
      · rw [hnone]
        refine .inl ⟨rfl, fun x hx => ?_⟩
        rcases List.mem_cons.mp hx with rfl | hx
        · exact hfirst
        · exact hall x hx
      · rw [hone]
        refine .inr ⟨first :: earlier, timeout, later, rfl, hcallback, fun x hx => ?_, rfl⟩
        rcases List.mem_cons.mp hx with rfl | hx
        · exact hfirst
        · exact hall x hx

/-- What is left is exact, and nothing where the entry is due. -/
theorem remaining_spec (hnow : now.Normal) (htime : timeout.time.Normal) :
    (remaining now (some timeout)).micros = timeout.time.micros - now.micros := by
  unfold remaining
  simp only
  split
  · rename_i hbefore
    exact (OsTime.sub_spec htime hnow ((OsTime.before_iff hnow htime).mp hbefore).le).2
  · rename_i hnot
    have hle : timeout.time.micros ≤ now.micros := by
      by_contra hlt
      exact hnot ((OsTime.before_iff hnow htime).mpr (Nat.lt_of_not_le hlt))
    rw [Nat.sub_eq_zero_of_le hle]
    rfl

theorem takeDue_some {next : List Timeout} (h : takeDue now l = some (timeout, next)) :
    l = timeout :: next ∧ now.before timeout.time = false := by
  cases l with
  | nil => cases h
  | cons first rest =>
    rw [takeDue] at h
    split at h
    · cases h
    · rename_i hnot
      obtain ⟨rfl, rfl⟩ := Prod.mk.inj (Option.some.inj h)
      exact ⟨rfl, by simpa using hnot⟩

end Facts

end Wpa.Eloop
