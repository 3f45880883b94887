import Mathlib.Data.List.Sort
import Mathlib.Order.MinMax
import Wpa.Common.Reltime
import Wpa.Eloop.Timeouts

/-! `eloop_deplete_timeout` and `eloop_replenish_timeout` of both ports, on the times of `os.h` as
they are: 64-bit words that wrap around. -/

namespace Wpa

/-- The loop that carries microseconds into seconds. -/
def Reltime.carry : ℕ → Reltime → Reltime
  | 0, t => t
  | fuel + 1, t => if 1000000 ≤ t.usec then carry fuel ⟨t.sec + 1, t.usec - 1000000⟩ else t

/-- The instant so many seconds and microseconds later. -/
def Reltime.after (now : Reltime) (secs usecs : UInt32) : Reltime :=
  let time : Reltime := ⟨now.sec + secs.toUInt64, now.usec + usecs.toUInt64⟩
  Reltime.carry time.usec.toNat time

theorem Reltime.carry_spec (fuel : ℕ) (t : Reltime) (h : t.usec.toNat ≤ fuel) :
    (carry fuel t).Normal ∧ (carry fuel t).micros % span = t.micros % span := by
  induction fuel generalizing t with
  | zero =>
    refine ⟨?_, rfl⟩
    show t.usec.toNat < 1000000
    omega
  | succ fuel ih =>
    rw [carry]
    split
    · rename_i hcarry
      have husec : (t.usec - 1000000).toNat = t.usec.toNat - 1000000 :=
        UInt64.toNat_sub_of_le _ _ hcarry
      have hle : 1000000 ≤ t.usec.toNat := UInt64.le_iff_toNat_le.mp hcarry
      have hnext := ih ⟨t.sec + 1, t.usec - 1000000⟩ (by
        show (t.usec - 1000000).toNat ≤ fuel
        omega)
      refine ⟨hnext.1, hnext.2.trans ?_⟩
      unfold micros span
      rw [husec, UInt64.toNat_add]
      simp only [UInt64.reduceToNat]
      omega
    · rename_i hnormal
      exact ⟨Nat.lt_of_not_le fun h => hnormal (UInt64.le_iff_toNat_le.mpr h), rfl⟩

section After
variable {now : Reltime} (secs usecs : UInt32)

theorem Reltime.after_normal (now : Reltime) : (now.after secs usecs).Normal :=
  (carry_spec _ _ le_rfl).1

theorem Reltime.after_micros (h : now.Normal) :
    (now.after secs usecs).micros =
      (now.micros + (secs.toNat * 1000000 + usecs.toNat)) % span := by
  have hsecs := secs.toNat_lt
  have husecs := usecs.toNat_lt
  unfold Normal at h
  have hmod := (carry_spec _ ⟨now.sec + secs.toUInt64, now.usec + usecs.toUInt64⟩ le_rfl).2
  rw [← Nat.mod_eq_of_lt (micros_lt_span (after_normal secs usecs now))]
  refine hmod.trans ?_
  unfold micros span
  rw [UInt64.toNat_add, UInt64.toNat_add, UInt32.toNat_toUInt64, UInt32.toNat_toUInt64]
  omega

end After

end Wpa

namespace Wpa.Eloop.Reschedule

/-- The two event loops: `port/embox/eloop_embox.c` and `utils/eloop.c`. -/
inductive Port
  | embox
  | utils

/-- The callback of a timeout and what it gets. A pointer may be `ELOOP_ALL_CTX`. -/
structure Callee where
  handler : ℕ
  eloopData : Ctx
  userData : Ctx
  deriving DecidableEq

/-- `struct eloop_timeout`. -/
structure Timeout where
  time : Reltime
  callee : Callee
  deriving DecidableEq

/-- When a new timeout is due; `utils/eloop.c` drops one whose time does not fit. -/
def deadline (port : Port) (now : Reltime) (secs usecs : UInt32) : Option Reltime :=
  match port with
  | .embox => some (now.after secs usecs)
  | .utils =>
    if now.sec + secs.toUInt64 < now.sec then none
    else
      let time := now.after secs usecs
      if time.sec < now.sec then none else some time

def addTimeout (timeout : Timeout) : List Timeout → List Timeout
  | [] => [timeout]
  | tmp :: rest =>
    if timeout.time.before tmp.time then timeout :: tmp :: rest
    else tmp :: addTimeout timeout rest

/-- `eloop_register_timeout`, where the allocation may fail. -/
def registerTimeout (port : Port) (memory : Bool) (now : Reltime) (secs usecs : UInt32)
    (callee : Callee) (timeouts : List Timeout) : List Timeout :=
  if memory then
    match deadline port now secs usecs with
    | none => timeouts
    | some time => addTimeout ⟨time, callee⟩ timeouts
  else timeouts

/-- The test of `eloop_cancel_timeout`, whose arguments may be wildcards. -/
def Callee.covers (callee c : Callee) : Bool :=
  c.handler == callee.handler &&
    (c.eloopData == callee.eloopData || callee.eloopData == none) &&
    (c.userData == callee.userData || callee.userData == none)

def cancelTimeout (callee : Callee) (timeouts : List Timeout) : List Timeout :=
  timeouts.filter fun timeout => !callee.covers timeout.callee

/-- `eloop_reschedule_timeout` of the Embox port. In `utils/eloop.c` each of the two callers has
this body with its own comparison. The clock is read once here and once for the registration. -/
def rescheduleTimeout (port : Port) (memory onlyShorten : Bool) (now later : Reltime)
    (reqSecs reqUsecs : UInt32) (callee : Callee) (timeouts : List Timeout) :
    ℤ × List Timeout :=
  match timeouts.find? fun tmp => tmp.callee = callee with
  | none => (-1, timeouts)
  | some tmp =>
    let requested : Reltime := ⟨reqSecs.toUInt64, reqUsecs.toUInt64⟩
    let remaining := tmp.time.sub now
    let res := if onlyShorten then requested.before remaining else remaining.before requested
    if res then
      (1, registerTimeout port memory later reqSecs reqUsecs callee (cancelTimeout callee timeouts))
    else (0, timeouts)

def depleteTimeout (port : Port) (memory : Bool) (now later : Reltime)
    (reqSecs reqUsecs : UInt32) (callee : Callee) (timeouts : List Timeout) : ℤ × List Timeout :=
  rescheduleTimeout port memory true now later reqSecs reqUsecs callee timeouts

def replenishTimeout (port : Port) (memory : Bool) (now later : Reltime)
    (reqSecs reqUsecs : UInt32) (callee : Callee) (timeouts : List Timeout) : ℤ × List Timeout :=
  rescheduleTimeout port memory false now later reqSecs reqUsecs callee timeouts

/-- What holds of the list of the event loop: the times are normal, and none is behind a later
one. -/
structure Ordered (l : List Timeout) : Prop where
  normal : ∀ x ∈ l, x.time.Normal
  sorted : l.Pairwise fun a b => a.time.micros ≤ b.time.micros

section List
variable {l : List Timeout} {timeout : Timeout} {callee : Callee}

theorem mem_addTimeout {x : Timeout} : x ∈ addTimeout timeout l ↔ x = timeout ∨ x ∈ l := by
  induction l with
  | nil => rw [addTimeout, List.mem_singleton, or_iff_left List.not_mem_nil]
  | cons tmp rest ih =>
    rw [addTimeout]
    split
    · exact List.mem_cons
    · rw [List.mem_cons, ih, List.mem_cons, or_left_comm]

theorem Ordered.addTimeout (h : Ordered l) (hnew : timeout.time.Normal) :
    Ordered (addTimeout timeout l) := by
  refine ⟨fun x hx => ?_, ?_⟩
  · rcases mem_addTimeout.mp hx with rfl | hx
    · exact hnew
    · exact h.normal x hx
  induction l with
  | nil => exact List.pairwise_singleton _ _
  | cons tmp rest ih =>
    have htmp := h.normal tmp (List.mem_cons_self ..)
    obtain ⟨hfirst, hrest⟩ := List.pairwise_cons.mp h.sorted
    have hafter := ih ⟨fun x hx => h.normal x (List.mem_cons_of_mem _ hx), hrest⟩
    rw [Reschedule.addTimeout]
    split
    · rename_i hbefore
      have hlt := (Reltime.before_iff hnew htmp).mp hbefore
      refine List.pairwise_cons.mpr ⟨fun x hx => ?_, h.sorted⟩
      rcases List.mem_cons.mp hx with rfl | hx
      · exact hlt.le
      · exact hlt.le.trans (hfirst x hx)
    · rename_i hnot
      refine List.pairwise_cons.mpr ⟨fun x hx => ?_, hafter⟩
      rcases mem_addTimeout.mp hx with rfl | hx
      · exact Nat.le_of_not_lt fun hlt => hnot ((Reltime.before_iff hnew htmp).mpr hlt)
      · exact hfirst x hx

theorem Ordered.cancelTimeout (h : Ordered l) (callee : Callee) :
    Ordered (cancelTimeout callee l) :=
  ⟨fun x hx => h.normal x (List.mem_of_mem_filter hx), h.sorted.sublist List.filter_sublist⟩

/-- A callee is cancelled with all that are registered for it. -/
theorem callee_ne_of_mem_cancelTimeout {x : Timeout} (h : x ∈ cancelTimeout callee l) :
    x.callee ≠ callee := by
  rintro rfl
  have hnot := (List.mem_filter.mp h).2
  simp [Callee.covers] at hnot

theorem deadline_normal {port : Port} {now time : Reltime} {secs usecs : UInt32}
    (h : deadline port now secs usecs = some time) : time = now.after secs usecs := by
  cases port with
  | embox => exact (Option.some.inj h).symm
  | utils =>
    simp only [deadline] at h
    split at h
    · cases h
    · split at h
      · cases h
      · exact (Option.some.inj h).symm

theorem Ordered.rescheduleTimeout (h : Ordered l) (port : Port) (memory onlyShorten : Bool)
    (now later : Reltime) (reqSecs reqUsecs : UInt32) (callee : Callee) :
    Ordered (rescheduleTimeout port memory onlyShorten now later reqSecs reqUsecs callee l).2 := by
  have hcancel := h.cancelTimeout callee
  have hregister : Ordered (registerTimeout port memory later reqSecs reqUsecs callee
      (Reschedule.cancelTimeout callee l)) := by
    unfold registerTimeout
    split
    · split
      · exact hcancel
      · rename_i time htime
        refine hcancel.addTimeout ?_
        rw [deadline_normal htime]
        exact Reltime.after_normal ..
    · exact hcancel
  unfold Reschedule.rescheduleTimeout
  split
  · exact h
  · simp only
    split_ifs <;> first | exact hregister | exact h

end List

/-- The earliest instant at which `callee` is due. -/
def earliest (l : List Timeout) (callee : Callee) : Option ℕ :=
  ((l.filter fun x => x.callee = callee).map fun x => x.time.micros).min?

theorem earliest_eq_some {l : List Timeout} {callee : Callee} {t : ℕ} :
    earliest l callee = some t ↔
      (∃ x ∈ l, x.callee = callee ∧ x.time.micros = t) ∧
        ∀ x ∈ l, x.callee = callee → t ≤ x.time.micros := by
  rw [earliest, List.min?_eq_some_iff]
  simp only [List.mem_map, List.mem_filter, decide_eq_true_eq, forall_exists_index, and_imp,
    and_assoc]
  exact and_congr_right fun _ =>
    ⟨fun h x hx hcallee => h _ x hx hcallee rfl, fun h _ x hx hcallee heq => heq ▸ h x hx hcallee⟩

theorem earliest_eq_none {l : List Timeout} {callee : Callee} :
    earliest l callee = none ↔ ∀ x ∈ l, x.callee ≠ callee := by
  rw [earliest, List.min?_eq_none_iff, List.map_eq_nil_iff, List.filter_eq_nil_iff]
  simp only [decide_eq_true_eq, ne_eq]

/-- In the list of the event loop the first match is the earliest. -/
theorem earliest_of_find {l : List Timeout} {callee : Callee} {tmp : Timeout} (h : Ordered l)
    (hfind : (l.find? fun x => x.callee = callee) = some tmp) :
    earliest l callee = some tmp.time.micros := by
  obtain ⟨hcallee, earlier, later, hl, hearlier⟩ := List.find?_eq_some_iff_append.mp hfind
  have hmatch : tmp.callee = callee := by simpa using hcallee
  rw [earliest_eq_some]
  refine ⟨⟨tmp, hl ▸ by simp, hmatch, rfl⟩, fun x hx hx' => ?_⟩
  have hsorted := hl ▸ h.sorted
  rw [hl, List.mem_append] at hx
  rcases hx with hx | hx
  · simpa [hx'] using hearlier x hx
  · rcases List.mem_cons.mp hx with rfl | hx
    · exact le_rfl
    · exact List.rel_of_pairwise_cons (List.pairwise_append.mp hsorted).2.1 hx

theorem earliest_addTimeout {l : List Timeout} {timeout : Timeout}
    (h : ∀ x ∈ l, x.callee ≠ timeout.callee) :
    earliest (addTimeout timeout l) timeout.callee = some timeout.time.micros := by
  rw [earliest_eq_some]
  refine ⟨⟨timeout, mem_addTimeout.mpr (.inl rfl), rfl, rfl⟩, fun x hx hcallee => ?_⟩
  rcases mem_addTimeout.mp hx with rfl | hx
  · exact le_rfl
  · exact absurd hcallee (h x hx)

/-- A new timeout is due at the sum, as long as that is an instant. -/
theorem deadline_micros (port : Port) {now : Reltime} (h : now.Normal) (secs usecs : UInt32)
    (hfits : now.micros + (secs.toNat * 1000000 + usecs.toNat) < Reltime.span) :
    ∃ time, deadline port now secs usecs = some time ∧
      time.micros = now.micros + (secs.toNat * 1000000 + usecs.toNat) := by
  have hmicros := Reltime.after_micros secs usecs h
  rw [Nat.mod_eq_of_lt hfits] at hmicros
  refine ⟨now.after secs usecs, ?_, hmicros⟩
  cases port with
  | embox => rfl
  | utils =>
    have hnormal := Reltime.after_normal secs usecs now
    have hsec : ¬ now.sec + secs.toUInt64 < now.sec := by
      rw [UInt64.lt_iff_toNat_lt, UInt64.toNat_add, UInt32.toNat_toUInt64]
      unfold Reltime.micros Reltime.span at hfits
      omega
    have hcarry : ¬ (now.after secs usecs).sec < now.sec := by
      rw [UInt64.lt_iff_toNat_lt]
      unfold Reltime.Normal at h hnormal
      unfold Reltime.micros at hmicros
      omega
    rw [deadline, if_neg hsec]
    simp only [if_neg hcarry]

/-- Where the sum is no instant any more, the new timeout is dropped or comes too early. -/
theorem deadline_wraps (port : Port) {now time : Reltime} (h : now.Normal) {secs usecs : UInt32}
    (htime : deadline port now secs usecs = some time) :
    time.micros < Reltime.span ∧
      time.micros = (now.micros + (secs.toNat * 1000000 + usecs.toNat)) % Reltime.span := by
  rw [deadline_normal htime]
  exact ⟨Reltime.micros_lt_span (Reltime.after_normal ..), Reltime.after_micros secs usecs h⟩

/-- The answer and the earliest deadline that it leaves: nothing is done where nothing is
registered, else the deadline is brought to the bound of the old and the requested one. -/
structure Meets (bound : ℕ → ℕ → ℕ) (requested : ℕ) (callee : Callee) (l : List Timeout)
    (answer : ℤ × List Timeout) : Prop where
  absent : earliest l callee = none → answer = (-1, l)
  present : ∀ old, earliest l callee = some old →
    earliest answer.2 callee = some (bound old requested) ∧ (answer.1 = 0 ∨ answer.1 = 1) ∧
      (answer.1 = 1 ↔ earliest answer.2 callee ≠ some old)

section Meets
variable {bound : ℕ → ℕ → ℕ} {requested old : ℕ} {callee : Callee} {l l' : List Timeout}

theorem meets_left (hold : earliest l callee = some old) :
    Meets bound requested callee l (0, l) ↔ bound old requested = old := by
  constructor
  · intro h
    have hbound := (h.present old hold).1
    rw [hold] at hbound
    exact (Option.some.inj hbound).symm
  · intro h
    refine ⟨fun hnone => ?_, fun t ht => ?_⟩
    · rw [hold] at hnone
      cases hnone
    · obtain rfl := Option.some.inj (hold.symm.trans ht)
      exact ⟨by rw [h, hold], .inl rfl, by simp [hold]⟩

theorem meets_changed (hold : earliest l callee = some old) :
    Meets bound requested callee l (1, l') ↔
      earliest l' callee = some (bound old requested) ∧ bound old requested ≠ old := by
  constructor
  · intro h
    obtain ⟨hbound, -, hchanged⟩ := h.present old hold
    refine ⟨hbound, fun heq => hchanged.mp rfl ?_⟩
    rw [hbound, heq]
  · rintro ⟨hbound, hne⟩
    refine ⟨fun hnone => ?_, fun t ht => ?_⟩
    · rw [hold] at hnone
      cases hnone
    · obtain rfl := Option.some.inj (hold.symm.trans ht)
      refine ⟨hbound, .inr rfl, iff_of_true rfl ?_⟩
      rw [hbound]
      exact fun heq => hne (Option.some.inj heq)

end Meets

theorem earliest_registerTimeout (port : Port) (memory : Bool) (later : Reltime)
    (reqSecs reqUsecs : UInt32) (callee : Callee) (l : List Timeout) :
    earliest (registerTimeout port memory later reqSecs reqUsecs callee (cancelTimeout callee l))
        callee =
      if memory then (deadline port later reqSecs reqUsecs).map Reltime.micros else none := by
  have hnone : earliest (cancelTimeout callee l) callee = none :=
    earliest_eq_none.mpr fun x hx => callee_ne_of_mem_cancelTimeout hx
  cases memory with
  | false => exact hnone
  | true =>
    rw [registerTimeout, if_pos rfl, if_pos rfl]
    cases deadline port later reqSecs reqUsecs with
    | none => exact hnone
    | some time => exact earliest_addTimeout fun x hx => callee_ne_of_mem_cancelTimeout hx

abbrev Timeouts := { l : List Timeout // Ordered l }

/-- What the clock can show. -/
abbrev Reading := { t : Reltime // t.Normal }

/-- A registered timeout is shortened as it should: it is not overdue, and it stays or there is
memory for the new one and the clock stands still; or it is overdue, and the requested time runs
past the end of the clock. -/
def Depletes (memory : Bool) (now later : Reading) (requested old : ℕ) : Prop :=
  (now.1.micros ≤ old ∧
    (old ≤ now.1.micros + requested ∨ (memory = true ∧ later.1.micros = now.1.micros))) ∨
  old + Reltime.span ≤ now.1.micros + requested

def requestedMicros (reqSecs reqUsecs : UInt32) : ℕ :=
  reqSecs.toNat * 1000000 + reqUsecs.toNat

/-- A registered timeout is prolonged as it should: it is not overdue, the requested time is within
the clock, and it stays or there is memory for the new one and the clock stands still. -/
def Replenishes (memory : Bool) (now later : Reading) (requested old : ℕ) : Prop :=
  now.1.micros ≤ old ∧ now.1.micros + requested < Reltime.span ∧
    (now.1.micros + requested ≤ old ∨ (memory = true ∧ later.1.micros = now.1.micros))

section Reschedule
variable (port : Port) (memory : Bool) (timeouts : Timeouts) (now later : Reading)
  (reqSecs reqUsecs : UInt32) (callee : Callee)

/-- The deadline of a timeout that was rescheduled is the sum if the clock stands still, and then
only. -/
theorem rescheduled_iff {requested : ℕ} (hreq : requested = reqSecs.toNat * 1000000 + reqUsecs.toNat)
    (hfits : now.1.micros + requested < Reltime.span) :
    earliest (registerTimeout port memory later.1 reqSecs reqUsecs callee
        (cancelTimeout callee timeouts.1)) callee = some (now.1.micros + requested) ↔
      memory = true ∧ later.1.micros = now.1.micros := by
  rw [earliest_registerTimeout]
  constructor
  · intro h
    split at h
    · rename_i hmemory
      obtain ⟨time, htime, hmicros⟩ := Option.map_eq_some_iff.mp h
      have hwrap := (deadline_wraps port later.2 htime).2
      have hlater := Reltime.micros_lt_span later.2
      have hnow := Reltime.micros_lt_span now.2
      rw [hmicros, ← hreq] at hwrap
      refine ⟨hmemory, ?_⟩
      unfold Reltime.span at *
      omega
    · cases h
  · rintro ⟨rfl, hsame⟩
    rw [← hsame, hreq] at hfits
    obtain ⟨time, htime, hmicros⟩ := deadline_micros port later.2 reqSecs reqUsecs hfits
    rw [if_pos rfl, htime, Option.map_some, hmicros, hsame, hreq]

/-- Past the end of the clock nothing is due. -/
theorem rescheduled_lt {t : ℕ}
    (h : earliest (registerTimeout port memory later.1 reqSecs reqUsecs callee
      (cancelTimeout callee timeouts.1)) callee = some t) : t < Reltime.span := by
  rw [earliest_registerTimeout] at h
  split at h
  · obtain ⟨time, htime, rfl⟩ := Option.map_eq_some_iff.mp h
    exact (deadline_wraps port later.2 htime).1
  · cases h

/-- Both ways to reschedule, in terms of what the subtraction leaves. -/
theorem rescheduleTimeout_eq (onlyShorten : Bool) (hreq : reqUsecs.toNat < 1000000) {tmp : Timeout}
    (hfind : (timeouts.1.find? fun x => x.callee = callee) = some tmp) :
    ∃ left : ℕ,
      left = (if now.1.micros ≤ tmp.time.micros then tmp.time.micros - now.1.micros
        else tmp.time.micros + Reltime.span - now.1.micros) ∧
      rescheduleTimeout port memory onlyShorten now.1 later.1 reqSecs reqUsecs callee timeouts.1 =
        if (if onlyShorten then reqSecs.toNat * 1000000 + reqUsecs.toNat < left
            else left < reqSecs.toNat * 1000000 + reqUsecs.toNat) then
          (1, registerTimeout port memory later.1 reqSecs reqUsecs callee
            (cancelTimeout callee timeouts.1))
        else (0, timeouts.1) := by
  have htmp := timeouts.2.normal tmp (List.mem_of_find?_eq_some hfind)
  have hsub := Reltime.sub_normal htmp now.2
  have hrequested : Reltime.Normal ⟨reqSecs.toUInt64, reqUsecs.toUInt64⟩ := by
    rw [Reltime.Normal, UInt32.toNat_toUInt64]
    exact hreq
  have hmicros : Reltime.micros ⟨reqSecs.toUInt64, reqUsecs.toUInt64⟩ =
      reqSecs.toNat * 1000000 + reqUsecs.toNat := by
    rw [Reltime.micros, UInt32.toNat_toUInt64, UInt32.toNat_toUInt64]
  refine ⟨(tmp.time.sub now.1).micros, Reltime.sub_micros htmp now.2, ?_⟩
  rw [← hmicros, rescheduleTimeout, hfind]
  cases onlyShorten with
  | true => simp only [if_true, Reltime.before_iff hrequested hsub]
  | false => simp only [Bool.false_eq_true, if_false, Reltime.before_iff hsub hrequested]

theorem absent_of_find {l : List Timeout} (hfind : (l.find? fun x => x.callee = callee) = none) :
    earliest l callee = none :=
  earliest_eq_none.mpr fun x hx => by simpa using List.find?_eq_none.mp hfind x hx

theorem meets_absent {bound : ℕ → ℕ → ℕ} {target : ℕ} (onlyShorten : Bool)
    (hfind : (timeouts.1.find? fun x => x.callee = callee) = none) :
    Meets bound target callee timeouts.1
      (rescheduleTimeout port memory onlyShorten now.1 later.1 reqSecs reqUsecs callee timeouts.1) := by
  rw [rescheduleTimeout, hfind]
  refine ⟨fun _ => rfl, fun old hold => ?_⟩
  rw [absent_of_find callee hfind] at hold
  cases hold

theorem depletes_iff {requested : ℕ}
    (hreq : requested = reqSecs.toNat * 1000000 + reqUsecs.toNat)
    (husec : reqUsecs.toNat < 1000000) :
    Meets min (now.1.micros + requested) callee timeouts.1
        (depleteTimeout port memory now.1 later.1 reqSecs reqUsecs callee timeouts.1) ↔
      ∀ old, earliest timeouts.1 callee = some old → Depletes memory now later requested old := by
  cases hfind : timeouts.1.find? fun x => x.callee = callee with
  | none =>
    refine iff_of_true (meets_absent _ _ _ _ _ _ _ _ true hfind) fun old hold => ?_
    rw [absent_of_find callee hfind] at hold
    cases hold
  | some tmp =>
    have hold := earliest_of_find timeouts.2 hfind
    have htmp := Reltime.micros_lt_span (timeouts.2.normal tmp (List.mem_of_find?_eq_some hfind))
    obtain ⟨left, hleft, heq⟩ :=
      rescheduleTimeout_eq port memory timeouts now later reqSecs reqUsecs callee true husec hfind
    rw [depleteTimeout, heq, ← hreq]
    simp only [hold, Option.some.injEq, forall_eq', if_true, Depletes]
    by_cases hfire : requested < left
    · rw [if_pos hfire, meets_changed hold]
      by_cases hdue : now.1.micros ≤ tmp.time.micros
      · rw [if_pos hdue] at hleft
        have hshort : now.1.micros + requested < tmp.time.micros := by omega
        have hwrap : ¬ tmp.time.micros + Reltime.span ≤ now.1.micros + requested := by omega
        rw [min_eq_right hshort.le, rescheduled_iff port memory timeouts now later reqSecs reqUsecs
          callee hreq (hshort.trans htmp), or_iff_left hwrap, or_iff_right hshort.not_ge]
        exact ⟨fun h => ⟨hdue, h.1⟩, fun h => ⟨h.2, hshort.ne⟩⟩
      · -- overdue: the difference has wrapped around, and the timeout is moved
        rw [if_neg hdue] at hleft
        refine iff_of_false (fun h => h.2 (min_eq_left ?_)) ?_
        · omega
        · omega
    · rw [if_neg hfire, meets_left hold, min_eq_left_iff]
      split at hleft
      · rename_i hdue
        have hlong : tmp.time.micros ≤ now.1.micros + requested := by omega
        exact iff_of_true hlong (.inl ⟨hdue, .inl hlong⟩)
      · exact iff_of_true (by omega) (.inr (by omega))

theorem replenishes_iff {requested : ℕ}
    (hreq : requested = reqSecs.toNat * 1000000 + reqUsecs.toNat)
    (husec : reqUsecs.toNat < 1000000) :
    Meets max (now.1.micros + requested) callee timeouts.1
        (replenishTimeout port memory now.1 later.1 reqSecs reqUsecs callee timeouts.1) ↔
      ∀ old, earliest timeouts.1 callee = some old → Replenishes memory now later requested old := by
  cases hfind : timeouts.1.find? fun x => x.callee = callee with
  | none =>
    refine iff_of_true (meets_absent _ _ _ _ _ _ _ _ false hfind) fun old hold => ?_
    rw [absent_of_find callee hfind] at hold
    cases hold
  | some tmp =>
    have hold := earliest_of_find timeouts.2 hfind
    have htmp := Reltime.micros_lt_span (timeouts.2.normal tmp (List.mem_of_find?_eq_some hfind))
    obtain ⟨left, hleft, heq⟩ :=
      rescheduleTimeout_eq port memory timeouts now later reqSecs reqUsecs callee false husec hfind
    rw [replenishTimeout, heq, ← hreq]
    simp only [hold, Option.some.injEq, forall_eq', Bool.false_eq_true, if_false, Replenishes]
    by_cases hfire : left < requested
    · rw [if_pos hfire, meets_changed hold]
      have hlong : tmp.time.micros < now.1.micros + requested := by split at hleft <;> omega
      rw [max_eq_right hlong.le]
      by_cases hfits : now.1.micros + requested < Reltime.span
      · have hdue : now.1.micros ≤ tmp.time.micros := by split at hleft <;> omega
        rw [rescheduled_iff port memory timeouts now later reqSecs reqUsecs callee hreq hfits,
          or_iff_right hlong.not_ge]
        exact ⟨fun h => ⟨hdue, hfits, h.1⟩, fun h => ⟨h.2.2, hlong.ne'⟩⟩
      · -- the sum has wrapped around or was dropped
        refine iff_of_false (fun h => hfits ?_) fun h => hfits h.2.1
        exact rescheduled_lt port memory timeouts later reqSecs reqUsecs callee h.1
    · rw [if_neg hfire, meets_left hold, max_eq_left_iff]
      split at hleft
      · rename_i hdue
        have hshort : now.1.micros + requested ≤ tmp.time.micros := by omega
        exact iff_of_true hshort ⟨hdue, hshort.trans_lt htmp, .inl hshort⟩
      · rename_i hdue
        refine iff_of_false (fun h => ?_) fun h => hdue h.1
        omega

/-- Exactly when the two meet what they say: for a timeout that is overdue the subtraction wraps
around, so it is taken to be far away. -/
theorem depleteTimeout_replenishTimeout_meet_iff (husec : reqUsecs.toNat < 1000000) :
    (Meets min (now.1.micros + requestedMicros reqSecs reqUsecs) callee timeouts.1
        (depleteTimeout port memory now.1 later.1 reqSecs reqUsecs callee timeouts.1) ↔
      ∀ old, earliest timeouts.1 callee = some old →
        Depletes memory now later (requestedMicros reqSecs reqUsecs) old) ∧
    (Meets max (now.1.micros + requestedMicros reqSecs reqUsecs) callee timeouts.1
        (replenishTimeout port memory now.1 later.1 reqSecs reqUsecs callee timeouts.1) ↔
      ∀ old, earliest timeouts.1 callee = some old →
        Replenishes memory now later (requestedMicros reqSecs reqUsecs) old) :=
  ⟨depletes_iff port memory timeouts now later reqSecs reqUsecs callee rfl husec,
    replenishes_iff port memory timeouts now later reqSecs reqUsecs callee rfl husec⟩

end Reschedule

def tickCallee : Callee := ⟨1, some 2, some 3⟩

/-- One timeout, due after five seconds. -/
def oneTimeout : Timeouts :=
  ⟨[⟨⟨5, 0⟩, tickCallee⟩], ⟨by decide, List.pairwise_singleton _ _⟩⟩

theorem oneTimeout_meets :
    Meets min 4000000 tickCallee oneTimeout.1
        (depleteTimeout .embox true ⟨3, 0⟩ ⟨3, 0⟩ 1 0 tickCallee oneTimeout.1) ∧
      Meets max 4000000 tickCallee oneTimeout.1
        (replenishTimeout .embox true ⟨3, 0⟩ ⟨3, 0⟩ 1 0 tickCallee oneTimeout.1) := by
  have hold : earliest oneTimeout.1 tickCallee = some 5000000 := by decide
  obtain ⟨hdeplete, hreplenish⟩ := depleteTimeout_replenishTimeout_meet_iff .embox true oneTimeout
    ⟨⟨3, 0⟩, by decide⟩ ⟨⟨3, 0⟩, by decide⟩ 1 0 tickCallee (by decide)
  constructor
  · refine hdeplete.mpr fun old h => ?_
    obtain rfl := Option.some.inj (hold.symm.trans h)
    exact .inl ⟨by decide, .inr ⟨rfl, rfl⟩⟩
  · refine hreplenish.mpr fun old h => ?_
    obtain rfl := Option.some.inj (hold.symm.trans h)
    exact ⟨by decide, by decide, .inl (by decide)⟩

/-- One second overdue, the timeout is put off by ten seconds where it should come no later, and
left alone where it should be put off. -/
theorem oneTimeout_overdue :
    (∀ port, earliest (depleteTimeout port true ⟨6, 0⟩ ⟨6, 0⟩ 10 0 tickCallee oneTimeout.1).2
      tickCallee = some 16000000) ∧
    (∀ port, ¬ Meets min 16000000 tickCallee oneTimeout.1
      (depleteTimeout port true ⟨6, 0⟩ ⟨6, 0⟩ 10 0 tickCallee oneTimeout.1)) ∧
    ∀ port, ¬ Meets max 16000000 tickCallee oneTimeout.1
      (replenishTimeout port true ⟨6, 0⟩ ⟨6, 0⟩ 10 0 tickCallee oneTimeout.1) := by
  have hold : earliest oneTimeout.1 tickCallee = some 5000000 := by decide
  have hlate (port : Port) : earliest
      (depleteTimeout port true ⟨6, 0⟩ ⟨6, 0⟩ 10 0 tickCallee oneTimeout.1).2 tickCallee =
        some 16000000 := by
    cases port <;> decide
  have hleft (port : Port) : earliest
      (replenishTimeout port true ⟨6, 0⟩ ⟨6, 0⟩ 10 0 tickCallee oneTimeout.1).2 tickCallee =
        some 5000000 := by
    cases port <;> decide
  refine ⟨hlate, fun port h => ?_, fun port h => ?_⟩
  · have hmin := (h.present _ hold).1
    rw [hlate] at hmin
    exact absurd hmin (by decide)
  · have hmax := (h.present _ hold).1
    rw [hleft] at hmax
    exact absurd hmax (by decide)

end Wpa.Eloop.Reschedule
