import Mathlib.Data.Rat.Cast.Order
import Mathlib.Algebra.Order.Field.Basic
import Mathlib.Tactic.Linarith
import Mathlib.Tactic.NormNum
import Mathlib.Tactic.Ring
import Wpa.Eloop.Machine
import Wpa.Freertos.Clock

/-! The timers of the FreeRTOS event loop against the time that has really passed. -/

namespace Wpa.Freertos
open Lib Runs Eloop

section Reading

/-- The counters after so many ticks. -/
def timeOutAt (tick : ℕ) : TimeOut := ⟨tick / 2 ^ 32, tick % 2 ^ 32⟩

theorem osGetTime_normal (rate : ℕ) (t : TimeOut) : (osGetTime rate t).Normal := by
  show 0 < 1000000
  decide

def readingAt (rate tick : ℕ) : Reading := ⟨osGetTime rate (timeOutAt tick), osGetTime_normal _ _⟩

/-- The milliseconds that have passed after so many ticks. -/
def trueMs (rate tick : ℕ) : ℚ := 1000 * tick / rate

/-- The milliseconds in the clock, times the tick rate: what is left after both truncations. -/
def residue (rate tick : ℕ) : ℕ := tick * 1000 % 2 ^ 64 % (rate * 2 ^ 32)

/-- How far the second of the clock has run, in the same unit. -/
def phase (rate tick : ℕ) : ℕ := residue rate tick % (rate * 1000)

variable {rate tick tick' : ℕ}

theorem readingAt_micros (rate tick : ℕ) :
    (readingAt rate tick).1.micros = residue rate tick / (rate * 1000) * 1000000 := by
  have hcount : (timeOutAt tick).tickCount = tick % 2 ^ 64 := by
    show (tick / 2 ^ 32 % 2 ^ 64 * 2 ^ 32 + tick % 2 ^ 32) % 2 ^ 64 = tick % 2 ^ 64
    omega
  have hproduct : tick % 2 ^ 64 * 1000 % 2 ^ 64 = tick * 1000 % 2 ^ 64 := by omega
  have hsec : ticksToMsec rate (timeOutAt tick).tickCount / 1000 =
      residue rate tick / (rate * 1000) := by
    rw [hcount, ticksToMsec, hproduct, residue, ← Nat.mod_mul_right_div_self,
      Nat.div_div_eq_div_mul]
  show ticksToMsec rate (timeOutAt tick).tickCount / 1000 * 1000000 + 0 = _
  rw [hsec, Nat.add_zero]

/-- Wrapping only ever takes time away. -/
theorem residue_sub_le (h : tick ≤ tick') :
    residue rate tick' + tick * 1000 ≤ residue rate tick + tick' * 1000 := by
  unfold residue
  have hx := Nat.div_add_mod (tick * 1000) (2 ^ 64)
  have hx' := Nat.div_add_mod (tick' * 1000) (2 ^ 64)
  have hr := Nat.div_add_mod (tick * 1000 % 2 ^ 64) (rate * 2 ^ 32)
  have hr' := Nat.div_add_mod (tick' * 1000 % 2 ^ 64) (rate * 2 ^ 32)
  have hlt : tick * 1000 % 2 ^ 64 < 2 ^ 64 := Nat.mod_lt _ (Nat.two_pow_pos 64)
  rcases Nat.lt_or_eq_of_le (Nat.div_le_div_right (c := 2 ^ 64) (Nat.mul_le_mul_right 1000 h)) with
    hlater | hsame
  · omega
  · have hle : tick * 1000 % 2 ^ 64 ≤ tick' * 1000 % 2 ^ 64 := by omega
    have hwraps := Nat.mul_le_mul_left (rate * 2 ^ 32)
      (Nat.div_le_div_right (c := rate * 2 ^ 32) hle)
    omega

/-- A request at this tick is not rounded down by more than it is rounded up: with a fraction of a
second in it, the second of the clock has not run for longer than what is missing to the next whole
one, and without, it has just begun. -/
def OnTime (rate tick usecs : ℕ) : Prop :=
  1000 * phase rate tick ≤ rate * ((1000000 - usecs % 1000000) % 1000000)

/-- A deadline reached at a whole unit is reached with the fraction made up. -/
theorem whole_second {unit sec sec' secs usecs : ℕ} (hunit : 0 < unit)
    (h : sec * unit + secs * unit + usecs ≤ sec' * unit) :
    secs * unit + usecs + (unit - usecs % unit) % unit ≤ (sec' - sec) * unit := by
  have hsplit := Nat.div_add_mod usecs unit
  have hlt := Nat.mod_lt usecs hunit
  rw [Nat.sub_mul]
  rcases Nat.eq_zero_or_pos (usecs % unit) with hzero | hpos
  · rw [hzero, Nat.sub_zero, Nat.mod_self]
    omega
  · rw [Nat.mod_eq_of_lt (Nat.sub_lt hunit hpos)]
    have hnext : unit * (usecs / unit) + unit ≤ sec' * unit - sec * unit - secs * unit := by
      have hmul : unit * (usecs / unit) < unit * (sec' - sec - secs) := by
        rw [Nat.mul_comm unit (sec' - sec - secs), Nat.sub_mul, Nat.sub_mul]
        omega
      have hdiv := Nat.lt_of_mul_lt_mul_left hmul
      have hmul' := Nat.mul_le_mul_left unit (Nat.succ_le_of_lt hdiv)
      rw [Nat.mul_succ, Nat.mul_comm unit (sec' - sec - secs), Nat.sub_mul, Nat.sub_mul] at hmul'
      exact hmul'
    omega

/-- A deadline on the clock is then a deadline in ticks. -/
theorem ticks_passed {secs usecs : ℕ} (hle : tick ≤ tick')
    (hontime : OnTime rate tick usecs)
    (hdue : (readingAt rate tick).1.micros + secs * 1000000 + usecs ≤
      (readingAt rate tick').1.micros) :
    rate * (secs * 1000000 + usecs) ≤ 1000000 * (tick' - tick) := by
  rw [readingAt_micros, readingAt_micros] at hdue
  unfold OnTime phase at hontime
  have hpast : residue rate tick' + tick * 1000 ≤ residue rate tick + tick' * 1000 :=
    residue_sub_le hle
  have hsec := Nat.div_add_mod (residue rate tick) (rate * 1000)
  have hsec' := Nat.div_add_mod (residue rate tick') (rate * 1000)
  generalize residue rate tick / (rate * 1000) = sec at *
  generalize residue rate tick' / (rate * 1000) = sec' at *
  generalize residue rate tick % (rate * 1000) = part at *
  have hwhole := whole_second (by decide : 0 < 1000000) hdue
  have hmul := Nat.mul_le_mul_left rate hwhole
  rw [Nat.mul_add] at hmul
  have hsplit : rate * ((sec' - sec) * 1000000) + 1000 * (rate * 1000 * sec) =
      1000 * (rate * 1000 * sec') := by
    have hge : sec ≤ sec' := by omega
    obtain ⟨more, rfl⟩ := Nat.exists_eq_add_of_le hge
    rw [Nat.add_sub_cancel_left]
    ring
  omega

theorem trueMs_le {secs usecs : ℕ} (hrate : 0 < rate) (hle : tick ≤ tick')
    (h : rate * (secs * 1000000 + usecs) ≤ 1000000 * (tick' - tick)) :
    (1000 * secs + usecs / 1000 : ℚ) ≤ trueMs rate tick' - trueMs rate tick := by
  have hcast : (rate : ℚ) * (secs * 1000000 + usecs) ≤ 1000000 * (tick' - tick) := by
    have hnat := (Nat.cast_le (α := ℚ)).mpr h
    rw [Nat.cast_mul, Nat.cast_mul, Nat.cast_sub hle] at hnat
    push_cast at hnat
    exact hnat
  have hpos : (0 : ℚ) < rate := Nat.cast_pos.mpr hrate
  rw [trueMs, trueMs, ← sub_div, le_div_iff₀ hpos]
  linarith

end Reading

section Runs

/-- A call after so many ticks. -/
def freertosStep (rate : ℕ) (eloop : EloopData) (input : ℕ × EloopCall) :
    EloopData × List EloopOut :=
  eloopCall eloop (readingAt rate input.1) input.2

abbrev TickEvent := Event EloopData (ℕ × EloopCall) EloopOut

/-- Each handler that runs was registered before, and the time asked for has passed since. -/
def NeverEarly (rate : ℕ) (events : List TickEvent) : Prop :=
  ∀ earlier t' later, events = earlier ++ t' :: later → ∀ id now', .handled id now' ∈ t'.out →
    (∃ t ∈ earlier, ∃ now secs usecs callback,
      .registered id now secs usecs callback ∈ t.out) ∧
    ∀ t ∈ earlier, ∀ (now : Reading) (secs usecs : ℕ) (callback : Callback),
      .registered id now secs usecs callback ∈ t.out →
      (1000 * secs + usecs / 1000 : ℚ) ≤ trueMs rate t'.input.1 - trueMs rate t.input.1

variable {rate : ℕ}

theorem kept_run (rate : ℕ) (calls : List (ℕ × EloopCall)) :
    Kept (outputs (trace (freertosStep rate) .init calls))
      (final (freertosStep rate) .init calls) := by
  refine @history_induction _ _ _ (freertosStep rate) (fun past eloop => Kept (outputs past) eloop)
    (fun _ _ => True) .init .init ?_ calls fun _ _ => trivial
  intro past eloop input hkept _
  rw [outputs_concat]
  exact hkept.call (readingAt rate input.1) input.2

/-- What a registration says is what the call asked for. -/
theorem registered_eq {eloop : EloopData} {input : ℕ × EloopCall} {id secs usecs : ℕ} {now : Reading}
    {callback : Callback}
    (h : .registered id now secs usecs callback ∈ (freertosStep rate eloop input).2) :
    now = readingAt rate input.1 ∧ ∃ memory, input.2 = .registerTimeout memory secs usecs callback := by
  obtain ⟨tick, call⟩ := input
  unfold freertosStep eloopCall at h
  cases call with
  | registerTimeout memory secs' usecs' callback' =>
    cases memory with
    | false => simp at h
    | true =>
      simp only [Bool.not_true, Bool.false_eq_true, if_false, List.mem_cons, List.not_mem_nil,
        reduceCtorEq, or_false, EloopOut.registered.injEq] at h
      obtain ⟨-, rfl, rfl, rfl, rfl⟩ := h
      exact ⟨rfl, true, rfl⟩
  | cancelTimeout handler eloopData userData => simp at h
  | cancelTimeoutOne callback => simp at h
  | run =>
    simp only at h
    split at h
    · cases h
    · split at h <;> simp at h
  | handlerReturned => cases h

/-- If every request is on time, no timer fires early. -/
theorem never_early (rate : ℕ) (hrate : 0 < rate) (calls : List (ℕ × EloopCall))
    (hticks : (calls.map Prod.fst).Pairwise (· ≤ ·))
    (hontime : ∀ tick memory secs usecs callback,
      (tick, .registerTimeout memory secs usecs callback) ∈ calls → OnTime rate tick usecs) :
    NeverEarly rate (trace (freertosStep rate) .init calls) := by
  intro earlier t' later htrace id now' hhandled
  obtain ⟨before, rest, rfl, rfl, hrest⟩ := trace_eq_append htrace
  cases rest with
  | nil => cases hrest
  | cons input' rest =>
    obtain ⟨rfl, -⟩ := List.cons.inj hrest
    have hkept := kept_run rate before
    obtain ⟨rfl, x, hx, rfl, hdue⟩ := hkept.due_of_handled hhandled
    constructor
    · obtain ⟨now, secs, usecs, callback, hmem⟩ := hkept.issued x.id (hkept.id_lt hx)
      obtain ⟨t, ht, hout⟩ := List.mem_flatMap.mp hmem
      exact ⟨t, ht, now, secs, usecs, callback, hout⟩
    · intro t ht now secs usecs callback hout
      have hmem : .registered x.id now secs usecs callback ∈
          outputs (trace (freertosStep rate) .init before) := List.mem_flatMap.mpr ⟨t, ht, hout⟩
      rw [(hkept.entries x hx hmem).1, OsTime.after_micros] at hdue
      rw [mem_trace ht] at hout
      obtain ⟨rfl, memory, hcall⟩ := registered_eq hout
      have hinput : t.input ∈ before := by
        have hmap := List.mem_map_of_mem (f := Event.input) ht
        rwa [map_input_trace] at hmap
      have hle : t.input.1 ≤ input'.1 := by
        rw [List.map_append, List.pairwise_append] at hticks
        exact hticks.2.2 _ (List.mem_map_of_mem hinput) _ (List.mem_cons_self ..)
      have hon : OnTime rate t.input.1 usecs := by
        apply hontime t.input.1 memory secs usecs callback
        rw [← hcall]
        exact List.mem_append_left _ hinput
      exact trueMs_le hrate hle (ticks_passed hle hon hdue)

/-- A second asked for at the start of a second of the clock. -/
def onTheSecond : List (ℕ × EloopCall) :=
  [(1000, .registerTimeout true 1 0 ⟨0, 0, 0⟩), (2000, .run)]

theorem never_early_onTheSecond :
    handledIds (outputs (trace (freertosStep 1000) .init onTheSecond)) = [0] ∧
      NeverEarly 1000 (trace (freertosStep 1000) .init onTheSecond) := by
  refine ⟨by decide, never_early 1000 (by decide) onTheSecond (by decide) ?_⟩
  intro tick memory secs usecs callback h
  simp only [onTheSecond, List.mem_cons, Prod.mk.injEq, EloopCall.registerTimeout.injEq, reduceCtorEq,
    List.not_mem_nil, and_false, or_false] at h
  obtain ⟨rfl, -, -, rfl, -⟩ := h
  unfold OnTime
  decide

/-- A second asked for at the end of a second of the clock is over after a millisecond. -/
theorem fires_early :
    ¬∀ rate : ℕ, 0 < rate → ∀ calls : List (ℕ × EloopCall), (calls.map Prod.fst).Pairwise (· ≤ ·) →
      NeverEarly rate (trace (freertosStep rate) .init calls) := by
  intro h
  have hearly := h 1000 (by decide) [(1999, .registerTimeout true 1 0 ⟨0, 0, 0⟩), (2000, .run)]
    (by decide) [event (freertosStep 1000) .init (1999, .registerTimeout true 1 0 ⟨0, 0, 0⟩)] _ [] rfl
    0 (readingAt 1000 2000) (by decide)
  have hpassed := hearly.2 _ (List.mem_singleton_self _) (readingAt 1000 1999) 1 0 ⟨0, 0, 0⟩
    (by decide)
  simp only [event, trueMs] at hpassed
  norm_num at hpassed

end Runs

end Wpa.Freertos
