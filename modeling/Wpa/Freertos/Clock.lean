import Mathlib.Algebra.Order.Ring.Nat
import Wpa.Eloop.OsTime

/-! The clock of the FreeRTOS port: a 64-bit tick count, converted through 32 bits of
milliseconds. -/

namespace Wpa.Freertos
open Eloop

/-- `TimeOut_t` as `vTaskSetTimeOutState` fills it. -/
structure TimeOut where
  xOverflowCount : ℕ
  xTimeOnEntering : ℕ
  deriving DecidableEq

/-- `ullTickCount`. -/
def TimeOut.tickCount (t : TimeOut) : ℕ :=
  (t.xOverflowCount % 2 ^ 64 * 2 ^ 32 + t.xTimeOnEntering) % 2 ^ 64

/-- `TICKS_TO_MSEC`: a 64-bit product and quotient, cast to 32 bits. -/
def ticksToMsec (rate tick : ℕ) : ℕ := tick * 1000 % 2 ^ 64 / rate % 2 ^ 32

def osGetTime (rate : ℕ) (t : TimeOut) : OsTime :=
  let msecs := ticksToMsec rate t.tickCount
  ⟨msecs / 1000, 0⟩

/-- The second at a tick count. -/
def seconds (rate tick : ℕ) : ℕ := ticksToMsec rate tick / 1000

/-- Up to this tick count the clock does not go back, and a deadline once reached stays reached. -/
structure NeverBack (rate uptime : ℕ) : Prop where
  notAfter : ∀ t t' : TimeOut, t.tickCount ≤ t'.tickCount → t'.tickCount ≤ uptime →
    (osGetTime rate t').before (osGetTime rate t) = false
  stays : ∀ t t' : TimeOut, t.tickCount ≤ t'.tickCount → t'.tickCount ≤ uptime →
    ∀ deadline : OsTime, (osGetTime rate t).before deadline = false →
      (osGetTime rate t').before deadline = false

variable {rate uptime tick : ℕ}

theorem tickCount_of_lt (h : tick < 2 ^ 64) :
    TimeOut.tickCount ⟨tick / 2 ^ 32, tick % 2 ^ 32⟩ = tick := by
  show (tick / 2 ^ 32 % 2 ^ 64 * 2 ^ 32 + tick % 2 ^ 32) % 2 ^ 64 = tick
  omega

theorem before_same_usec {sec sec' usec : ℕ} :
    (OsTime.mk sec usec).before ⟨sec', usec⟩ = decide (sec < sec') := by
  simp [OsTime.before]

/-- The clock is as good as its seconds. -/
theorem neverBack_iff_seconds (huptime : uptime < 2 ^ 64) :
    NeverBack rate uptime ↔
      ∀ tick tick', tick ≤ tick' → tick' ≤ uptime → seconds rate tick ≤ seconds rate tick' := by
  constructor
  · intro h tick tick' hle hup
    have hlt : tick' < 2 ^ 64 := by omega
    have hnot := h.notAfter ⟨tick / 2 ^ 32, tick % 2 ^ 32⟩ ⟨tick' / 2 ^ 32, tick' % 2 ^ 32⟩
    rw [tickCount_of_lt (hle.trans_lt hlt), tickCount_of_lt hlt] at hnot
    have hback := hnot hle hup
    rw [osGetTime, osGetTime, tickCount_of_lt (hle.trans_lt hlt), tickCount_of_lt hlt,
      before_same_usec, decide_eq_false_iff_not, not_lt] at hback
    exact hback
  · intro h
    have hsec (t t' : TimeOut) (hle : t.tickCount ≤ t'.tickCount) (hup : t'.tickCount ≤ uptime) :
        (osGetTime rate t).sec ≤ (osGetTime rate t').sec := h _ _ hle hup
    constructor
    · intro t t' hle hup
      rw [osGetTime, osGetTime, before_same_usec, decide_eq_false_iff_not, not_lt]
      exact h _ _ hle hup
    · intro t t' hle hup deadline hreached
      have hlater := hsec t t' hle hup
      rw [OsTime.before_eq_false] at hreached ⊢
      rcases hreached with hpast | ⟨hsame, husec⟩
      · exact .inl (hpast.trans_le hlater)
      · rcases Nat.lt_or_eq_of_le hlater with hlt | heq
        · exact .inl (hsame ▸ hlt)
        · exact .inr ⟨heq.symm.trans hsame, husec⟩

/-- The millisecond at which the 32-bit count, or the 64-bit product, begins anew. -/
theorem seconds_wrapped (hrate : 0 < rate) (hwrap : 2 ^ 64 ≤ tick * 1000 ∨ 2 ^ 32 * rate ≤ tick * 1000)
    (hfirst : (tick - 1) * 1000 < 2 ^ 64 ∧ (tick - 1) * 1000 < 2 ^ 32 * rate) :
    seconds rate tick = 0 := by
  have hsmall : ticksToMsec rate tick < 1000 := by
    unfold ticksToMsec
    by_cases hproduct : 2 ^ 64 ≤ tick * 1000
    · have hmod : tick * 1000 % 2 ^ 64 < 1000 := by omega
      calc tick * 1000 % 2 ^ 64 / rate % 2 ^ 32 ≤ tick * 1000 % 2 ^ 64 / rate := Nat.mod_le _ _
        _ ≤ tick * 1000 % 2 ^ 64 := Nat.div_le_self _ _
        _ < 1000 := hmod
    · have hle := hwrap.resolve_left hproduct
      rw [Nat.mod_eq_of_lt (Nat.lt_of_not_le hproduct)]
      obtain ⟨excess, hexcess⟩ := Nat.exists_eq_add_of_le hle
      have hlt : excess < 1000 := by omega
      rw [hexcess, Nat.mul_comm, Nat.mul_add_div hrate, Nat.add_mod_left]
      calc excess / rate % 2 ^ 32 ≤ excess / rate := Nat.mod_le _ _
        _ ≤ excess := Nat.div_le_self _ _
        _ < 1000 := hlt
  exact Nat.div_eq_of_lt hsmall

/-- Before that the seconds are the true ones. -/
theorem seconds_true (hproduct : tick * 1000 < 2 ^ 64) (hmsec : tick * 1000 / rate < 2 ^ 32) :
    seconds rate tick = tick / rate := by
  rw [seconds, ticksToMsec, Nat.mod_eq_of_lt hproduct, Nat.mod_eq_of_lt hmsec, Nat.div_div_eq_div_mul,
    Nat.mul_div_mul_right _ _ (by decide : 0 < 1000)]

/-- The clock does not go back exactly as long as neither the 32 bits of milliseconds nor the 64
bits of the product have wrapped, or where no second ever passes. -/
theorem neverBack_iff (rate : ℕ) (hrate : 0 < rate) (uptime : ℕ) (huptime : uptime < 2 ^ 64) :
    NeverBack rate uptime ↔
      2 ^ 64 ≤ 1000 * rate ∨ (uptime * 1000 < 2 ^ 64 ∧ uptime * 1000 < 2 ^ 32 * rate) := by
  rw [neverBack_iff_seconds huptime]
  constructor
  · intro h
    by_contra hwraps
    obtain ⟨hslow, hwraps⟩ := not_or.mp hwraps
    -- the first tick at which the clock begins anew
    let first := (min (2 ^ 64) (2 ^ 32 * rate) + 999) / 1000
    have hfirst : (first - 1) * 1000 < 2 ^ 64 ∧ (first - 1) * 1000 < 2 ^ 32 * rate := by omega
    have hwrap : 2 ^ 64 ≤ first * 1000 ∨ 2 ^ 32 * rate ≤ first * 1000 := by omega
    have hreached : first ≤ uptime := by omega
    have hpassed : rate ≤ first - 1 := by omega
    have hback := h (first - 1) first (Nat.sub_le _ _) hreached
    rw [seconds_wrapped hrate hwrap hfirst, seconds_true hfirst.1 (by
      rw [Nat.div_lt_iff_lt_mul hrate]
      exact hfirst.2)] at hback
    exact absurd hback (Nat.not_le.mpr (Nat.div_pos hpassed hrate))
  · rintro (hslow | ⟨hproduct, hmsec⟩) tick tick' hle hup
    · have hzero (tick : ℕ) : seconds rate tick = 0 := by
        have hlt : tick * 1000 % 2 ^ 64 / rate < 1000 := by
          rw [Nat.div_lt_iff_lt_mul hrate]
          exact (Nat.mod_lt _ (Nat.two_pow_pos 64)).trans_le hslow
        exact Nat.div_eq_of_lt ((Nat.mod_le _ _).trans_lt hlt)
      rw [hzero, hzero]
    · have htrue (tick : ℕ) (h : tick ≤ uptime) : seconds rate tick = tick / rate := by
        have hmul : tick * 1000 ≤ uptime * 1000 := Nat.mul_le_mul_right 1000 h
        apply seconds_true (hmul.trans_lt hproduct)
        rw [Nat.div_lt_iff_lt_mul hrate]
        exact hmul.trans_lt hmsec
      rw [htrue tick (hle.trans hup), htrue tick' hup]
      exact Nat.div_le_div_right hle

theorem neverBack_day : NeverBack 1000 86400000 :=
  (neverBack_iff 1000 (by decide) 86400000 (by decide)).mpr (.inr (by decide))

/-- At 1000 ticks a second, after 2 ^ 32 milliseconds. -/
theorem clock_goes_back :
    ¬∀ rate : ℕ, 0 < rate → ∀ t t' : TimeOut, t.tickCount ≤ t'.tickCount →
      (osGetTime rate t').before (osGetTime rate t) = false := by
  intro h
  have hback := h 1000 (by decide) ⟨0, 4294967295⟩ ⟨1, 0⟩ (by decide)
  revert hback
  decide

end Wpa.Freertos
