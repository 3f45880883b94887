import Mathlib.Data.Nat.Basic

/-! Instants of `os.h`, in seconds and microseconds, and a deadline computed from one. -/

namespace Wpa.Eloop

/-- `struct os_time` and `struct os_reltime`. The fields have 64 bits, which no clock exhausts. -/
structure OsTime where
  sec : ℕ
  usec : ℕ
  deriving DecidableEq

namespace OsTime

def before (a b : OsTime) : Bool := a.sec < b.sec || (a.sec == b.sec && a.usec < b.usec)

/-- `os_reltime_sub`. -/
def sub (a b : OsTime) : OsTime :=
  if a.usec < b.usec then ⟨a.sec - b.sec - 1, a.usec + 1000000 - b.usec⟩
  else ⟨a.sec - b.sec, a.usec - b.usec⟩

/-- The loop that carries microseconds into seconds. -/
def carry : ℕ → OsTime → OsTime
  | 0, t => t
  | fuel + 1, t => if t.usec ≥ 1000000 then carry fuel ⟨t.sec + 1, t.usec - 1000000⟩ else t

/-- The deadline of a timeout. -/
def after (now : OsTime) (secs usecs : ℕ) : OsTime :=
  let time : OsTime := ⟨now.sec + secs, now.usec + usecs⟩
  carry time.usec time

def micros (t : OsTime) : ℕ := t.sec * 1000000 + t.usec

def Normal (t : OsTime) : Prop := t.usec < 1000000

variable {a b t : OsTime}

theorem before_iff (ha : a.Normal) (hb : b.Normal) : a.before b = true ↔ a.micros < b.micros := by
  unfold Normal at ha hb
  simp only [before, micros, Bool.or_eq_true, Bool.and_eq_true, decide_eq_true_eq, beq_iff_eq]
  omega

theorem before_eq_false :
    a.before b = false ↔ b.sec < a.sec ∨ (a.sec = b.sec ∧ b.usec ≤ a.usec) := by
  simp only [before, Bool.or_eq_false_iff, Bool.and_eq_false_iff, decide_eq_false_iff_not,
    beq_eq_false_iff_ne]
  omega

theorem micros_inj (ha : a.Normal) (hb : b.Normal) (h : a.micros = b.micros) : a = b := by
  unfold Normal at ha hb
  unfold micros at h
  have hsec : a.sec = b.sec := by omega
  have husec : a.usec = b.usec := by omega
  cases a
  cases b
  exact congrArg₂ mk hsec husec

theorem carry_spec (fuel : ℕ) (t : OsTime) (h : t.usec ≤ fuel) :
    (carry fuel t).Normal ∧ (carry fuel t).micros = t.micros := by
  induction fuel generalizing t with
  | zero =>
    refine ⟨?_, rfl⟩
    unfold carry Normal
    omega
  | succ fuel ih =>
    rw [carry]
    split
    · rename_i hcarry
      have hnext := ih ⟨t.sec + 1, t.usec - 1000000⟩ (by
        show t.usec - 1000000 ≤ fuel
        omega)
      refine ⟨hnext.1, hnext.2.trans ?_⟩
      show (t.sec + 1) * 1000000 + (t.usec - 1000000) = t.sec * 1000000 + t.usec
      omega
    · rename_i hnormal
      exact ⟨Nat.lt_of_not_le hnormal, rfl⟩

theorem after_normal (now : OsTime) (secs usecs : ℕ) : (now.after secs usecs).Normal :=
  (carry_spec _ _ le_rfl).1

@[simp] theorem after_micros (now : OsTime) (secs usecs : ℕ) :
    (now.after secs usecs).micros = now.micros + secs * 1000000 + usecs := by
  rw [after, (carry_spec _ _ le_rfl).2]
  show (now.sec + secs) * 1000000 + (now.usec + usecs) = now.sec * 1000000 + now.usec + _ + _
  omega

/-- The difference to an earlier instant. -/
theorem sub_spec (ha : a.Normal) (hb : b.Normal) (h : b.micros ≤ a.micros) :
    (a.sub b).Normal ∧ (a.sub b).micros = a.micros - b.micros := by
  unfold Normal at *
  unfold micros at *
  unfold sub
  split
  · constructor
    · show a.usec + 1000000 - b.usec < 1000000
      omega
    · show (a.sec - b.sec - 1) * 1000000 + (a.usec + 1000000 - b.usec) = _
      omega
  · constructor
    · show a.usec - b.usec < 1000000
      omega
    · show (a.sec - b.sec) * 1000000 + (a.usec - b.usec) = _
      omega

end OsTime

end Wpa.Eloop
