import Mathlib.Algebra.Group.Nat.Defs
import Mathlib.Data.Nat.Basic

/-! `struct os_reltime` of `os.h`, whose fields are 64-bit words and wrap around. -/

namespace Wpa

structure Reltime where
  sec : UInt64
  usec : UInt64
  deriving DecidableEq

namespace Reltime

def before (a b : Reltime) : Bool := a.sec < b.sec || (a.sec == b.sec && a.usec < b.usec)

/-- `os_reltime_sub`. -/
def sub (a b : Reltime) : Reltime :=
  if a.usec < b.usec then ⟨a.sec - b.sec - 1, a.usec - b.usec + 1000000⟩
  else ⟨a.sec - b.sec, a.usec - b.usec⟩

def micros (t : Reltime) : ℕ := t.sec.toNat * 1000000 + t.usec.toNat

/-- The number of instants there are. -/
def span : ℕ := 2 ^ 64 * 1000000

def Normal (t : Reltime) : Prop := t.usec.toNat < 1000000

instance (t : Reltime) : Decidable t.Normal := inferInstanceAs (Decidable (_ < _))

variable {a b t : Reltime}

theorem before_eq_true :
    a.before b = true ↔
      a.sec.toNat < b.sec.toNat ∨ (a.sec.toNat = b.sec.toNat ∧ a.usec.toNat < b.usec.toNat) := by
  simp only [before, Bool.or_eq_true, Bool.and_eq_true, decide_eq_true_eq, beq_iff_eq,
    UInt64.lt_iff_toNat_lt, ← UInt64.toNat_inj]

theorem before_iff (ha : a.Normal) (hb : b.Normal) : a.before b = true ↔ a.micros < b.micros := by
  unfold Normal at ha hb
  rw [before_eq_true, micros, micros]
  omega

theorem micros_lt_span (h : t.Normal) : t.micros < span := by
  unfold Normal at h
  have hsec := t.sec.toNat_lt
  unfold micros span
  omega

theorem micros_inj (ha : a.Normal) (hb : b.Normal) (h : a.micros = b.micros) : a = b := by
  unfold Normal at ha hb
  unfold micros at h
  have hsec : a.sec = b.sec := UInt64.toNat_inj.mp (by omega)
  have husec : a.usec = b.usec := UInt64.toNat_inj.mp (by omega)
  cases a
  cases b
  exact congrArg₂ mk hsec husec

theorem sub_normal (ha : a.Normal) (hb : b.Normal) : (a.sub b).Normal := by
  unfold Normal at *
  unfold sub
  split
  · rename_i hlt
    rw [UInt64.lt_iff_toNat_lt] at hlt
    show (a.usec - b.usec + 1000000).toNat < 1000000
    rw [UInt64.toNat_add, UInt64.toNat_sub]
    simp only [UInt64.reduceToNat]
    omega
  · rename_i hlt
    rw [UInt64.lt_iff_toNat_lt] at hlt
    show (a.usec - b.usec).toNat < 1000000
    rw [UInt64.toNat_sub]
    omega

/-- Behind a later instant the difference wraps around. -/
theorem sub_micros (ha : a.Normal) (hb : b.Normal) :
    (a.sub b).micros = if b.micros ≤ a.micros then a.micros - b.micros
      else a.micros + span - b.micros := by
  unfold Normal at ha hb
  have hasec := a.sec.toNat_lt
  have hbsec := b.sec.toNat_lt
  unfold sub micros span
  split
  · rename_i hlt
    rw [UInt64.lt_iff_toNat_lt] at hlt
    simp only [UInt64.toNat_add, UInt64.toNat_sub, UInt64.reduceToNat]
    split <;> omega
  · rename_i hlt
    rw [UInt64.lt_iff_toNat_lt] at hlt
    simp only [UInt64.toNat_sub]
    split <;> omega

end Reltime

end Wpa
