import Mathlib.Algebra.Group.Basic
import Mathlib.Logic.Function.Iterate

/-! Check digits over a group. The digits are weighted with the iterates of an anti-symmetric
permutation, so that a replaced digit and two swapped neighbours change the product. -/

namespace Lib
namespace CheckDigit
variable {D G : Type} [Group G] {value : D → G} {p : D → D} {n : ℕ}

/-- The product of the digits, the `i`th permuted `n + i` times. -/
def weighted (value : D → G) (p : D → D) : ℕ → List D → G
  | _, [] => 1
  | n, d :: ds => value (p^[n] d) * weighted value p (n + 1) ds

theorem weighted_append (n : ℕ) (ds es : List D) :
    weighted value p n (ds ++ es) =
      weighted value p n ds * weighted value p (n + ds.length) es := by
  induction ds generalizing n with
  | nil => exact (one_mul _).symm
  | cons d ds ih =>
    rw [List.cons_append, weighted, weighted, ih, mul_assoc, List.length_cons, Nat.add_right_comm]
    rfl

/-- Replacing a digit changes the product. -/
theorem weighted_replace_ne (hvalue : Function.Injective value) (hp : Function.Injective p)
    (ds es : List D) {d d' : D} (hne : d ≠ d') :
    weighted value p n (ds ++ d :: es) ≠ weighted value p n (ds ++ d' :: es) := by
  intro h
  rw [weighted_append, weighted_append] at h
  have hdigit := mul_right_cancel (mul_left_cancel h)
  exact hne (hp.iterate _ (hvalue hdigit))

/-- Swapping two neighbours changes the product. -/
theorem weighted_swap_ne (hp : Function.Injective p)
    (hanti : ∀ x y, x ≠ y → value x * value (p y) ≠ value y * value (p x)) (ds es : List D)
    {d d' : D} (hne : d ≠ d') :
    weighted value p n (ds ++ d :: d' :: es) ≠ weighted value p n (ds ++ d' :: d :: es) := by
  intro h
  rw [weighted_append, weighted_append] at h
  have hpair := mul_left_cancel h
  simp only [weighted, ← mul_assoc] at hpair
  have hdigits := mul_right_cancel hpair
  rw [Function.iterate_succ_apply', Function.iterate_succ_apply'] at hdigits
  exact hanti _ _ (fun heq => hne (hp.iterate _ heq)) hdigits

end CheckDigit
end Lib
