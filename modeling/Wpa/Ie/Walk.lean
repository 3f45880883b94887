import Wpa.Ie.Elements
import Wpa.Lib.ReadProg

/-! The loop that the parsers of information elements share: a step for each whole element, which
may refuse the frame. -/

namespace Wpa.Ie
open Lib Bytes

variable {σ : Type} {b : Bytes}

/-- `while (end - pos >= 2)`, with a step for the element at `pos`; octets that make no whole element
end the loop. -/
def walk (b : Bytes) (item : Element → σ → ReadProg ℤ σ) : ℕ → ℕ → σ → ReadProg ℤ σ
  | 0, _, _ => ExceptT.mk none
  | fuel + 1, pos, s =>
    if pos + 2 ≤ b.length then do
      let id ← b.read8 pos
      let len ← b.read8 (pos + 1)
      if len > b.length - (pos + 2) then return s
      else do
        let s ← item ⟨id, ⟨pos + 2, len⟩⟩ s
        walk b item fuel (pos + 2 + len) s
    else return s

/-- The whole elements from `start` on that end at `stop` at the latest. -/
def elementsBetween (b : Bytes) (start stop : ℕ) : List Element :=
  elementsFrom (b.take stop) b.length start

theorem elementsFrom_fuel {fuel fuel' off : ℕ} (h : b.length ≤ off + fuel)
    (h' : b.length ≤ off + fuel') : elementsFrom b fuel off = elementsFrom b fuel' off := by
  induction fuel generalizing fuel' off with
  | zero =>
    cases fuel' with
    | zero => rfl
    | succ fuel' => exact (if_neg (by omega)).symm
  | succ fuel ih =>
    cases fuel' with
    | zero => exact if_neg (by omega)
    | succ fuel' =>
      have hnext : ∀ next, off + 2 ≤ next → elementsFrom b fuel next = elementsFrom b fuel' next :=
        fun next hnext => ih (by omega) (by omega)
      rw [elementsFrom, elementsFrom, hnext _ (by omega)]

theorem mem_elementsFrom {fuel off : ℕ} {e : Element} (he : e ∈ elementsFrom b fuel off) :
    off + 2 ≤ e.data.off ∧ e.id = b.byteAt (e.data.off - 2) ∧
      e.data.len = b.byteAt (e.data.off - 1) := by
  induction fuel generalizing off with
  | zero => cases he
  | succ fuel ih =>
    rw [elementsFrom] at he
    split at he
    · rcases List.mem_cons.mp he with rfl | he
      · exact ⟨Nat.le_refl _, rfl, rfl⟩
      · obtain ⟨hoff, hrest⟩ := ih he
        exact ⟨by omega, hrest⟩
    · cases he

theorem elementsBetween_self (b : Bytes) (pos : ℕ) : elementsBetween b pos pos = [] := by
  cases hlen : b.length with
  | zero => rw [elementsBetween, hlen, elementsFrom]
  | succ n =>
    rw [elementsBetween, hlen, elementsFrom, if_neg]
    rw [List.length_take]
    omega

theorem byteAt_take {stop i : ℕ} (h : i < stop) : byteAt (b.take stop) i = b.byteAt i := by
  simp only [byteAt, List.getD_eq_getElem?_getD, List.getElem?_take_of_lt h]

theorem elementsBetween_succ {start stop : ℕ} (hstop : stop ≤ b.length) :
    elementsBetween b start stop = elementsFrom (b.take stop) (b.length + 1) start := by
  have hlen : (b.take stop).length = stop := List.length_take_of_le hstop
  exact elementsFrom_fuel (by omega) (by omega)

/-- The element at `start`, if it ends before `stop`, and the elements behind it. -/
theorem elementsBetween_cons {start stop : ℕ}
    (h : start + 2 + b.byteAt (start + 1) ≤ stop) (hstop : stop ≤ b.length) :
    elementsBetween b start stop =
      ⟨b.byteAt start, ⟨start + 2, b.byteAt (start + 1)⟩⟩ ::
        elementsBetween b (start + 2 + b.byteAt (start + 1)) stop := by
  rw [elementsBetween_succ hstop, elementsFrom, byteAt_take (by omega), byteAt_take (by omega),
    List.length_take_of_le hstop, if_pos ⟨by omega, h⟩]
  rfl

theorem whole_of_elementsBetween {start stop : ℕ} (h : elementsBetween b start stop ≠ [])
    (hstop : stop ≤ b.length) : start + 2 + b.byteAt (start + 1) ≤ stop := by
  rw [elementsBetween_succ hstop, elementsFrom, List.length_take_of_le hstop] at h
  split at h
  · rename_i hwhole
    rw [byteAt_take (by omega)] at hwhole
    exact hwhole.2
  · exact absurd rfl h

/-- An invariant of the step, over the elements so far, is one of the loop. -/
theorem walk_yields (past : List Element) {item : Element → σ → ReadProg ℤ σ}
    {I : List Element → σ → Prop}
    (hitem : ∀ past e s, 2 ≤ e.data.off → e.data.off + e.data.len ≤ b.length → I past s →
      Yields (item e s) (I (past ++ [e])))
    {fuel pos : ℕ} {s : σ} (hfuel : b.length - pos < fuel) (h : I past s) :
    Yields (walk b item fuel pos s) (I (past ++ elementsFrom b fuel pos)) := by
  induction fuel generalizing pos past s with
  | zero => exact absurd hfuel (Nat.not_lt_zero _)
  | succ fuel ih =>
    rw [walk, elementsFrom]
    by_cases htwo : pos + 2 ≤ b.length
    · rw [if_pos htwo]
      refine .bind (Q := (· = b.byteAt pos)) (.read (read8_eq (by omega)) rfl) ?_
      rintro _ rfl
      refine .bind (Q := (· = b.byteAt (pos + 1))) (.read (read8_eq (by omega)) rfl) ?_
      rintro _ rfl
      by_cases hwhole : pos + 2 + b.byteAt (pos + 1) ≤ b.length
      · rw [if_neg (by omega), if_pos ⟨htwo, hwhole⟩]
        refine .bind (hitem past _ s (Nat.le_add_left ..) hwhole h) fun s' hs' => ?_
        have hrest := ih _ (by omega : b.length - (pos + 2 + b.byteAt (pos + 1)) < fuel) hs'
        rw [List.append_assoc] at hrest
        exact hrest
      · rw [if_pos (by omega), if_neg fun h => hwhole h.2, List.append_nil]
        exact .ret h
    · rw [if_neg htwo, if_neg fun h => htwo h.1, List.append_nil]
      exact .ret h

end Wpa.Ie
