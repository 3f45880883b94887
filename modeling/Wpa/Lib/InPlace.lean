import Wpa.Lib.Reads

/-! Edits of a buffer in place: stores and moves of octets within it, as `memcpy` and `memmove` do
them. One that reaches beyond the buffer gives nothing. -/

namespace Lib
namespace Bytes
variable {a b c : Bytes} {off : ℕ}

/-- `memcpy` of `src` to `off`. -/
def store (b : Bytes) (off : ℕ) (src : Bytes) : Option Bytes :=
  if off + src.length ≤ b.length then some (b.writeAt off src) else none

/-- `memmove` of the octets from `src` up to `stop` to `dst`. -/
def move (b : Bytes) (dst src stop : ℕ) : Option Bytes :=
  if src ≤ stop ∧ stop ≤ b.length then b.store dst (b.slice src (stop - src)) else none

theorem read8_append_right (a b : Bytes) (i : ℕ) : (a ++ b).read8 (a.length + i) = b.read8 i := by
  rw [read8, List.getElem?_append_right (Nat.le_add_right _ _), Nat.add_sub_cancel_left]
  rfl

theorem readLe16_append_right (a b : Bytes) (i : ℕ) :
    (a ++ b).readLe16 (a.length + i) = b.readLe16 i := by
  unfold readLe16
  rw [read8_append_right, Nat.add_assoc, read8_append_right]

/-- A store to the front of what stands behind `a`. -/
theorem store_front {z src : Bytes} (hb : b = a ++ z) (hoff : a.length = off)
    (hlen : src.length ≤ z.length) : b.store off src = some (a ++ (src ++ z.drop src.length)) := by
  subst hb hoff
  have hfits : a.length + src.length ≤ (a ++ z).length := by
    rw [List.length_append]
    omega
  rw [store, if_pos hfits, writeAt_fill a src hlen, List.append_assoc]

/-- A store over a part of its own length. -/
theorem store_part {old src : Bytes} (hb : b = a ++ (old ++ c)) (hoff : a.length = off)
    (hlen : old.length = src.length) : b.store off src = some (a ++ (src ++ c)) := by
  have hfits : src.length ≤ (old ++ c).length := by
    rw [List.length_append]
    omega
  rw [store_front hb hoff hfits, List.drop_left' hlen]

theorem slice_part {t : Bytes} {n : ℕ} (hb : b = a ++ (t ++ c)) (hoff : a.length = off)
    (hn : t.length = n) : b.slice off n = t := by
  subst hb hoff hn
  rw [slice, List.drop_left, List.take_left]

/-- A move of a part towards the end opens a gap in front of it. -/
theorem move_up {t room : Bytes} {k stop : ℕ} (hb : b = a ++ (t ++ room)) (hoff : a.length = off)
    (hstop : off + t.length = stop) (hk : k ≤ room.length) :
    ∃ gap : Bytes, gap.length = k ∧
      b.move (off + k) off stop = some (a ++ (gap ++ (t ++ room.drop k))) := by
  have hgap : ((t ++ room).take k).length = k := by
    rw [List.length_take, List.length_append]
    omega
  have hend : stop ≤ b.length := by
    rw [hb, List.length_append, List.length_append]
    omega
  have hsplit : b = (a ++ (t ++ room).take k) ++ (t ++ room).drop k := by
    rw [hb, List.append_assoc, List.take_append_drop]
  have hdrop : ((t ++ room).drop k).drop t.length = room.drop k := by
    rw [List.drop_drop, Nat.add_comm, List.drop_length_add_append]
  refine ⟨(t ++ room).take k, hgap, ?_⟩
  rw [move, if_pos ⟨by omega, hend⟩, slice_part hb hoff (by omega), store_front hsplit, hdrop,
    List.append_assoc]
  · rw [List.length_append, hoff, hgap]
  · rw [List.length_drop, List.length_append]
    omega

/-- A move of a part towards the start closes the gap in front of it. -/
theorem move_down {gap t room : Bytes} {src stop : ℕ} (hb : b = a ++ (gap ++ (t ++ room)))
    (hoff : a.length = off) (hsrc : off + gap.length = src) (hstop : src + t.length = stop) :
    ∃ room' : Bytes, room'.length = gap.length + room.length ∧
      b.move off src stop = some (a ++ (t ++ room')) := by
  have hend : stop ≤ b.length := by
    rw [hb]
    simp only [List.length_append]
    omega
  have hslice : b.slice src (stop - src) = t := by
    apply slice_part (a := a ++ gap) (c := room)
    · rw [hb, List.append_assoc]
    · rw [List.length_append]
      omega
    · omega
  refine ⟨(gap ++ (t ++ room)).drop t.length, ?_, ?_⟩
  · simp only [List.length_drop, List.length_append]
    omega
  · rw [move, if_pos ⟨by omega, hend⟩, hslice, store_front hb hoff]
    simp only [List.length_append]
    omega

end Bytes
end Lib
