import Wpa.Lib.Bytes

/-! Append-only buffers of fixed capacity. A write that does not fit does not return: `none` stands
for the abort. -/

namespace Lib
open Bytes

structure Wpabuf where
  size : ℕ
  data : Bytes
  fits : data.length ≤ size

namespace Wpabuf

def tailroom (buf : Wpabuf) : ℕ := buf.size - buf.data.length

def put (buf : Wpabuf) (bs : Bytes) : Option Wpabuf :=
  if h : buf.data.length + bs.length ≤ buf.size then
    some ⟨buf.size, buf.data ++ bs, by rwa [List.length_append]⟩
  else none

def putU8 (buf : Wpabuf) (x : ℕ) : Option Wpabuf := buf.put [UInt8.ofNat x]

/-- Room for `n` more octets, with memory for it. -/
def resize (buf : Wpabuf) (n : ℕ) : Wpabuf :=
  if buf.data.length + n > buf.size then ⟨buf.data.length + n, buf.data, Nat.le_add_right _ _⟩
  else buf

/-- Overwrite octets of the data; `none` if some of them lie behind it. -/
def overwrite (buf : Wpabuf) (off : ℕ) (src : Bytes) : Option Wpabuf :=
  if off + src.length ≤ buf.data.length then
    some ⟨buf.size, buf.data.writeAt off src, by rw [writeAt_length]; exact buf.fits⟩
  else none

/-- The buffer `buf` with `bs` behind its data. -/
structure Extends (buf buf' : Wpabuf) (bs : Bytes) : Prop where
  data_eq : buf'.data = buf.data ++ bs
  tailroom_eq : buf.tailroom = buf'.tailroom + bs.length

theorem put_eq_none_iff {buf : Wpabuf} {bs : Bytes} :
    buf.put bs = none ↔ buf.tailroom < bs.length := by
  have := buf.fits
  unfold put tailroom
  split <;> simp <;> omega

theorem put_data {buf buf' : Wpabuf} {bs : Bytes} (h : buf.put bs = some buf') :
    buf'.data = buf.data ++ bs := by
  unfold put at h
  split at h
  · cases h
    rfl
  · cases h

theorem put_extends (buf : Wpabuf) (bs : Bytes) (h : bs.length ≤ buf.tailroom) :
    ∃ buf', buf.put bs = some buf' ∧ buf.Extends buf' bs := by
  have hfits := buf.fits
  unfold tailroom at h
  have hle : buf.data.length + bs.length ≤ buf.size := by omega
  refine ⟨_, dif_pos hle, rfl, ?_⟩
  simp only [tailroom, List.length_append]
  omega

@[simp] theorem resize_data (buf : Wpabuf) (n : ℕ) : (buf.resize n).data = buf.data := by
  unfold resize
  split <;> rfl

theorem le_tailroom_resize (buf : Wpabuf) (n : ℕ) : n ≤ (buf.resize n).tailroom := by
  unfold resize
  split
  · simp [tailroom]
  · unfold tailroom
    omega

theorem overwrite_eq (buf : Wpabuf) {off : ℕ} {src : Bytes} (h : off + src.length ≤ buf.data.length) :
    ∃ buf', buf.overwrite off src = some buf' ∧ buf'.size = buf.size ∧
      buf'.data = buf.data.writeAt off src :=
  ⟨_, if_pos h, rfl, rfl⟩

theorem overwrite_data {buf buf' : Wpabuf} {off : ℕ} {src : Bytes}
    (h : buf.overwrite off src = some buf') : buf'.data = buf.data.writeAt off src := by
  unfold overwrite at h
  split at h
  · cases h
    rfl
  · cases h

theorem extends_nil (buf : Wpabuf) : buf.Extends buf [] := ⟨by simp, by simp⟩

theorem Extends.trans {b₁ b₂ b₃ : Wpabuf} {x y : Bytes} (h₁ : b₁.Extends b₂ x)
    (h₂ : b₂.Extends b₃ y) : b₁.Extends b₃ (x ++ y) := by
  constructor
  · rw [h₂.data_eq, h₁.data_eq, List.append_assoc]
  · rw [h₁.tailroom_eq, h₂.tailroom_eq, List.length_append]
    omega

/-- Writes in a row succeed together exactly if there is room for all of them. -/
theorem put_bind_put {α : Type} (buf : Wpabuf) (x y : Bytes) (k : Wpabuf → Option α) :
    ((buf.put x).bind fun b => (b.put y).bind k) = (buf.put (x ++ y)).bind k := by
  rw [← Option.bind_assoc]
  congr 1
  by_cases hx : buf.data.length + x.length ≤ buf.size
  · simp only [put, hx, dite_true, Option.bind_some, List.length_append]
    by_cases hxy : buf.data.length + (x.length + y.length) ≤ buf.size
    · simp [← add_assoc] at hxy
      simp [hxy, ← add_assoc]
    · rw [dif_neg hxy, dif_neg (by omega)]
  · have hxy : ¬ buf.data.length + (x ++ y).length ≤ buf.size := by
      rw [List.length_append]
      omega
    rw [put, dif_neg hx, put, dif_neg hxy]
    rfl

end Wpabuf
end Lib
