import Wpa.Lib.Bytes

/-! Reads that fail outside the octet string, and little-endian numbers. A parser written with these
returns `none` exactly if it reads an octet that is not there. -/

namespace Lib
namespace Bytes
variable {b : Bytes} {i : ℕ}

def read8 (b : Bytes) (i : ℕ) : Option ℕ := b[i]?.map UInt8.toNat

def readLe16 (b : Bytes) (i : ℕ) : Option ℕ := do
  let lo ← b.read8 i
  let hi ← b.read8 (i + 1)
  return hi * 256 + lo

def readBe24 (b : Bytes) (i : ℕ) : Option ℕ := do
  let x ← b.read8 i
  let y ← b.read8 (i + 1)
  let z ← b.read8 (i + 2)
  return (x * 256 + y) * 256 + z

def readBe32 (b : Bytes) (i : ℕ) : Option ℕ := do
  let x ← b.read8 i
  let y ← b.read8 (i + 1)
  let z ← b.read8 (i + 2)
  let w ← b.read8 (i + 3)
  return (x * 256 + y) * 65536 + (z * 256 + w)

/-- `len` octets from `off` on. -/
def readSlice (b : Bytes) (off len : ℕ) : Option Bytes :=
  if off + len ≤ b.length then some (b.slice off len) else none

theorem readSlice_eq {off len : ℕ} (h : off + len ≤ b.length) :
    b.readSlice off len = some (b.slice off len) :=
  if_pos h

theorem readSlice_eq_none {off len : ℕ} (h : b.length < off + len) : b.readSlice off len = none :=
  if_neg (by omega)

theorem read8_eq (h : i < b.length) : b.read8 i = some (b.byteAt i) := by
  simp [read8, byteAt, List.getElem?_eq_getElem h]

theorem read8_eq_none (h : b.length ≤ i) : b.read8 i = none := by
  simp [read8, List.getElem?_eq_none h]

theorem readLe16_eq (h : i + 2 ≤ b.length) : b.readLe16 i = some (b.le16 i) := by
  have h₀ : i < b.length := by omega
  have h₁ : i + 1 < b.length := by omega
  simp [readLe16, read8_eq h₀, read8_eq h₁, le16]

theorem readBe24_eq (h : i + 3 ≤ b.length) : b.readBe24 i = some (b.be24 i) := by
  have h₀ : i < b.length := by omega
  have h₁ : i + 1 < b.length := by omega
  have h₂ : i + 2 < b.length := by omega
  simp [readBe24, read8_eq h₀, read8_eq h₁, read8_eq h₂, be24, be16]

theorem readBe32_eq (h : i + 4 ≤ b.length) : b.readBe32 i = some (b.be32 i) := by
  have h₀ : i < b.length := by omega
  have h₁ : i + 1 < b.length := by omega
  have h₂ : i + 2 < b.length := by omega
  have h₃ : i + 3 < b.length := by omega
  simp [readBe32, read8_eq h₀, read8_eq h₁, read8_eq h₂, read8_eq h₃, be32, be16]

theorem readBe32_eq_none (h : b.length < i + 4) : b.readBe32 i = none := by
  have hlast : b.read8 (i + 3) = none := read8_eq_none (by omega)
  unfold readBe32
  rw [hlast]
  cases b.read8 i <;> cases b.read8 (i + 1) <;> cases b.read8 (i + 2) <;> rfl

/-- The little-endian spelling of `n` in two octets. -/
def ofLe16 (n : ℕ) : Bytes := [UInt8.ofNat n, UInt8.ofNat (n / 256)]

@[simp] theorem ofLe16_length (n : ℕ) : (ofLe16 n).length = 2 := rfl

theorem le16_ofLe16 {n : ℕ} (h : n < 65536) (rest : Bytes) : le16 (ofLe16 n ++ rest) 0 = n := by
  simp only [ofLe16, le16, byteAt, List.cons_append, List.nil_append, List.getD_cons_zero,
    List.getD_cons_succ, UInt8.toNat_ofNat']
  omega

def le32 (b : Bytes) (i : ℕ) : ℕ := b.le16 (i + 2) * 65536 + b.le16 i

/-- The little-endian spelling of `n` in four octets. -/
def ofLe32 (n : ℕ) : Bytes := ofLe16 n ++ ofLe16 (n / 65536)

@[simp] theorem ofLe32_length (n : ℕ) : (ofLe32 n).length = 4 := rfl

theorem le32_ofLe32 {n : ℕ} (h : n < 2 ^ 32) (rest : Bytes) : le32 (ofLe32 n ++ rest) 0 = n := by
  simp only [ofLe32, ofLe16, le32, le16, byteAt, List.cons_append, List.nil_append,
    List.getD_cons_zero, List.getD_cons_succ, UInt8.toNat_ofNat']
  omega

/-- Numbers that agree in sixteen bits are spelled the same. -/
theorem le16_ofLe16_mod (n : ℕ) (rest : Bytes) : le16 (ofLe16 n ++ rest) 0 = n % 65536 := by
  simp only [ofLe16, le16, byteAt, List.cons_append, List.nil_append, List.getD_cons_zero,
    List.getD_cons_succ, UInt8.toNat_ofNat']
  omega

theorem le16_lt (b : Bytes) (i : ℕ) : b.le16 i < 65536 := by
  have h₀ := b.byteAt_lt i
  have h₁ := b.byteAt_lt (i + 1)
  unfold le16
  omega

theorem byteAt_drop (b : Bytes) (n i : ℕ) : byteAt (b.drop n) i = b.byteAt (n + i) := by
  simp [byteAt, List.getElem?_drop]

theorem le16_drop (b : Bytes) (n i : ℕ) : le16 (b.drop n) i = b.le16 (n + i) := by
  rw [le16, le16, byteAt_drop, byteAt_drop, Nat.add_assoc]

theorem be32_drop (b : Bytes) (n i : ℕ) : be32 (b.drop n) i = b.be32 (n + i) := by
  simp only [be32, be16, byteAt_drop, Nat.add_assoc]

/-- An octet string of two octets or more starts with its little-endian number. -/
theorem ofLe16_le16 (h : 2 ≤ b.length) : ofLe16 (b.le16 0) ++ b.drop 2 = b := by
  obtain _ | ⟨x, _ | ⟨y, rest⟩⟩ := b
  · simp at h
  · simp at h
  · have hx := x.toNat_lt
    have hy := y.toNat_lt
    have hlo : UInt8.ofNat (le16 (x :: y :: rest) 0) = x := by
      apply UInt8.toNat_inj.mp
      simp only [le16, byteAt, List.getD_cons_zero, List.getD_cons_succ, UInt8.toNat_ofNat']
      omega
    have hhi : UInt8.ofNat (le16 (x :: y :: rest) 0 / 256) = y := by
      apply UInt8.toNat_inj.mp
      simp only [le16, byteAt, List.getD_cons_zero, List.getD_cons_succ, UInt8.toNat_ofNat']
      omega
    rw [ofLe16, hlo, hhi]
    rfl

theorem ofBeNat_beNat (b : Bytes) : ofBeNat b.beNat b.length = b :=
  beNat_injective (by simp) (beNat_ofBeNat b.beNat_lt)

theorem be32_eq_beNat (h : 4 ≤ b.length) : b.be32 0 = beNat (b.take 4) := by
  obtain _ | ⟨x, _ | ⟨y, _ | ⟨z, _ | ⟨w, rest⟩⟩⟩⟩ := b
  · simp at h
  · simp at h
  · simp at h
  · simp at h
  · simp only [be32, be16, byteAt, List.getD_cons_zero, List.getD_cons_succ, beNat, List.take_succ_cons,
      List.take_zero, List.length_cons, List.length_nil, Nat.zero_add]
    omega

/-- An octet string of four octets or more starts with its big-endian number. -/
theorem ofBeNat_be32 (h : 4 ≤ b.length) : ofBeNat (b.be32 0) 4 ++ b.drop 4 = b := by
  have hlen : (b.take 4).length = 4 := by simp [h]
  have hspell := ofBeNat_beNat (b.take 4)
  rw [hlen] at hspell
  rw [be32_eq_beNat h, hspell, List.take_append_drop]

theorem be32_ofBeNat {n : ℕ} (h : n < 2 ^ 32) (rest : Bytes) : be32 (ofBeNat n 4 ++ rest) 0 = n := by
  have hlen : 4 ≤ (ofBeNat n 4 ++ rest).length := by simp
  have htake : (ofBeNat n 4 ++ rest).take 4 = ofBeNat n 4 :=
    List.take_left' (ofBeNat_length n 4)
  rw [be32_eq_beNat hlen, htake]
  exact beNat_ofBeNat h

theorem be32_lt (b : Bytes) (i : ℕ) : b.be32 i < 2 ^ 32 := by
  have h₀ := b.be16_lt i
  have h₁ := b.be16_lt (i + 2)
  unfold be32
  omega

end Bytes
end Lib
