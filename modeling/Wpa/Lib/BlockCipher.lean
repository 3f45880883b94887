import Wpa.Lib.Chaining

/-! Block ciphers and their chaining mode, and runs whose steps are undone in the opposite order. -/

namespace Lib
open Bytes

/-- A permutation of the blocks of `k` octets, and its inverse. -/
structure BlockCipher (k : ℕ) where
  encrypt : Bytes → Bytes
  decrypt : Bytes → Bytes
  length_encrypt : ∀ b, (encrypt b).length = k
  length_decrypt : ∀ b, (decrypt b).length = k
  decrypt_encrypt : ∀ b, b.length = k → decrypt (encrypt b) = b
  encrypt_decrypt : ∀ b, b.length = k → encrypt (decrypt b) = b

/-- A function on octet strings whose values are blocks of `k` octets. -/
structure BlockFunction (k : ℕ) where
  run : Bytes → Bytes
  length_run : ∀ b, (run b).length = k

/-- The function with one value only. -/
def BlockFunction.const (b : Bytes) : BlockFunction b.length := ⟨fun _ => b, fun _ => rfl⟩

namespace BlockCipher

def fitted (k : ℕ) (b : Bytes) : Bytes := (b ++ zeros k).take k

theorem length_fitted (k : ℕ) (b : Bytes) : (fitted k b).length = k := by
  rw [fitted, List.length_take, List.length_append, zeros_length]
  omega

theorem fitted_eq {k : ℕ} {b : Bytes} (h : b.length = k) : fitted k b = b := List.take_left' h

/-- The permutation that changes no block. -/
def identity (k : ℕ) : BlockCipher k where
  encrypt := fitted k
  decrypt := fitted k
  length_encrypt := length_fitted k
  length_decrypt := length_fitted k
  decrypt_encrypt := fun b h => by rw [fitted_eq h, fitted_eq h]
  encrypt_decrypt := fun b h => by rw [fitted_eq h, fitted_eq h]

/-- `n` blocks, each with the block of the cipher in front of it added before it is encrypted; the
last block is what the next run starts with. -/
def cbcEncrypt {k : ℕ} (b : BlockCipher k) : ℕ → Bytes → Bytes → Bytes × Bytes
  | 0, cbc, _ => ([], cbc)
  | n + 1, cbc, plain =>
    let c := b.encrypt (xor cbc (plain.take k))
    let rest := b.cbcEncrypt n c (plain.drop k)
    (c ++ rest.1, rest.2)

def cbcDecrypt {k : ℕ} (b : BlockCipher k) : ℕ → Bytes → Bytes → Bytes × Bytes
  | 0, cbc, _ => ([], cbc)
  | n + 1, cbc, crypt =>
    let p := xor (b.decrypt (crypt.take k)) cbc
    let rest := b.cbcDecrypt n (crypt.take k) (crypt.drop k)
    (p ++ rest.1, rest.2)

section Cbc
variable {k n : ℕ} {b : BlockCipher k} {cbc plain crypt : Bytes}

theorem length_cbcEncrypt : (b.cbcEncrypt n cbc plain).1.length = k * n := by
  induction n generalizing cbc plain with
  | zero => rfl
  | succ n ih => rw [cbcEncrypt, List.length_append, b.length_encrypt, ih, Nat.mul_succ, Nat.add_comm]

theorem length_cbcEncrypt_snd (h : cbc.length = k) : (b.cbcEncrypt n cbc plain).2.length = k := by
  induction n generalizing cbc plain with
  | zero => exact h
  | succ n ih => exact ih (b.length_encrypt _)

/-- The two ends keep the same last block. -/
theorem cbcDecrypt_cbcEncrypt (hcbc : cbc.length = k) (h : plain.length = k * n) :
    b.cbcDecrypt n cbc (b.cbcEncrypt n cbc plain).1 = (plain, (b.cbcEncrypt n cbc plain).2) := by
  induction n generalizing cbc plain with
  | zero => rw [List.length_eq_zero_iff.mp h]; rfl
  | succ n ih =>
    have hblock : cbc.length = (plain.take k).length := by rw [hcbc, length_take_block h]
    have hxor : (xor cbc (plain.take k)).length = k := by rw [length_xor hblock, length_take_block h]
    rw [cbcEncrypt, cbcDecrypt, List.take_left' (b.length_encrypt _),
      List.drop_left' (b.length_encrypt _), b.decrypt_encrypt _ hxor, xor_comm cbc,
      xor_xor_cancel hblock.symm, ih (b.length_encrypt _) (length_drop_block h),
      List.take_append_drop]

/-- The same for a text of whole blocks, and the lengths. -/
theorem cbcDecrypt_whole (hcbc : cbc.length = k) (h : plain.length % k = 0) :
    let r := b.cbcEncrypt (plain.length / k) cbc plain
    r.1.length = plain.length ∧ r.2.length = k ∧
      b.cbcDecrypt (r.1.length / k) cbc r.1 = (plain, r.2) := by
  have hblocks : plain.length = k * (plain.length / k) :=
    (Nat.mul_div_cancel' (Nat.dvd_of_mod_eq_zero h)).symm
  have hlen : (b.cbcEncrypt (plain.length / k) cbc plain).1.length = plain.length :=
    length_cbcEncrypt.trans hblocks.symm
  refine ⟨hlen, length_cbcEncrypt_snd hcbc, ?_⟩
  rw [hlen]
  exact cbcDecrypt_cbcEncrypt hcbc hblocks

end Cbc
end BlockCipher

section Undo
variable {σ ι : Type*} {f g : σ → ι → σ} {P : σ → Prop} {l : List ι} {s : σ}

theorem foldl_keeps (hkeep : ∀ s, P s → ∀ i ∈ l, P (f s i)) (h : P s) : P (l.foldl f s) := by
  induction l generalizing s with
  | nil => exact h
  | cons i l ih =>
    exact ih (fun s hs i hi => hkeep s hs i (List.mem_cons_of_mem _ hi))
      (hkeep s h i List.mem_cons_self)

/-- Steps that are undone one by one are undone by the run back. -/
theorem foldl_undo (hkeep : ∀ s, P s → ∀ i ∈ l, P (f s i))
    (hundo : ∀ s, P s → ∀ i ∈ l, g (f s i) i = s) (h : P s) :
    l.reverse.foldl g (l.foldl f s) = s := by
  induction l generalizing s with
  | nil => rfl
  | cons i l ih =>
    have hrest := ih (fun s hs i hi => hkeep s hs i (List.mem_cons_of_mem _ hi))
      (fun s hs i hi => hundo s hs i (List.mem_cons_of_mem _ hi)) (hkeep s h i List.mem_cons_self)
    rw [List.reverse_cons, List.foldl_append]
    show g (l.reverse.foldl g (l.foldl f (f s i))) i = s
    rw [hrest]
    exact hundo s h i List.mem_cons_self

/-- The run back comes first. -/
theorem foldl_undo_reverse (hkeep : ∀ s, P s → ∀ i ∈ l, P (g s i))
    (hundo : ∀ s, P s → ∀ i ∈ l, f (g s i) i = s) (h : P s) :
    l.foldl f (l.reverse.foldl g s) = s := by
  have hrun := foldl_undo 
    (fun s hs i hi => hkeep s hs i (List.mem_reverse.mp hi))
    (fun s hs i hi => hundo s hs i (List.mem_reverse.mp hi)) h
  rwa [List.reverse_reverse] at hrun

end Undo
end Lib
