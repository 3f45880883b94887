import Mathlib.NumberTheory.LegendreSymbol.GaussEisensteinLemmas
import Mathlib.Data.Nat.Size
import Wpa.Common.ConstTime

/-! `common/dragonfly.c` for the elliptic curves: the blinded test for a quadratic residue, the random
residue and non-residue it needs, and the square root modulo a prime that is 3 modulo 4. Numbers of
the library are natural numbers; that a call fails is an answer of the environment. -/

namespace Wpa.Sae
open Lib Bytes

/-- A curve y² = x³ + ax + b for which `dragonfly_sqrt` is made. -/
structure Curve where
  p : ℕ
  a : ℕ
  b : ℕ
  prime : p.Prime
  three_mod_four : p % 4 = 3

namespace Curve

instance (c : Curve) : Fact c.p.Prime := ⟨c.prime⟩

/-- `crypto_ec_prime_len_bits`. -/
def primeLenBits (c : Curve) : ℕ := c.p.size

def primeLen (c : Curve) : ℕ := (c.primeLenBits + 7) / 8

/-- `crypto_ec_point_compute_y_sqr`. -/
def computeYSqr (c : Curve) (x : ℕ) : ℕ := (x ^ 3 + c.a * x + c.b) % c.p

end Curve

/-- `crypto_bignum_legendre`. -/
def legendre (a p : ℕ) : ℤ :=
  let t := a ^ ((p - 1) / 2) % p
  if t = 1 then 1 else if t = 0 then 0 else -1

/-- A number from 1 to p - 1, from what `crypto_bignum_rand` draws. -/
def getRand1ToP1 (p : ℕ) (draw : Option ℕ) : Option ℕ := draw.map fun d => d % (p - 1) + 1

/-- The draws of `dragonfly_get_random_qr_qnr`, until there is one of each kind. -/
def getRandomQrQnr (p : ℕ) : List (Option ℕ) → Option ℕ → Option ℕ → Option (ℕ × ℕ)
  | _, some qr, some qnr => some (qr, qnr)
  | some draw :: draws, qr, qnr =>
    let tmp := draw % p
    if legendre tmp p = 1 ∧ qr = none then getRandomQrQnr p draws (some tmp) qnr
    else if legendre tmp p = -1 ∧ qnr = none then getRandomQrQnr p draws qr (some tmp)
    else getRandomQrQnr p draws qr qnr
  | _, _, _ => none

structure BlindAnswer where
  rand : Option ℕ
  num : Bool := true
  qrOrQnr : Bool := true
  legendre : Bool := true

/-- No call in the test fails. -/
def BlindAnswer.ok (ans : BlindAnswer) : Bool :=
  ans.rand.isSome && ans.num && ans.qrOrQnr && ans.legendre

def isQuadraticResidueBlind (p : ℕ) (ans : BlindAnswer) (qr qnr : Bytes) (val : ℕ) : ℤ :=
  match getRand1ToP1 p ans.rand with
  | none => -1
  | some r =>
    if !ans.num then -1
    else
      let num := val * r % p * r % p
      let mask := constTimeIsZero (BitVec.ofNat 32 (r % 2))
      let qrOrQnr := constTimeSelectBin ⟨mask.setWidth 8⟩ qnr qr
      if !ans.qrOrQnr then -1
      else
        let num := num * qrOrQnr.beNat % p
        let check := constTimeSelectInt mask (-1) 1
        if !ans.legendre then -1
        else
          let mask := constTimeEq (BitVec.ofInt 32 (legendre num p)) (BitVec.ofInt 32 check)
          constTimeSelectInt mask 1 0

def dragonflySqrt (p val : ℕ) : Option ℕ :=
  if p % 4 ≠ 3 then none else some (val ^ ((p + 1) / 4) % p)

section Legendre
variable (c : Curve)

theorem Curve.two_lt : 2 < c.p := by
  have := c.three_mod_four
  omega

theorem Curve.half_eq : (c.p - 1) / 2 = c.p / 2 := by
  have := c.three_mod_four
  omega

theorem Curve.one_ne_neg_one : (1 : ZMod c.p) ≠ -1 := by
  intro h
  have htwo : ((2 : ℕ) : ZMod c.p) = 0 := by
    rw [Nat.cast_ofNat, ← one_add_one_eq_two]
    nth_rewrite 1 [h]
    exact neg_add_cancel 1
  have hdvd := (ZMod.natCast_eq_zero_iff 2 c.p).mp htwo
  exact absurd (Nat.le_of_dvd (by decide) hdvd) (not_le.mpr c.two_lt)

/-- A number below p is determined by what it is modulo p. -/
theorem Curve.eq_of_cast {m n : ℕ} (hm : m < c.p) (hn : n < c.p) (h : (m : ZMod c.p) = n) :
    m = n := by
  have hmod := (ZMod.natCast_eq_natCast_iff' m n c.p).mp h
  rwa [Nat.mod_eq_of_lt hm, Nat.mod_eq_of_lt hn] at hmod

theorem legendre_eq (n : ℕ) : legendre n c.p = legendreSym c.p n := by
  have hpow : ((n ^ ((c.p - 1) / 2) % c.p : ℕ) : ZMod c.p) = (legendreSym c.p n : ZMod c.p) := by
    rw [ZMod.natCast_mod, Nat.cast_pow, legendreSym.eq_pow, c.half_eq]
    norm_cast
  have hlt : n ^ ((c.p - 1) / 2) % c.p < c.p := Nat.mod_lt _ c.prime.pos
  have hone : 1 < c.p := c.prime.one_lt
  unfold legendre
  simp only
  generalize n ^ ((c.p - 1) / 2) % c.p = t at hpow hlt
  by_cases hzero : ((n : ℤ) : ZMod c.p) = 0
  · rw [(legendreSym.eq_zero_iff c.p n).mpr hzero] at hpow ⊢
    have ht : t = 0 := c.eq_of_cast hlt c.prime.pos (by simpa using hpow)
    rw [ht]
    rfl
  · rcases legendreSym.eq_one_or_neg_one c.p hzero with hsym | hsym
    · rw [hsym] at hpow ⊢
      have ht : t = 1 := c.eq_of_cast hlt hone (by simpa using hpow)
      rw [ht]
      rfl
    · rw [hsym] at hpow ⊢
      have hneg : (t : ZMod c.p) = -1 := by simpa using hpow
      have hnotOne : t ≠ 1 := by
        rintro rfl
        rw [Nat.cast_one] at hneg
        exact c.one_ne_neg_one hneg
      have hnotZero : t ≠ 0 := by
        rintro rfl
        rw [Nat.cast_zero, eq_comm, neg_eq_zero] at hneg
        exact one_ne_zero hneg
      rw [if_neg hnotOne, if_neg hnotZero]

theorem legendre_mod (n : ℕ) : legendre (n % c.p) c.p = legendre n c.p := by
  rw [legendre_eq, legendre_eq, Int.natCast_mod, ← legendreSym.mod]

theorem legendre_mul (m n : ℕ) :
    legendre (m * n) c.p = legendre m c.p * legendre n c.p := by
  rw [legendre_eq, legendre_eq, legendre_eq, Nat.cast_mul, legendreSym.mul]

theorem legendre_range (n p : ℕ) : legendre n p = 1 ∨ legendre n p = 0 ∨ legendre n p = -1 := by
  unfold legendre
  simp only
  split_ifs
  · exact Or.inl rfl
  · exact Or.inr (Or.inl rfl)
  · exact Or.inr (Or.inr rfl)

/-- The square of the blinding number does not change the symbol. -/
theorem legendre_rand {draw : Option ℕ} {r : ℕ} (h : getRand1ToP1 c.p draw = some r) :
    legendre r c.p * legendre r c.p = 1 := by
  obtain ⟨d, -, rfl⟩ := Option.map_eq_some_iff.mp h
  have hmod : d % (c.p - 1) < c.p - 1 := Nat.mod_lt _ (by have := c.two_lt; omega)
  have hne : (((d % (c.p - 1) + 1 : ℕ) : ℤ) : ZMod c.p) ≠ 0 := by
    rw [Int.cast_natCast]
    intro hzero
    have hdvd := (ZMod.natCast_eq_zero_iff _ _).mp hzero
    exact absurd (Nat.le_of_dvd (Nat.succ_pos _) hdvd) (by omega)
  rw [legendre_eq, ← sq]
  exact legendreSym.sq_one c.p hne

/-- A non-zero square, in terms of the symbol. -/
theorem legendre_eq_one_iff (n : ℕ) :
    legendre n c.p = 1 ↔ (n : ZMod c.p) ≠ 0 ∧ IsSquare (n : ZMod c.p) := by
  rw [legendre_eq]
  constructor
  · intro h
    have hne : (n : ZMod c.p) ≠ 0 := by
      intro hzero
      have hsym := (legendreSym.eq_zero_iff c.p n).mpr (by rw [Int.cast_natCast]; exact hzero)
      rw [h] at hsym
      exact one_ne_zero hsym
    exact ⟨hne, (legendreSym.eq_one_iff' c.p hne).mp h⟩
  · rintro ⟨hne, hsquare⟩
    exact (legendreSym.eq_one_iff' c.p hne).mpr hsquare

end Legendre

section Blind
variable {c : Curve}

theorem getRandomQrQnr_spec {draws : List (Option ℕ)} {qr qnr : Option ℕ} {r : ℕ × ℕ}
    (hqr : ∀ n, qr = some n → n < c.p ∧ legendre n c.p = 1)
    (hqnr : ∀ n, qnr = some n → n < c.p ∧ legendre n c.p = -1)
    (h : getRandomQrQnr c.p draws qr qnr = some r) :
    (r.1 < c.p ∧ legendre r.1 c.p = 1) ∧ r.2 < c.p ∧ legendre r.2 c.p = -1 := by
  induction draws generalizing qr qnr with
  | nil =>
    cases qr with
    | none => cases h
    | some qr =>
      cases qnr with
      | none => cases h
      | some qnr =>
        cases h
        exact ⟨hqr _ rfl, hqnr _ rfl⟩
  | cons draw draws ih =>
    unfold getRandomQrQnr at h
    split at h
    · cases h
      exact ⟨hqr _ rfl, hqnr _ rfl⟩
    · rename_i draw' draws' hdraws _
      obtain ⟨rfl, rfl⟩ := List.cons.inj hdraws
      have hlt : draw' % c.p < c.p := Nat.mod_lt _ c.prime.pos
      simp only at h
      split at h
      · rename_i hresidue
        refine ih ?_ hqnr h
        rintro n ⟨⟩
        exact ⟨hlt, hresidue.1⟩
      · split at h
        · rename_i hnonresidue
          refine ih hqr ?_ h
          rintro n ⟨⟩
          exact ⟨hlt, hnonresidue.1⟩
        · exact ih hqr hqnr h
    · cases h

/-- The symbol of the value that the test computes. -/
theorem legendre_blinded {draw : Option ℕ} {r : ℕ} (hr : getRand1ToP1 c.p draw = some r)
    (val q : ℕ) : legendre (val * r % c.p * r % c.p * q % c.p) c.p =
      legendre val c.p * legendre q c.p := by
  rw [legendre_mod, legendre_mul, legendre_mod, legendre_mul, legendre_mod, legendre_mul,
    mul_assoc (legendre val c.p), legendre_rand c hr, mul_one]

theorem constTimeEq_legendre {res check : ℤ} (hres : res = 1 ∨ res = 0 ∨ res = -1)
    (hcheck : check = 1 ∨ check = -1) :
    constTimeEq (BitVec.ofInt 32 res) (BitVec.ofInt 32 check) = maskOf (decide (res = check)) := by
  rw [constTimeEq_eq]
  congr 1
  rcases hres with rfl | rfl | rfl <;> rcases hcheck with rfl | rfl <;> rfl

theorem isQuadraticResidueBlind_eq {ans : BlindAnswer} {qr qnr : Bytes}
    (hlen : qr.length = qnr.length) (hqr : legendre qr.beNat c.p = 1)
    (hqnr : legendre qnr.beNat c.p = -1) (val : ℕ) :
    isQuadraticResidueBlind c.p ans qr qnr val =
      if ans.ok then (if legendre val c.p = 1 then 1 else 0) else -1 := by
  unfold isQuadraticResidueBlind BlindAnswer.ok
  cases hr : getRand1ToP1 c.p ans.rand with
  | none =>
    have hrand : ans.rand = none := Option.map_eq_none_iff.mp hr
    simp [hrand]
  | some r =>
    have hrand : ans.rand.isSome = true := by
      obtain ⟨d, hd, -⟩ := Option.map_eq_some_iff.mp hr
      rw [hd]
      rfl
    -- the mask says whether the blinding number is even
    have hmask : constTimeIsZero (BitVec.ofNat 32 (r % 2)) = maskOf (decide (r % 2 = 0)) := by
      rw [constTimeIsZero_eq]
      rcases Nat.mod_two_eq_zero_or_one r with heven | hodd
      · rw [heven]
        rfl
      · rw [hodd]
        rfl
    simp only [hrand, hmask, setWidth_maskOf, constTimeSelectBin_byteMask hlen.symm,
      constTimeSelectInt_maskOf isInt_neg_one isInt_one,
      Bool.true_and]
    cases ans.num with
    | false => rfl
    | true =>
      cases ans.qrOrQnr with
      | false => rfl
      | true =>
        cases ans.legendre with
        | false => rfl
        | true =>
          simp only [Bool.not_true, Bool.false_eq_true, if_false, Bool.and_true, if_true]
          rw [legendre_blinded hr, constTimeEq_legendre ?_ ?_,
            constTimeSelectInt_maskOf isInt_one isInt_zero]
          · rcases Nat.mod_two_eq_zero_or_one r with heven | hodd
            · simp only [heven, decide_true, if_true, hqnr, mul_neg_one, neg_inj, decide_eq_true_eq]
            · simp only [hodd, one_ne_zero, decide_false, Bool.false_eq_true, if_false, hqr, mul_one,
                decide_eq_true_eq]
          · rw [← legendre_mul]
            exact legendre_range _ _
          · by_cases heven : r % 2 = 0
            · exact Or.inr (if_pos (decide_eq_true heven))
            · exact Or.inl (if_neg (by rw [decide_eq_true_eq]; exact heven))

end Blind

section Sqrt
variable {c : Curve}

/-- The root that the code computes is one. -/
theorem dragonflySqrt_sq {w y : ℕ} (hw : legendre w c.p = 1) (h : dragonflySqrt c.p w = some y) :
    y < c.p ∧ y ≠ 0 ∧ (y : ZMod c.p) ^ 2 = w := by
  unfold dragonflySqrt at h
  rw [if_neg (not_not.mpr c.three_mod_four)] at h
  obtain rfl := Option.some.inj h
  have hw' := hw
  rw [legendre_eq] at hw
  have heuler : (w : ZMod c.p) ^ (c.p / 2) = 1 := by
    have hpow := legendreSym.eq_pow c.p w
    rw [hw, Int.cast_one, Int.cast_natCast] at hpow
    exact hpow.symm
  have hexponent : (c.p + 1) / 4 * 2 = c.p / 2 + 1 := by
    have := c.three_mod_four
    omega
  have hsq : ((w ^ ((c.p + 1) / 4) % c.p : ℕ) : ZMod c.p) ^ 2 = w := by
    rw [ZMod.natCast_mod, Nat.cast_pow, ← pow_mul, hexponent, pow_succ, heuler, one_mul]
  refine ⟨Nat.mod_lt _ c.prime.pos, ?_, hsq⟩
  intro hzero
  rw [hzero, Nat.cast_zero, zero_pow two_ne_zero] at hsq
  exact ((legendre_eq_one_iff c w).mp hw').1 hsq.symm

end Sqrt

end Wpa.Sae
