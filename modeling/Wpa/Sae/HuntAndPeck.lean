import Wpa.Sae.Dragonfly

/-! `sae_derive_pwe_ecc`: the password element by hunting and pecking. The loop goes on with a random
password after the hit, and every choice is one of masks. HMAC-SHA256 and the KDF are functions of
their inputs; that a call fails is an answer of the environment. -/

namespace Wpa.Sae
open Lib Bytes

/-- `buf_shift_right`. -/
def bufShiftRight (buf : Bytes) (bits : ℕ) : Bytes :=
  List.zipWith (fun before x => before <<< UInt8.ofNat (8 - bits) ||| x >>> UInt8.ofNat bits)
    (0 :: buf) buf

/-- What the password element is derived from. -/
structure PweInput where
  curve : Curve
  addr1 : Bytes
  addr2 : Bytes
  password : Bytes
  /-- `hmac_sha256_vector` with the key and the data. -/
  hmac : Bytes → Bytes → Bytes
  /-- `sha256_prf_bits` with the label "SAE Hunting and Pecking" and the prime. -/
  prf : Bytes → Bytes
  prf_length : ∀ seed, (prf seed).length = curve.primeLen

structure TestAnswer where
  prf : Bool := true
  xCand : Bool := true
  ySqr : Bool := true
  blind : BlindAnswer

def TestAnswer.ok (ans : TestAnswer) : Bool := ans.prf && ans.xCand && ans.ySqr && ans.blind.ok

/-- The random octets and numbers, and which calls succeed. -/
structure PweAnswer where
  /-- The allocations, the random stub password and the prime in binary. -/
  setUp : Bool := true
  stub : ℕ → UInt8
  draws : List (Option ℕ)
  residues : Bool := true
  hmac : UInt8 → Bool := fun _ => true
  test : UInt8 → TestAnswer
  x : Bool := true
  ySqr : Bool := true
  sqrt : Bool := true
  y : Bool := true
  sub : Bool := true
  negY : Bool := true
  point : Bool := true

section Derive
variable (env : PweInput) (ans : PweAnswer)

def saePwdSeedKey (addr1 addr2 : Bytes) : Bytes :=
  if memcmp addr1 addr2 > 0 then addr1 ++ addr2 else addr2 ++ addr1

def pwdSeed (password : Bytes) (counter : UInt8) : Bytes :=
  env.hmac (saePwdSeedKey env.addr1 env.addr2) (password ++ [counter])

def pwdValue (seed : Bytes) : Bytes :=
  let bits := env.curve.primeLenBits
  if bits % 8 ≠ 0 then bufShiftRight (env.prf seed) (8 - bits % 8) else env.prf seed

def primeBin : Bytes := ofBeNat env.curve.p env.curve.primeLen

/-- The return value, and `pwd_value`. -/
def saeTestPwdSeedEcc (t : TestAnswer) (seed qr qnr : Bytes) : ℤ × Bytes :=
  if !t.prf then (-1, [])
  else
    let value := pwdValue env seed
    let cmpPrime := constTimeMemcmp value (primeBin env)
    let inRange := constTimeFillMsb (BitVec.ofInt 32 cmpPrime)
    if !t.xCand then (-1, value)
    else if !t.ySqr then (-1, value)
    else
      let res := isQuadraticResidueBlind env.curve.p t.blind qr qnr
        (env.curve.computeYSqr value.beNat)
      if res < 0 then (res, value) else (constTimeSelectInt inRange res 0, value)

/-- The variables of the loop. -/
structure Pecking where
  found : UInt8 := 0
  xBin : Bytes
  pwdSeedOdd : UInt8 := 0
  res : ℤ := -1

/-- The assignments after the test of a pwd-seed. -/
def Pecking.next (s : Pecking) (seed : Bytes) (res : ℤ) (xCandBin : Bytes) : Pecking where
  found := s.found ||| UInt8.ofNat (res.toNat * 0xff)
  xBin := constTimeSelectBin s.found s.xBin xCandBin
  pwdSeedOdd := constTimeSelectU8 s.found s.pwdSeedOdd (UInt8.ofNat (seed.byteAt 31) &&& 1)
  res := res

inductive PeckEnd
  | fail (res : ℤ)
  | done (s : Pecking)

/-- `dragonfly_min_pwe_loop_iter` for the elliptic curves. -/
def minPweLoopIter : UInt8 := 40

def stubPassword : Bytes := (List.range env.password.length).map ans.stub

def peck (qr qnr : Bytes) : ℕ → UInt8 → Pecking → Option PeckEnd
  | 0, _, _ => none
  | fuel + 1, counter, s =>
    if counter ≤ minPweLoopIter ∨ s.found = 0 then
      if counter > 200 then some (.done s)
      else
        let tmpPassword := constTimeSelectBin s.found (stubPassword env ans) env.password
        if !ans.hmac counter then some (.done s)
        else
          let seed := pwdSeed env tmpPassword counter
          let (res, xCandBin) := saeTestPwdSeedEcc env (ans.test counter) seed qr qnr
          if res < 0 then some (.fail res)
          else peck qr qnr fuel (counter + 1) (s.next seed res xCandBin)
    else some (.done s)

/-- The return value and `pwe_ecc`, which is `old` before. -/
def solveY (s : Pecking) (old : Option (ℕ × ℕ)) : ℤ × Option (ℕ × ℕ) :=
  let y := if ans.ySqr && ans.sqrt then
    dragonflySqrt env.curve.p (env.curve.computeYSqr s.xBin.beNat) else none
  match y with
  | none => (s.res, old)
  | some y =>
    if !(ans.y && ans.sub && ans.negY) then (s.res, old)
    else
      let yBin := ofBeNat y env.curve.primeLen
      let negYBin := ofBeNat (env.curve.p - y) env.curve.primeLen
      let isEq := constTimeEq (BitVec.ofNat 32 s.pwdSeedOdd.toNat)
        (BitVec.ofNat 32 (yBin.byteAt (env.curve.primeLen - 1) % 2))
      let selected := constTimeSelectBin ⟨isEq.setWidth 8⟩ yBin negYBin
      if ans.point then (s.res, some (s.xBin.beNat, selected.beNat)) else (-1, none)

def saeDerivePweEcc (old : Option (ℕ × ℕ)) : ℤ × Option (ℕ × ℕ) :=
  if !ans.setUp then (-1, old)
  else
    match getRandomQrQnr env.curve.p ans.draws none none with
    | none => (-1, old)
    | some (qr, qnr) =>
      if !ans.residues then (-1, old)
      else
        match peck env ans (ofBeNat qr env.curve.primeLen) (ofBeNat qnr env.curve.primeLen) 256 1
          { xBin := zeros env.curve.primeLen } with
        | none => (-1, old)
        | some (.fail res) => (res, old)
        | some (.done s) =>
          if s.found = 0 then (-1, old)
          else if !ans.x then (-1, old)
          else solveY env ans s old

end Derive

/-! The plain algorithm. -/

section Plain
variable (env : PweInput)

def seedAt (n : ℕ) : Bytes := pwdSeed env env.password (UInt8.ofNat n)

/-- The pwd-value of a counter. -/
def valueAt (n : ℕ) : ℕ := (pwdValue env (seedAt env n)).beNat

/-- x³ + ax + b modulo p. -/
def Curve.rhs (c : Curve) (x : ℕ) : ZMod c.p := x ^ 3 + c.a * x + c.b

/-- The pwd-value is an x coordinate of two points. -/
def Hit (n : ℕ) : Prop :=
  valueAt env n < env.curve.p ∧ env.curve.rhs (valueAt env n) ≠ 0 ∧
    IsSquare (env.curve.rhs (valueAt env n))

/-- The smallest counter from 1 to 200 with a hit. -/
structure FirstHit (n : ℕ) : Prop where
  pos : 1 ≤ n
  le : n ≤ 200
  hit : Hit env n
  first : ∀ m, 1 ≤ m → m < n → ¬ Hit env m

/-- The password element: the root has the low bit of the pwd-seed. -/
def IsPwe (x y : ℕ) : Prop :=
  ∃ n, FirstHit env n ∧ x = valueAt env n ∧ y < env.curve.p ∧
    (y : ZMod env.curve.p) ^ 2 = env.curve.rhs x ∧ y % 2 = (seedAt env n).byteAt 31 % 2

variable {env}

theorem FirstHit.unique {m n : ℕ} (hm : FirstHit env m) (hn : FirstHit env n) : m = n := by
  rcases Nat.lt_trichotomy m n with hlt | heq | hgt
  · exact absurd hm.hit (hn.first m hm.pos hlt)
  · exact heq
  · exact absurd hn.hit (hm.first n hn.pos hgt)

/-- Two roots with the same low bit are the same. -/
theorem root_unique {c : Curve} {y y' : ℕ} (hy : y < c.p) (hy' : y' < c.p)
    (hsq : (y : ZMod c.p) ^ 2 = (y' : ZMod c.p) ^ 2) (hparity : y % 2 = y' % 2) : y = y' := by
  rcases sq_eq_sq_iff_eq_or_eq_neg.mp hsq with heq | hneg
  · exact c.eq_of_cast hy hy' heq
  · -- y + y' is 0 or p, and p is odd
    have hsum : ((y + y' : ℕ) : ZMod c.p) = 0 := by
      rw [Nat.cast_add, hneg, neg_add_cancel]
    obtain ⟨k, hk⟩ := (ZMod.natCast_eq_zero_iff _ _).mp hsum
    have hodd := c.three_mod_four
    have hk2 : k < 2 := by
      by_contra hge
      have := Nat.mul_le_mul_left c.p (not_lt.mp hge)
      omega
    interval_cases k
    · omega
    · omega

theorem IsPwe.unique {x y x' y' : ℕ} (h : IsPwe env x y) (h' : IsPwe env x' y') :
    x = x' ∧ y = y' := by
  obtain ⟨n, hn, rfl, hy, hsq, hparity⟩ := h
  obtain ⟨n', hn', rfl, hy', hsq', hparity'⟩ := h'
  obtain rfl := hn.unique hn'
  exact ⟨rfl, root_unique hy hy' (hsq.trans hsq'.symm) (hparity.trans hparity'.symm)⟩

end Plain

section Test
variable {env : PweInput}

theorem computeYSqr_cast (c : Curve) (x : ℕ) : (c.computeYSqr x : ZMod c.p) = c.rhs x := by
  rw [Curve.computeYSqr, ZMod.natCast_mod, Curve.rhs]
  push_cast
  rfl

theorem hit_iff (n : ℕ) : Hit env n ↔ valueAt env n < env.curve.p ∧
    legendre (env.curve.computeYSqr (valueAt env n)) env.curve.p = 1 := by
  rw [Hit, legendre_eq_one_iff, computeYSqr_cast]

theorem Curve.lt_pow (c : Curve) : c.p < 256 ^ c.primeLen := by
  have hbits : c.primeLenBits ≤ 8 * c.primeLen := by
    unfold Curve.primeLen
    omega
  calc c.p < 2 ^ c.primeLenBits := Nat.lt_size_self _
    _ ≤ 2 ^ (8 * c.primeLen) := Nat.pow_le_pow_right (by decide) hbits
    _ = 256 ^ c.primeLen := by rw [pow_mul]; norm_num

theorem pwdValue_length (seed : Bytes) : (pwdValue env seed).length = env.curve.primeLen := by
  unfold pwdValue
  simp only
  split
  · rw [bufShiftRight, List.length_zipWith, List.length_cons, env.prf_length]
    omega
  · exact env.prf_length seed

/-- The mask that `saeTestPwdSeedEcc` makes from the comparison with the prime. -/
theorem inRange_eq (seed : Bytes) :
    constTimeFillMsb (BitVec.ofInt 32 (constTimeMemcmp (pwdValue env seed) (primeBin env))) =
      maskOf (decide ((pwdValue env seed).beNat < env.curve.p)) := by
  have hlen : (pwdValue env seed).length = (primeBin env).length := by
    rw [pwdValue_length, primeBin, ofBeNat_length]
  have hprime : (primeBin env).beNat = env.curve.p := beNat_ofBeNat env.curve.lt_pow
  have hrange := @constTimeMemcmp_isInt (pwdValue env seed) (primeBin env)
  rw [constTimeFillMsb_eq, BitVec.msb_eq_toInt,
    BitVec.toInt_ofInt_eq_self (by decide) (by omega) (by omega)]
  congr 1
  rw [decide_eq_decide, constTimeMemcmp_neg hlen, hprime]

/-- The result of the test of a pwd-seed if no call fails. -/
def testResult (env : PweInput) (seed : Bytes) : ℤ :=
  if (pwdValue env seed).beNat < env.curve.p ∧
    legendre (env.curve.computeYSqr (pwdValue env seed).beNat) env.curve.p = 1 then 1 else 0

theorem testResult_range (seed : Bytes) : testResult env seed = 0 ∨ testResult env seed = 1 := by
  unfold testResult
  split
  · exact Or.inr rfl
  · exact Or.inl rfl

theorem testResult_hit {n : ℕ} (h : Hit env n) : testResult env (seedAt env n) = 1 :=
  if_pos ((hit_iff n).mp h)

theorem testResult_miss {n : ℕ} (h : ¬ Hit env n) : testResult env (seedAt env n) = 0 :=
  if_neg fun hboth => h ((hit_iff n).mpr hboth)

theorem saeTestPwdSeedEcc_ok {t : TestAnswer} (ht : t.ok = true) (seed : Bytes) {qr qnr : Bytes}
    (hlen : qr.length = qnr.length) (hqr : legendre qr.beNat env.curve.p = 1)
    (hqnr : legendre qnr.beNat env.curve.p = -1) :
    saeTestPwdSeedEcc env t seed qr qnr = (testResult env seed, pwdValue env seed) := by
  simp only [TestAnswer.ok, Bool.and_eq_true] at ht
  obtain ⟨⟨⟨hprf, hx⟩, hy⟩, hblind⟩ := ht
  unfold saeTestPwdSeedEcc testResult
  simp only [hprf, hx, hy, Bool.not_true, Bool.false_eq_true, if_false]
  rw [isQuadraticResidueBlind_eq hlen hqr hqnr, if_pos hblind, inRange_eq]
  set symbol := legendre (env.curve.computeYSqr (pwdValue env seed).beNat) env.curve.p
  by_cases hsquare : symbol = 1
  · rw [if_pos hsquare, if_neg (by decide), constTimeSelectInt_maskOf isInt_one isInt_zero]
    simp only [hsquare, and_true, decide_eq_true_eq]
  · rw [if_neg hsquare, if_neg (by decide), constTimeSelectInt_maskOf isInt_zero isInt_zero]
    simp only [hsquare, and_false, if_false, ite_self]

theorem saeTestPwdSeedEcc_fail {t : TestAnswer} (ht : t.ok = false) (seed : Bytes) {qr qnr : Bytes}
    (hlen : qr.length = qnr.length) (hqr : legendre qr.beNat env.curve.p = 1)
    (hqnr : legendre qnr.beNat env.curve.p = -1) :
    (saeTestPwdSeedEcc env t seed qr qnr).1 = -1 := by
  unfold saeTestPwdSeedEcc
  unfold TestAnswer.ok at ht
  cases hprf : t.prf with
  | false => rfl
  | true =>
    cases hx : t.xCand with
    | false => rfl
    | true =>
      cases hy : t.ySqr with
      | false => rfl
      | true =>
        simp only [hprf, hx, hy, Bool.true_and] at ht
        simp only [Bool.not_true, Bool.false_eq_true, if_false]
        rw [isQuadraticResidueBlind_eq hlen hqr hqnr, ht]
        rfl

end Test

/-! The loop. Before the hit it works on the password, after it the masks keep what was found. -/

section Loop
variable {env : PweInput} {ans : PweAnswer} {s : Pecking} {n c : ℕ}

/-- The two calls of a round. -/
def PweAnswer.roundOk (ans : PweAnswer) (n : ℕ) : Prop :=
  ans.hmac (UInt8.ofNat n) = true ∧ (ans.test (UInt8.ofNat n)).ok = true

/-- The variables after the round of a hit. -/
structure Found (env : PweInput) (s : Pecking) (c : ℕ) : Prop where
  first : FirstHit env c
  found : s.found = byteMask true
  xBin : s.xBin = pwdValue env (seedAt env c)
  pwdSeedOdd : s.pwdSeedOdd = UInt8.ofNat ((seedAt env c).byteAt 31) &&& 1
  res : 0 ≤ s.res

/-- The variables while there is no hit. -/
structure Searching (env : PweInput) (s : Pecking) (n : ℕ) : Prop where
  found : s.found = byteMask false
  xBin : s.xBin.length = env.curve.primeLen
  none : ∀ m, 1 ≤ m → m < n → ¬ Hit env m

theorem Searching.next (h : Searching env s n) (hhit : ¬ Hit env n) :
    Searching env (s.next (seedAt env n) 0 (pwdValue env (seedAt env n))) (n + 1) where
  found := by
    rw [Pecking.next, h.found]
    rfl
  xBin := by
    rw [Pecking.next, h.found, constTimeSelectBin_byteMask (by rw [h.xBin, pwdValue_length])]
    exact pwdValue_length _
  none m hm hlt := by
    rcases Nat.lt_succ_iff_lt_or_eq.mp hlt with hlt | rfl
    · exact h.none m hm hlt
    · exact hhit

theorem Searching.hit (h : Searching env s n) (h1 : 1 ≤ n)
    (hn : n ≤ 200) (hhit : Hit env n) :
    Found env (s.next (seedAt env n) 1 (pwdValue env (seedAt env n))) n where
  first := ⟨h1, hn, hhit, h.none⟩
  found := by
    rw [Pecking.next, h.found]
    rfl
  xBin := by
    rw [Pecking.next, h.found, constTimeSelectBin_byteMask (by rw [h.xBin, pwdValue_length])]
    rfl
  pwdSeedOdd := by
    rw [Pecking.next, h.found, constTimeSelectU8_byteMask]
    rfl
  res := Int.one_nonneg

theorem Found.next (h : Found env s c) (seed : Bytes) {res : ℤ}
    (hres : res = 0 ∨ res = 1) (seed' : Bytes) :
    Found env (s.next seed res (pwdValue env seed')) c where
  first := h.first
  found := by
    rw [Pecking.next, h.found]
    rcases hres with rfl | rfl <;> rfl
  xBin := by
    have hlen : s.xBin.length = (pwdValue env seed').length := by
      rw [h.xBin, pwdValue_length, pwdValue_length]
    rw [Pecking.next, h.found, constTimeSelectBin_byteMask hlen]
    exact h.xBin
  pwdSeedOdd := by
    rw [Pecking.next, h.found, constTimeSelectU8_byteMask]
    exact h.pwdSeedOdd
  res := by
    rcases hres with rfl | rfl
    · exact le_refl 0
    · exact Int.one_nonneg

/-- A round has the first hit, and no call fails in the rounds there are after it. -/
def Finds (env : PweInput) (ans : PweAnswer) : Prop :=
  ∃ c, FirstHit env c ∧ (∀ m, 1 ≤ m → m ≤ c → ans.roundOk m) ∧
    ∀ m, c < m → m ≤ 40 → (∀ k, c < k → k ≤ m → ans.hmac (UInt8.ofNat k) = true) →
      (ans.test (UInt8.ofNat m)).ok = true

/-- The variables before round n. -/
inductive Pecked (env : PweInput) (s : Pecking) (n : ℕ) : Prop
  | searching (h : Searching env s n)
  | found (c : ℕ) (lt : c < n) (h : Found env s c)

/-- What the loop ends with. -/
inductive Ends (env : PweInput) (ans : PweAnswer) : PeckEnd → Prop
  | failed {res : ℤ} (neg : res < 0) (lost : ¬ Finds env ans) : Ends env ans (.fail res)
  | without {s : Pecking} (found : s.found = 0) (lost : ¬ Finds env ans) : Ends env ans (.done s)
  | found {s : Pecking} {c : ℕ} (h : Found env s c) (finds : Finds env ans) : Ends env ans (.done s)

theorem Searching.lost (h : Searching env s n) (h1 : 1 ≤ n) (hn : n ≤ 200 → ¬ ans.roundOk n) :
    ¬ Finds env ans := by
  rintro ⟨c, hfirst, hrounds, -⟩
  have hle : n ≤ c := not_lt.mp fun hlt => h.none c hfirst.pos hlt hfirst.hit
  exact hn (hle.trans hfirst.le) (hrounds n h1 hle)

theorem Found.lost (h : Found env s c) (hlt : c < n) (hn : n ≤ 40)
    (hrounds : ∀ m, 1 ≤ m → m < n → ans.roundOk m) (hhmac : ans.hmac (UInt8.ofNat n) = true)
    (htest : (ans.test (UInt8.ofNat n)).ok = false) : ¬ Finds env ans := by
  rintro ⟨c', hfirst, -, hlater⟩
  obtain rfl := h.first.unique hfirst
  have hreached : ∀ k, c < k → k ≤ n → ans.hmac (UInt8.ofNat k) = true := by
    intro k hk hkn
    rcases Nat.lt_or_eq_of_le hkn with hlt | rfl
    · exact (hrounds k (Nat.one_le_of_lt hk) hlt).1
    · exact hhmac
  rw [hlater n hlt hn hreached] at htest
  cases htest

theorem Found.finds (h : Found env s c) (hlt : c < n)
    (hrounds : ∀ m, 1 ≤ m → m < n → ans.roundOk m)
    (hend : n ≤ 40 → ans.hmac (UInt8.ofNat n) = false) : Finds env ans := by
  refine ⟨c, h.first, fun m h1 hm => hrounds m h1 (hm.trans_lt hlt), ?_⟩
  intro m hm hm40 hhmac
  rcases Nat.lt_or_ge m n with hmn | hnm
  · exact (hrounds m (Nat.one_le_of_lt hm) hmn).2
  · -- round n is not reached past the MAC
    have htrue := hhmac n hlt hnm
    rw [hend (hnm.trans hm40)] at htrue
    cases htrue

/-- Where the loop is left before round n. -/
theorem Pecked.done (hpecked : Pecked env s n) (h1 : 1 ≤ n)
    (hrounds : ∀ m, 1 ≤ m → m < n → ans.roundOk m)
    (hend : n ≤ 40 ∨ s.found = 0 → n ≤ 200 → ans.hmac (UInt8.ofNat n) = false) :
    Ends env ans (.done s) := by
  cases hpecked with
  | searching h =>
    refine .without h.found (h.lost h1 fun hn hround => ?_)
    rw [hround.1] at hend
    cases hend (Or.inr h.found) hn
  | found c hlt h =>
    exact .found h (h.finds hlt hrounds fun hn => hend (Or.inl hn) (hn.trans (by decide)))

/-- Where a call of the test fails in round n. -/
theorem Pecked.failed (hpecked : Pecked env s n) (h1 : 1 ≤ n)
    (hrounds : ∀ m, 1 ≤ m → m < n → ans.roundOk m) (hloop : n ≤ 40 ∨ s.found = 0)
    (hhmac : ans.hmac (UInt8.ofNat n) = true) (htest : (ans.test (UInt8.ofNat n)).ok = false) :
    ¬ Finds env ans := by
  cases hpecked with
  | searching h =>
    apply h.lost h1
    intro _ hround
    rw [hround.2] at htest
    cases htest
  | found c hlt h =>
    have hfound : s.found ≠ 0 := by
      rw [h.found]
      decide
    exact h.lost hlt (hloop.resolve_right hfound) hrounds hhmac htest

variable {qr qnr : Bytes}

theorem peck_round {fuel : ℕ} {counter : UInt8} {seed : Bytes}
    (hloop : counter ≤ minPweLoopIter ∨ s.found = 0) (hlimit : ¬ counter > 200)
    (hhmac : ans.hmac counter = true)
    (hseed : pwdSeed env (constTimeSelectBin s.found (stubPassword env ans) env.password) counter =
      seed) :
    peck env ans qr qnr (fuel + 1) counter s =
      let r := saeTestPwdSeedEcc env (ans.test counter) seed qr qnr
      if r.1 < 0 then some (.fail r.1)
      else peck env ans qr qnr fuel (counter + 1) (s.next seed r.1 r.2) := by
  subst hseed
  rw [peck, if_pos hloop, if_neg hlimit, if_neg (by rw [hhmac]; decide)]

/-- The loop is left where the MAC fails. -/
theorem peck_hmac {fuel : ℕ} {counter : UInt8}
    (hloop : counter ≤ minPweLoopIter ∨ s.found = 0) (hlimit : ¬ counter > 200)
    (hhmac : ans.hmac counter = false) :
    peck env ans qr qnr (fuel + 1) counter s = some (.done s) := by
  rw [peck, if_pos hloop, if_neg hlimit, if_pos (by rw [hhmac]; decide)]

theorem selected_password (b : Bool) :
    constTimeSelectBin (byteMask b) (stubPassword env ans) env.password =
      if b then stubPassword env ans else env.password := by
  apply constTimeSelectBin_byteMask
  rw [stubPassword, List.length_map, List.length_range]

/-- The variables after a round in which no call fails. -/
theorem Pecked.next (h1 : 1 ≤ n) (hn : n ≤ 200) (hpecked : Pecked env s n) (seed : Bytes)
    (hseed : pwdSeed env (constTimeSelectBin s.found (stubPassword env ans) env.password)
      (UInt8.ofNat n) = seed) :
    Pecked env (s.next seed (testResult env seed) (pwdValue env seed)) (n + 1) := by
  cases hpecked with
  | searching h =>
    rw [h.found, selected_password] at hseed
    obtain rfl : seedAt env n = seed := hseed
    by_cases hhit : Hit env n
    · rw [testResult_hit hhit]
      exact .found n (Nat.lt_succ_self n) (h.hit h1 hn hhit)
    · rw [testResult_miss hhit]
      exact .searching (h.next hhit)
  | found c hlt h => exact .found c (Nat.lt_succ_of_lt hlt) (h.next seed (testResult_range seed) seed)

variable (hlen : qr.length = qnr.length) (hqr : legendre qr.beNat env.curve.p = 1)
  (hqnr : legendre qnr.beNat env.curve.p = -1)
include hlen hqr hqnr

/-- A round in which a call of the test fails. -/
theorem peck_test {fuel : ℕ} {counter : UInt8}
    (hloop : counter ≤ minPweLoopIter ∨ s.found = 0) (hlimit : ¬ counter > 200)
    (hhmac : ans.hmac counter = true) (htest : (ans.test counter).ok = false) :
    peck env ans qr qnr (fuel + 1) counter s = some (.fail (-1)) := by
  rw [peck_round hloop hlimit hhmac rfl]
  simp only
  rw [saeTestPwdSeedEcc_fail htest _ hlen hqr hqnr, if_pos (by decide)]

/-- A round in which no call fails. -/
theorem peck_ok {fuel : ℕ} {counter : UInt8} {seed : Bytes}
    (hloop : counter ≤ minPweLoopIter ∨ s.found = 0) (hlimit : ¬ counter > 200)
    (hhmac : ans.hmac counter = true) (htest : (ans.test counter).ok = true)
    (hseed : pwdSeed env (constTimeSelectBin s.found (stubPassword env ans) env.password) counter =
      seed) :
    peck env ans qr qnr (fuel + 1) counter s =
      peck env ans qr qnr fuel (counter + 1)
        (s.next seed (testResult env seed) (pwdValue env seed)) := by
  rw [peck_round hloop hlimit hhmac hseed]
  simp only
  rw [saeTestPwdSeedEcc_ok htest seed hlen hqr hqnr, if_neg]
  rcases @testResult_range env seed with hzero | hone
  · simp only [hzero, lt_self_iff_false, not_false_iff]
  · rw [hone]
    exact not_lt.mpr Int.one_nonneg

/-- The loop, by induction on the rounds that are left. -/
theorem peck_ends {fuel : ℕ} (h1 : 1 ≤ n) (hn : n ≤ 201) (hfuel : 202 ≤ n + fuel)
    (hpecked : Pecked env s n) (hrounds : ∀ m, 1 ≤ m → m < n → ans.roundOk m) :
    ∃ e, peck env ans qr qnr fuel (UInt8.ofNat n) s = some e ∧ Ends env ans e := by
  induction fuel generalizing n s with
  | zero => omega
  | succ fuel ih =>
    have hcounter : (UInt8.ofNat n).toNat = n := UInt8.toNat_ofNat_of_lt' (by show n < 256; omega)
    have hsmall : UInt8.ofNat n ≤ minPweLoopIter ↔ n ≤ 40 := by
      rw [UInt8.le_iff_toNat_le, hcounter]
      rfl
    have hlarge : UInt8.ofNat n > 200 ↔ 200 < n := by
      rw [gt_iff_lt, UInt8.lt_iff_toNat_lt, hcounter]
      rfl
    have hsucc : UInt8.ofNat n + 1 = UInt8.ofNat (n + 1) := by
      apply UInt8.toNat_inj.mp
      rw [UInt8.toNat_add, hcounter, UInt8.toNat_ofNat']
      rfl
    by_cases hloop : UInt8.ofNat n ≤ minPweLoopIter ∨ s.found = 0
    · by_cases hlimit : UInt8.ofNat n > 200
      · refine ⟨_, by rw [peck, if_pos hloop, if_pos hlimit], hpecked.done h1 hrounds ?_⟩
        intro _ hle
        exact absurd (hlarge.mp hlimit) (not_lt.mpr hle)
      · cases hhmac : ans.hmac (UInt8.ofNat n) with
        | false => exact ⟨_, peck_hmac hloop hlimit hhmac, hpecked.done h1 hrounds fun _ _ => hhmac⟩
        | true =>
          cases htest : (ans.test (UInt8.ofNat n)).ok with
          | false =>
            refine ⟨_, peck_test hlen hqr hqnr hloop hlimit hhmac htest, .failed (by decide) ?_⟩
            exact hpecked.failed h1 hrounds (hloop.imp_left hsmall.mp) hhmac htest
          | true =>
            rw [peck_ok hlen hqr hqnr hloop hlimit hhmac htest rfl, hsucc]
            have hle : n ≤ 200 := not_lt.mp fun hlt => hlimit (hlarge.mpr hlt)
            apply ih (Nat.le_add_left 1 n) (by omega) (by omega) (hpecked.next h1 hle _ rfl)
            intro m hm hlt
            rcases Nat.lt_succ_iff_lt_or_eq.mp hlt with hlt | rfl
            · exact hrounds m hm hlt
            · exact ⟨hhmac, htest⟩
    · refine ⟨_, by rw [peck, if_neg hloop], hpecked.done h1 hrounds fun hcontinue => ?_⟩
      exact absurd (hcontinue.imp_left hsmall.mpr) hloop

end Loop

section Point
variable {env : PweInput} {ans : PweAnswer} {s : Pecking} {c : ℕ}

/-- No call fails while y is computed. -/
def PweAnswer.solved (ans : PweAnswer) : Bool :=
  ans.ySqr && ans.sqrt && ans.y && ans.sub && ans.negY

/-- The low bit of the last octet. -/
theorem ofBeNat_parity (n : ℕ) {w : ℕ} (h : n < 256 ^ w) :
    (ofBeNat n w).byteAt (w - 1) % 2 = n % 2 := by
  have hlast := byteAt_last (ofBeNat n w)
  rw [ofBeNat_length, beNat_ofBeNat h] at hlast
  rw [hlast, Nat.mod_mod_of_dvd n (by decide)]

theorem solveY_lost (h : ans.solved = false) (old : Option (ℕ × ℕ)) :
    solveY env ans s old = (s.res, old) := by
  unfold PweAnswer.solved at h
  unfold solveY
  cases hpre : ans.ySqr && ans.sqrt with
  | false => rfl
  | true =>
    rw [hpre, Bool.true_and] at h
    simp only [h, if_true, Bool.not_false]
    cases dragonflySqrt env.curve.p (env.curve.computeYSqr s.xBin.beNat) <;> rfl

/-- The mask of the selection between y and p - y. -/
theorem isEq_eq {y : ℕ} (hfound : Found env s c) (hy : y < 256 ^ env.curve.primeLen) :
    constTimeEq (BitVec.ofNat 32 s.pwdSeedOdd.toNat)
      (BitVec.ofNat 32 ((ofBeNat y env.curve.primeLen).byteAt (env.curve.primeLen - 1) % 2)) =
        maskOf (decide (y % 2 = (seedAt env c).byteAt 31 % 2)) := by
  have hodd : s.pwdSeedOdd.toNat = (seedAt env c).byteAt 31 % 2 := by
    rw [hfound.pwdSeedOdd, UInt8.toNat_and, UInt8.toNat_ofNat']
    show _ &&& 1 = _
    rw [Nat.and_one_is_mod, Nat.mod_mod_of_dvd _ (by decide)]
  rw [ofBeNat_parity y hy, hodd, constTimeEq_eq]
  congr 1
  rw [decide_eq_decide]
  rcases Nat.mod_two_eq_zero_or_one y with hy | hy <;>
    rcases Nat.mod_two_eq_zero_or_one ((seedAt env c).byteAt 31) with hseed | hseed <;>
      rw [hy, hseed] <;> decide

theorem solveY_solved (h : ans.solved = true) (hfound : Found env s c) (old : Option (ℕ × ℕ)) :
    ∃ x y, IsPwe env x y ∧
      solveY env ans s old = if ans.point then (s.res, some (x, y)) else (-1, none) := by
  have hhit := (hit_iff c).mp hfound.first.hit
  have hx : s.xBin.beNat = valueAt env c := by
    rw [hfound.xBin]
    rfl
  have hbelow := env.curve.lt_pow
  simp only [PweAnswer.solved, Bool.and_eq_true] at h
  obtain ⟨⟨⟨⟨hySqr, hsqrt⟩, hy⟩, hsub⟩, hnegY⟩ := h
  unfold solveY
  rw [hx]
  simp only [hySqr, hsqrt, hy, hsub, hnegY, Bool.and_self, if_true, Bool.not_true,
    Bool.false_eq_true, if_false]
  have hroot : dragonflySqrt env.curve.p (env.curve.computeYSqr (valueAt env c)) =
      some (env.curve.computeYSqr (valueAt env c) ^ ((env.curve.p + 1) / 4) % env.curve.p) :=
    if_neg (not_not.mpr env.curve.three_mod_four)
  obtain ⟨hlt, hne, hsq⟩ := dragonflySqrt_sq hhit.2 hroot
  rw [hroot]
  generalize env.curve.computeYSqr (valueAt env c) ^ ((env.curve.p + 1) / 4) % env.curve.p = y at *
  rw [computeYSqr_cast] at hsq
  simp only
  rw [isEq_eq hfound (hlt.trans hbelow), setWidth_maskOf,
    constTimeSelectBin_byteMask (by rw [ofBeNat_length, ofBeNat_length])]
  refine ⟨valueAt env c, if y % 2 = (seedAt env c).byteAt 31 % 2 then y else env.curve.p - y,
    ⟨c, hfound.first, rfl, ?_⟩, ?_⟩
  · by_cases hparity : y % 2 = (seedAt env c).byteAt 31 % 2
    · rw [if_pos hparity]
      exact ⟨hlt, hsq, hparity⟩
    · -- p is odd: the other root has the other low bit
      have hodd := env.curve.three_mod_four
      rw [if_neg hparity]
      refine ⟨by omega, ?_, by omega⟩
      rw [Nat.cast_sub hlt.le, ZMod.natCast_self, zero_sub, neg_sq, hsq]
  · congr 3
    by_cases hparity : y % 2 = (seedAt env c).byteAt 31 % 2
    · rw [if_pos hparity, if_pos (decide_eq_true hparity), beNat_ofBeNat (hlt.trans hbelow)]
    · rw [if_neg hparity, if_neg (by rw [decide_eq_true_eq]; exact hparity),
        beNat_ofBeNat ((Nat.sub_le _ _).trans_lt hbelow)]

end Point

section Result
variable {env : PweInput} {ans : PweAnswer} {old : Option (ℕ × ℕ)}

/-- Everything before the computation of y succeeds. -/
structure Reached (env : PweInput) (ans : PweAnswer) : Prop where
  setUp : ans.setUp = true
  draws : (getRandomQrQnr env.curve.p ans.draws none none).isSome = true
  residues : ans.residues = true
  finds : Finds env ans
  x : ans.x = true

theorem saeDerivePweEcc_cases :
    ¬ Reached env ans ∧ (saeDerivePweEcc env ans old).1 < 0 ∨
      Reached env ans ∧ ∃ s c, Found env s c ∧
        saeDerivePweEcc env ans old = solveY env ans s old := by
  have hneg : (-1 : ℤ) < 0 := by decide
  unfold saeDerivePweEcc
  cases hsetUp : ans.setUp with
  | false => exact Or.inl ⟨fun h => absurd (hsetUp.symm.trans h.setUp) Bool.false_ne_true, hneg⟩
  | true =>
    cases hdraws : getRandomQrQnr env.curve.p ans.draws none none with
    | none =>
      refine Or.inl ⟨fun h => ?_, hneg⟩
      have hsome := h.draws
      rw [hdraws] at hsome
      cases hsome
    | some r =>
      obtain ⟨qr, qnr⟩ := r
      cases hresidues : ans.residues with
      | false =>
        exact Or.inl ⟨fun h => absurd (hresidues.symm.trans h.residues) Bool.false_ne_true, hneg⟩
      | true =>
        obtain ⟨⟨hqrLt, hqr⟩, hqnrLt, hqnr⟩ :=
          getRandomQrQnr_spec (fun _ h => by cases h) (fun _ h => by cases h) hdraws
        have hbin : ∀ q < env.curve.p, (ofBeNat q env.curve.primeLen).beNat = q := fun q hq =>
          beNat_ofBeNat (hq.trans env.curve.lt_pow)
        rw [← hbin qr hqrLt] at hqr
        rw [← hbin qnr hqnrLt] at hqnr
        have hstart : Searching env { xBin := zeros env.curve.primeLen } 1 :=
          ⟨rfl, zeros_length _, fun m hm hlt => absurd hm (not_le.mpr hlt)⟩
        have hloop : ∃ e, peck env ans (ofBeNat qr env.curve.primeLen)
            (ofBeNat qnr env.curve.primeLen) 256 (UInt8.ofNat 1)
            { xBin := zeros env.curve.primeLen } = some e ∧ Ends env ans e := by
          apply peck_ends _ hqr hqnr (le_refl 1) (by decide) (by decide) (.searching hstart)
          · intro m hm hlt
            exact absurd hm (not_le.mpr hlt)
          · rw [ofBeNat_length, ofBeNat_length]
        obtain ⟨e, hpeck, hends⟩ := hloop
        simp only [Bool.not_true, Bool.false_eq_true, if_false]
        rw [show (1 : UInt8) = UInt8.ofNat 1 from rfl, hpeck]
        cases hends with
        | failed hneg hlost => exact Or.inl ⟨fun h => hlost h.finds, hneg⟩
        | without hfound hlost =>
          simp only [hfound, if_true]
          exact Or.inl ⟨fun h => hlost h.finds, hneg⟩
        | found hfound hfinds =>
          have hnonzero : ¬ byteMask true = 0 := by decide
          simp only [hfound.found, hnonzero, if_false]
          cases hx : ans.x with
          | false => exact Or.inl ⟨fun h => absurd (hx.symm.trans h.x) Bool.false_ne_true, hneg⟩
          | true =>
            refine Or.inr ⟨⟨hsetUp, ?_, hresidues, hfinds, hx⟩, _, _, hfound, rfl⟩
            rw [hdraws]
            rfl

/-- What the derivation promises of its return value and of `pwe_ecc`. -/
structure Meets (env : PweInput) (out : ℤ × Option (ℕ × ℕ)) : Prop where
  pwe : 0 ≤ out.1 → ∃ x y, out.2 = some (x, y) ∧ IsPwe env x y
  fails : (∀ n, 1 ≤ n → n ≤ 200 → ¬ Hit env n) → out.1 < 0

/-- The random choices do not matter. -/
theorem Meets.unique {out out' : ℤ × Option (ℕ × ℕ)} (h : Meets env out) (h' : Meets env out')
    (hres : 0 ≤ out.1) (hres' : 0 ≤ out'.1) : out.2 = out'.2 := by
  obtain ⟨x, y, hout, hpwe⟩ := h.pwe hres
  obtain ⟨x', y', hout', hpwe'⟩ := h'.pwe hres'
  obtain ⟨rfl, rfl⟩ := hpwe.unique hpwe'
  rw [hout, hout']

theorem Reached.not_without (h : Reached env ans) : ¬ ∀ n, 1 ≤ n → n ≤ 200 → ¬ Hit env n := by
  intro hnone
  obtain ⟨c, hfirst, -⟩ := h.finds
  exact hnone c hfirst.pos hfirst.le hfirst.hit

theorem saeDerivePweEcc_meets : Meets env (saeDerivePweEcc env ans old) ↔
    (Reached env ans → ans.solved = true ∨ ∃ x y, old = some (x, y) ∧ IsPwe env x y) := by
  rcases @saeDerivePweEcc_cases env ans old with ⟨hnot, hneg⟩ | ⟨hreached, s, c, hfound, heq⟩
  · refine iff_of_true ⟨fun h => absurd h (not_le.mpr hneg), fun _ => hneg⟩ ?_
    exact fun h => absurd h hnot
  · rw [heq]
    cases hsolved : ans.solved with
    | true =>
      obtain ⟨x, y, hpwe, hout⟩ := solveY_solved hsolved hfound old
      rw [hout]
      refine iff_of_true ⟨fun hres => ?_, fun hnone => absurd hnone hreached.not_without⟩
        fun _ => Or.inl rfl
      cases hpoint : ans.point with
      | true => exact ⟨x, y, rfl, hpwe⟩
      | false =>
        rw [hpoint] at hres
        cases hres
    | false =>
      rw [solveY_lost hsolved]
      constructor
      · intro hmeets _
        exact Or.inr (hmeets.pwe hfound.res)
      · intro hcond
        refine ⟨fun _ => ?_, fun hnone => absurd hnone hreached.not_without⟩
        exact (hcond hreached).resolve_left (by decide)

/-- The derivation is right, and does not depend on the random choices, exactly if the computation
of y does not fail, or leaves a point that was right before. -/
theorem saeDerivePweEcc_meets_iff (env : PweInput) (ans : PweAnswer) (old : Option (ℕ × ℕ)) :
    (Meets env (saeDerivePweEcc env ans old) ↔
      (Reached env ans → ans.solved = true ∨ ∃ x y, old = some (x, y) ∧ IsPwe env x y)) ∧
    ∀ ans' old', Meets env (saeDerivePweEcc env ans old) →
      Meets env (saeDerivePweEcc env ans' old') →
      0 ≤ (saeDerivePweEcc env ans old).1 → 0 ≤ (saeDerivePweEcc env ans' old').1 →
      (saeDerivePweEcc env ans old).2 = (saeDerivePweEcc env ans' old').2 :=
  ⟨saeDerivePweEcc_meets, fun _ _ h h' => h.unique h'⟩

end Result

/-! The curve y² = x³ + 1 modulo 7, with x = 0 in every round. -/

def smallCurve : Curve where
  p := 7
  a := 0
  b := 1
  prime := by decide
  three_mod_four := rfl

def smallInput : PweInput where
  curve := smallCurve
  addr1 := [0, 0, 0, 0, 0, 1]
  addr2 := [0, 0, 0, 0, 0, 2]
  password := [0x70, 0x77]
  hmac := fun _ _ => zeros 32
  prf := fun _ => zeros smallCurve.primeLen
  prf_length := fun _ => zeros_length _

/-- The memory for y² is not there. -/
def noSquare : PweAnswer where
  stub := fun _ => 0x55
  draws := [some 1, some 3]
  test := fun _ => { blind := { rand := some 4 } }
  ySqr := false

theorem smallInput_stale : saeDerivePweEcc smallInput noSquare none = (1, none) := by
  decide

/-- Success is returned without a point. -/
theorem noSquare_stale : ¬ Meets smallInput (saeDerivePweEcc smallInput noSquare none) := by
  rw [smallInput_stale]
  intro h
  obtain ⟨x, y, hout, -⟩ := h.pwe Int.one_nonneg
  cases hout

end Wpa.Sae
