import Wpa.SaePk.Base32

/-! `sae_pk_set_password`: the fingerprint of a password. The array is fixed and nothing bounds the
password. -/

namespace Wpa.SaePk
open Lib Bytes

/-- Size of `fingerprint`. -/
def saeMaxHashLen : ℕ := 64

/-- The loops that shift a buffer by less than an octet, from the first octet on. -/
def shiftLeft (k : ℕ) : Bytes → Bytes
  | [] => []
  | [x] => [UInt8.ofNat (x.toNat <<< k)]
  | x :: y :: rest =>
    UInt8.ofNat (x.toNat <<< k ||| y.toNat >>> (8 - k)) :: shiftLeft k (y :: rest)

def saePkGetBe19 (buf : Bytes) : ℕ :=
  buf.byteAt 0 <<< 11 ||| buf.byteAt 1 <<< 3 ||| buf.byteAt 2 >>> 5

def saePkBufShiftLeft19 (buf : Bytes) : Bytes := shiftLeft 3 (buf.drop 2) ++ [0, 0]

def saePkBufShiftLeft1 (buf : Bytes) : Bytes := shiftLeft 1 buf

/-- The locals of `sae_pk_set_password`; `out` has the octets behind the zero ones up to `pos`. -/
structure PackState where
  out : Bytes
  bits : ℤ
  val : ℕ
  valBits : ℕ
  pw : Bytes

def refill (s : PackState) : PackState :=
  let pw := saePkBufShiftLeft1 s.pw
  let val19 := saePkGetBe19 pw
  { s with
    pw := saePkBufShiftLeft19 pw
    val := (s.val <<< 19 ||| val19) % 2 ^ 32
    valBits := s.valBits + 19 }

/-- The loop; every turn but the last takes eight bits. -/
def packLoop : ℕ → PackState → PackState
  | 0, s => s
  | fuel + 1, s =>
    if s.bits ≤ 0 then s
    else
      let s := if s.valBits < 8 then refill s else s
      if 8 ≤ s.valBits then
        if s.bits < 8 then s
        else
          packLoop fuel { s with
            out := s.out ++ [UInt8.ofNat ((s.val >>> (s.valBits - 8)) &&& 0xff)]
            valBits := s.valBits - 8
            bits := s.bits - 8 }
      else packLoop fuel s

/-- The octet for the bits that are left. -/
def packEnd (s : PackState) : Bytes :=
  if 0 < s.bits then
    s.out ++ [UInt8.ofNat ((s.val >>> (s.valBits - s.bits.toNat)) <<< (8 - s.bits.toNat))]
  else s.out

/-- What is set in `struct sae_temporary_data`; `octets` has what is written from the start of
`fingerprint` on, whether it is in the array or not. -/
structure Fingerprint where
  sec : ℕ
  lambda : ℕ
  fingerprintBits : ℕ
  octets : Bytes

def fingerprintOf (password : Bytes) : Option Fingerprint :=
  (saePkBase32Decode password).map fun pw =>
    let sec := if pw.byteAt 0 &&& 0x80 ≠ 0 then 3 else 5
    let lambda := password.length - password.length / 5
    let fingerprintBits := 8 * sec + 19 * lambda / 4 - 5
    let bits := ((fingerprintBits - 8 * sec : ℕ) : ℤ).bmod (2 ^ 32)
    { sec := sec
      lambda := lambda
      fingerprintBits := fingerprintBits
      octets := zeros sec ++ packEnd (packLoop bits.toNat ⟨[], bits, 0, 0, pw⟩) }

/-- `none` inside is -1. -/
def saePkSetPassword (tmp : Bool) (password : Bytes) : Option (Option Fingerprint) :=
  if ¬ tmp ∨ password.length < 1 then some none
  else (saePkValidPassword password).map fun valid => if valid then fingerprintOf password else none

section Spec

/-- The numbers of four digits each. -/
def groups : List Digit → List ℕ
  | a :: b :: c :: d :: rest =>
    (((a.val * 2 ^ 5 + b.val) * 2 ^ 5 + c.val) * 2 ^ 5 + d.val) :: groups rest
  | _ => []

/-- The low 19 bits of the groups of a password. -/
def groupBits (password : Bytes) : List Bool :=
  (groups (password.filterMap dtable)).flatMap (toBits 19)

/-- Zero octets, then the bits of the groups, filled up to an octet. -/
def Fingerprint.Holds (fp : Fingerprint) (password : Bytes) : Prop :=
  ∃ pad < 8, octetBits fp.octets = List.replicate (8 * fp.sec) false ++
    (groupBits password).take (fp.fingerprintBits - 8 * fp.sec) ++ List.replicate pad false

theorem digitBits_groups {ds : List Digit} (h : ds.length % 4 = 0) :
    (groups ds).flatMap (toBits 20) = digitBits ds := by
  induction ds using groups.induct with
  | case1 a b c d rest ih =>
    have hrest : rest.length % 4 = 0 := by
      simp only [List.length_cons] at h
      omega
    have hgroup : toBits 20 (((a.val * 2 ^ 5 + b.val) * 2 ^ 5 + c.val) * 2 ^ 5 + d.val) =
        toBits 5 a.val ++ toBits 5 b.val ++ toBits 5 c.val ++ toBits 5 d.val := by
      rw [show (20 : ℕ) = 5 + 5 + 5 + 5 from rfl, toBits_mul_add _ d.isLt, toBits_mul_add _ c.isLt,
        toBits_mul_add _ b.isLt]
    rw [groups, List.flatMap_cons, ih hrest, hgroup]
    simp only [digitBits_cons, List.append_assoc]
  | case2 ds hshort =>
    obtain _ | ⟨a, _ | ⟨b, _ | ⟨c, _ | ⟨d, rest⟩⟩⟩⟩ := ds
    · rfl
    · simp at h
    · simp at h
    · simp at h
    · exact absurd rfl (hshort a b c d rest)

theorem length_groups {ds : List Digit} (h : ds.length % 4 = 0) :
    4 * (groups ds).length = ds.length := by
  have hbits := congrArg List.length (digitBits_groups h)
  simp only [List.length_flatMap, toBits_length, List.map_const', List.sum_replicate,
    smul_eq_mul, digitBits_length] at hbits
  omega

end Spec

section Buffer
variable {k : ℕ} {buf : Bytes}

theorem toBits_split_at (hk : k ≤ 8) (n : ℕ) :
    toBits 8 n = toBits k (n / 2 ^ (8 - k)) ++ toBits (8 - k) n := by
  rw [← toBits_add, Nat.add_sub_cancel' hk]

/-- The bits move to the left, and zeros come in from the right. -/
theorem octetBits_shiftLeft (hk : k ≤ 8) (hbuf : buf ≠ []) :
    octetBits (shiftLeft k buf) = (octetBits buf).drop k ++ List.replicate k false := by
  induction buf using shiftLeft.induct with
  | case1 => exact absurd rfl hbuf
  | case2 x =>
    have hshift : toBits (8 - k + k) (x.toNat <<< k ||| 0) = toBits (8 - k) x.toNat ++ toBits k 0 :=
      toBits_shiftLeft_or _ (Nat.two_pow_pos k)
    rw [Nat.sub_add_cancel hk, Nat.or_zero] at hshift
    rw [shiftLeft, octetBits_ofNat, hshift, toBits_zero, octetBits_cons, toBits_split_at hk,
      octetBits_nil, List.append_nil, List.drop_left' (toBits_length _ _)]
  | case3 x y rest ih =>
    have hlow : y.toNat >>> (8 - k) < 2 ^ k := by
      rw [Nat.shiftRight_eq_div_pow]
      apply Nat.div_lt_of_lt_mul
      rw [← pow_add, Nat.sub_add_cancel hk]
      exact y.toNat_lt
    have hshift : toBits (8 - k + k) (x.toNat <<< k ||| y.toNat >>> (8 - k)) =
        toBits (8 - k) x.toNat ++ toBits k (y.toNat >>> (8 - k)) :=
      toBits_shiftLeft_or _ hlow
    rw [Nat.sub_add_cancel hk, Nat.shiftRight_eq_div_pow] at hshift
    have hrest := ih (List.cons_ne_nil _ _)
    rw [octetBits_cons y, toBits_split_at hk y.toNat, List.append_assoc,
      List.drop_left' (toBits_length _ _)] at hrest
    rw [shiftLeft, ← List.singleton_append, octetBits_append, octetBits_ofNat,
      Nat.shiftRight_eq_div_pow, hshift, hrest, octetBits_cons x, toBits_split_at hk x.toNat,
      octetBits_cons y, toBits_split_at hk y.toNat]
    simp only [List.append_assoc]
    rw [List.drop_left' (toBits_length _ _)]
    simp only [List.append_assoc]

theorem length_shiftLeft (k : ℕ) (buf : Bytes) : (shiftLeft k buf).length = buf.length := by
  induction buf using shiftLeft.induct with
  | case1 => rfl
  | case2 x => rfl
  | case3 x y rest ih =>
    rw [shiftLeft, List.length_cons, ih]
    rfl

theorem saePkGetBe19_lt (buf : Bytes) : saePkGetBe19 buf < 2 ^ 19 := by
  have h₀ := buf.byteAt_lt 0
  have h₁ := buf.byteAt_lt 1
  have h₂ := buf.byteAt_lt 2
  unfold saePkGetBe19
  apply Nat.or_lt_two_pow
  · apply Nat.or_lt_two_pow
    · rw [Nat.shiftLeft_eq]
      omega
    · rw [Nat.shiftLeft_eq]
      omega
  · rw [Nat.shiftRight_eq_div_pow]
    omega

theorem toBits_saePkGetBe19 (hlen : 3 ≤ buf.length) :
    toBits 19 (saePkGetBe19 buf) = (octetBits buf).take 19 := by
  obtain _ | ⟨x, _ | ⟨y, _ | ⟨z, rest⟩⟩⟩ := buf
  · simp at hlen
  · simp at hlen
  · simp at hlen
  have hlow : z.toNat >>> 5 < 2 ^ 3 := by
    have hz := z.toNat_lt
    rw [Nat.shiftRight_eq_div_pow]
    omega
  have hform : saePkGetBe19 (x :: y :: z :: rest) =
      (x.toNat <<< 8 ||| y.toNat) <<< 3 ||| z.toNat >>> 5 := by
    rw [Nat.shiftLeft_or_distrib, ← Nat.shiftLeft_add]
    rfl
  have hbits : toBits (8 + 8 + 3) ((x.toNat <<< 8 ||| y.toNat) <<< 3 ||| z.toNat >>> 5) =
      toBits 8 x.toNat ++ toBits 8 y.toNat ++ toBits 3 (z.toNat / 2 ^ 5) := by
    rw [toBits_shiftLeft_or _ hlow, toBits_shiftLeft_or _ y.toNat_lt, Nat.shiftRight_eq_div_pow]
  have hsplit : toBits 8 z.toNat = toBits 3 (z.toNat / 2 ^ 5) ++ toBits 5 z.toNat := toBits_add 3 5 _
  rw [hform, show (19 : ℕ) = 8 + 8 + 3 from rfl, hbits, octetBits_cons, octetBits_cons,
    octetBits_cons, hsplit]
  symm
  rw [← List.append_assoc, ← List.append_assoc, ← List.append_assoc]
  rw [List.append_assoc _ (toBits 5 _) _]
  apply List.take_left'
  simp only [List.length_append, toBits_length]

theorem octetBits_saePkBufShiftLeft19 (hlen : 3 ≤ buf.length) :
    octetBits (saePkBufShiftLeft19 buf) =
      (octetBits buf).drop 19 ++ List.replicate 19 false := by
  have hdrop : buf.drop 2 ≠ [] := by
    intro h
    have hnil := congrArg List.length h
    rw [List.length_drop, List.length_nil] at hnil
    omega
  have hfront : octetBits (buf.drop 2) = (octetBits buf).drop 16 := by
    have hsplit : octetBits buf = octetBits (buf.take 2) ++ octetBits (buf.drop 2) := by
      rw [← octetBits_append, List.take_append_drop]
    rw [hsplit, List.drop_left']
    rw [octetBits_length, List.length_take, Nat.min_eq_left (by omega)]
  have hzero : octetBits [0, 0] = List.replicate 16 false := octetBits_zeros 2
  rw [saePkBufShiftLeft19, octetBits_append, octetBits_shiftLeft (by decide) hdrop, hfront, hzero,
    List.drop_drop, List.append_assoc, List.replicate_append_replicate]

end Buffer

section Loop
variable {all : List Bool} {total : ℕ} {s : PackState}

/-- The bits that are written, those in `val` and those of the groups in the buffer are in a row the
bits of all groups. -/
structure Packing (all : List Bool) (total : ℕ) (s : PackState) : Prop where
  stream : ∃ (gs : List ℕ) (y z : ℕ), octetBits s.pw = gs.flatMap (toBits 20) ++ List.replicate y false ∧
    octetBits s.out ++ toBits s.valBits s.val ++ gs.flatMap (toBits 19) =
      all ++ List.replicate z false
  len : 3 ≤ s.pw.length
  bits : s.bits + 8 * s.out.length = total

/-- A refill moves one group; behind the last there are zeros. -/
theorem Packing.refill (h : Packing all total s) (hval : s.valBits ≤ 13) :
    Packing all total (refill s) := by
  obtain ⟨gs, y, z, hpw, hstream⟩ := h.stream
  have hlen := h.len
  have hne : s.pw ≠ [] := List.ne_nil_of_length_pos (by omega)
  have hsize : (octetBits s.pw).length = 8 * s.pw.length := octetBits_length _
  have hlen₁ : 3 ≤ (saePkBufShiftLeft1 s.pw).length := by
    rw [saePkBufShiftLeft1, length_shiftLeft]
    exact hlen
  have hbits₁ : octetBits (saePkBufShiftLeft1 s.pw) =
      (octetBits s.pw).drop 1 ++ List.replicate 1 false :=
    octetBits_shiftLeft (by decide) hne
  have hnew : toBits (s.valBits + 19) (SaePk.refill s).val = toBits s.valBits s.val ++
      ((octetBits s.pw).drop 1).take 19 := by
    show toBits (s.valBits + 19) ((s.val <<< 19 ||| saePkGetBe19 _) % 2 ^ 32) = _
    rw [toBits_mod (by omega), toBits_shiftLeft_or _ (saePkGetBe19_lt _),
      toBits_saePkGetBe19 hlen₁, hbits₁, List.take_append_of_le_length]
    rw [List.length_drop]
    omega
  have hrest : octetBits (saePkBufShiftLeft19 (saePkBufShiftLeft1 s.pw)) =
      (octetBits s.pw).drop 20 ++ List.replicate 20 false := by
    rw [octetBits_saePkBufShiftLeft19 hlen₁, hbits₁, List.drop_append_of_le_length, List.drop_drop,
      List.append_assoc, List.replicate_append_replicate]
    rw [List.length_drop]
    omega
  refine ⟨?_, ?_, h.bits⟩
  · cases gs with
    | nil =>
      -- the buffer is used up, and a group of zeros is read
      rw [List.flatMap_nil, List.nil_append] at hpw
      rw [hpw, List.length_replicate] at hsize
      rw [List.flatMap_nil, List.append_nil] at hstream
      refine ⟨[], y, z + 19, ?_, ?_⟩
      · show octetBits (saePkBufShiftLeft19 _) = _
        rw [hrest, hpw, List.drop_replicate, List.replicate_append_replicate, List.flatMap_nil]
        congr 1
        omega
      · show octetBits s.out ++ toBits (s.valBits + 19) _ ++ _ = _
        rw [hnew, hpw, List.drop_replicate, List.take_replicate, List.flatMap_nil, List.append_nil,
          ← List.append_assoc, hstream, List.append_assoc, List.replicate_append_replicate,
          Nat.min_eq_left (by omega)]
    | cons g gs =>
      have hgroup : toBits 20 g = toBits 1 (g / 2 ^ 19) ++ toBits 19 g := toBits_add 1 19 g
      rw [List.flatMap_cons, List.append_assoc] at hpw
      refine ⟨gs, y + 20, z, ?_, ?_⟩
      · show octetBits (saePkBufShiftLeft19 _) = _
        rw [hrest, hpw, List.drop_left' (toBits_length _ _), List.append_assoc,
          List.replicate_append_replicate]
      · show octetBits s.out ++ toBits (s.valBits + 19) _ ++ _ = _
        rw [hnew, hpw, hgroup, List.append_assoc (toBits 1 _), List.drop_left' (toBits_length _ _),
          List.take_left' (toBits_length _ _), ← hstream, List.flatMap_cons]
        simp only [List.append_assoc]
  · show 3 ≤ (saePkBufShiftLeft19 (saePkBufShiftLeft1 s.pw)).length
    rw [saePkBufShiftLeft19, List.length_append, length_shiftLeft, List.length_drop]
    show 3 ≤ (saePkBufShiftLeft1 s.pw).length - 2 + 2
    omega

/-- Eight bits go to the output. -/
theorem Packing.write (h : Packing all total s) (hval : 8 ≤ s.valBits) :
    Packing all total { s with
      out := s.out ++ [UInt8.ofNat ((s.val >>> (s.valBits - 8)) &&& 0xff)]
      valBits := s.valBits - 8
      bits := s.bits - 8 } := by
  obtain ⟨gs, y, z, hpw, hstream⟩ := h.stream
  have hoctet : toBits 8 ((s.val >>> (s.valBits - 8)) &&& 0xff) =
      toBits 8 (s.val / 2 ^ (s.valBits - 8)) := by
    rw [Nat.and_two_pow_sub_one_eq_mod _ 8, Nat.shiftRight_eq_div_pow, toBits_mod le_rfl]
  have hsplit : toBits s.valBits s.val =
      toBits 8 (s.val / 2 ^ (s.valBits - 8)) ++ toBits (s.valBits - 8) s.val := by
    rw [← toBits_add, Nat.add_sub_cancel' hval]
  refine ⟨⟨gs, y, z, hpw, ?_⟩, h.len, ?_⟩
  · show octetBits (s.out ++ [_]) ++ _ ++ _ = _
    rw [octetBits_append, octetBits_ofNat, hoctet, ← hstream, hsplit]
    simp only [List.append_assoc]
  · have hbits := h.bits
    show s.bits - 8 + 8 * ((s.out ++ [_]).length : ℕ) = (total : ℤ)
    rw [List.length_append, List.length_singleton]
    push_cast
    omega

/-- The loop ends with less than eight bits to write, and with these in `val`. -/
theorem Packing.loop {fuel : ℕ} (h : Packing all total s) (hfuel : s.bits ≤ fuel)
    (hnonneg : 0 ≤ s.bits) :
    Packing all total (packLoop fuel s) ∧ 0 ≤ (packLoop fuel s).bits ∧
      (packLoop fuel s).bits < 8 ∧
      (0 < (packLoop fuel s).bits → 8 ≤ (packLoop fuel s).valBits) := by
  induction fuel generalizing s with
  | zero =>
    have hzero : s.bits = 0 := le_antisymm hfuel hnonneg
    exact ⟨h, hnonneg, by rw [packLoop, hzero]; decide, fun hpos => absurd hzero hpos.ne'⟩
  | succ fuel ih =>
    rw [packLoop]
    by_cases hdone : s.bits ≤ 0
    · rw [if_pos hdone]
      exact ⟨h, hnonneg, by omega, fun hpos => absurd hdone (not_le.mpr hpos)⟩
    rw [if_neg hdone]
    obtain ⟨t, ht, hpacking, hbits, hval⟩ : ∃ t, (if s.valBits < 8 then SaePk.refill s else s) = t ∧
        Packing all total t ∧ t.bits = s.bits ∧ 8 ≤ t.valBits := by
      split
      · exact ⟨_, rfl, h.refill (by omega), rfl, Nat.le_add_left_of_le (by decide)⟩
      · exact ⟨_, rfl, h, rfl, by omega⟩
    dsimp only
    rw [ht, if_pos hval]
    by_cases hlast : t.bits < 8
    · rw [if_pos hlast]
      exact ⟨hpacking, by omega, hlast, fun _ => hval⟩
    · rw [if_neg hlast]
      apply ih (hpacking.write hval)
      · show t.bits - 8 ≤ (fuel : ℤ)
        omega
      · show 0 ≤ t.bits - 8
        omega

/-- The octets are the first `total` bits. -/
theorem Packing.octets (h : Packing all total s) (htotal : total ≤ all.length)
    (hnonneg : 0 ≤ s.bits) (hlt : s.bits < 8) (hval : 0 < s.bits → 8 ≤ s.valBits) :
    ∃ pad < 8, octetBits (packEnd s) = all.take total ++ List.replicate pad false := by
  obtain ⟨gs, y, z, _, hstream⟩ := h.stream
  have hbits := h.bits
  have htake : (all ++ List.replicate z false).take total = all.take total :=
    List.take_append_of_le_length htotal
  unfold packEnd
  split
  · rename_i hpos
    have hroom := hval hpos
    have hsplit : toBits s.valBits s.val = toBits s.bits.toNat
        (s.val / 2 ^ (s.valBits - s.bits.toNat)) ++ toBits (s.valBits - s.bits.toNat) s.val := by
      rw [← toBits_add]
      congr 1
      omega
    have hshift : toBits (s.bits.toNat + (8 - s.bits.toNat))
        ((s.val >>> (s.valBits - s.bits.toNat)) <<< (8 - s.bits.toNat) ||| 0) =
        toBits s.bits.toNat (s.val >>> (s.valBits - s.bits.toNat)) ++
          toBits (8 - s.bits.toNat) 0 :=
      toBits_shiftLeft_or _ (Nat.two_pow_pos _)
    rw [Nat.add_sub_cancel' (by omega), Nat.or_zero, toBits_zero] at hshift
    refine ⟨8 - s.bits.toNat, by omega, ?_⟩
    rw [octetBits_append, octetBits_ofNat, hshift, Nat.shiftRight_eq_div_pow, ← htake, ← hstream,
      hsplit, ← List.append_assoc]
    congr 1
    symm
    rw [← List.append_assoc, List.append_assoc]
    apply List.take_left'
    rw [List.length_append, octetBits_length, toBits_length]
    omega
  · refine ⟨0, by decide, ?_⟩
    rw [← htake, ← hstream, List.append_assoc, List.replicate_zero, List.append_nil]
    symm
    apply List.take_left'
    rw [octetBits_length]
    omega

end Loop

section Password
variable {password : Bytes}

theorem noPad_of_checkChars {pos : ℕ} {str : Bytes} (h : checkChars str pos = some true) :
    NoPad str := by
  induction str generalizing pos with
  | nil =>
    intro c hc
    exact absurd hc List.not_mem_nil
  | cons c str ih =>
    rw [checkChars] at h
    split at h
    · rename_i hok
      split at h
      · cases h
      · intro x hx
        rcases List.mem_cons.mp hx with rfl | hx
        · rintro rfl
          unfold charOk at hok
          split at hok
          · exact absurd hok (by decide)
          · exact absurd hok (by decide)
        · exact ih h x hx
    · cases h

/-- The characters without the hyphens. -/
theorem length_digits_of_checkChars {pos : ℕ} {str : Bytes} (h : checkChars str pos = some true) :
    (str.filterMap dtable).length + (pos + str.length) / 5 = str.length + pos / 5 := by
  induction str generalizing pos with
  | nil => rw [List.filterMap_nil]; rfl
  | cons c str ih =>
    rw [checkChars] at h
    split at h
    · rename_i hok
      split at h
      · cases h
      · have hnext := ih h
        rw [List.length_cons]
        unfold charOk at hok
        split at hok
        · rw [beq_iff_eq] at hok
          rw [hok, List.filterMap_cons_none dtable_hyphen]
          omega
        · obtain ⟨d, hd⟩ := Option.isSome_iff_exists.mp hok
          rw [List.filterMap_cons_some hd, List.length_cons]
          omega
    · cases h

/-- What is accepted has its digits in groups of four. -/
theorem digits_of_valid (h : saePkValidPassword password = some true) : NoPad password ∧
    14 ≤ password.length ∧ password.length % 5 = 4 ∧
    (password.filterMap dtable).length + password.length / 5 = password.length := by
  unfold saePkValidPassword at h
  split at h
  · cases h
  rename_i hlen
  rw [not_or, not_lt, not_not] at hlen
  obtain ⟨ok, hchars, hok⟩ := Option.map_eq_some_iff.mp h
  simp only [Bool.and_eq_true] at hok
  rw [hok.1.1] at hchars
  have hcount := length_digits_of_checkChars hchars
  rw [Nat.zero_add] at hcount
  exact ⟨noPad_of_checkChars hchars, hlen.1, hlen.2, hcount⟩

theorem length_groupBits (h : saePkValidPassword password = some true) :
    5 * (groupBits password).length = 19 * (password.length + 1) := by
  obtain ⟨_, _, hfive, hcount⟩ := digits_of_valid h
  have hgroups := length_groups (show (password.filterMap dtable).length % 4 = 0 by omega)
  have hbits : (groupBits password).length = 19 * (groups (password.filterMap dtable)).length := by
    simp only [groupBits, List.length_flatMap, toBits_length, List.map_const', List.sum_replicate,
      smul_eq_mul, Nat.mul_comm]
  omega

/-- A fingerprint that fits the array is the right one. -/
theorem fingerprintOf_holds (h : saePkValidPassword password = some true)
    (hshort : password.length ≤ 124) :
    ∃ fp, fingerprintOf password = some fp ∧ fp.octets.length ≤ saeMaxHashLen ∧
      fp.Holds password := by
  obtain ⟨hnoPad, hlong, hfive, hcount⟩ := digits_of_valid h
  have hbits := length_groupBits h
  have hsome : password.filterMap dtable ≠ [] := List.ne_nil_of_length_pos (by omega)
  obtain ⟨pw, hpw, hpwLen, hpwBits⟩ := saePkBase32Decode_eq hnoPad hsome
  rw [← digitBits_groups (by omega)] at hpwBits
  obtain ⟨sec, hsec, hsec35⟩ : ∃ sec, (if pw.byteAt 0 &&& 0x80 ≠ 0 then 3 else 5) = sec ∧
      (sec = 3 ∨ sec = 5) := by
    split
    · exact ⟨3, rfl, .inl rfl⟩
    · exact ⟨5, rfl, .inr rfl⟩
  have hdiff : 8 * sec + 19 * (password.length - password.length / 5) / 4 - 5 - 8 * sec =
      (groupBits password).length - 5 := by omega
  have hroom : ∀ n pad : ℕ, pad < 8 →
      8 * n = 8 * sec + ((groupBits password).length - 5) + pad → n ≤ saeMaxHashLen := by
    intro n pad hpad hn
    unfold saeMaxHashLen
    omega
  have hint : (((groupBits password).length - 5 : ℕ) : ℤ).bmod (2 ^ 32) =
      ((groupBits password).length - 5 : ℕ) :=
    Int.bmod_eq_of_le_mul_two (by omega) (by omega)
  have hstart : Packing (groupBits password) ((groupBits password).length - 5)
      ⟨[], ((groupBits password).length - 5 : ℕ), 0, 0, pw⟩ :=
    ⟨⟨_, _, 0, hpwBits, (List.append_nil _).symm⟩, by show 3 ≤ pw.length; omega, by simp⟩
  obtain ⟨hpacking, hnonneg, hlt, hval⟩ :=
    @Packing.loop _ _ _ ((groupBits password).length - 5) hstart le_rfl (Int.natCast_nonneg _)
  obtain ⟨pad, hpad, hoctets⟩ := hpacking.octets (Nat.sub_le _ _) hnonneg hlt hval
  refine ⟨⟨sec, password.length - password.length / 5,
    8 * sec + 19 * (password.length - password.length / 5) / 4 - 5,
    zeros sec ++ packEnd (packLoop ((groupBits password).length - 5)
      ⟨[], ((groupBits password).length - 5 : ℕ), 0, 0, pw⟩)⟩, ?_, ?_⟩
  · rw [fingerprintOf, hpw, Option.map_some]
    dsimp only
    rw [hsec, hdiff, hint, Int.toNat_natCast]
  have hfpBits : octetBits (zeros sec ++ packEnd (packLoop ((groupBits password).length - 5)
      ⟨[], ((groupBits password).length - 5 : ℕ), 0, 0, pw⟩)) =
      List.replicate (8 * sec) false ++
        (groupBits password).take ((groupBits password).length - 5) ++
        List.replicate pad false := by
    rw [octetBits_append, octetBits_zeros, hoctets, List.append_assoc]
  constructor
  · have hlength := congrArg List.length hfpBits
    rw [octetBits_length] at hlength
    simp only [List.length_append, List.length_replicate, List.length_take,
      Nat.min_eq_left (Nat.sub_le _ _)] at hlength
    rw [← List.length_append] at hlength
    exact hroom _ pad hpad hlength
  · refine ⟨pad, hpad, ?_⟩
    dsimp only
    rw [hdiff]
    exact hfpBits

/-- A long password has too many groups for the array. -/
theorem length_of_holds {fp : Fingerprint} (h : saePkValidPassword password = some true)
    (hfp : fingerprintOf password = some fp) (hfit : fp.octets.length ≤ saeMaxHashLen)
    (hholds : fp.Holds password) : password.length ≤ 124 := by
  obtain ⟨_, hlong, hfive, _⟩ := digits_of_valid h
  have hbits := length_groupBits h
  obtain ⟨pad, _, hoctets⟩ := hholds
  obtain ⟨pw, _, rfl⟩ := Option.map_eq_some_iff.mp hfp
  obtain ⟨sec, hsec, hsec35⟩ : ∃ sec, (if pw.byteAt 0 &&& 0x80 ≠ 0 then 3 else 5) = sec ∧
      (sec = 3 ∨ sec = 5) := by
    split
    · exact ⟨3, rfl, .inl rfl⟩
    · exact ⟨5, rfl, .inr rfl⟩
  have hlength := congrArg List.length hoctets
  rw [octetBits_length] at hlength
  dsimp only at hlength hfit
  rw [hsec] at hlength hfit
  simp only [List.length_append, List.length_replicate, List.length_take] at hlength
  rw [← List.length_append] at hlength
  unfold saeMaxHashLen at hfit
  omega

/-- Encoding keeps to its memory and decoding gives the bits back; and the fingerprint of an
accepted password is right and in its array exactly up to 124 characters. -/
theorem saePk_codec (src : Bytes) (lenBits : ℕ) (password : Bytes) :
    (1 ≤ lenBits → lenBits ≤ 8 * src.length →
      (saePkBase32Encode src lenBits = none ∧ sizeMax / 8 ≤ (lenBits + 7) / 8) ∨
      ∃ e out, saePkBase32Encode src lenBits = some e ∧ e.text.length + 1 ≤ e.alloc ∧
        saePkBase32Decode e.text = some out ∧
        (octetBits out).take lenBits = (octetBits src).take lenBits) ∧
    (saePkValidPassword password = some true →
      ((∃ fp, saePkSetPassword true password = some (some fp) ∧
          fp.octets.length ≤ saeMaxHashLen ∧ fp.Holds password) ↔
        password.length ≤ 124)) := by
  constructor
  · intro hpos hcovered
    by_cases hmax : (lenBits + 7) / 8 < sizeMax / 8
    · exact .inr (decode_encode hpos hcovered hmax)
    · refine .inl ⟨?_, not_lt.mp hmax⟩
      exact if_pos (.inr (not_lt.mp hmax))
  · intro hvalid
    have hset : saePkSetPassword true password = some (fingerprintOf password) := by
      obtain ⟨_, hlong, _⟩ := digits_of_valid hvalid
      have hnonempty : ¬ (¬ true = true ∨ password.length < 1) := by
        rw [not_or, not_not, not_lt]
        exact ⟨rfl, by omega⟩
      rw [saePkSetPassword, if_neg hnonempty, hvalid]
      rfl
    rw [hset]
    constructor
    · rintro ⟨fp, hfp, hfit, hholds⟩
      exact length_of_holds hvalid (Option.some.inj hfp) hfit hholds
    · intro hshort
      obtain ⟨fp, hfp, hfit, hholds⟩ := fingerprintOf_holds hvalid hshort
      exact ⟨fp, congrArg some hfp, hfit, hholds⟩

/-- `aaaa-` 25 times, then `aaax`. -/
def longPassword : Bytes :=
  (List.replicate 25 [97, 97, 97, 97, hyphen]).flatten ++ [97, 97, 97, 120]

/-- Three octets are written behind the array. -/
theorem longPassword_overrun : saePkValidPassword longPassword = some true ∧
    (saePkSetPassword true longPassword).map (fun fp => fp.map fun fp => fp.octets.length) =
      some (some (saeMaxHashLen + 3)) := by
  have hvalid : saePkValidPassword longPassword = some true := by decide +kernel
  refine ⟨hvalid, ?_⟩
  rw [saePkSetPassword, if_neg (by decide +kernel), hvalid]
  decide +kernel

end Password
end Wpa.SaePk
