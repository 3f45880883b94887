import Wpa.Lib.BitString
import Wpa.SaePk.Password

/-! `sae_pk_base32_encode` and `sae_pk_base32_decode`. The decoder finds the bits of the source in
the characters that the encoder writes, and the encoder has room for them. -/

namespace Wpa.SaePk
open Lib Bytes

section Encoder

/-- `out` has the octets from `start` to `pos`. -/
def addChar (s : Bytes × ℕ) (idx : Digit) : Bytes × ℕ :=
  if s.2 = 0 then s
  else
    ((if s.1.length % 5 = 4 then s.1 ++ [hyphen] else s.1) ++ [base32Char idx],
      if 5 < s.2 then s.2 - 5 else 0)

/-- The eight characters of a full block. -/
def blockDigits (block : ℕ) : List Digit :=
  [7, 6, 5, 4, 3, 2, 1, 0].map fun j => Fin.ofNat 32 ((block >>> (j * 5)) &&& 0x1f)

/-- The loop over the octets that are left, from index `i` on. -/
def encodeLoop : Bytes → ℕ → ℕ → Bytes × ℕ → Bytes × ℕ
  | [], _, _, s => s
  | val :: vals, i, block, s =>
    let block := block <<< 8 ||| val.toNat
    if i % 5 = 4 then encodeLoop vals (i + 1) 0 ((blockDigits block).foldl addChar s)
    else encodeLoop vals (i + 1) block s

/-- A string in `alloc` octets of zeroed memory. -/
structure Encoded where
  alloc : ℕ
  text : Bytes

def sizeMax : ℕ := 2 ^ 64 - 1

def saePkBase32Encode (src : Bytes) (lenBits : ℕ) : Option Encoded :=
  let len := (lenBits + 7) / 8
  if len = 0 ∨ sizeMax / 8 ≤ len then none
  else
    let olen := len * 8 / 5 + 1
    let olen := olen + olen / 4
    let extraPad := (5 - len % 5) % 5
    let out := (encodeLoop (src.take len ++ zeros extraPad) 0 0 ([], lenBits)).1
    some ⟨olen + 2, out ++ [dCheckChar out]⟩

end Encoder

section Decoder

def padChar : UInt8 := 61

/-- `dtable` of the decoder, which knows the pad character. -/
def decodeTable (c : UInt8) : Option Digit := if c = padChar then some 0 else dtable c

/-- The octets of a full block. -/
def blockOctets (block : ℕ) : Bytes :=
  [32, 24, 16, 8, 0].map fun k => UInt8.ofNat ((block >>> k) &&& 0xff)

/-- The loop over the characters that are left. -/
def decodeLoop : Bytes → ℕ → ℕ → ℕ → Bytes → Bytes
  | [], _, _, _, out => out
  | val :: vals, block, count, pad, out =>
    match decodeTable val with
    | none => decodeLoop vals block count pad out
    | some tmp =>
      let pad := if val = padChar then pad + 1 else pad
      let block := block <<< 5 ||| tmp.val
      if count + 1 = 8 then
        let out := out ++ blockOctets block
        if pad ≠ 0 then out.take (out.length - pad * 5 / 8)
        else decodeLoop vals 0 0 pad out
      else decodeLoop vals block (count + 1) pad out

def saePkBase32Decode (src : Bytes) : Option Bytes :=
  let count := (src.filterMap decodeTable).length
  if count = 0 then none
  else
    let extraPad := (8 - count % 8) % 8
    some (decodeLoop (src ++ List.replicate extraPad padChar) 0 0 0 [])

end Decoder

section Digits

def digitBits (ds : List Digit) : List Bool := ds.flatMap fun d => toBits 5 d.val

@[simp] theorem digitBits_append (a b : List Digit) :
    digitBits (a ++ b) = digitBits a ++ digitBits b :=
  List.flatMap_append

theorem digitBits_cons (d : Digit) (ds : List Digit) :
    digitBits (d :: ds) = toBits 5 d.val ++ digitBits ds :=
  List.flatMap_cons

@[simp] theorem digitBits_length (ds : List Digit) : (digitBits ds).length = 5 * ds.length := by
  induction ds with
  | nil => rfl
  | cons d ds ih =>
    rw [digitBits_cons, List.length_append, toBits_length, ih, List.length_cons]
    omega

theorem digitBits_take (ds : List Digit) (n : ℕ) :
    digitBits (ds.take n) = (digitBits ds).take (5 * n) := by
  have hsplit : digitBits ds = digitBits (ds.take n) ++ digitBits (ds.drop n) := by
    rw [← digitBits_append, List.take_append_drop]
  rcases Nat.le_total n ds.length with hn | hn
  · rw [hsplit]
    refine (List.take_left' ?_).symm
    rw [digitBits_length, List.length_take, Nat.min_eq_left hn]
  · rw [List.take_of_length_le hn, List.take_of_length_le]
    rw [digitBits_length]
    omega

/-- The digits of a block are its forty bits. -/
theorem digitBits_blockDigits (block : ℕ) : digitBits (blockDigits block) = toBits 40 block := by
  have hdigit : ∀ j : ℕ, toBits 5 (Fin.ofNat 32 ((block >>> (j * 5)) &&& 0x1f)).val =
      toBits 5 (block / 2 ^ (j * 5)) := by
    intro j
    have hmask : (block >>> (j * 5)) &&& 0x1f = (block / 2 ^ (j * 5)) % 2 ^ 5 := by
      rw [Nat.and_two_pow_sub_one_eq_mod _ 5, Nat.shiftRight_eq_div_pow]
    rw [Fin.val_ofNat, hmask, show (32 : ℕ) = 2 ^ 5 from rfl, toBits_mod le_rfl, toBits_mod le_rfl]
  have hsplit := toBits_add 5 35 block
  rw [toBits_add 5 30, toBits_add 5 25, toBits_add 5 20, toBits_add 5 15, toBits_add 5 10,
    toBits_add 5 5] at hsplit
  rw [show (40 : ℕ) = 5 + 35 from rfl, hsplit]
  simp only [digitBits, blockDigits, List.flatMap_map, List.flatMap_cons, List.flatMap_nil, hdigit]
  simp

/-- The octets of a block are its forty bits. -/
theorem octetBits_blockOctets (block : ℕ) : octetBits (blockOctets block) = toBits 40 block := by
  have hoctet : ∀ k : ℕ, toBits 8 (UInt8.ofNat ((block >>> k) &&& 0xff)).toNat =
      toBits 8 (block / 2 ^ k) := by
    intro k
    have hmask : (block >>> k) &&& 0xff = (block / 2 ^ k) % 2 ^ 8 := by
      rw [Nat.and_two_pow_sub_one_eq_mod _ 8, Nat.shiftRight_eq_div_pow]
    rw [hmask, UInt8.toNat_ofNat', toBits_mod le_rfl, toBits_mod le_rfl]
  have hsplit := toBits_add 8 32 block
  rw [toBits_add 8 24, toBits_add 8 16, toBits_add 8 8] at hsplit
  rw [show (40 : ℕ) = 8 + 32 from rfl, hsplit]
  simp only [octetBits, blockOctets, List.flatMap_map, List.flatMap_cons, List.flatMap_nil, hoctet]
  simp

end Digits

section Encoding
variable {s : Bytes × ℕ}

/-- The length of `k` characters with their hyphens. -/
def textLen (k : ℕ) : ℕ := k + (k - 1) / 4

/-- The number of characters for `bits` bits. -/
def charCount (bits : ℕ) : ℕ := (bits + 4) / 5

def NoPad (str : Bytes) : Prop := ∀ c ∈ str, c ≠ padChar

theorem base32Char_ne_padChar : ∀ d : Digit, base32Char d ≠ padChar := by
  decide

theorem dtable_hyphen : dtable hyphen = none := by
  decide

theorem addChar_of_pos (s : Bytes × ℕ) (idx : Digit) (h : 0 < s.2) :
    addChar s idx = ((if s.1.length % 5 = 4 then s.1 ++ [hyphen] else s.1) ++ [base32Char idx],
      s.2 - 5) := by
  rw [addChar, if_neg h.ne']
  split
  · split
    · rfl
    · rw [Nat.sub_eq_zero_of_le (by omega)]
  · split
    · rfl
    · rw [Nat.sub_eq_zero_of_le (by omega)]

theorem filterMap_addChar (s : Bytes × ℕ) (idx : Digit) (h : 0 < s.2) :
    (addChar s idx).1.filterMap dtable = s.1.filterMap dtable ++ [idx] := by
  rw [addChar_of_pos s idx h, List.filterMap_append,
    List.filterMap_cons_some (dtable_base32Char idx)]
  congr 1
  split
  · rw [List.filterMap_append, List.filterMap_cons_none dtable_hyphen]
    exact List.append_nil _
  · rfl

theorem noPad_addChar (s : Bytes × ℕ) (idx : Digit) (h : NoPad s.1) : NoPad (addChar s idx).1 := by
  unfold addChar
  split
  · exact h
  intro c hc
  rcases List.mem_append.mp hc with hc | hc
  · split at hc
    · rcases List.mem_append.mp hc with hc | hc
      · exact h c hc
      · rw [List.mem_singleton.mp hc]
        decide
    · exact h c hc
  · rw [List.mem_singleton.mp hc]
    exact base32Char_ne_padChar idx

theorem foldl_addChar_zero (ds : List Digit) (out : Bytes) :
    ds.foldl addChar (out, 0) = (out, 0) := by
  induction ds with
  | nil => rfl
  | cons d ds ih => exact ih

/-- The characters are the digits that the bits need. -/
theorem filterMap_foldl_addChar (ds : List Digit) (s : Bytes × ℕ) :
    (ds.foldl addChar s).1.filterMap dtable = s.1.filterMap dtable ++ ds.take (charCount s.2) := by
  induction ds generalizing s with
  | nil => rw [List.take_nil, List.append_nil]; rfl
  | cons d ds ih =>
    rcases Nat.eq_zero_or_pos s.2 with hzero | hpos
    · obtain ⟨out, bits⟩ := s
      subst hzero
      have hnone : charCount 0 = 0 := rfl
      rw [foldl_addChar_zero, hnone, List.take_zero, List.append_nil]
    · have hcount : charCount s.2 = charCount (s.2 - 5) + 1 := by
        unfold charCount
        omega
      rw [List.foldl_cons, ih, filterMap_addChar s d hpos, addChar_of_pos s d hpos, hcount,
        List.take_succ_cons, List.append_assoc]
      rfl

theorem noPad_foldl_addChar (ds : List Digit) (s : Bytes × ℕ) (h : NoPad s.1) :
    NoPad (ds.foldl addChar s).1 := by
  induction ds generalizing s with
  | nil => exact h
  | cons d ds ih => exact ih _ (noPad_addChar s d h)

theorem length_foldl_addChar {k : ℕ} (ds : List Digit) (s : Bytes × ℕ) (h : s.1.length = textLen k) :
    (ds.foldl addChar s).1.length = textLen (k + min ds.length (charCount s.2)) := by
  induction ds generalizing s k with
  | nil => rw [List.length_nil, Nat.zero_min]; exact h
  | cons d ds ih =>
    rcases Nat.eq_zero_or_pos s.2 with hzero | hpos
    · obtain ⟨out, bits⟩ := s
      subst hzero
      have hnone : charCount 0 = 0 := rfl
      rw [foldl_addChar_zero, hnone, Nat.min_zero]
      exact h
    · have hcount : charCount s.2 = charCount (s.2 - 5) + 1 := by
        unfold charCount
        omega
      have hnext : (addChar s d).1.length = textLen (k + 1) := by
        rw [addChar_of_pos s d hpos, List.length_append, List.length_singleton]
        unfold textLen at h ⊢
        split
        · rw [List.length_append, List.length_singleton]
          omega
        · omega
      have hbits : (addChar s d).2 = s.2 - 5 := by rw [addChar_of_pos s d hpos]
      rw [List.foldl_cons, ih _ hnext, hbits, hcount, List.length_cons, Nat.succ_min_succ]
      congr 1
      omega

/-- The loop adds the digits of the octets, in front of which `block` is left. -/
theorem encodeLoop_eq (vals : Bytes) (i block : ℕ) (s : Bytes × ℕ)
    (hfull : (i + vals.length) % 5 = 0) :
    ∃ ds, encodeLoop vals i block s = ds.foldl addChar s ∧
      digitBits ds = toBits (8 * (i % 5)) block ++ octetBits vals := by
  induction vals generalizing i block s with
  | nil =>
    refine ⟨[], rfl, ?_⟩
    rw [List.length_nil, Nat.add_zero] at hfull
    rw [hfull]
    rfl
  | cons val vals ih =>
    rw [List.length_cons] at hfull
    have hnext : (i + 1 + vals.length) % 5 = 0 := by omega
    have hbits : toBits (8 * (i % 5) + 8) (block <<< 8 ||| val.toNat) =
        toBits (8 * (i % 5)) block ++ toBits 8 val.toNat :=
      toBits_shiftLeft_or _ val.toNat_lt
    by_cases hlast : i % 5 = 4
    · obtain ⟨ds, hds, hdsbits⟩ := ih (i + 1) 0
        ((blockDigits (block <<< 8 ||| val.toNat)).foldl addChar s) hnext
      have hzero : (i + 1) % 5 = 0 := by omega
      refine ⟨blockDigits (block <<< 8 ||| val.toNat) ++ ds, ?_, ?_⟩
      · rw [encodeLoop, if_pos hlast, hds, List.foldl_append]
      · rw [hlast] at hbits
        have hforty : toBits 40 (block <<< 8 ||| val.toNat) =
            toBits (8 * 4) block ++ toBits 8 val.toNat := hbits
        rw [digitBits_append, digitBits_blockDigits, hdsbits, hzero, hlast, octetBits_cons, hforty,
          List.append_assoc]
        rfl
    · obtain ⟨ds, hds, hdsbits⟩ := ih (i + 1) (block <<< 8 ||| val.toNat) s hnext
      have hsucc : 8 * ((i + 1) % 5) = 8 * (i % 5) + 8 := by omega
      refine ⟨ds, ?_, ?_⟩
      · rw [encodeLoop, if_neg hlast, hds]
      · rw [hdsbits, hsucc, hbits, octetBits_cons, List.append_assoc]

end Encoding

section Decoding

theorem decodeTable_of_ne {c : UInt8} (h : c ≠ padChar) : decodeTable c = dtable c := if_neg h

theorem filterMap_decodeTable {str : Bytes} (h : NoPad str) :
    str.filterMap decodeTable = str.filterMap dtable := by
  apply List.filterMap_congr
  intro c hc
  exact decodeTable_of_ne (h c hc)

/-- Without a pad character every full block is written, and the rest is in `block`. -/
theorem decodeLoop_noPad (str tail : Bytes) (h : NoPad str) (block count : ℕ) (out : Bytes)
    (hcount : count < 8) :
    ∃ block' out', decodeLoop (str ++ tail) block count 0 out =
        decodeLoop tail block' ((count + (str.filterMap dtable).length) % 8) 0 out' ∧
      octetBits out' ++ toBits (5 * ((count + (str.filterMap dtable).length) % 8)) block' =
        octetBits out ++ toBits (5 * count) block ++ digitBits (str.filterMap dtable) := by
  induction str generalizing block count out with
  | nil =>
    refine ⟨block, out, ?_, ?_⟩
    · rw [List.filterMap_nil, List.length_nil, Nat.add_zero, Nat.mod_eq_of_lt hcount]
      rfl
    · rw [List.filterMap_nil, List.length_nil, Nat.add_zero, Nat.mod_eq_of_lt hcount]
      exact (List.append_nil _).symm
  | cons c str ih =>
    obtain ⟨hc, hstr⟩ := List.forall_mem_cons.mp h
    rw [List.cons_append, decodeLoop, decodeTable_of_ne hc]
    cases hd : dtable c with
    | none =>
      rw [List.filterMap_cons_none hd]
      exact ih hstr block count out hcount
    | some d =>
      have hbits : toBits (5 * count + 5) (block <<< 5 ||| d.val) =
          toBits (5 * count) block ++ toBits 5 d.val := toBits_shiftLeft_or _ d.isLt
      rw [List.filterMap_cons_some hd, List.length_cons, digitBits_cons]
      dsimp only
      rw [if_neg hc]
      by_cases hfull : count + 1 = 8
      · obtain ⟨block', out', hloop, hout⟩ := ih hstr 0 0
          (out ++ blockOctets (block <<< 5 ||| d.val)) (by decide)
        have hmod : (count + ((str.filterMap dtable).length + 1)) % 8 =
            (0 + (str.filterMap dtable).length) % 8 := by omega
        have hforty : 5 * count + 5 = 40 := by omega
        refine ⟨block', out', ?_, ?_⟩
        · rw [if_pos hfull, hmod]
          exact hloop
        · rw [hmod, hout, octetBits_append, octetBits_blockOctets, ← hforty, hbits]
          simp only [List.append_assoc]
          rfl
      · obtain ⟨block', out', hloop, hout⟩ := ih hstr (block <<< 5 ||| d.val) (count + 1) out
          (by omega)
        have hmod : count + ((str.filterMap dtable).length + 1) =
            count + 1 + (str.filterMap dtable).length := by omega
        refine ⟨block', out', ?_, ?_⟩
        · rw [if_neg hfull, hmod]
          exact hloop
        · rw [hmod, hout, show 5 * (count + 1) = 5 * count + 5 from rfl, hbits]
          simp only [List.append_assoc]

/-- The pad characters fill the last block up, and its octets without a bit of the digits are taken
back. -/
theorem decodeLoop_pad {k : ℕ} (hk : 0 < k) (block count pad : ℕ) (out : Bytes)
    (hcount : count + k = 8) :
    ∃ block', decodeLoop (List.replicate k padChar) block count pad out =
        (out ++ blockOctets block').take (out.length + 5 - (pad + k) * 5 / 8) ∧
      toBits 40 block' = toBits (5 * count) block ++ List.replicate (5 * k) false := by
  induction k generalizing block count pad with
  | zero => exact absurd hk (lt_irrefl 0)
  | succ k ih =>
    have hdigit : decodeTable padChar = some 0 := rfl
    have hbits : toBits (5 * count + 5) (block <<< 5 ||| (0 : Digit).val) =
        toBits (5 * count) block ++ toBits 5 0 :=
      toBits_shiftLeft_or _ (by decide)
    rw [List.replicate_succ, decodeLoop, hdigit]
    dsimp only
    rw [if_pos rfl]
    by_cases hlast : k = 0
    · subst hlast
      have hforty : 5 * count + 5 = 40 := by omega
      refine ⟨block <<< 5 ||| (0 : Digit).val, ?_, ?_⟩
      · rw [if_pos hcount, if_pos (Nat.succ_ne_zero pad), List.length_append]
        rfl
      · rw [← hforty, hbits]
        rfl
    · obtain ⟨block', hloop, hout⟩ := ih (Nat.pos_of_ne_zero hlast)
        (block <<< 5 ||| (0 : Digit).val) (count + 1) (pad + 1) (by omega)
      refine ⟨block', ?_, ?_⟩
      · rw [if_neg (by omega), hloop, Nat.add_right_comm pad 1 k]
        rfl
      · rw [hout, show 5 * (count + 1) = 5 * count + 5 from rfl, hbits, toBits_zero,
          List.append_assoc, List.replicate_append_replicate]
        congr 2
        omega

theorem take_append_replicate (a : List Bool) {n k : ℕ} (h₁ : a.length ≤ n) (h₂ : n ≤ a.length + k) :
    (a ++ List.replicate k false).take n = a ++ List.replicate (n - a.length) false := by
  rw [List.take_append, List.take_of_length_le h₁, List.take_replicate]
  congr 2
  omega

/-- The octets are the digits, filled up with zero bits. -/
theorem saePkBase32Decode_eq {src : Bytes} (h : NoPad src) (hsome : src.filterMap dtable ≠ []) :
    ∃ out, saePkBase32Decode src = some out ∧
      out.length = (5 * (src.filterMap dtable).length + 7) / 8 ∧
      octetBits out = digitBits (src.filterMap dtable) ++
        List.replicate (8 * out.length - 5 * (src.filterMap dtable).length) false := by
  have hcount : (src.filterMap dtable).length ≠ 0 := by
    rwa [ne_eq, List.length_eq_zero_iff]
  obtain ⟨block, out, hloop, hout⟩ := decodeLoop_noPad src
    (List.replicate ((8 - (src.filterMap dtable).length % 8) % 8) padChar) h 0 0 [] (by decide)
  rw [Nat.zero_add] at hloop hout
  have hdone : saePkBase32Decode src = some (decodeLoop (List.replicate
      ((8 - (src.filterMap dtable).length % 8) % 8) padChar) block
      ((src.filterMap dtable).length % 8) 0 out) := by
    rw [saePkBase32Decode, filterMap_decodeTable h, if_neg hcount]
    exact congrArg some hloop
  have hlength := congrArg List.length hout
  simp only [List.length_append, octetBits_length, toBits_length, digitBits_length,
    List.length_nil] at hlength
  rw [hdone]
  refine ⟨_, rfl, ?_⟩
  by_cases hfull : (src.filterMap dtable).length % 8 = 0
  · rw [hfull] at hout hlength ⊢
    have hbits : octetBits out = digitBits (src.filterMap dtable) := by
      rw [← List.append_nil (octetBits out)]
      exact hout
    show out.length = _ ∧ octetBits out = _ ++ List.replicate (8 * out.length - _) false
    refine ⟨by omega, ?_⟩
    rw [hbits, show 8 * out.length - 5 * (src.filterMap dtable).length = 0 by omega]
    exact (List.append_nil _).symm
  · obtain ⟨block', hpad, hpadBits⟩ := decodeLoop_pad
      (k := (8 - (src.filterMap dtable).length % 8) % 8) (by omega) block
      ((src.filterMap dtable).length % 8) 0 out (by omega)
    have hfive : (blockOctets block').length = 5 := rfl
    have hbits : octetBits (out ++ blockOctets block') = digitBits (src.filterMap dtable) ++
        List.replicate (5 * ((8 - (src.filterMap dtable).length % 8) % 8)) false := by
      rw [octetBits_append, octetBits_blockOctets, hpadBits, ← List.append_assoc, hout]
      rfl
    rw [hpad, octetBits_take, hbits, List.length_take, List.length_append, hfive]
    refine ⟨by omega, ?_⟩
    rw [take_append_replicate]
    · congr 2
      rw [digitBits_length]
      omega
    · rw [digitBits_length]
      omega
    · rw [digitBits_length]
      omega

end Decoding

section RoundTrip
variable {src : Bytes} {lenBits : ℕ}

/-- What the encoder puts in front of the check character. -/
theorem saePkBase32Encode_eq (hpos : 1 ≤ lenBits) (hcovered : lenBits ≤ 8 * src.length)
    (hmax : (lenBits + 7) / 8 < sizeMax / 8) :
    ∃ e out, saePkBase32Encode src lenBits = some e ∧ e.text = out ++ [dCheckChar out] ∧
      NoPad out ∧ e.text.length + 1 ≤ e.alloc ∧
      ∃ rest, digitBits (out.filterMap dtable) = (octetBits src).take lenBits ++ rest := by
  have hlen : ¬ ((lenBits + 7) / 8 = 0 ∨ sizeMax / 8 ≤ (lenBits + 7) / 8) := by omega
  have hsrc : (src.take ((lenBits + 7) / 8)).length = (lenBits + 7) / 8 := by
    rw [List.length_take]
    omega
  obtain ⟨ds, hds, hbits⟩ := encodeLoop_eq (src.take ((lenBits + 7) / 8) ++
    zeros ((5 - (lenBits + 7) / 8 % 5) % 5)) 0 0 ([], lenBits) (by
      rw [List.length_append, hsrc, zeros_length]
      omega)
  have hdsbits : digitBits ds = octetBits (src.take ((lenBits + 7) / 8)) ++
      octetBits (zeros ((5 - (lenBits + 7) / 8 % 5) % 5)) := by
    rw [hbits, octetBits_append]
    rfl
  have hcount := congrArg List.length hdsbits
  rw [List.length_append, digitBits_length, octetBits_length, octetBits_length, hsrc,
    zeros_length] at hcount
  refine ⟨⟨(lenBits + 7) / 8 * 8 / 5 + 1 + ((lenBits + 7) / 8 * 8 / 5 + 1) / 4 + 2,
    (ds.foldl addChar ([], lenBits)).1 ++ [dCheckChar (ds.foldl addChar ([], lenBits)).1]⟩,
    (ds.foldl addChar ([], lenBits)).1, ?_, rfl, ?_, ?_, ?_⟩
  · rw [saePkBase32Encode, if_neg hlen, ← hds]
  · apply noPad_foldl_addChar
    intro c hc
    exact absurd hc (List.not_mem_nil)
  · have hout : (ds.foldl addChar ([], lenBits)).1.length =
        textLen (0 + min ds.length (charCount lenBits)) :=
      length_foldl_addChar ds ([], lenBits) rfl
    show ((ds.foldl addChar ([], lenBits)).1 ++ [_]).length + 1 ≤
      (lenBits + 7) / 8 * 8 / 5 + 1 + ((lenBits + 7) / 8 * 8 / 5 + 1) / 4 + 2
    rw [List.length_append, hout, List.length_singleton, Nat.zero_add]
    have hmin : min ds.length (charCount lenBits) ≤ (lenBits + 4) / 5 := Nat.min_le_right _ _
    have hcover : (lenBits + 4) / 5 ≤ (lenBits + 7) / 8 * 8 / 5 + 1 := by omega
    unfold textLen
    omega
  · have hdigits : (ds.foldl addChar ([], lenBits)).1.filterMap dtable =
        ds.take (charCount lenBits) := by
      rw [filterMap_foldl_addChar]
      rfl
    refine ⟨((octetBits (src.take ((lenBits + 7) / 8)) ++
      octetBits (zeros ((5 - (lenBits + 7) / 8 % 5) % 5))).take (5 * charCount lenBits)).drop
        lenBits, ?_⟩
    rw [hdigits, digitBits_take, hdsbits]
    conv_lhs => rw [← List.take_append_drop lenBits (List.take _ _)]
    congr 1
    rw [List.take_take, octetBits_take, List.take_append_of_le_length, List.take_take]
    · congr 1
      unfold charCount
      omega
    · rw [List.length_take, octetBits_length]
      unfold charCount
      omega

/-- The decoder gives the bits back. -/
theorem decode_encode (hpos : 1 ≤ lenBits) (hcovered : lenBits ≤ 8 * src.length)
    (hmax : (lenBits + 7) / 8 < sizeMax / 8) :
    ∃ e out, saePkBase32Encode src lenBits = some e ∧ e.text.length + 1 ≤ e.alloc ∧
      saePkBase32Decode e.text = some out ∧
      (octetBits out).take lenBits = (octetBits src).take lenBits := by
  obtain ⟨e, front, hencode, htext, hnoPad, hroom, rest, hrest⟩ :=
    saePkBase32Encode_eq hpos hcovered hmax
  obtain ⟨d, hlast⟩ : ∃ d, dtable (dCheckChar front) = some d := ⟨_, dtable_base32Char _⟩
  have hnoPadText : NoPad e.text := by
    rw [htext]
    intro c hc
    rcases List.mem_append.mp hc with hc | hc
    · exact hnoPad c hc
    · rw [List.mem_singleton.mp hc]
      exact base32Char_ne_padChar _
  have hdigits : e.text.filterMap dtable = front.filterMap dtable ++ [d] := by
    rw [htext, List.filterMap_append, List.filterMap_cons_some hlast]
    rfl
  obtain ⟨out, hdecode, _, hout⟩ := saePkBase32Decode_eq hnoPadText (by
    rw [hdigits]
    exact List.append_ne_nil_of_right_ne_nil _ (List.cons_ne_nil _ _))
  refine ⟨e, out, hencode, hroom, hdecode, ?_⟩
  rw [hout, hdigits, digitBits_append, hrest, List.append_assoc, List.append_assoc]
  apply List.take_left'
  rw [List.length_take, octetBits_length, Nat.min_eq_left hcovered]

end RoundTrip
end Wpa.SaePk
