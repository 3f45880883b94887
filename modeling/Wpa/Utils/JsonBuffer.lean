import Mathlib.Data.Int.Init
import Mathlib.Tactic.NormNum
import Wpa.Utils.JsonString

/-! The buffer that a JSON string is read into (`json_parse_string` of `utils/json.c`): it grows by
doubling up to the length of the input, and every octet is stored inside of it, as long as `int idx`
holds the number of octets. -/

namespace Wpa.JsonBuffer
open Lib Json

/-- `spos - str` and `buf_len`. -/
structure Buffer where
  spos : ℤ
  bufLen : ℕ
  deriving DecidableEq

/-- An octet that is stored, with `spos - str` and `buf_len` at that time. -/
structure Store where
  spos : ℤ
  bufLen : ℕ
  octet : UInt8
  deriving DecidableEq

def Store.Inside (w : Store) : Prop := 0 ≤ w.spos ∧ w.spos < w.bufLen

/-- A `ptrdiff_t` that is stored in an `int`. -/
@[irreducible] def toInt (n : ℤ) : ℤ := n.bmod (2 ^ 32)

/-- `buf_len` after it has been doubled. -/
@[irreducible] def doubled (bufLen maxLen : ℕ) : ℕ := min (bufLen * 2 % 2 ^ 64) maxLen

/-- The front of the loop: `alloc` is the outcome of `os_realloc` for a length. -/
def Buffer.grow (alloc : ℕ → Bool) (maxLen : ℕ) (b : Buffer) : Option Buffer :=
  if b.bufLen < maxLen ∧ b.bufLen - b.spos < 3 then
    let idx := toInt b.spos
    let bufLen := doubled b.bufLen maxLen
    if alloc bufLen then some ⟨idx, bufLen⟩ else none
  else some b

/-- `*spos++` for one octet after the other. -/
def Buffer.stores (b : Buffer) : Bytes → List Store
  | [] => []
  | x :: bin => ⟨b.spos, b.bufLen, x⟩ :: { b with spos := b.spos + 1 }.stores bin

def Buffer.advance (b : Buffer) (n : ℕ) : Buffer := { b with spos := b.spos + n }

/-- The octets are stored in front of what the rest of the loop does. -/
def Buffer.follow (b : Buffer) (bin : Bytes) (r : List Store × Option Bytes) :
    List Store × Option Bytes := (b.stores bin ++ r.1, r.2)

/-- The loop, up to the ending quote: all stores, and what follows that quote unless the result is
`NULL`. -/
def parseFrom (alloc : ℕ → Bool) (maxLen : ℕ) : Bytes → Buffer → List Store × Option Bytes
  | [], _ => ([], none)
  | x :: pos, b =>
    match b.grow alloc maxLen with
    | none => ([], none)
    | some b =>
      if x = quote then b.follow [0] ([], some pos)
      else if x = backslash then
        match pos with
        | [] => ([], none)
        | e :: pos =>
          if e = 'u'.toUInt8 then
            match pos with
            | h₁ :: h₂ :: h₃ :: h₄ :: pos =>
              match unescapeHex h₁ h₂ h₃ h₄ with
              | some bin => b.follow bin (parseFrom alloc maxLen pos (b.advance bin.length))
              | none => ([], none)
            | _ => ([], none)
          else
            match unescape e with
            | some c => b.follow [c] (parseFrom alloc maxLen pos (b.advance 1))
            | none => ([], none)
      else b.follow [x] (parseFrom alloc maxLen pos (b.advance 1))

/-- `json_parse_string`, from behind the starting quote on. -/
def jsonParseString (alloc : ℕ → Bool) (input : Bytes) : List Store × Option Bytes :=
  let maxLen := input.length + 1
  let bufLen := if maxLen > 10 then 10 else maxLen
  if alloc bufLen then parseFrom alloc maxLen input ⟨0, bufLen⟩ else ([], none)

section Item
variable {alloc : ℕ → Bool} {maxLen : ℕ} {b b' : Buffer} {bin t pos : Bytes}

/-- What one turn of the loop reads, and the octets it stores for that. -/
inductive Item : Bytes → Bytes → Prop
  | plain {x : UInt8} (hquote : x ≠ quote) (hescape : x ≠ backslash) : Item [x] [x]
  | escape {e c : UInt8} (he : unescape e = some c) : Item [c] [backslash, e]
  | unicode {h₁ h₂ h₃ h₄ : UInt8} {bin : Bytes} (hbin : unescapeHex h₁ h₂ h₃ h₄ = some bin) :
    Item bin [backslash, 'u'.toUInt8, h₁, h₂, h₃, h₄]

theorem length_unescapeHex {h₁ h₂ h₃ h₄ : UInt8} (hbin : unescapeHex h₁ h₂ h₃ h₄ = some bin) :
    bin.length = 1 ∨ bin.length = 2 := by
  unfold unescapeHex at hbin
  split at hbin
  · split at hbin
    · cases hbin
    · split at hbin
      · cases hbin
        exact .inl rfl
      · cases hbin
        exact .inr rfl
  · cases hbin

/-- One or two octets, and no more than are read. -/
theorem Item.length (h : Item bin t) : 0 < bin.length ∧ bin.length ≤ 2 ∧ bin.length ≤ t.length := by
  cases h with
  | plain => exact ⟨Nat.one_pos, one_le_two, le_rfl⟩
  | escape => exact ⟨Nat.one_pos, one_le_two, one_le_two⟩
  | unicode hbin =>
    have hlen := length_unescapeHex hbin
    show 0 < bin.length ∧ bin.length ≤ 2 ∧ bin.length ≤ 6
    omega

theorem Item.chars {str body : Bytes} (h : Item bin t) (hchars : Chars str body) :
    Chars (bin ++ str) (t ++ body) := by
  cases h with
  | plain hquote hescape => exact hchars.plain hquote hescape
  | escape he => exact hchars.escape he
  | unicode hbin => exact hchars.unicode hbin

theorem parseFrom_item (h : Item bin t) (hgrow : b.grow alloc maxLen = some b') :
    parseFrom alloc maxLen (t ++ pos) b =
      b'.follow bin (parseFrom alloc maxLen pos (b'.advance bin.length)) := by
  cases h with
  | plain hquote hescape =>
    show parseFrom alloc maxLen (_ :: pos) b = _
    rw [parseFrom.eq_def]
    simp only [hgrow, if_neg hquote, if_neg hescape]
    rfl
  | @escape e c he =>
    have hu : e ≠ 'u'.toUInt8 := by
      rintro rfl
      rw [unescape_u] at he
      cases he
    show parseFrom alloc maxLen (backslash :: e :: pos) b = _
    rw [parseFrom.eq_def]
    simp only [hgrow, if_neg (show backslash ≠ quote by decide), if_true, if_neg hu, he]
    rfl
  | @unicode h₁ h₂ h₃ h₄ bin hbin =>
    show parseFrom alloc maxLen (backslash :: 'u'.toUInt8 :: h₁ :: h₂ :: h₃ :: h₄ :: pos) b = _
    rw [parseFrom.eq_def]
    simp only [hgrow, if_neg (show backslash ≠ quote by decide), if_true, hbin]

theorem parseFrom_quote (hgrow : b.grow alloc maxLen = some b') :
    parseFrom alloc maxLen (quote :: pos) b = (b'.stores [0], some pos) := by
  rw [parseFrom.eq_def]
  simp only [hgrow]
  rfl

theorem parseFrom_none (hgrow : b.grow alloc maxLen = none) (input : Bytes) :
    parseFrom alloc maxLen input b = ([], none) := by
  cases input with
  | nil => rfl
  | cons x pos =>
    rw [parseFrom.eq_def]
    simp only [hgrow]

section Stuck

theorem parseFrom_backslash (hgrow : b.grow alloc maxLen = some b') :
    parseFrom alloc maxLen [backslash] b = ([], none) := by
  rw [parseFrom.eq_def]
  simp only [hgrow, if_neg (show backslash ≠ quote by decide), if_true]

theorem parseFrom_unknown {e : UInt8} (hgrow : b.grow alloc maxLen = some b') (hu : e ≠ 'u'.toUInt8)
    (he : unescape e = none) : parseFrom alloc maxLen (backslash :: e :: pos) b = ([], none) := by
  rw [parseFrom.eq_def]
  simp only [hgrow, if_neg (show backslash ≠ quote by decide), if_true, if_neg hu, he]

theorem parseFrom_badHex {h₁ h₂ h₃ h₄ : UInt8} (hgrow : b.grow alloc maxLen = some b')
    (hbin : unescapeHex h₁ h₂ h₃ h₄ = none) :
    parseFrom alloc maxLen (backslash :: 'u'.toUInt8 :: h₁ :: h₂ :: h₃ :: h₄ :: pos) b =
      ([], none) := by
  rw [parseFrom.eq_def]
  simp only [hgrow, if_neg (show backslash ≠ quote by decide), if_true, hbin]

theorem parseFrom_shortHex (hgrow : b.grow alloc maxLen = some b')
    (hshort : ∀ h₁ h₂ h₃ h₄ rest, pos = h₁ :: h₂ :: h₃ :: h₄ :: rest → False) :
    parseFrom alloc maxLen (backslash :: 'u'.toUInt8 :: pos) b = ([], none) := by
  rw [parseFrom.eq_def]
  simp only [hgrow, if_neg (show backslash ≠ quote by decide), if_true]

/-- Whatever the buffer has come to, nothing more is stored. -/
def Stuck (input : Bytes) : Prop :=
  ∀ alloc maxLen b, parseFrom alloc maxLen input b = ([], none)

theorem stuck_of_grown (h : ∀ alloc maxLen b b', Buffer.grow alloc maxLen b = some b' →
    parseFrom alloc maxLen pos b = ([], none)) : Stuck pos := by
  intro alloc maxLen b
  cases hgrow : b.grow alloc maxLen with
  | none => exact parseFrom_none hgrow pos
  | some b' => exact h alloc maxLen b b' hgrow

end Stuck

/-- The end of the string, an item, or something that nothing is stored for. -/
theorem front_cases (input : Bytes) : (∃ pos, input = quote :: pos) ∨
    (∃ bin t pos, Item bin t ∧ input = t ++ pos) ∨ Stuck input := by
  fun_cases parseString input with
  | case1 => exact .inr (.inr fun _ _ _ => rfl)
  | case2 pos => exact .inl ⟨pos, rfl⟩
  | case3 => exact .inr (.inr (stuck_of_grown fun _ _ _ _ => parseFrom_backslash))
  | case4 h₁ h₂ h₃ h₄ pos bin hbin => exact .inr (.inl ⟨bin, _, pos, .unicode hbin, rfl⟩)
  | case5 h₁ h₂ h₃ h₄ pos hbin =>
    exact .inr (.inr (stuck_of_grown fun _ _ _ _ hgrow => parseFrom_badHex hgrow hbin))
  | case6 pos hshort =>
    exact .inr (.inr (stuck_of_grown fun _ _ _ _ hgrow => parseFrom_shortHex hgrow hshort))
  | case7 e pos hu c he => exact .inr (.inl ⟨[c], [backslash, e], pos, .escape he, rfl⟩)
  | case8 e pos hu he =>
    exact .inr (.inr (stuck_of_grown fun _ _ _ _ hgrow => parseFrom_unknown hgrow hu he))
  | case9 x pos hquote hescape => exact .inr (.inl ⟨[x], [x], pos, .plain hquote hescape, rfl⟩)

end Item

section Grow
variable {alloc : ℕ → Bool} {maxLen n : ℕ} {b b' : Buffer}

/-- The first length of the buffer from which on `idx` overflows. -/
def intLimit : ℕ := 10 * 2 ^ 28

/-- `n` octets are stored, and the length is one of those that the buffer grows through. -/
structure Good (maxLen n : ℕ) (b : Buffer) : Prop where
  spos : b.spos = n
  fits : n ≤ b.bufLen
  size : (b.bufLen = maxLen ∧ maxLen ≤ intLimit) ∨ ∃ k ≤ 28, b.bufLen = 10 * 2 ^ k ∧ b.bufLen ≤ maxLen

/-- The reserve of three octets, or the full length. -/
def Room (maxLen n : ℕ) (b : Buffer) : Prop := n + 3 ≤ b.bufLen ∨ b.bufLen = maxLen

/-- The buffer is to grow and `idx` overflows. -/
def Overflows (maxLen n : ℕ) : Prop := intLimit < maxLen ∧ intLimit ≤ n + 2

instance (maxLen n : ℕ) : Decidable (Overflows maxLen n) := inferInstanceAs (Decidable (_ ∧ _))

theorem toInt_eq (h : n < 2 ^ 31) : toInt n = n := by
  rw [toInt]
  apply Int.bmod_eq_of_le
  · omega
  · omega

/-- Below the limit the buffer grows as it should, if it grows. -/
theorem Good.grow (h : Good maxLen n b) (hfits : ¬ Overflows maxLen n)
    (hgrow : b.grow alloc maxLen = some b') : Good maxLen n b' ∧ Room maxLen n b' := by
  obtain ⟨hspos, hn, hsize⟩ := h
  rw [Buffer.grow, hspos] at hgrow
  by_cases hfull : b.bufLen < maxLen ∧ (b.bufLen : ℤ) - n < 3
  · obtain ⟨hlt, hreserve⟩ := hfull
    obtain ⟨k, hk, hlen, -⟩ : ∃ k ≤ 28, b.bufLen = 10 * 2 ^ k ∧ b.bufLen ≤ maxLen :=
      hsize.resolve_left fun hfull => absurd hfull.1 hlt.ne
    have hsmall : k ≤ 27 := by
      by_contra hlast
      obtain rfl : k = 28 := by omega
      rw [Overflows, intLimit] at hfits
      omega
    have hpow : 2 ^ k ≤ 2 ^ 27 := Nat.pow_le_pow_right (by decide) hsmall
    have hdouble : doubled b.bufLen maxLen = min (10 * 2 ^ (k + 1)) maxLen := by
      have hprod : b.bufLen * 2 % 2 ^ 64 = 10 * 2 ^ (k + 1) := by
        rw [hlen, pow_succ, Nat.mod_eq_of_lt (by omega)]
        omega
      rw [doubled, hprod]
    rw [if_pos ⟨hlt, hreserve⟩, toInt_eq (by omega), hdouble] at hgrow
    obtain ⟨-, hb'⟩ := Option.ite_none_right_eq_some.mp hgrow
    cases hb'
    have hmore : n + 3 ≤ 10 * 2 ^ (k + 1) := by
      have hten : 1 ≤ 2 ^ k := Nat.one_le_two_pow
      rw [pow_succ]
      omega
    obtain hcap | hcap := Nat.le_total maxLen (10 * 2 ^ (k + 1))
    · have hlimit : 10 * 2 ^ (k + 1) ≤ intLimit :=
        Nat.mul_le_mul_left 10 (Nat.pow_le_pow_right (by decide) (by omega))
      rw [Nat.min_eq_right hcap]
      exact ⟨⟨rfl, by show n ≤ maxLen; omega, .inl ⟨rfl, hcap.trans hlimit⟩⟩, .inr rfl⟩
    · rw [Nat.min_eq_left hcap]
      exact ⟨⟨rfl, by show n ≤ 10 * 2 ^ (k + 1); omega, .inr ⟨k + 1, by omega, rfl, hcap⟩⟩, .inl hmore⟩
  · rw [if_neg hfull] at hgrow
    cases hgrow
    refine ⟨⟨hspos, hn, hsize⟩, ?_⟩
    have hle : b.bufLen ≤ maxLen := by
      obtain ⟨heq, -⟩ | ⟨k, -, -, hle⟩ := hsize
      · exact heq.le
      · exact hle
    rw [Room]
    omega

/-- From the limit on it goes on in front of its beginning. -/
theorem Good.grow_overflows (h : Good maxLen n b) (hover : Overflows maxLen n) :
    ∃ b', b.grow (fun _ => true) maxLen = some b' ∧ b'.spos < 0 := by
  obtain ⟨hspos, hn, hsize⟩ := h
  obtain ⟨hmax, hlimit⟩ := hover
  rw [intLimit] at hmax hlimit
  obtain ⟨k, hk, hlen, hle⟩ : ∃ k ≤ 28, b.bufLen = 10 * 2 ^ k ∧ b.bufLen ≤ maxLen := by
    refine hsize.resolve_left fun hfull => ?_
    rw [intLimit] at hfull
    omega
  obtain rfl : k = 28 := by
    by_contra hne
    have hpow : 2 ^ k ≤ 2 ^ 27 := Nat.pow_le_pow_right (by decide) (by omega)
    omega
  have hneg : toInt n < 0 := by
    have hmod : (n : ℤ).bmod (2 ^ 32) = n - 2 ^ 32 := by
      rw [Int.bmod_eq_iff (by decide)]
      exact ⟨by omega, by omega, ⟨-1, by push_cast; ring⟩⟩
    rw [toInt, hmod]
    omega
  refine ⟨⟨toInt n, doubled b.bufLen maxLen⟩, ?_, hneg⟩
  rw [Buffer.grow, hspos, if_pos ⟨by omega, by omega⟩]
  exact if_pos rfl

theorem Good.advance (h : Good maxLen n b) {m : ℕ} (hm : n + m ≤ b.bufLen) :
    Good maxLen (n + m) (b.advance m) := by
  refine ⟨?_, hm, h.size⟩
  show b.spos + m = ((n + m : ℕ) : ℤ)
  rw [h.spos]
  exact (Nat.cast_add n m).symm

theorem stores_inside {bin : Bytes} (hspos : b.spos = n) (hbin : n + bin.length ≤ b.bufLen) :
    ∀ w ∈ b.stores bin, w.Inside := by
  induction bin generalizing b n with
  | nil =>
    intro w hw
    cases hw
  | cons x bin ih =>
    rw [List.length_cons] at hbin
    intro w hw
    obtain rfl | hw := List.mem_cons.mp hw
    · show 0 ≤ b.spos ∧ b.spos < b.bufLen
      omega
    · have hnext : b.spos + 1 = ((n + 1 : ℕ) : ℤ) := by omega
      have hroom : n + 1 + bin.length ≤ b.bufLen := by omega
      exact ih (b := { b with spos := b.spos + 1 }) hnext hroom w hw

theorem stores_outside {bin : Bytes} (hspos : b.spos < 0) (hbin : 0 < bin.length) :
    ∃ w ∈ b.stores bin, ¬ w.Inside := by
  obtain _ | ⟨x, bin⟩ := bin
  · exact absurd hbin (Nat.lt_irrefl 0)
  · refine ⟨⟨b.spos, b.bufLen, x⟩, List.mem_cons_self, ?_⟩
    rw [Store.Inside, not_and]
    intro hge
    exact absurd hspos (not_lt.mpr hge)

end Grow

section Run
variable {alloc : ℕ → Bool} {maxLen n : ℕ} {b : Buffer} {bin t input str body rest : Bytes}

/-- An octet is stored for what stands in front: the ending quote, a character or an escape. -/
def Stored (rest : Bytes) : Prop :=
  (∃ pos, rest = quote :: pos) ∨ ∃ bin t pos, Item bin t ∧ rest = t ++ pos

/-- With `n` octets in the buffer: one is stored behind so many that `idx` has overflowed. -/
def Outgrows (maxLen n : ℕ) (input : Bytes) : Prop :=
  ∃ str body rest, Chars str body ∧ input = body ++ rest ∧ Stored rest ∧
    Overflows maxLen (n + str.length)

theorem Outgrows.head (hrest : Stored rest) (h : Overflows maxLen n) : Outgrows maxLen n rest :=
  ⟨[], [], rest, .nil, rfl, hrest, h⟩

theorem Outgrows.item (hitem : Item bin t) (h : Outgrows maxLen (n + bin.length) rest) :
    Outgrows maxLen n (t ++ rest) := by
  obtain ⟨str, body, rest', hchars, rfl, hrest, hover⟩ := h
  refine ⟨bin ++ str, t ++ body, rest', hitem.chars hchars, (List.append_assoc _ _ _).symm, hrest, ?_⟩
  rw [List.length_append, ← Nat.add_assoc]
  exact hover

/-- The run: the reserve of three octets lasts for an item, and at the full length the rest of the
input does. -/
theorem parseFrom_inside (h : Good maxLen n b) (hmax : n + input.length + 1 ≤ maxLen)
    (hfits : ¬ Outgrows maxLen n input) : ∀ w ∈ (parseFrom alloc maxLen input b).1, w.Inside := by
  induction hk : input.length using Nat.strong_induction_on generalizing input n b with
  | _ k ih =>
    cases hgrow : b.grow alloc maxLen with
    | none =>
      rw [parseFrom_none hgrow]
      intro w hw
      cases hw
    | some b' =>
      obtain ⟨pos, rfl⟩ | ⟨bin, t, pos, hitem, rfl⟩ | hstuck := front_cases input
      · obtain ⟨hgood, hroom⟩ := h.grow (fun hover => hfits (.head (.inl ⟨pos, rfl⟩) hover)) hgrow
        rw [parseFrom_quote hgrow]
        refine stores_inside hgood.spos ?_
        rw [List.length_cons] at hmax
        show n + 1 ≤ b'.bufLen
        obtain hroom | hfull := hroom
        · omega
        · omega
      · have hover : ¬ Overflows maxLen n :=
          fun hover => hfits (.head (.inr ⟨bin, t, pos, hitem, rfl⟩) hover)
        obtain ⟨hgood, hroom⟩ := h.grow hover hgrow
        obtain ⟨hpos, htwo, hread⟩ := hitem.length
        rw [List.length_append] at hmax hk
        have hbin : n + bin.length ≤ b'.bufLen := by
          obtain hroom | hfull := hroom
          · omega
          · omega
        rw [parseFrom_item hitem hgrow]
        intro w hw
        obtain hw | hw := List.mem_append.mp hw
        · exact stores_inside hgood.spos hbin w hw
        · exact ih pos.length (by omega) (hgood.advance hbin) (by omega)
            (fun hrest => hfits (hrest.item hitem)) rfl w hw
      · rw [hstuck]
        intro w hw
        cases hw

theorem grow_isSome (maxLen : ℕ) (b : Buffer) : ∃ b', b.grow (fun _ => true) maxLen = some b' := by
  rw [Buffer.grow]
  split
  · exact ⟨_, if_pos rfl⟩
  · exact ⟨b, rfl⟩

/-- The turn that stores an octet behind too many. -/
theorem parseFrom_overflows (h : Good maxLen n b) (hover : Overflows maxLen n) (hrest : Stored rest) :
    ∃ w ∈ (parseFrom (fun _ => true) maxLen rest b).1, ¬ w.Inside := by
  obtain ⟨b', hgrow, hspos⟩ := h.grow_overflows hover
  obtain ⟨pos, rfl⟩ | ⟨bin, t, pos, hitem, rfl⟩ := hrest
  · rw [parseFrom_quote hgrow]
    exact stores_outside hspos Nat.one_pos
  · obtain ⟨w, hw, hout⟩ := stores_outside hspos hitem.length.1
    rw [parseFrom_item hitem hgrow]
    exact ⟨w, List.mem_append_left _ hw, hout⟩

/-- The turns in front of it. -/
theorem parseFrom_item_outside (rest : Bytes) (h : Good maxLen n b) (hitem : Item bin t)
    (hmax : n + (t ++ rest).length + 1 ≤ maxLen)
    (hnext : ∀ {b}, Good maxLen (n + bin.length) b → n + bin.length + rest.length + 1 ≤ maxLen →
      ∃ w ∈ (parseFrom (fun _ => true) maxLen rest b).1, ¬ w.Inside) :
    ∃ w ∈ (parseFrom (fun _ => true) maxLen (t ++ rest) b).1, ¬ w.Inside := by
  by_cases hover : Overflows maxLen n
  · exact parseFrom_overflows h hover (.inr ⟨bin, t, rest, hitem, rfl⟩)
  · obtain ⟨b', hgrow⟩ := grow_isSome maxLen b
    obtain ⟨hgood, hroom⟩ := h.grow hover hgrow
    obtain ⟨hpos, htwo, hread⟩ := hitem.length
    rw [List.length_append] at hmax
    have hbin : n + bin.length ≤ b'.bufLen := by
      obtain hroom | hfull := hroom
      · omega
      · omega
    obtain ⟨w, hw, hout⟩ := hnext (hgood.advance hbin) (by omega)
    rw [parseFrom_item hitem hgrow]
    exact ⟨w, List.mem_append_right _ hw, hout⟩

theorem parseFrom_outside (hchars : Chars str body) (h : Good maxLen n b)
    (hmax : n + (body ++ rest).length + 1 ≤ maxLen) (hrest : Stored rest)
    (hover : Overflows maxLen (n + str.length)) :
    ∃ w ∈ (parseFrom (fun _ => true) maxLen (body ++ rest) b).1, ¬ w.Inside := by
  have hassoc {n : ℕ} (bin str : Bytes) (hover : Overflows maxLen (n + (bin ++ str).length)) :
      Overflows maxLen (n + bin.length + str.length) := by
    rw [Nat.add_assoc, ← List.length_append]
    exact hover
  induction hchars generalizing n b with
  | nil => exact parseFrom_overflows h hover hrest
  | @plain x str body hquote hescape _ ih =>
    exact parseFrom_item_outside (body ++ rest) h (.plain hquote hescape) hmax
      fun hgood hmax => ih hgood hmax (hassoc [x] str hover)
  | @escape e c str body he _ ih =>
    exact parseFrom_item_outside (body ++ rest) h (.escape he) hmax
      fun hgood hmax => ih hgood hmax (hassoc [c] str hover)
  | @unicode h₁ h₂ h₃ h₄ bin str body hbin _ ih =>
    exact parseFrom_item_outside (body ++ rest) h (.unicode hbin) hmax
      fun hgood hmax => ih hgood hmax (hassoc bin str hover)

/-- What the buffer holds at the end, where it can grow. -/
theorem parseFrom_octets (hchars : Chars str body) (maxLen : ℕ) (b : Buffer) (rest : Bytes) :
    ((parseFrom (fun _ => true) maxLen (body ++ quote :: rest) b).1.map Store.octet,
      (parseFrom (fun _ => true) maxLen (body ++ quote :: rest) b).2) = (str ++ [0], some rest) := by
  have hoctets (b : Buffer) (bin : Bytes) : (b.stores bin).map Store.octet = bin := by
    induction bin generalizing b with
    | nil => rfl
    | cons x bin ih => rw [Buffer.stores, List.map_cons, ih]
  have hitem {bin t str body : Bytes} (hitem : Item bin t) (b : Buffer)
      (ih : ∀ b, ((parseFrom (fun _ => true) maxLen (body ++ quote :: rest) b).1.map Store.octet,
        (parseFrom (fun _ => true) maxLen (body ++ quote :: rest) b).2) = (str ++ [0], some rest)) :
      ((parseFrom (fun _ => true) maxLen (t ++ (body ++ quote :: rest)) b).1.map Store.octet,
        (parseFrom (fun _ => true) maxLen (t ++ (body ++ quote :: rest)) b).2) =
        (bin ++ str ++ [0], some rest) := by
    obtain ⟨b', hgrow⟩ := grow_isSome maxLen b
    obtain ⟨hfirst, hsecond⟩ := Prod.mk.inj (ih (b'.advance bin.length))
    rw [parseFrom_item hitem hgrow, Buffer.follow, List.map_append, hoctets, hfirst, hsecond,
      List.append_assoc]
  induction hchars generalizing b with
  | nil =>
    obtain ⟨b', hgrow⟩ := grow_isSome maxLen b
    rw [List.nil_append, parseFrom_quote hgrow, hoctets]
    rfl
  | plain hquote hescape _ ih => exact hitem (.plain hquote hescape) b ih
  | escape he _ ih => exact hitem (.escape he) b ih
  | unicode hbin _ ih => exact hitem (.unicode hbin) b ih

end Run

section Parse
variable {input : Bytes}

theorem good_start (maxLen : ℕ) :
    Good maxLen 0 ⟨0, if maxLen > 10 then 10 else maxLen⟩ := by
  by_cases hlong : maxLen > 10
  · rw [if_pos hlong]
    exact ⟨rfl, Nat.zero_le _, .inr ⟨0, Nat.zero_le _, rfl, hlong.le⟩⟩
  · rw [if_neg hlong]
    refine ⟨rfl, Nat.zero_le _, .inl ⟨rfl, ?_⟩⟩
    show maxLen ≤ intLimit
    rw [intLimit]
    omega

/-- The reading of the octets does not depend on the buffer. -/
theorem jsonParseString_octets {str rest : Bytes} (h : parseString input = some (str, rest)) :
    ((jsonParseString (fun _ => true) input).1.map Store.octet,
      (jsonParseString (fun _ => true) input).2) = (str ++ [0], some rest) := by
  obtain ⟨body, hchars, rfl⟩ := parseString_iff.mp h
  rw [jsonParseString, if_pos rfl]
  exact parseFrom_octets hchars _ _ rest

theorem jsonParseString_outside (h : Outgrows (input.length + 1) 0 input) :
    ∃ w ∈ (jsonParseString (fun _ => true) input).1, ¬ w.Inside := by
  obtain ⟨str, body, rest, hchars, rfl, hrest, hover⟩ := h
  rw [jsonParseString, if_pos rfl]
  exact parseFrom_outside hchars (good_start _) (by omega) hrest hover

/-- Every octet, the final NUL too, is stored inside of the buffer, whatever memory there is, exactly
if none is to be stored behind 10 * 2^28 - 2 octets or more in a buffer that is to grow beyond
10 * 2^28. -/
theorem jsonParseString_inside_iff (input : Bytes) :
    (∀ alloc, ∀ w ∈ (jsonParseString alloc input).1, w.Inside) ↔
      ¬ Outgrows (input.length + 1) 0 input := by
  constructor
  · intro h hgrows
    obtain ⟨w, hw, hout⟩ := jsonParseString_outside hgrows
    exact hout (h (fun _ => true) w hw)
  · intro hfits alloc w hw
    rw [jsonParseString] at hw
    cases halloc : alloc (if input.length + 1 > 10 then 10 else input.length + 1) with
    | false =>
      rw [halloc] at hw
      cases hw
    | true =>
      rw [halloc] at hw
      exact parseFrom_inside (good_start _) (by omega) hfits w hw

/-- A string of five characters, with its quote. -/
theorem jsonParseString_short : ∀ alloc, ∀ w ∈ (jsonParseString alloc [97, 98, 99, 100, 101, quote]).1,
    w.Inside :=
  (jsonParseString_inside_iff [97, 98, 99, 100, 101, quote]).mpr fun ⟨_, _, _, _, _, _, hmax, _⟩ =>
    absurd hmax (by decide)

theorem chars_replicate {x : UInt8} (hquote : x ≠ quote) (hescape : x ≠ backslash) (n : ℕ) :
    Chars (List.replicate n x) (List.replicate n x) := by
  induction n with
  | zero => exact .nil
  | succ n ih => exact ih.plain hquote hescape

/-- 10 * 2^28 octets and the ending quote. -/
theorem jsonParseString_long : ¬ ∀ alloc,
    ∀ w ∈ (jsonParseString alloc (List.replicate intLimit 97 ++ [quote])).1, w.Inside := by
  intro h
  have hchars := chars_replicate (x := 97) (by decide) (by decide) intLimit
  have hlen : (List.replicate intLimit 97 ++ [quote]).length = intLimit + 1 := by
    rw [List.length_append, List.length_replicate, List.length_singleton]
  have hover : Overflows ((List.replicate intLimit 97 ++ [quote]).length + 1)
      (0 + (List.replicate intLimit (97 : UInt8)).length) := by
    rw [hlen, List.length_replicate, Overflows]
    omega
  obtain ⟨w, hw, hout⟩ := jsonParseString_outside ⟨_, _, _, hchars, rfl, .inl ⟨[], rfl⟩, hover⟩
  exact hout (h (fun _ => true) w hw)

end Parse
end Wpa.JsonBuffer
