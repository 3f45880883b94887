import Mathlib.Data.List.Basic
import Mathlib.Tactic.Common
import Mathlib.Tactic.IntervalCases
import Wpa.Utils.Base64

/-! Each base64 encoding is read back, and neither direction writes past its allocation. -/

namespace Wpa.Base64
open Lib Sextets

section Tables
variable {table : Table} {d : UInt8 → ℕ} {key : ℕ → UInt8} {l : List ℕ} {x : UInt8} {i : ℕ}

theorem foldl_update_of_ne (h : ∀ i ∈ l, key i ≠ x) :
    l.foldl (fun d i => Function.update d (key i) i) d x = d x := by
  induction l generalizing d with
  | nil => rfl
  | cons i l ih =>
    rw [List.foldl_cons, ih (fun j hj => h j (List.mem_cons_of_mem _ hj))]
    exact Function.update_of_ne (h i (List.mem_cons_self ..)).symm _ _

theorem foldl_update_of_mem (hi : i ∈ l) (h : ∀ j ∈ l, key j = key i → j = i) :
    l.foldl (fun d i => Function.update d (key i) i) d (key i) = i := by
  induction l generalizing d with
  | nil => cases hi
  | cons j l ih =>
    rw [List.foldl_cons]
    by_cases hlater : i ∈ l
    · exact ih hlater fun k hk => h k (List.mem_cons_of_mem _ hk)
    · rcases List.mem_cons.mp hi with rfl | hi
      · rw [foldl_update_of_ne]
        · exact Function.update_self ..
        · intro k hk heq
          exact hlater (h k (List.mem_cons_of_mem _ hk) heq ▸ hk)
      · exact absurd hi hlater

theorem Table.char_eq (table : Table) (h : i < 64) :
    table.char i = table.chars.get ⟨i, table.length_eq ▸ h⟩ :=
  List.getD_eq_getElem _ _ _

theorem Table.char_mem (table : Table) (h : i < 64) : table.char i ∈ table.chars := by
  rw [table.char_eq h]
  exact List.get_mem ..

theorem Table.char_ne_pad (table : Table) (h : i < 64) : table.char i ≠ padChar :=
  fun heq => table.noPad (heq ▸ table.char_mem h)

theorem Table.char_ne_lf (table : Table) (h : i < 64) : table.char i ≠ lfChar :=
  fun heq => table.noLf (heq ▸ table.char_mem h)

theorem Table.char_injective (table : Table) {j : ℕ} (hi : i < 64) (hj : j < 64)
    (h : table.char i = table.char j) : i = j := by
  rw [table.char_eq hi, table.char_eq hj] at h
  exact congrArg Fin.val (List.nodup_iff_injective_get.mp table.nodup h)

/-- The decoding table inverts the encoding table. -/
theorem dtable_char (table : Table) (h : i < 64) : dtable table (table.char i) = i := by
  rw [dtable, Function.update_of_ne (table.char_ne_pad h)]
  apply foldl_update_of_mem (List.mem_range.mpr h)
  intro j hj
  exact table.char_injective (List.mem_range.mp hj) h

@[simp] theorem dtable_pad (table : Table) : dtable table padChar = 0 := Function.update_self ..

@[simp] theorem dtable_lf (table : Table) : dtable table lfChar = foreign := by
  rw [dtable, Function.update_of_ne (by decide)]
  apply foldl_update_of_ne
  intro i hi
  exact table.char_ne_lf (List.mem_range.mp hi)

theorem ne_foreign (h : i < 64) : i ≠ foreign := (h.trans (by decide)).ne

end Tables

section Sizes

variable (table : Table) {addPad : AddPad}

theorem length_encodeTail_lf {src : Bytes} (hsrc : src.length < 3) (l : ℕ) (hl : l < 18) :
    (encodeTail table ⟨true, true⟩ (4 * l) src).length =
      4 * ((src.length + 2) / 3) + (l + (src.length + 2) / 3 + 17) / 18 := by
  match src, hsrc with
  | [], _ =>
    rcases Nat.eq_zero_or_pos l with rfl | hpos
    · rfl
    · have hline : 4 * l ≠ 0 := by omega
      simp [encodeTail, hline]
      omega
  | [a], _ =>
    simp [encodeTail]
    omega
  | [a, b], _ =>
    simp [encodeTail]
    omega

/-- Four characters a group and one line feed a line, where `l` groups stand on the line already. -/
theorem length_encodeFrom_lf (src : Bytes) (l : ℕ) (hl : l < 18) :
    (encodeFrom table ⟨true, true⟩ (4 * l) src).length =
      4 * ((src.length + 2) / 3) + (l + (src.length + 2) / 3 + 17) / 18 := by
  match src with
  | a :: b :: c :: src =>
    rw [encodeFrom]
    split
    · next hfull =>
      have ih := length_encodeFrom_lf src 0 (by decide)
      rw [Nat.mul_zero] at ih
      simp only [List.length_append, List.length_cons, ih, List.length_nil]
      omega
    · next hroom =>
      have ih := length_encodeFrom_lf src (l + 1) (by simp at hroom; omega)
      rw [Nat.mul_succ] at ih
      simp only [List.length_append, List.length_cons, ih, List.length_nil]
      omega
  | [] => exact length_encodeTail_lf table (by decide) l hl
  | [a] => exact @length_encodeTail_lf table [a] (by decide : 1 < 3) l hl
  | [a, b] => exact @length_encodeTail_lf table [a, b] (by decide : 2 < 3) l hl

/-- Without line feeds the padding only fills the last group. -/
theorem length_encodeFrom_le (pad : Bool) (src : Bytes) (lineLen : ℕ) :
    (encodeFrom table ⟨pad, false⟩ lineLen src).length ≤ 4 * ((src.length + 2) / 3) := by
  match src with
  | a :: b :: c :: src =>
    have ih := length_encodeFrom_le pad src (lineLen + 4)
    simp only [encodeFrom, Bool.false_eq_true, false_and, if_false, List.length_append,
      List.length_cons, List.length_nil]
    omega
  | [] => simp [encodeFrom, encodeTail]
  | [_] => cases pad <;> simp [encodeFrom, encodeTail]
  | [_, _] => cases pad <;> simp [encodeFrom, encodeTail]

/-- The groups, a line feed for every 18 of them and the terminating zero; with one octet in the last
group of a line that it begins, not an octet is to spare. -/
theorem groups_and_lfs_le (len : ℕ) :
    4 * ((len + 2) / 3) + ((len + 2) / 3 + 17) / 18 + 1 ≤
      len * 4 / 3 + 4 + (len * 4 / 3 + 4) / 72 + 1 := by
  have hgroups : (len * 4 / 3 + 4) / 72 = (len / 3 + 1) / 18 := by
    have hquarter : (len * 4 / 3 + 4) / 4 = len / 3 + 1 := by omega
    rw [← hquarter, Nat.div_div_eq_div_mul]
  rw [hgroups]
  have hlen := Nat.div_add_mod len 3
  have hpart : len % 3 < 3 := Nat.mod_lt len (by decide)
  generalize len / 3 = full at *
  rcases Nat.eq_zero_or_pos (len % 3) with hzero | hpos
  · have hceil : (len + 2) / 3 = full := by omega
    rw [hceil]
    omega
  · have hceil : (len + 2) / 3 = full + 1 := by omega
    rw [hceil]
    omega

variable {sizeBits len : ℕ}

/-- No length that the encoder accepts overflows. -/
theorem encodeOlen_eq (hlen : len < sizeMax sizeBits / 4) :
    encodeOlen sizeBits len addPad =
      (if addPad.lf then len * 4 / 3 + 4 + (len * 4 / 3 + 4) / 72 else len * 4 / 3 + 4) + 1 := by
  have hpow : 8 ≤ 2 ^ sizeBits := by
    unfold sizeMax at hlen
    by_contra hsmall
    have hbits : sizeBits < 3 :=
      (Nat.pow_lt_pow_iff_right (by decide : 1 < 2)).mp (Nat.not_le.mp hsmall)
    interval_cases sizeBits <;> omega
  unfold sizeMax at hlen
  unfold encodeOlen
  generalize 2 ^ sizeBits = size at *
  have hfour : len * 4 + 5 ≤ size := by omega
  have hlf : len * 4 / 3 + 4 + (len * 4 / 3 + 4) / 72 + 1 < size := by omega
  rw [Nat.mod_eq_of_lt (by omega : len * 4 < size),
    Nat.mod_eq_of_lt (by omega : len * 4 / 3 + 4 < size)]
  cases addPad.lf
  · simp only [Bool.false_eq_true, if_false]
    exact Nat.mod_eq_of_lt (by omega)
  · simp only [if_true]
    rw [Nat.mod_eq_of_lt (by omega : len * 4 / 3 + 4 + (len * 4 / 3 + 4) / 72 < size)]
    exact Nat.mod_eq_of_lt hlf

end Sizes

section Groups
variable (table : Table) {i s t u v pad : ℕ} {block : List ℕ} {src out : Bytes}

@[simp] theorem decodeFrom_lf :
    decodeFrom table (lfChar :: src) block pad out = decodeFrom table src block pad out := by
  simp [decodeFrom]

/-- A character of the table is collected. -/
theorem decodeFrom_char (hi : i < 64) (hblock : block.length < 3) :
    decodeFrom table (table.char i :: src) block pad out =
      decodeFrom table src (block ++ [i]) pad out := by
  rw [decodeFrom]
  simp only [dtable_char table hi, ne_foreign hi, table.char_ne_pad hi, if_false]
  split
  · exact absurd hblock (by simp)
  · rfl

/-- The fourth character completes its group. -/
theorem decodeFrom_fourth (hv : v < 64) :
    decodeFrom table (table.char v :: src) [s, t, u] 0 out =
      decodeFrom table src [] 0 (out ++ octets s t u v) := by
  rw [decodeFrom]
  simp [dtable_char table hv, ne_foreign hv, table.char_ne_pad hv]

/-- Two octets, and the padding ends the text. -/
theorem decodeFrom_padOne : decodeFrom table (padChar :: src) [s, t, u] 0 out =
    ⟨out ++ octets s t u 0, some ((out ++ octets s t u 0).length - 1)⟩ := by
  rw [decodeFrom]
  simp [foreign]

/-- One octet. -/
theorem decodeFrom_padTwo : decodeFrom table (padChar :: padChar :: src) [s, t] 0 out =
    ⟨out ++ octets s t 0 0, some ((out ++ octets s t 0 0).length - 2)⟩ := by
  rw [decodeFrom]
  simp [foreign, decodeFrom]

end Groups

section Reading

/-- What the caller gets are these octets, wherever the writing stopped. -/
def Output.Yields (o : Output) (octets : Bytes) : Prop :=
  o.length = some octets.length ∧ o.written.take octets.length = octets

/-- The padding that the decoder has to make up. -/
def missing (pad : Bool) (len : ℕ) : ℕ := if pad then 0 else (3 - len % 3) % 3

theorem missing_add (pad : Bool) (len : ℕ) : missing pad (len + 3) = missing pad len := by
  simp [missing]

theorem first_lt (a : ℕ) : first a < 64 := Nat.and_lt_two_pow (n := 6) _ (by decide)

theorem second_lt (a b : ℕ) : second a b < 64 := Nat.and_lt_two_pow (n := 6) _ (by decide)

theorem third_lt (b c : ℕ) : third b c < 64 := Nat.and_lt_two_pow (n := 6) _ (by decide)

theorem fourth_lt (c : ℕ) : fourth c < 64 := Nat.and_lt_two_pow (n := 6) _ (by decide)

/-- The last sextet of one octet is that of two with a zero. -/
theorem second_zero (a : ℕ) : ((a &&& 0x03) <<< 4) &&& 0x3f = second a (0 : UInt8).toNat := by
  simp [second]

theorem third_zero (b : ℕ) : ((b &&& 0x0f) <<< 2) &&& 0x3f = third b (0 : UInt8).toNat := by
  simp [third]

variable (table : Table) (addPad : AddPad)

theorem decodeFrom_group (a b c : UInt8) (src out : Bytes) :
    decodeFrom table (table.char (first a.toNat) :: table.char (second a.toNat b.toNat) ::
      table.char (third b.toNat c.toNat) :: table.char (fourth c.toNat) :: src) [] 0 out =
    decodeFrom table src [] 0 (out ++ [a, b, c]) := by
  rw [decodeFrom_char table (first_lt _) (by decide), decodeFrom_char table (second_lt _ _) (by simp),
    decodeFrom_char table (third_lt _ _) (by simp)]
  simp only [List.nil_append, List.cons_append]
  rw [decodeFrom_fourth table (fourth_lt _), octets_sextets]

/-- The last line feed and the missing padding, after a full group. -/
theorem decodeFrom_encodeTail_nil (lineLen : ℕ) (out : Bytes) :
    decodeFrom table (encodeTail table addPad lineLen []) [] 0 out = ⟨out, some out.length⟩ := by
  simp only [encodeTail, List.nil_append]
  split
  · rw [decodeFrom_lf, decodeFrom]
  · rw [decodeFrom]

/-- The encoders break the lines of padded texts only. -/
theorem encodeTail_one (hlf : addPad.lf → addPad.pad) (lineLen : ℕ) (a : UInt8) :
    ∃ rest, encodeTail table addPad lineLen [a] ++
      List.replicate (missing addPad.pad 1) padChar = table.char (first a.toNat) ::
        table.char (second a.toNat (0 : UInt8).toNat) :: padChar :: padChar :: rest := by
  rcases addPad with ⟨_ | _, _ | _⟩
  · exact ⟨[], by simp [encodeTail, missing, second_zero]⟩
  · cases hlf rfl
  · exact ⟨[], by simp [encodeTail, missing, second_zero]⟩
  · exact ⟨[lfChar], by simp [encodeTail, missing, second_zero]⟩

theorem encodeTail_two (hlf : addPad.lf → addPad.pad) (lineLen : ℕ) (a b : UInt8) :
    ∃ rest, encodeTail table addPad lineLen [a, b] ++
      List.replicate (missing addPad.pad 2) padChar = table.char (first a.toNat) ::
        table.char (second a.toNat b.toNat) :: table.char (third b.toNat (0 : UInt8).toNat) ::
          padChar :: rest := by
  rcases addPad with ⟨_ | _, _ | _⟩
  · exact ⟨[], by simp [encodeTail, missing, third_zero]⟩
  · cases hlf rfl
  · exact ⟨[], by simp [encodeTail, missing, third_zero]⟩
  · exact ⟨[lfChar], by simp [encodeTail, missing, third_zero]⟩

theorem decodeFrom_encodeTail_one (hlf : addPad.lf → addPad.pad) (lineLen : ℕ) (a : UInt8)
    (out : Bytes) :
    (decodeFrom table (encodeTail table addPad lineLen [a] ++
      List.replicate (missing addPad.pad 1) padChar) [] 0 out).Yields (out ++ [a]) := by
  obtain ⟨rest, hrest⟩ := encodeTail_one table addPad hlf lineLen a
  rw [hrest, decodeFrom_char table (first_lt _) (by decide),
    decodeFrom_char table (second_lt _ _) (by simp)]
  simp only [List.nil_append, List.cons_append]
  have hoctets : octets (first a.toNat) (second a.toNat (0 : UInt8).toNat) 0 0 = [a, 0, 0] :=
    octets_sextets a 0 0
  rw [decodeFrom_padTwo, hoctets]
  constructor
  · simp
  · simp [List.take_append]

theorem decodeFrom_encodeTail_two (hlf : addPad.lf → addPad.pad) (lineLen : ℕ) (a b : UInt8)
    (out : Bytes) :
    (decodeFrom table (encodeTail table addPad lineLen [a, b] ++
      List.replicate (missing addPad.pad 2) padChar) [] 0 out).Yields (out ++ [a, b]) := by
  obtain ⟨rest, hrest⟩ := encodeTail_two table addPad hlf lineLen a b
  rw [hrest, decodeFrom_char table (first_lt _) (by decide),
    decodeFrom_char table (second_lt _ _) (by simp),
    decodeFrom_char table (third_lt _ _) (by simp)]
  simp only [List.nil_append, List.cons_append]
  have hoctets : octets (first a.toNat) (second a.toNat b.toNat)
      (third b.toNat (0 : UInt8).toNat) 0 = [a, b, 0] := octets_sextets a b 0
  rw [decodeFrom_padOne, hoctets]
  constructor
  · simp
  · simp [List.take_append]

/-- The loop of the decoder undoes the loop of the encoder, group by group. -/
theorem decodeFrom_encodeFrom (hlf : addPad.lf → addPad.pad) (src : Bytes) (lineLen : ℕ)
    (out : Bytes) :
    (decodeFrom table (encodeFrom table addPad lineLen src ++
      List.replicate (missing addPad.pad src.length) padChar) [] 0 out).Yields (out ++ src) := by
  match src with
  | a :: b :: c :: src =>
    have hsplit : out ++ a :: b :: c :: src = out ++ [a, b, c] ++ src := by simp
    rw [encodeFrom, hsplit]
    simp only [List.length_cons]
    rw [missing_add]
    split
    · simp only [List.cons_append, List.nil_append]
      rw [decodeFrom_group, decodeFrom_lf]
      exact decodeFrom_encodeFrom hlf src 0 _
    · simp only [List.cons_append, List.nil_append]
      rw [decodeFrom_group]
      exact decodeFrom_encodeFrom hlf src _ _
  | [] =>
    have hmissing : missing addPad.pad ([] : Bytes).length = 0 := by simp [missing]
    rw [hmissing, List.replicate_zero, List.append_nil, List.append_nil]
    have hnil := decodeFrom_encodeTail_nil table addPad lineLen out
    rw [encodeFrom, hnil]
    · exact ⟨rfl, List.take_length⟩
    · intro a b c src h
      cases h
  | [a] => exact decodeFrom_encodeTail_one table addPad hlf lineLen a out
  | [a, b] => exact decodeFrom_encodeTail_two table addPad hlf lineLen a b out

theorem extraPad_add (count : ℕ) : extraPad (count + 4) = extraPad count := by
  simp [extraPad]

theorem validCount_cons_char {i : ℕ} (hi : i < 64) (src : Bytes) :
    validCount table (table.char i :: src) = validCount table src + 1 := by
  simp [validCount, dtable_char table hi, ne_foreign hi]

theorem validCount_cons_pad (src : Bytes) :
    validCount table (padChar :: src) = validCount table src + 1 := by
  simp [validCount, foreign]

theorem validCount_cons_lf (src : Bytes) :
    validCount table (lfChar :: src) = validCount table src := by
  simp [validCount]

theorem validCount_nil : validCount table [] = 0 := rfl

/-- The decoder makes up exactly the padding that the encoder left out. -/
theorem extraPad_encodeFrom (src : Bytes) (lineLen : ℕ) :
    extraPad (validCount table (encodeFrom table addPad lineLen src)) =
      missing addPad.pad src.length := by
  match src with
  | a :: b :: c :: src =>
    rw [encodeFrom]
    simp only [List.length_cons]
    rw [missing_add]
    split
    · simp only [List.cons_append, List.nil_append, validCount_cons_char table (first_lt _),
        validCount_cons_char table (second_lt _ _), validCount_cons_char table (third_lt _ _),
        validCount_cons_char table (fourth_lt _), validCount_cons_lf, extraPad_add]
      exact extraPad_encodeFrom src 0
    · simp only [List.cons_append, List.nil_append, validCount_cons_char table (first_lt _),
        validCount_cons_char table (second_lt _ _), validCount_cons_char table (third_lt _ _),
        validCount_cons_char table (fourth_lt _), extraPad_add]
      exact extraPad_encodeFrom src _
  | [] =>
    simp only [encodeFrom, encodeTail, List.nil_append]
    split <;> simp [validCount_cons_lf, validCount_nil, extraPad, missing]
  | [a] =>
    rcases addPad with ⟨_ | _, _ | _⟩ <;>
      simp [encodeFrom, encodeTail, second_zero, validCount_cons_char table (first_lt _),
        validCount_cons_char table (second_lt _ _), validCount_cons_pad, validCount_cons_lf,
        validCount_nil, extraPad, missing]
  | [a, b] =>
    rcases addPad with ⟨_ | _, _ | _⟩ <;>
      simp [encodeFrom, encodeTail, third_zero, validCount_cons_char table (first_lt _),
        validCount_cons_char table (second_lt _ _), validCount_cons_char table (third_lt _ _),
        validCount_cons_pad, validCount_cons_lf, validCount_nil, extraPad, missing]

/-- Something is written for every octet. -/
theorem validCount_encodeFrom_pos {src : Bytes} (hne : src ≠ []) (lineLen : ℕ) :
    0 < validCount table (encodeFrom table addPad lineLen src) := by
  have hhead : ∃ a rest, encodeFrom table addPad lineLen src = table.char (first a) :: rest := by
    match src with
    | [] => exact absurd rfl hne
    | [a] => exact ⟨a.toNat, _, rfl⟩
    | [a, b] => exact ⟨a.toNat, _, rfl⟩
    | a :: b :: c :: src =>
      rw [encodeFrom]
      split
      · exact ⟨a.toNat, _, rfl⟩
      · exact ⟨a.toNat, _, rfl⟩
  obtain ⟨a, rest, hrest⟩ := hhead
  rw [hrest, validCount_cons_char table (first_lt a)]
  exact Nat.succ_pos _

end Reading

section Writing
variable {table : Table}

theorem validCount_cons (table : Table) (val : UInt8) (src : Bytes) :
    validCount table (val :: src) =
      validCount table src + if dtable table val = foreign then 0 else 1 := by
  by_cases h : dtable table val = foreign <;> simp [validCount, h]

/-- Three octets for four characters that count. -/
theorem length_decodeFrom_le (table : Table) (src : Bytes) (block : List ℕ) (pad : ℕ) (out : Bytes)
    (hblock : block.length < 4) :
    (decodeFrom table src block pad out).written.length ≤
      out.length + (block.length + validCount table src) / 4 * 3 := by
  induction src generalizing block pad out with
  | nil => exact Nat.le_add_right ..
  | cons val src ih =>
    rw [decodeFrom, validCount_cons]
    simp only
    by_cases hforeign : dtable table val = foreign
    · rw [if_pos hforeign, if_pos hforeign]
      exact ih block pad out hblock
    · rw [if_neg hforeign, if_neg hforeign]
      generalize (if val = padChar then pad + 1 else pad) = pad
      split
      · next s t u =>
        have hthree : (out ++ octets s t u (dtable table val)).length = out.length + 3 :=
          List.length_append
        have hgroup : ([s, t, u].length + (validCount table src + 1)) / 4 * 3 =
            validCount table src / 4 * 3 + 3 := by
          simp only [List.length_cons, List.length_nil]
          omega
        rw [hgroup]
        split
        · have hih := ih [] pad (out ++ octets s t u (dtable table val)) (by decide)
          rw [List.length_nil, Nat.zero_add] at hih
          omega
        · split
          · exact hthree.trans_le (by omega)
          · split
            · exact hthree.trans_le (by omega)
            · exact hthree.trans_le (by omega)
      · next hshort =>
        have hlt : block.length < 3 := by
          match block, hblock, hshort with
          | [], _, _ => decide
          | [_], _, _ => exact (by decide : 1 < 3)
          | [_, _], _, _ => exact (by decide : 2 < 3)
          | [s, t, u], _, hshort => exact (hshort s t u rfl).elim
          | _ :: _ :: _ :: _ :: _, hblock, _ =>
            simp only [List.length_cons] at hblock
            omega
        have hih := ih (block ++ [dtable table val]) pad out (by simp; omega)
        rw [List.length_append, List.length_singleton, Nat.add_assoc, Nat.add_comm 1] at hih
        exact hih

variable {sizeBits : ℕ} {malloc : ℕ → Bool} {addPad : AddPad}

theorem base64GenEncode_eq_some {src : Bytes} {e : Encoded}
    (h : base64GenEncode sizeBits malloc table addPad src = some e) :
    src.length < sizeMax sizeBits / 4 ∧
      e = ⟨encodeOlen sizeBits src.length addPad, encodeFrom table addPad 0 src ++ [0]⟩ := by
  unfold base64GenEncode at h
  split at h
  · cases h
  · next hlen =>
    refine ⟨Nat.not_le.mp hlen, ?_⟩
    simp only at h
    split at h
    · cases h
    · split at h
      · cases h
      · exact (Option.some.inj h).symm

/-- The data, the line feeds, the padding and the terminating zero fit. -/
theorem base64GenEncode_fits (hlf : addPad.lf → addPad.pad) {src : Bytes} {e : Encoded}
    (h : base64GenEncode sizeBits malloc table addPad src = some e) :
    e.written.length ≤ e.olen := by
  obtain ⟨hlen, rfl⟩ := base64GenEncode_eq_some h
  show (encodeFrom table addPad 0 src ++ [0]).length ≤ encodeOlen sizeBits src.length addPad
  rw [encodeOlen_eq hlen, List.length_append, List.length_singleton]
  rcases addPad with ⟨pad, _ | _⟩
  · have hle := length_encodeFrom_le table pad src 0
    simp only [Bool.false_eq_true, if_false]
    omega
  · obtain rfl : pad = true := hlf rfl
    have heq := length_encodeFrom_lf table src 0 (by decide)
    rw [Nat.mul_zero, Nat.zero_add] at heq
    simp only [if_true]
    rw [heq]
    exact groups_and_lfs_le src.length

theorem validCount_le (table : Table) (src : Bytes) : validCount table src ≤ src.length :=
  List.countP_le_length

theorem validCount_append (table : Table) (a b : Bytes) :
    validCount table (a ++ b) = validCount table a + validCount table b := List.countP_append

theorem validCount_replicate (table : Table) (n : ℕ) :
    validCount table (List.replicate n padChar) = n := by
  induction n with
  | zero => rfl
  | succ n ih => rw [List.replicate_succ, validCount_cons_pad, ih]

/-- For every text the decoder stays inside its buffer. -/
theorem base64GenDecode_fits {src : Bytes} {d : Decoded} (hsrc : src.length < 2 ^ sizeBits)
    (h : base64GenDecode sizeBits malloc table src = some d) :
    d.output.written.length ≤ d.olen := by
  unfold base64GenDecode at h
  simp only at h
  split at h
  · cases h
  · split at h
    · cases h
    · obtain rfl := Option.some.inj h
      simp only
      have hcount := validCount_le table src
      have hwrites := length_decodeFrom_le table
        ((src ++ List.replicate (extraPad (validCount table src)) padChar).take
          ((src.length + extraPad (validCount table src)) % 2 ^ sizeBits)) [] 0 [] (by decide)
      simp only [List.length_nil, Nat.zero_add] at hwrites
      apply hwrites.trans
      have hextra : extraPad (validCount table src) ≤ 3 := by
        unfold extraPad
        omega
      by_cases hwrap : src.length + extraPad (validCount table src) < 2 ^ sizeBits
      · have hall : (src ++ List.replicate (extraPad (validCount table src)) padChar).length =
            src.length + extraPad (validCount table src) := by simp
        rw [Nat.mod_eq_of_lt hwrap, ← hall, List.take_length, validCount_append,
          validCount_replicate, Nat.mod_eq_of_lt (by omega)]
        rw [Nat.mod_eq_of_lt (by omega)]
      · -- the length wraps, and the loop ends before the first group
        have hsteps : (src.length + extraPad (validCount table src)) % 2 ^ sizeBits < 3 := by
          rw [Nat.mod_eq_sub_mod (Nat.not_lt.mp hwrap)]
          apply (Nat.mod_le _ _).trans_lt
          omega
        have hfew := (validCount_le table
          ((src ++ List.replicate (extraPad (validCount table src)) padChar).take
            ((src.length + extraPad (validCount table src)) % 2 ^ sizeBits))).trans
          (List.length_take_le ..)
        omega

end Writing

section Codec
variable {sizeBits : ℕ} {table : Table} {addPad : AddPad}

/-- A text that is encoded and decoded, where the allocations succeed. -/
def RoundTrips (encode : Bytes → Option Encoded) (decode : Bytes → Option Decoded) (src : Bytes) :
    Prop :=
  ∃ e d, encode src = some e ∧ decode e.text = some d ∧ d.result = some src

theorem base64Gen_roundTrip (hlf : addPad.lf → addPad.pad) {src : Bytes} (hne : src ≠ [])
    (hlen : src.length < sizeMax sizeBits / 4) :
    RoundTrips (base64GenEncode sizeBits (fun _ => true) table addPad)
      (base64GenDecode sizeBits (fun _ => true) table) src := by
  let text := encodeFrom table addPad 0 src
  let olen := encodeOlen sizeBits src.length addPad
  have hroom : ¬olen < src.length := by
    simp only [olen]
    rw [encodeOlen_eq hlen]
    split <;> omega
  have hencode : base64GenEncode sizeBits (fun _ => true) table addPad src =
      some ⟨olen, text ++ [0]⟩ := by
    rw [base64GenEncode, if_neg (Nat.not_le.mpr hlen)]
    exact if_neg hroom
  have hfits : (text ++ [0]).length ≤ olen := base64GenEncode_fits hlf hencode
  have holen : olen < 2 ^ sizeBits := Nat.mod_lt _ (Nat.two_pow_pos sizeBits)
  have htext : Encoded.text ⟨olen, text ++ [0]⟩ = text := List.dropLast_concat
  have hcount : validCount table text ≠ 0 := (validCount_encodeFrom_pos table addPad hne 0).ne'
  have hextra : extraPad (validCount table text) = missing addPad.pad src.length :=
    extraPad_encodeFrom table addPad src 0
  have hsteps : (text ++ List.replicate (missing addPad.pad src.length) padChar).take
      ((text.length + missing addPad.pad src.length) % 2 ^ sizeBits) =
      text ++ List.replicate (missing addPad.pad src.length) padChar := by
    apply List.take_of_length_le
    rw [Nat.mod_eq_of_lt, List.length_append, List.length_replicate]
    rw [List.length_append, List.length_singleton] at hfits
    rcases addPad with ⟨_ | _, lf⟩
    · obtain rfl : lf = false := Bool.eq_false_iff.mpr fun h => Bool.false_ne_true (hlf h)
      have hle : text.length ≤ _ := length_encodeFrom_le table false src 0
      simp only [olen, encodeOlen_eq hlen] at holen
      simp only [missing, Bool.false_eq_true, if_false] at holen ⊢
      omega
    · simp only [missing, if_true]
      omega
  have hyields := decodeFrom_encodeFrom table addPad hlf src 0 []
  let padded := text ++ List.replicate (missing addPad.pad src.length) padChar
  have hdecode : ∃ olen, base64GenDecode sizeBits (fun _ => true) table text =
      some ⟨olen, decodeFrom table padded [] 0 []⟩ := by
    rw [base64GenDecode]
    simp only
    rw [if_neg hcount, hextra, hsteps]
    exact ⟨_, rfl⟩
  obtain ⟨_, hdecode⟩ := hdecode
  refine ⟨_, _, hencode, htext.symm ▸ hdecode, ?_⟩
  show Option.map _ _ = _
  rw [hyields.1, Option.map_some]
  exact congrArg some hyields.2

/-- Each encoding is read back exactly, the encoder stays inside what it allocates, and so does the
decoder for every text. -/
theorem base64_codec (sizeBits : ℕ) :
    (∀ src : Bytes, src ≠ [] → src.length < sizeMax sizeBits / 4 →
      RoundTrips (wpaBase64Encode sizeBits fun _ => true) (wpaBase64Decode sizeBits fun _ => true)
        src ∧
      RoundTrips (base64EncodeNoLf sizeBits fun _ => true) (wpaBase64Decode sizeBits fun _ => true)
        src ∧
      RoundTrips (base64UrlEncode sizeBits fun _ => true) (base64UrlDecode sizeBits fun _ => true)
        src) ∧
    (∀ malloc : ℕ → Bool, ∀ encode ∈ [wpaBase64Encode sizeBits malloc,
      base64EncodeNoLf sizeBits malloc, base64UrlEncode sizeBits malloc],
      ∀ src e, encode src = some e → e.written.length ≤ e.olen) ∧
    (∀ malloc : ℕ → Bool, ∀ decode ∈ [wpaBase64Decode sizeBits malloc,
      base64UrlDecode sizeBits malloc], ∀ text d, text.length < 2 ^ sizeBits →
      decode text = some d → d.output.written.length ≤ d.olen) := by
  refine ⟨?_, ?_, ?_⟩
  · intro src hne hlen
    exact ⟨base64Gen_roundTrip (fun _ => rfl) hne hlen, base64Gen_roundTrip (by decide) hne hlen,
      base64Gen_roundTrip (by decide) hne hlen⟩
  · intro malloc encode hmem src e h
    simp only [List.mem_cons, List.not_mem_nil, or_false] at hmem
    rcases hmem with rfl | rfl | rfl
    · exact base64GenEncode_fits (fun _ => rfl) h
    · exact base64GenEncode_fits (by decide) h
    · exact base64GenEncode_fits (by decide) h
  · intro malloc decode hmem text d htext h
    simp only [List.mem_cons, List.not_mem_nil, or_false] at hmem
    rcases hmem with rfl | rfl
    · exact base64GenDecode_fits htext h
    · exact base64GenDecode_fits htext h

end Codec

end Wpa.Base64
