import Wpa.Lib.Cmac

/-! OMAC1 over a vector of elements (`crypto/aes-omac1.c`): the cursor that goes from one element to
the next, and CMAC of the concatenation. -/

namespace Wpa.Omac1
open Lib Bytes Cmac

/-- `aes_encrypt` with the context of a key. -/
abbrev AesEncrypt := BlockFunction 16

/-- `gf_mulx`. -/
def gfMulx (pad : Bytes) : Bytes :=
  if pad.head?.any (128 ≤ ·) then xor (shiftLeft pad) (zeros 15 ++ [0x87]) else shiftLeft pad

/-- The octets from `pos` to `end`, and the elements behind the current one. -/
structure Cursor where
  pos : Bytes
  rest : List Bytes
  deriving DecidableEq

/-- `addr[0]`. -/
def Cursor.start : List Bytes → Option Cursor
  | [] => none
  | addr :: rest => some ⟨addr, rest⟩

/-- One octet is read. Nothing for a read at the end of an element or an element that is not there.
The cursor hops at the end of an element, but not with the last octet of all. -/
def readOctet (last : Bool) (c : Cursor) : Option (UInt8 × Cursor) :=
  match c.pos with
  | [] => none
  | x :: pos =>
    if pos = [] ∧ last = false then
      match c.rest with
      | [] => none
      | addr :: rest => some (x, ⟨addr, rest⟩)
    else some (x, ⟨pos, c.rest⟩)

/-- `n` octets, where `left` of them are left in all elements. -/
def readOctets : ℕ → ℕ → Cursor → Option (Bytes × Cursor)
  | 0, _, c => some ([], c)
  | n + 1, left, c => do
    let (x, c) ← readOctet (left = 1) c
    let (xs, c) ← readOctets n (left - 1) c
    return (x :: xs, c)

/-- The `n` turns of the loop over whole blocks. The last block of all is not encrypted. -/
def macBlocks (aes : AesEncrypt) : ℕ → ℕ → Bytes → Cursor → Option (Bytes × Cursor)
  | 0, _, cbc, c => some (cbc, c)
  | n + 1, left, cbc, c => do
    let (block, c) ← readOctets 16 left c
    let cbc := xor cbc block
    macBlocks aes n (left - 16) (if left > 16 then aes.run cbc else cbc) c

/-- `omac1_aes_vector` with the outcome of `aes_encrypt_init`: the code, or no code where that has
failed; nothing for a read outside of the elements. -/
def omac1AesVector (ctx : Option AesEncrypt) (elems : List Bytes) : Option (Option Bytes) :=
  match ctx with
  | none => some none
  | some aes => do
    let totalLen := (elems.map List.length).sum
    let c ← Cursor.start elems
    let (cbc, c) ← macBlocks aes (totalLen / 16) totalLen (zeros 16) c
    let left := totalLen % 16
    let pad := gfMulx (aes.run (zeros 16))
    if left ≠ 0 ∨ totalLen = 0 then
      let (last, _) ← readOctets left left c
      let cbc := xor cbc (last ++ 0x80 :: zeros (15 - left))
      return some (aes.run (xor (gfMulx pad) cbc))
    else return some (aes.run (xor pad cbc))

/-- The first bit of a block. -/
theorem head_any_iff {pad : Bytes} (h : pad.length = 16) :
    pad.head?.any (128 ≤ ·) = true ↔ ¬ beNat pad < 2 ^ 127 := by
  obtain _ | ⟨x, rest⟩ := pad
  · cases h
  · have hrest := beNat_lt rest
    rw [Nat.succ.inj h] at hrest
    have hhead : (128 : UInt8) ≤ x ↔ 128 ≤ x.toNat := UInt8.le_iff_toNat_le
    rw [List.head?_cons, Option.any_some, decide_eq_true_iff, hhead, beNat, Nat.succ.inj h]
    omega

/-- `gf_mulx` is the doubling. -/
theorem gfMulx_eq {pad : Bytes} (h : pad.length = 16) : gfMulx pad = doubled pad := by
  have hshift : (shiftLeft pad).length = 16 := (length_shiftLeft pad).trans h
  have hnat : beNat (shiftLeft pad) = 2 * beNat pad % 2 ^ 128 := by
    rw [beNat_shiftLeft, h]
    rfl
  have hpoly : beNat (zeros 15 ++ [0x87]) = 0x87 := rfl
  rw [gfMulx]
  by_cases hcarry : beNat pad < 2 ^ 127
  · have hhead := mt (head_any_iff h).mp (not_not.mpr hcarry)
    rw [if_neg hhead]
    apply beNat_injective (hshift.trans (length_doubled pad).symm)
    rw [beNat_doubled, if_pos hcarry, hnat, Nat.xor_zero]
  · rw [if_pos ((head_any_iff h).mpr hcarry)]
    have hlen : (shiftLeft pad).length = (zeros 15 ++ [0x87]).length := hshift
    have hxor : (xor (shiftLeft pad) (zeros 15 ++ [0x87])).length = 16 := length_xor hlen
    apply beNat_injective (hxor.trans (length_doubled pad).symm)
    rw [beNat_doubled, if_neg hcarry, beNat_xor hlen, hnat, hpoly]

/-- No empty element stands in front of one that is not empty. -/
def Gapless (elems : List Bytes) : Prop := elems.Pairwise fun a b => a = [] → b = []

instance (elems : List Bytes) : Decidable (Gapless elems) := inferInstanceAs (Decidable (List.Pairwise _ _))

def Cursor.elems (c : Cursor) : List Bytes := c.pos :: c.rest

def Cursor.octets (c : Cursor) : Bytes := c.pos ++ c.rest.flatten

section Read
variable {c : Cursor} {n m left : ℕ}

theorem flatten_nil_of_gapless {rest : List Bytes} (h : Gapless ([] :: rest)) : rest.flatten = [] :=
  List.flatten_eq_nil_iff.mpr fun a ha => (List.pairwise_cons.mp h).1 a ha rfl

theorem gapless_of_flatten_nil {rest : List Bytes} (h : rest.flatten = []) : Gapless rest := by
  rw [List.flatten_eq_nil_iff] at h
  exact List.pairwise_of_forall_mem_list fun _ _ b hb _ => h b hb

theorem gapless_cons {x : UInt8} {pos : Bytes} {rest : List Bytes} :
    Gapless ((x :: pos) :: rest) ↔ Gapless rest := by
  constructor
  · intro h
    exact (List.pairwise_cons.mp h).2
  · intro h
    exact List.pairwise_cons.mpr ⟨fun _ _ hnil => absurd hnil (List.cons_ne_nil _ _), h⟩

theorem not_gapless {rest : List Bytes} (h : rest.flatten ≠ []) : ¬ Gapless ([] :: rest) :=
  fun hgap => h (flatten_nil_of_gapless hgap)

theorem gapless_nil_cons {rest : List Bytes} (h : rest.flatten = []) : Gapless ([] :: rest) :=
  List.pairwise_cons.mpr
    ⟨fun a ha _ => List.flatten_eq_nil_iff.mp h a ha, gapless_of_flatten_nil h⟩

theorem readOctet_stay {last : Bool} {x : UInt8} {pos : Bytes} {rest : List Bytes}
    (h : pos ≠ [] ∨ last = true) : readOctet last ⟨x :: pos, rest⟩ = some (x, ⟨pos, rest⟩) := by
  have hstay : ¬ (pos = [] ∧ last = false) := by
    rintro ⟨hpos, hlast⟩
    obtain hne | htrue := h
    · exact hne hpos
    · rw [hlast] at htrue
      cases htrue
  exact if_neg hstay

/-- The step: the next octet of all, unless the cursor stands in a gap. The way ahead has a gap if
it had one before. -/
theorem readOctet_step (hleft : left = c.octets.length) (hpos : 0 < left) :
    (c.pos = [] ∧ ¬ Gapless c.elems ∧ readOctet (left = 1) c = none) ∨
      ∃ x c', readOctet (left = 1) c = some (x, c') ∧ c.octets = x :: c'.octets ∧
        (Gapless c.elems ↔ Gapless c'.elems) := by
  obtain ⟨pos, rest⟩ := c
  obtain _ | ⟨x, _ | ⟨y, pos⟩⟩ := pos
  · refine .inl ⟨rfl, not_gapless fun hnil => ?_, rfl⟩
    rw [hleft, Cursor.octets, hnil] at hpos
    exact absurd hpos (Nat.lt_irrefl 0)
  · by_cases hlast : left = 1
    · have hnil : rest.flatten = [] := by
        rw [hlast] at hleft
        exact List.length_eq_zero_iff.mp (Nat.succ.inj hleft).symm
      refine .inr ⟨x, ⟨[], rest⟩, readOctet_stay (.inr (decide_eq_true hlast)), rfl, ?_⟩
      exact iff_of_true (gapless_cons.mpr (gapless_of_flatten_nil hnil)) (gapless_nil_cons hnil)
    · cases rest with
      | nil => exact absurd hleft hlast
      | cons addr rest =>
        rw [decide_eq_false hlast]
        exact .inr ⟨x, ⟨addr, rest⟩, rfl, rfl, gapless_cons⟩
  · exact .inr ⟨x, ⟨y :: pos, rest⟩, readOctet_stay (.inl (List.cons_ne_nil y pos)), rfl,
      gapless_cons.trans gapless_cons.symm⟩

/-- The run: the first octets of all. -/
theorem readOctets_eq (h : Gapless c.elems) (hleft : left = c.octets.length) (hn : n ≤ left) :
    ∃ c', readOctets n left c = some (c.octets.take n, c') ∧ c'.octets = c.octets.drop n ∧
      Gapless c'.elems := by
  induction n generalizing left c with
  | zero => exact ⟨c, rfl, rfl, h⟩
  | succ n ih =>
    obtain ⟨-, hgap, -⟩ | ⟨x, c₁, hread, hoctets, hgap⟩ := readOctet_step hleft (by omega)
    · exact absurd h hgap
    · rw [hoctets, List.length_cons] at hleft
      obtain ⟨c', hrest, hdrop, hgap'⟩ := @ih c₁ (left - 1) (hgap.mp h) (by omega) (by omega)
      refine ⟨c', ?_, ?_, hgap'⟩
      · rw [readOctets, hread, hoctets]
        show (readOctets n (left - 1) c₁).bind _ = _
        rw [hrest]
        rfl
      · rw [hdrop, hoctets]
        rfl

/-- A gap is run into before all octets have been read. -/
theorem readOctets_gap (h : ¬ Gapless c.elems) (hleft : left = c.octets.length) :
    readOctets left left c = none := by
  induction left generalizing c with
  | zero =>
    obtain ⟨hpos, hrest⟩ := List.append_eq_nil_iff.mp (List.length_eq_zero_iff.mp hleft.symm)
    refine absurd ?_ h
    rw [Cursor.elems, hpos]
    exact gapless_nil_cons hrest
  | succ n ih =>
    obtain ⟨-, -, hread⟩ | ⟨x, c₁, hread, hoctets, hgap⟩ := readOctet_step hleft (Nat.succ_pos n)
    · rw [readOctets, hread]
      rfl
    · rw [hoctets, List.length_cons] at hleft
      rw [readOctets, hread]
      show (readOctets n (n + 1 - 1) c₁).bind _ = none
      rw [Nat.add_sub_cancel, ih (mt hgap.mpr h) (Nat.succ.inj hleft)]
      rfl

theorem readOctets_add (n m left : ℕ) (c : Cursor) :
    readOctets (n + m) left c = (readOctets n left c).bind fun r =>
      (readOctets m (left - n) r.2).map fun r' => (r.1 ++ r'.1, r'.2) := by
  induction n generalizing left c with
  | zero =>
    rw [Nat.zero_add, readOctets, Option.bind_some, Nat.sub_zero]
    exact Option.map_id'.symm
  | succ n ih =>
    rw [Nat.succ_add, readOctets, readOctets]
    cases readOctet (decide (left = 1)) c with
    | none => rfl
    | some r =>
      show (readOctets (n + m) (left - 1) r.2).bind _ = ((readOctets n (left - 1) r.2).bind _).bind _
      rw [ih, Nat.sub_sub, Nat.add_comm 1 n]
      cases readOctets n (left - 1) r.2 with
      | none => rfl
      | some r' =>
        show ((readOctets m (left - (n + 1)) r'.2).map _).bind _ =
          (readOctets m (left - (n + 1)) r'.2).map _
        cases readOctets m (left - (n + 1)) r'.2 with
        | none => rfl
        | some r'' => rfl

theorem length_readOctets {r : Bytes × Cursor} (h : readOctets n left c = some r) :
    r.1.length = n := by
  induction n generalizing left c r with
  | zero =>
    cases h
    rfl
  | succ n ih =>
    obtain ⟨s, -, h⟩ := Option.bind_eq_some_iff.mp h
    obtain ⟨t, ht, h⟩ := Option.bind_eq_some_iff.mp h
    cases h
    rw [List.length_cons, ih ht]

end Read

section Mac
variable {aes : AesEncrypt} {elems : List Bytes} {c : Cursor} {n left : ℕ} {cbc data : Bytes}

/-- The loop over whole blocks, on the octets that it reads. -/
def cbcBlocks (aes : AesEncrypt) : ℕ → ℕ → Bytes → Bytes → Bytes
  | 0, _, cbc, _ => cbc
  | n + 1, left, cbc, data =>
    let cbc := xor cbc (data.take 16)
    cbcBlocks aes n (left - 16) (if left > 16 then aes.run cbc else cbc) (data.drop 16)

/-- All reads come first. -/
theorem macBlocks_eq (n left : ℕ) (cbc : Bytes) (c : Cursor) :
    macBlocks aes n left cbc c =
      (readOctets (16 * n) left c).map fun r => (cbcBlocks aes n left cbc r.1, r.2) := by
  induction n generalizing left cbc c with
  | zero => rfl
  | succ n ih =>
    have hsum : 16 * (n + 1) = 16 + 16 * n := by omega
    rw [hsum, readOctets_add, macBlocks]
    cases hread : readOctets 16 left c with
    | none => rfl
    | some r =>
      have hlen := length_readOctets hread
      show macBlocks aes n (left - 16) _ r.2 = ((readOctets (16 * n) (left - 16) r.2).map _).map _
      rw [ih, Option.map_map]
      congr 1
      funext s
      show _ = (cbcBlocks aes (n + 1) left cbc (r.1 ++ s.1), s.2)
      rw [cbcBlocks, List.take_left' hlen, List.drop_left' hlen]

/-- The code that is made of all octets. -/
def macOf (aes : AesEncrypt) (data : Bytes) : Bytes :=
  let cbc := cbcBlocks aes (data.length / 16) data.length (zeros 16) data
  let left := data.length % 16
  let pad := gfMulx (aes.run (zeros 16))
  if left ≠ 0 ∨ data.length = 0 then
    aes.run (xor (gfMulx pad)
      (xor cbc (data.drop (16 * (data.length / 16)) ++ 0x80 :: zeros (15 - left))))
  else aes.run (xor pad cbc)

theorem cbcBlocks_state (h : 16 * n < left) :
    cbcBlocks aes n left cbc data = state aes n cbc data := by
  induction n generalizing left cbc data with
  | zero => rfl
  | succ n ih => rw [cbcBlocks, if_pos (by omega), ih (by omega), state]

theorem cbcBlocks_last (n : ℕ) (cbc data : Bytes) :
    cbcBlocks aes (n + 1) (16 * (n + 1)) cbc data =
      xor (state aes n cbc data) ((data.drop (16 * n)).take 16) := by
  induction n generalizing cbc data with
  | zero => rfl
  | succ n ih =>
    rw [cbcBlocks, if_pos (by omega), Nat.mul_succ 16 (n + 1), Nat.add_sub_cancel, ih, List.drop_drop,
      Nat.mul_succ 16 n, Nat.add_comm 16, state]

theorem macOf_part (h : data.length % 16 ≠ 0 ∨ data.length = 0) : macOf aes data = cmac aes data := by
  have hfirst : gfMulx (aes.run (zeros 16)) = subkey1 aes := gfMulx_eq (aes.length_run _)
  have hsecond : gfMulx (subkey1 aes) = subkey2 aes := gfMulx_eq (ofBeNat_length _ _)
  have hdrop : (data.drop (16 * (data.length / 16))).length = data.length % 16 := by
    rw [List.length_drop]
    omega
  have hlast : lastBlock aes (data.drop (16 * (data.length / 16))) =
      xor (data.drop (16 * (data.length / 16)) ++ 0x80 :: zeros (15 - data.length % 16))
        (subkey2 aes) := by
    rw [lastBlock, if_neg (by omega), hdrop]
  have hstate : cbcBlocks aes (data.length / 16) data.length (zeros 16) data =
      state aes (data.length / 16) (zeros 16) data := by
    by_cases hzero : data.length = 0
    · rw [hzero]
      rfl
    · exact cbcBlocks_state (by omega)
  have hquot : (data.length - 1) / 16 = data.length / 16 := by omega
  rw [macOf, if_pos h, hfirst, hsecond, hstate, cmac_eq hquot, hlast, Bytes.xor_comm, xor_assoc]

theorem macOf_whole (h : data.length % 16 = 0) (hpos : data.length ≠ 0) :
    macOf aes data = cmac aes data := by
  have hfirst : gfMulx (aes.run (zeros 16)) = subkey1 aes := gfMulx_eq (aes.length_run _)
  obtain ⟨q, hq⟩ : ∃ q, data.length = 16 * (q + 1) := ⟨data.length / 16 - 1, by omega⟩
  have hdrop : (data.drop (16 * q)).length = 16 := by
    rw [List.length_drop]
    omega
  have hlast : lastBlock aes (data.drop (16 * q)) = xor (data.drop (16 * q)) (subkey1 aes) :=
    if_pos hdrop
  have hblocks := @cbcBlocks_last aes q (zeros 16) data
  have hquot : data.length / 16 = q + 1 := by omega
  have hquot' : (data.length - 1) / 16 = q := by omega
  rw [List.take_of_length_le hdrop.le, ← hq] at hblocks
  rw [macOf, if_neg (by omega), hfirst, hquot, hblocks, cmac_eq hquot', hlast, Bytes.xor_comm,
    xor_assoc]

theorem macOf_eq_cmac (data : Bytes) : macOf aes data = cmac aes data := by
  by_cases hpart : data.length % 16 ≠ 0 ∨ data.length = 0
  · exact macOf_part hpart
  · exact macOf_whole (by omega) (by omega)

/-- The whole blocks depend on their octets only. -/
theorem cbcBlocks_append (h : data.length = 16 * n) (rest : Bytes) :
    cbcBlocks aes n left cbc (data ++ rest) = cbcBlocks aes n left cbc data := by
  induction n generalizing left cbc data with
  | zero => rfl
  | succ n ih =>
    have hlen : (data.drop 16).length = 16 * n := by
      rw [List.length_drop]
      omega
    rw [cbcBlocks, cbcBlocks, List.take_append_of_le_length (by omega),
      List.drop_append_of_le_length (by omega), ih hlen]

/-- The function, on all octets that it reads. -/
theorem omac1AesVector_eq (hstart : Cursor.start elems = some c)
    (htotal : (elems.map List.length).sum = c.octets.length) :
    omac1AesVector (some aes) elems =
      (readOctets c.octets.length c.octets.length c).map fun r => some (macOf aes r.1) := by
  generalize c.octets.length = total at htotal
  have hsplit := Nat.div_add_mod total 16
  have hadd := readOctets_add (16 * (total / 16)) (total % 16) total c
  have hleft : total - 16 * (total / 16) = total % 16 := by omega
  rw [hsplit, hleft] at hadd
  rw [hadd, omac1AesVector, htotal, hstart]
  show (macBlocks aes (total / 16) total (zeros 16) c).bind _ = _
  rw [macBlocks_eq]
  cases hread : readOctets (16 * (total / 16)) total c with
  | none => rfl
  | some r =>
    have hlen := length_readOctets hread
    have hmac (s : Bytes) (hs : s.length = total % 16) : macOf aes (r.1 ++ s) =
        if total % 16 ≠ 0 ∨ total = 0 then
          aes.run (xor (gfMulx (gfMulx (aes.run (zeros 16))))
            (xor (cbcBlocks aes (total / 16) total (zeros 16) r.1)
              (s ++ 0x80 :: zeros (15 - total % 16))))
        else aes.run (xor (gfMulx (aes.run (zeros 16)))
          (cbcBlocks aes (total / 16) total (zeros 16) r.1)) := by
      have hdata : (r.1 ++ s).length = total := by
        rw [List.length_append]
        omega
      rw [macOf, hdata, cbcBlocks_append hlen, List.drop_left' hlen]
    show (if total % 16 ≠ 0 ∨ total = 0 then (readOctets (total % 16) (total % 16) r.2).bind _ else _) =
      ((readOctets (total % 16) (total % 16) r.2).map _).map _
    by_cases hpart : total % 16 ≠ 0 ∨ total = 0
    · rw [if_pos hpart]
      cases hlast : readOctets (total % 16) (total % 16) r.2 with
      | none => rfl
      | some s =>
        show some (some _) = some (some (macOf aes (r.1 ++ s.1)))
        rw [hmac s.1 (length_readOctets hlast), if_pos hpart]
    · obtain ⟨hzero, -⟩ := not_or.mp hpart
      have hnone : total % 16 = 0 := not_not.mp hzero
      have hread : readOctets (total % 16) (total % 16) r.2 = some ([], r.2) := by
        rw [hnone]
        rfl
      rw [if_neg hpart, hread]
      show some (some _) = some (some (macOf aes (r.1 ++ [])))
      rw [hmac [] hnone.symm, if_neg hpart]

theorem length_elems (addr : Bytes) (rest : List Bytes) :
    ((addr :: rest).map List.length).sum = (⟨addr, rest⟩ : Cursor).octets.length := by
  rw [Cursor.octets, List.length_append, List.length_flatten]
  rfl

theorem omac1AesVector_of_gapless {addr : Bytes} {rest : List Bytes}
    (h : Gapless (addr :: rest)) :
    omac1AesVector (some aes) (addr :: rest) = some (some (cmac aes (addr :: rest).flatten)) := by
  obtain ⟨c', hread, -⟩ := @readOctets_eq ⟨addr, rest⟩ _ _ h rfl le_rfl
  rw [@omac1AesVector_eq aes (addr :: rest) ⟨addr, rest⟩ rfl (length_elems addr rest), hread,
    Option.map_some, List.take_length, macOf_eq_cmac]
  rfl

theorem omac1AesVector_of_gap {addr : Bytes} {rest : List Bytes} (h : ¬ Gapless (addr :: rest)) :
    omac1AesVector (some aes) (addr :: rest) = none := by
  rw [@omac1AesVector_eq aes (addr :: rest) ⟨addr, rest⟩ rfl (length_elems addr rest),
    @readOctets_gap ⟨addr, rest⟩ _ h rfl]
  rfl

end Mac

/-- The vector is read inside of its elements and gives CMAC of their concatenation exactly if no
empty element stands in front of one that is not empty. -/
theorem omac1AesVector_cmac_iff (aes : AesEncrypt) (elems : List Bytes) (hne : elems ≠ []) :
    omac1AesVector (some aes) elems = some (some (cmac aes elems.flatten)) ↔ Gapless elems := by
  obtain _ | ⟨addr, rest⟩ := elems
  · exact absurd rfl hne
  · constructor
    · intro h
      by_contra hgap
      rw [omac1AesVector_of_gap hgap] at h
      cases h
    · exact omac1AesVector_of_gapless

def zeroAes : AesEncrypt := .const (zeros 16)

theorem zeroAes_split : omac1AesVector (some zeroAes) [[1, 2], [3], []] =
    some (some (cmac zeroAes [1, 2, 3])) :=
  (omac1AesVector_cmac_iff zeroAes [[1, 2], [3], []] (by decide)).mpr (by decide)

/-- An empty element in front of an octet, and one between two. -/
theorem omac1AesVector_gap :
    omac1AesVector (some zeroAes) [[], [1]] ≠ some (some (cmac zeroAes [1])) ∧
      omac1AesVector (some zeroAes) [[1], [], [2]] ≠ some (some (cmac zeroAes [1, 2])) := by
  have hfirst : omac1AesVector (some zeroAes) [[], [1]] = none := rfl
  have hmiddle : omac1AesVector (some zeroAes) [[1], [], [2]] = none := rfl
  rw [hfirst, hmiddle]
  exact ⟨(Option.some_ne_none _).symm, (Option.some_ne_none _).symm⟩

end Wpa.Omac1
