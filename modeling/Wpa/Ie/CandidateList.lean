import Wpa.Lib.InPlace
import Wpa.Utils.Numerals

/-! `ieee802_11_parse_candidate_list` of `common/ieee802_11_common.c`: a list of BSS transition
candidates in text becomes Neighbor Report elements. A pointer into the text is the rest of the text
from there on, and `none` stands for an access outside the buffer for the elements. -/

namespace Wpa.CandidateList
open Lib Bytes Text Json Numerals

def eidNeighborReport : UInt8 := 52

def blank : UInt8 := ' '.toUInt8

/-- `" neighbor="`. -/
def neighborMark : Bytes :=
  [blank, 'n'.toUInt8, 'e'.toUInt8, 'i'.toUInt8, 'g'.toUInt8, 'h'.toUInt8, 'b'.toUInt8, 'o'.toUInt8,
    'r'.toUInt8, '='.toUInt8]

/-- `WPA_PUT_LE32`. -/
def putLe32 (val : ℤ) : Bytes := (ofBeNat (val % 2 ^ 32).toNat 4).reverse

/-- Where an entry ends: the next position in the buffer, and the next one in the text if there is
one. The outer `none` stands for a return of -1. -/
abbrev EntryEnd := Option (ℕ × Option Bytes)

/-- The last statement of the loop: the length octet of the element. -/
def fillLength (neiStart neiPos : ℕ) (pos : Option Bytes) (buf : Bytes) :
    Option (Bytes × EntryEnd) := do
  let buf ← buf.store (neiStart + 1) [UInt8.ofNat (neiPos - neiStart - 2)]
  return (buf, some (neiPos, pos))

/-- The hexdump of subelements at `pos`. -/
def parseSubelements (neiStart neiPos : ℕ) (pos buf : Bytes) : Option (Bytes × EntryEnd) :=
  let stop := strchr blank pos
  let len := pos.length - (stop.getD []).length
  if neiPos + len / 2 > buf.length then some (buf, none)
  else if len % 2 = 1 then some (buf, none)
  else do
    let buf ← buf.store neiPos (hexStored pos (len / 2))
    match hexstr2bin pos (len / 2) with
    | none => return (buf, none)
    | some _ => fillLength neiStart (neiPos + len / 2) stop buf

/-- The part of the loop from the PHY type on. -/
def parsePhyType (w neiStart : ℕ) (pos buf : Bytes) : Option (Bytes × EntryEnd) := do
  let buf ← buf.store (neiStart + 14) [atoi w pos]
  match strchr comma pos with
  | none => fillLength neiStart (neiStart + 15) (some pos) buf
  | some tmp =>
    -- the later position has the shorter rest
    if (strchr blank pos).all fun stop => stop.length < tmp.length then
      parseSubelements neiStart (neiStart + 15) tmp.tail buf
    else fillLength neiStart (neiStart + 15) (some pos) buf

/-- The part of the loop from the operating class on. -/
def parseChannels (w neiStart : ℕ) (pos buf : Bytes) : Option (Bytes × EntryEnd) := do
  let buf ← buf.store (neiStart + 12) [atoi w pos]
  match strchr comma pos with
  | none => return (buf, none)
  | some pos =>
    let buf ← buf.store (neiStart + 13) [atoi w pos.tail]
    match strchr comma pos.tail with
    | none => return (buf, none)
    | some pos => parsePhyType w neiStart pos.tail buf

/-- A turn of the loop, from behind `" neighbor="` on. -/
def parseNeighbor (w neiStart : ℕ) (pos buf : Bytes) : Option (Bytes × EntryEnd) := do
  let buf ← buf.store neiStart [eidNeighborReport]
  let buf ← buf.store (neiStart + 2) (hwaddrAton pos).1
  if ¬ (hwaddrAton pos).2 then return (buf, none)
  else if (pos.drop 17).head? ≠ some comma then return (buf, none)
  else
    let (val, endptr) := strtol w 0 (pos.drop 17).tail
    let buf ← buf.store (neiStart + 8) (putLe32 val)
    if endptr.head? ≠ some comma then return (buf, none)
    else parseChannels w neiStart endptr.tail buf

section Shorter
variable {w neiStart neiPos next : ℕ} {pos buf buf' t : Bytes} {at? : Option Bytes}

theorem strchr_length {c : UInt8} (h : strchr c pos = some t) : t.length ≤ pos.length := by
  obtain ⟨hnone, -⟩ | ⟨a, b, -, hpos, hsome⟩ := strchr_cases c pos
  · rw [hnone] at h
    cases h
  · rw [hsome] at h
    cases h
    rw [hpos, List.length_append]
    exact Nat.le_add_left _ _

theorem fillLength_at (h : fillLength neiStart neiPos at? buf = some (buf', some (next, some t))) :
    at? = some t := by
  obtain ⟨buf₁, -, h⟩ := Option.bind_eq_some_iff.mp h
  cases h
  rfl

theorem parseSubelements_le
    (h : parseSubelements neiStart neiPos pos buf = some (buf', some (next, some t))) :
    t.length ≤ pos.length := by
  unfold parseSubelements at h
  simp only at h
  split at h
  · cases h
  · split at h
    · cases h
    · obtain ⟨buf₁, -, h⟩ := Option.bind_eq_some_iff.mp h
      split at h
      · cases h
      · exact strchr_length (fillLength_at h)

theorem parsePhyType_le (h : parsePhyType w neiStart pos buf = some (buf', some (next, some t))) :
    t.length ≤ pos.length := by
  obtain ⟨buf₁, -, h⟩ := Option.bind_eq_some_iff.mp h
  split at h
  · cases fillLength_at h
    exact le_rfl
  · rename_i tmp htmp
    split at h
    · have hle := parseSubelements_le h
      have hlen := strchr_length htmp
      rw [List.length_tail] at hle
      omega
    · cases fillLength_at h
      exact le_rfl

theorem parseChannels_le (h : parseChannels w neiStart pos buf = some (buf', some (next, some t))) :
    t.length ≤ pos.length := by
  obtain ⟨buf₁, -, h⟩ := Option.bind_eq_some_iff.mp h
  split at h
  · cases h
  · rename_i pos₁ hpos₁
    obtain ⟨buf₂, -, h⟩ := Option.bind_eq_some_iff.mp h
    split at h
    · cases h
    · rename_i pos₂ hpos₂
      have hle := parsePhyType_le h
      have hlen₁ := strchr_length hpos₁
      have hlen₂ := strchr_length hpos₂
      rw [List.length_tail] at hle hlen₂
      omega

/-- A turn of the loop goes on behind where it began. -/
theorem parseNeighbor_le (h : parseNeighbor w neiStart pos buf = some (buf', some (next, some t))) :
    t.length ≤ pos.length := by
  obtain ⟨buf₁, -, h⟩ := Option.bind_eq_some_iff.mp h
  obtain ⟨buf₂, -, h⟩ := Option.bind_eq_some_iff.mp h
  simp only at h
  split at h
  · cases h
  · split at h
    · cases h
    · obtain ⟨buf₃, -, h⟩ := Option.bind_eq_some_iff.mp h
      split at h
      · cases h
      · have hle := parseChannels_le h
        have hlen := (@strtol_suffix w 0 (pos.drop 17).tail).length_le
        rw [List.length_tail] at hle hlen
        rw [List.length_drop] at hlen
        omega

end Shorter

/-- The loop. -/
def parseFrom (w neiPos : ℕ) (pos buf : Bytes) : Option (Bytes × Option ℕ) :=
  match _hmark : strstr neighborMark pos with
  | none => some (buf, some neiPos)
  | some mark =>
    if neiPos + 15 > buf.length then some (buf, none)
    else
      match _hturn : parseNeighbor w neiPos (mark.drop 10) buf with
      | none => none
      | some (buf, none) => some (buf, none)
      | some (buf, some (neiPos, none)) => some (buf, some neiPos)
      | some (buf, some (neiPos, some pos)) => parseFrom w neiPos pos buf
termination_by pos.length
decreasing_by
  have hle := parseNeighbor_le _hturn
  obtain ⟨hpre, hsuf⟩ := strstr_some _hmark
  have hlow : 10 ≤ mark.length := hpre.length_le
  have hhigh := hsuf.length_le
  rw [List.length_drop] at hle
  omega

/-- A difference of pointers, returned as an `int`. -/
def toInt (n : ℕ) : ℤ := Int.bmod n (2 ^ 32)

/-- `ieee802_11_parse_candidate_list` into a buffer of `nei_rep_len` octets. -/
def parseCandidateList (w : ℕ) (pos neiRep : Bytes) : Option (Bytes × ℤ) := do
  let (buf, neiPos) ← parseFrom w 0 pos neiRep
  match neiPos with
  | none => return (buf, -1)
  | some neiPos => return (buf, toInt neiPos)

end Wpa.CandidateList
