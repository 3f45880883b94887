import Mathlib.Algebra.Order.Ring.Int
import Wpa.Lib.Reads

/-! The DER reader and writer of `tls/asn1.c`. A reader is given the octets from its position to
the end of the buffer. `w` is the width of `unsigned long`; an `unsigned int` has 32 bits. -/

namespace Wpa.Asn1
open Lib Bytes

def maxOidLen : ℕ := 20

def tagBoolean : ℕ := 0x01
def tagInteger : ℕ := 0x02
def tagNull : ℕ := 0x05
def tagOid : ℕ := 0x06
def tagSequence : ℕ := 0x10
def tagSet : ℕ := 0x11

def classUniversal : ℕ := 0
def classPrivate : ℕ := 3

/-- `struct asn1_hdr`; the payload is given by its offset in the buffer. -/
structure Hdr where
  payload : ℕ
  identifier : ℕ
  cls : ℕ
  constructed : Bool
  tag : ℕ
  length : ℕ
  deriving DecidableEq

/-! ### Reading -/

/-- The universal types that are never constructed. -/
def primitiveTags : List ℕ :=
  [tagBoolean, tagInteger, tagNull, tagOid, 0x0D, 0x09, 0x0A, 0x03, 0x04, 0x12, 0x13, 0x14, 0x15,
    0x1A, 0x16, 0x19, 0x1B, 0x1C, 0x0C, 0x1E, 0x1D, 0x17, 0x18, 0x0E]

def validDerBoolean (payload : Bytes) (length : ℕ) : Bool :=
  length == 1 && (payload.byteAt 0 == 0 || payload.byteAt 0 == 0xff)

def validDer (cls : ℕ) (constructed : Bool) (tag length : ℕ) (payload : Bytes) : Bool :=
  if cls ≠ classUniversal then true
  else if tag = tagBoolean && !validDerBoolean payload length then false
  else if tag = tagNull ∧ length ≠ 0 then false
  else if constructed && tag ∈ primitiveTags then false
  else if !constructed && (tag = tagSequence ∨ tag = tagSet) then false
  else true

/-- The octets of an extended tag and how many there are. -/
def readTag : Bytes → ℕ → ℕ → Option (ℕ × ℕ × Bytes)
  | [], _, _ => none
  | x :: rest, tag, extLen =>
    let tag := (tag * 128 + x.toNat % 128) % 2 ^ 32
    if 128 ≤ x.toNat then readTag rest tag (extLen + 1) else some (tag, extLen + 1, rest)

def getTag (identifier : ℕ) (rest : Bytes) : Option (ℕ × Bytes) :=
  if identifier % 32 = 31 then
    if rest = [] ∨ rest.byteAt 0 % 128 = 0 then none
    else
      match readTag rest 0 0 with
      | none => none
      | some (tag, extLen, rest) =>
        if (identifier / 64 ≠ classPrivate ∧ tag < 31) ∨ 32 < extLen * 7 then none
        else some (tag, rest)
  else some (identifier % 32, rest)

def readLength : ℕ → Bytes → ℕ → Option (ℕ × Bytes)
  | 0, rest, length => some (length, rest)
  | _ + 1, [], _ => none
  | n + 1, x :: rest, length => readLength n rest ((length * 256 + x.toNat) % 2 ^ 32)

def getLength : Bytes → Option (ℕ × Bytes)
  | [] => none
  | tmp :: rest =>
    if 128 ≤ tmp.toNat then
      if tmp.toNat = 0xff then none
      else
        let n := tmp.toNat % 128
        if n = 0 ∨ rest = [] ∨ byteAt rest 0 = 0 then none
        else if 4 < n then none
        else
          match readLength n rest 0 with
          | none => none
          | some (length, rest) => if length < 128 then none else some (length, rest)
    else some (tmp.toNat, rest)

def getNext (buf : Bytes) : Option Hdr :=
  match buf with
  | [] => none
  | x :: rest => do
    let (tag, rest) ← getTag x.toNat rest
    let (length, rest) ← getLength rest
    if rest.length % 2 ^ 32 < length then
      none
    else
      let cls := x.toNat / 64
      let constructed := x.toNat / 32 % 2 == 1
      if validDer cls constructed tag length rest then
        some ⟨buf.length - rest.length, x.toNat, cls, constructed, tag, length⟩
      else none

/-- One component more; the first octets hold the first two. -/
def addComponent (val : ℕ) (oid : List ℕ) : Option (List ℕ) :=
  if maxOidLen ≤ oid.length then none
  else if oid = [] then some [min (val / 40) 2, val - min (val / 40) 2 * 40]
  else some (oid ++ [val])

/-- `asn1_parse_oid`, octet by octet; `inside` says that the inner loop asks for another octet. -/
def parseOid (w : ℕ) : Bytes → ℕ → Bool → List ℕ → Option (List ℕ)
  | [], _, inside, oid => if inside then none else some oid
  | x :: rest, val, _, oid =>
    let val := (val * 128 + x.toNat % 128) % 2 ^ w
    if 128 ≤ x.toNat then parseOid w rest val true oid
    else (addComponent val oid).bind (parseOid w rest 0 false)

/-- The identifier and the offset of what follows it. -/
def getOid (w : ℕ) (buf : Bytes) : Option (List ℕ × ℕ) := do
  let hdr ← getNext buf
  if hdr.length = 0 ∨ ¬(hdr.cls = classUniversal ∧ hdr.tag = tagOid) then none
  else
    let oid ← parseOid w (buf.slice hdr.payload hdr.length) 0 false []
    some (oid, hdr.payload + hdr.length)

/-- `value <<= 8; value |= *pos++` on an `int`. -/
def shiftIn (value : ℤ) (x : UInt8) : ℤ := Int.bmod (value * 256 + x.toNat) (2 ^ 32)

def getInteger (buf : Bytes) : Option (ℤ × ℕ) := do
  let hdr ← getNext buf
  if hdr.length = 0 ∨ ¬(hdr.cls = classUniversal ∧ hdr.tag = tagInteger) then none
  else if 4 < hdr.length then none
  else some ((buf.slice hdr.payload hdr.length).foldl shiftIn 0, hdr.payload + hdr.length)

/-! ### Writing -/

def putLen (len : ℕ) : Bytes :=
  if len ≤ 0x7f then [UInt8.ofNat len]
  else if len ≤ 0xff then [0x81, UInt8.ofNat len]
  else if len ≤ 0xffff then 0x82 :: ofBeNat len 2
  else if len ≤ 0xffffff then 0x83 :: ofBeNat len 3
  else 0x84 :: ofBeNat (len % 2 ^ 32) 4

def putHdr (cls : ℕ) (constructed : Bool) (tag len : ℕ) : Bytes :=
  UInt8.ofNat (cls <<< 6 ||| (if constructed then 0x20 else 0x00) ||| tag) :: putLen len

def leadingZeros : ℕ → Bytes → ℕ
  | n + 1, x :: rest => if x = 0 then leadingZeros n rest + 1 else 0
  | _, _ => 0

def putInteger (val : ℤ) : Bytes :=
  let bin := ofBeNat (val % 2 ^ 32).toNat 4
  let zeros := leadingZeros 3 bin
  [UInt8.ofNat tagInteger, UInt8.ofNat (4 - zeros)] ++ bin.drop zeros

/-- The loop that fills the scratch array from the last octet on; `room` cells are left, and a
write behind them is `none`. -/
def fillScratch : ℕ → Bool → ℕ → Option Bytes
  | room, first, val =>
    if val = 0 then some []
    else
      match room with
      | 0 => none
      | room + 1 =>
        (fillScratch room false (val / 128)).map
          (UInt8.ofNat ((if first then 0x00 else 0x80) + val % 128) :: ·)

def putComponent (val : ℕ) : Option Bytes :=
  (fillScratch 8 true val).map fun bytes => (if bytes = [] then [0] else bytes).reverse

def putComponents : List ℕ → Option Bytes
  | [] => some []
  | val :: rest => do
    let first ← putComponent val
    let more ← putComponents rest
    some (first ++ more)

def putOid : List ℕ → Option Bytes
  | first :: second :: rest => do
    let bytes ← putComponents rest
    let content := UInt8.ofNat (40 * first + second) :: bytes
    some (UInt8.ofNat tagOid :: UInt8.ofNat content.length :: content)
  | _ => some []

end Wpa.Asn1
