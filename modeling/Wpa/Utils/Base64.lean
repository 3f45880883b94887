import Mathlib.Algebra.Order.Ring.Nat
import Mathlib.Data.List.Nodup
import Wpa.Lib.Sextets

/-! The base64 encoder and decoder: three encodings, padded with line feeds, padded, and unpadded
for URLs, and one decoder that skips foreign characters and makes up missing padding. -/

namespace Wpa.Base64
open Lib Sextets

section Tables

/-- The padding character. -/
def padChar : UInt8 := 61

def lfChar : UInt8 := 10

/-- An encoding table: 64 different characters, neither the padding nor the line feed. -/
structure Table where
  chars : Bytes
  length_eq : chars.length = 64
  nodup : chars.Nodup
  noPad : padChar ∉ chars
  noLf : lfChar ∉ chars

def Table.char (table : Table) (sextet : ℕ) : UInt8 := table.chars.getD sextet 0

/-- The characters that both tables begin with. -/
def alphanumeric : List Char :=
  ['A', 'B', 'C', 'D', 'E', 'F', 'G', 'H', 'I', 'J', 'K', 'L', 'M', 'N', 'O', 'P', 'Q', 'R', 'S',
    'T', 'U', 'V', 'W', 'X', 'Y', 'Z', 'a', 'b', 'c', 'd', 'e', 'f', 'g', 'h', 'i', 'j', 'k', 'l',
    'm', 'n', 'o', 'p', 'q', 'r', 's', 't', 'u', 'v', 'w', 'x', 'y', 'z', '0', '1', '2', '3', '4',
    '5', '6', '7', '8', '9']

def ascii (chars : List Char) : Bytes := chars.map fun c => UInt8.ofNat c.toNat

def base64Table : Table where
  chars := ascii (alphanumeric ++ ['+', '/'])
  length_eq := by decide
  nodup := by decide
  noPad := by decide
  noLf := by decide

def base64UrlTable : Table where
  chars := ascii (alphanumeric ++ ['-', '_'])
  length_eq := by decide
  nodup := by decide
  noPad := by decide
  noLf := by decide

/-- What the decoding table holds for a foreign character. -/
def foreign : ℕ := 0x80

/-- `dtable`, as the decoder fills it. -/
def dtable (table : Table) : UInt8 → ℕ :=
  Function.update
    ((List.range 64).foldl (fun d i => Function.update d (table.char i) i) fun _ => foreign)
    padChar 0

end Tables

section Encode

/-- `BASE64_PAD` and `BASE64_LF`. -/
structure AddPad where
  pad : Bool
  lf : Bool

/-- The octets after the last full group, the last line feed and the terminating zero. -/
def encodeTail (table : Table) (addPad : AddPad) (lineLen : ℕ) (src : Bytes) : Bytes :=
  let (group, lineLen) := match src with
    | [] => ([], lineLen)
    | [a] => ([table.char (first a.toNat), table.char (((a.toNat &&& 0x03) <<< 4) &&& 0x3f)] ++
        (if addPad.pad then [padChar] else []) ++ (if addPad.pad then [padChar] else []),
        lineLen + 4)
    | a :: b :: _ => ([table.char (first a.toNat), table.char (second a.toNat b.toNat),
        table.char (((b.toNat &&& 0x0f) <<< 2) &&& 0x3f)] ++
        (if addPad.pad then [padChar] else []), lineLen + 4)
  group ++ if addPad.lf ∧ lineLen ≠ 0 then [lfChar] else []

/-- What the encoder writes before the terminating zero. -/
def encodeFrom (table : Table) (addPad : AddPad) : ℕ → Bytes → Bytes
  | lineLen, a :: b :: c :: src =>
    let group := [table.char (first a.toNat), table.char (second a.toNat b.toNat),
      table.char (third b.toNat c.toNat), table.char (fourth c.toNat)]
    let lineLen := lineLen + 4
    if addPad.lf ∧ 72 ≤ lineLen then group ++ lfChar :: encodeFrom table addPad 0 src
    else group ++ encodeFrom table addPad lineLen src
  | lineLen, src => encodeTail table addPad lineLen src

/-- An allocated buffer and what was written to it, the terminating zero included. -/
structure Encoded where
  olen : ℕ
  written : Bytes
  deriving DecidableEq

/-- The text without the terminating zero: `out_len` octets. -/
def Encoded.text (e : Encoded) : Bytes := e.written.dropLast

variable (sizeBits : ℕ) (malloc : ℕ → Bool)

def sizeMax : ℕ := 2 ^ sizeBits - 1

/-- The length that the encoder allocates, in the width of `size_t`. -/
def encodeOlen (len : ℕ) (addPad : AddPad) : ℕ :=
  let olen := (len * 4 % 2 ^ sizeBits / 3 + 4) % 2 ^ sizeBits
  let olen := if addPad.lf then (olen + olen / 72) % 2 ^ sizeBits else olen
  (olen + 1) % 2 ^ sizeBits

def base64GenEncode (table : Table) (addPad : AddPad) (src : Bytes) : Option Encoded :=
  if sizeMax sizeBits / 4 ≤ src.length then none
  else
    let olen := encodeOlen sizeBits src.length addPad
    if olen < src.length then none
    else if !malloc olen then none
    else some ⟨olen, encodeFrom table addPad 0 src ++ [0]⟩

def wpaBase64Encode : Bytes → Option Encoded :=
  base64GenEncode sizeBits malloc base64Table ⟨true, true⟩

def base64EncodeNoLf : Bytes → Option Encoded :=
  base64GenEncode sizeBits malloc base64Table ⟨true, false⟩

def base64UrlEncode : Bytes → Option Encoded :=
  base64GenEncode sizeBits malloc base64UrlTable ⟨false, false⟩

end Encode

section Decode

/-- What was written to the output, and its length: none where the buffer was freed. -/
structure Output where
  written : Bytes
  length : Option ℕ
  deriving DecidableEq

/-- The loop of the decoder, with the sextets of the group so far. -/
def decodeFrom (table : Table) : Bytes → List ℕ → ℕ → Bytes → Output
  | [], _, _, out => ⟨out, some out.length⟩
  | val :: src, block, pad, out =>
    let tmp := dtable table val
    if tmp = foreign then decodeFrom table src block pad out
    else
      let pad := if val = padChar then pad + 1 else pad
      match block with
      | [s, t, u] =>
        let out := out ++ octets s t u tmp
        if pad = 0 then decodeFrom table src [] pad out
        else if pad = 1 then ⟨out, some (out.length - 1)⟩
        else if pad = 2 then ⟨out, some (out.length - 2)⟩
        else ⟨out, none⟩
      | block => decodeFrom table src (block ++ [tmp]) pad out

/-- An allocated buffer and what the loop left in it. -/
structure Decoded where
  olen : ℕ
  output : Output
  deriving DecidableEq

/-- What the caller gets. -/
def Decoded.result (d : Decoded) : Option Bytes := d.output.length.map d.output.written.take

variable (sizeBits : ℕ) (malloc : ℕ → Bool)

/-- The characters that count. -/
def validCount (table : Table) (src : Bytes) : ℕ := src.countP fun val => dtable table val ≠ foreign

def extraPad (count : ℕ) : ℕ := (4 - count % 4) % 4

def base64GenDecode (table : Table) (src : Bytes) : Option Decoded :=
  let count := validCount table src
  if count = 0 then none
  else
    let olen := (count + extraPad count) % 2 ^ sizeBits / 4 * 3 % 2 ^ sizeBits
    if !malloc olen then none
    else
      let steps := (src.length + extraPad count) % 2 ^ sizeBits
      some ⟨olen, decodeFrom table ((src ++ List.replicate (extraPad count) padChar).take steps)
        [] 0 []⟩

def wpaBase64Decode : Bytes → Option Decoded := base64GenDecode sizeBits malloc base64Table

def base64UrlDecode : Bytes → Option Decoded := base64GenDecode sizeBits malloc base64UrlTable

end Decode

end Wpa.Base64
