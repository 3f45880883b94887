import Wpa.Lib.BlockCipher
import Wpa.Common.Defs

/-! The record layer of the internal TLS (`tls/tlsv1_record.c`), with its cipher suites
(`tls/tlsv1_common.c`) and ciphers (`crypto/crypto_internal-cipher.c`, `crypto/rc4.c`). -/

namespace Wpa.Record
open Lib Bytes

section Rc4

/-- The permutation `S` and the two indices. -/
structure Rc4 where
  s : Bytes
  i : ℕ := 0
  j : ℕ := 0

def sSwap (s : Bytes) (a b : ℕ) : Bytes := (s.set a (s.getD b 0)).set b (s.getD a 0)

/-- A turn of the key setup, with `j` and `kpos`. -/
def setupTurn (key : Bytes) (keylen : ℕ) (c : Bytes × ℕ × ℕ) (i : ℕ) : Bytes × ℕ × ℕ :=
  let j := (c.2.1 + c.1.byteAt i + key.byteAt c.2.2) % 256
  (sSwap c.1 i j, j, if c.2.2 + 1 ≥ keylen then 0 else c.2.2 + 1)

def Rc4.setup (key : Bytes) (keylen : ℕ) : Rc4 where
  s := ((List.range 256).foldl (setupTurn key keylen) ((List.range 256).map UInt8.ofNat, 0, 0)).1

def Rc4.turn (c : Rc4) : Rc4 :=
  let i := (c.i + 1) % 256
  let j := (c.j + c.s.byteAt i) % 256
  ⟨sSwap c.s i j, i, j⟩

/-- The octet of the key stream after a turn. -/
def Rc4.octet (c : Rc4) : UInt8 := c.s.getD ((c.s.byteAt c.i + c.s.byteAt c.j) % 256) 0

def Rc4.apply : Rc4 → Bytes → Bytes
  | _, [] => []
  | c, x :: data => (x ^^^ c.turn.octet) :: c.turn.apply data

/-- `rc4_skip`. -/
def rc4Skip (key : Bytes) (keylen skip : ℕ) (data : Bytes) : Bytes :=
  (Rc4.turn^[skip] (Rc4.setup key keylen)).apply data

theorem Rc4.apply_apply (c : Rc4) (data : Bytes) : c.apply (c.apply data) = data := by
  induction data generalizing c with
  | nil => rfl
  | cons x data ih =>
    have hx : x ^^^ c.turn.octet ^^^ c.turn.octet = x := by
      rw [UInt8.xor_assoc, UInt8.xor_self, UInt8.xor_zero]
    show (x ^^^ c.turn.octet ^^^ c.turn.octet) :: c.turn.apply (c.turn.apply data) = x :: data
    rw [hx, ih]

theorem Rc4.length_apply (c : Rc4) (data : Bytes) : (c.apply data).length = data.length := by
  induction data generalizing c with
  | nil => rfl
  | cons x data ih => exact congrArg Nat.succ (ih _)

end Rc4

section Cipher

/-- `enum crypto_cipher_alg`. -/
inductive CipherAlg where
  | null
  | aes
  | des3
  | des
  | rc2
  | rc4
  deriving DecidableEq

/-- `enum crypto_hash_alg`. -/
inductive HashAlg where
  | md5
  | sha1
  | hmacMd5
  | hmacSha1
  | sha256
  | hmacSha256
  | sha384
  | sha512
  deriving DecidableEq

def HashAlg.macLen : HashAlg → ℕ
  | .md5 => 16
  | .hmacMd5 => 16
  | .sha1 => 20
  | .hmacSha1 => 20
  | .sha256 => 32
  | .hmacSha256 => 32
  | .sha384 => 48
  | .sha512 => 64

/-- The block ciphers and hash functions below the record layer. `hash` is `crypto_hash_init` with a
key and one update, for a buffer that has room. -/
structure Crypto where
  aes : Bytes → Option (BlockCipher 16)
  des3 : Bytes → BlockCipher 8
  des : Bytes → BlockCipher 8
  hash : HashAlg → Bytes → Bytes → Option Bytes
  length_hash : ∀ alg key data mac, hash alg key data = some mac → mac.length = alg.macLen

/-- `crypto_hash_finish` into a buffer of `room` octets. -/
def Crypto.hashFinish (cr : Crypto) (alg : HashAlg) (key data : Bytes) (room : ℕ) : Option Bytes :=
  if room < alg.macLen then none else cr.hash alg key data

/-- `struct crypto_cipher`. The chaining block of DES lies elsewhere in the union than the one of
3DES, which the encryption with DES adds the plain text to. -/
inductive CryptoCipher where
  | rc4 (usedBytes : ℕ) (key : Bytes) (keylen : ℕ)
  | aes (ctx : BlockCipher 16) (cbc : Bytes)
  | des3 (key : BlockCipher 8) (cbc : Bytes)
  | des (key : BlockCipher 8) (cbc des3Cbc : Bytes)

/-- `crypto_cipher_init`. -/
def cryptoCipherInit (cr : Crypto) (alg : CipherAlg) (iv key : Bytes) (keyLen : ℕ) :
    Option CryptoCipher :=
  match alg with
  | .rc4 => if keyLen > 16 then none else some (.rc4 0 (key.take keyLen) keyLen)
  | .aes => (cr.aes (key.take keyLen)).map (.aes · (iv.take 16))
  | .des3 => if keyLen ≠ 24 then none else some (.des3 (cr.des3 (key.take 24)) (iv.take 8))
  | .des => if keyLen ≠ 8 then none else some (.des (cr.des (key.take 8)) (iv.take 8) (zeros 8))
  | .null | .rc2 => none

/-- The encryption with DES: each block is made from the one before, and the plain text goes where
nothing reads it. -/
def desEncrypt (key : BlockCipher 8) : ℕ → Bytes → Bytes → Bytes → Bytes × Bytes × Bytes
  | 0, cbc, des3Cbc, _ => ([], cbc, des3Cbc)
  | n + 1, cbc, des3Cbc, plain =>
    let c := key.encrypt cbc
    let rest := desEncrypt key n c (xor des3Cbc (plain.take 8)) (plain.drop 8)
    (c ++ rest.1, rest.2)

/-- `crypto_cipher_encrypt`. -/
def CryptoCipher.encrypt (c : CryptoCipher) (plain : Bytes) : Option (Bytes × CryptoCipher) :=
  match c with
  | .rc4 used key keylen =>
    some (rc4Skip key keylen used plain, .rc4 (used + plain.length) key keylen)
  | .aes ctx cbc =>
    if plain.length % 16 ≠ 0 then none
    else
      let r := ctx.cbcEncrypt (plain.length / 16) cbc plain
      some (r.1, .aes ctx r.2)
  | .des3 key cbc =>
    if plain.length % 8 ≠ 0 then none
    else
      let r := key.cbcEncrypt (plain.length / 8) cbc plain
      some (r.1, .des3 key r.2)
  | .des key cbc des3Cbc =>
    if plain.length % 8 ≠ 0 then none
    else
      let r := desEncrypt key (plain.length / 8) cbc des3Cbc plain
      some (r.1, .des key r.2.1 r.2.2)

/-- `crypto_cipher_decrypt`. -/
def CryptoCipher.decrypt (c : CryptoCipher) (crypt : Bytes) : Option (Bytes × CryptoCipher) :=
  match c with
  | .rc4 used key keylen =>
    some (rc4Skip key keylen used crypt, .rc4 (used + crypt.length) key keylen)
  | .aes ctx cbc =>
    if crypt.length % 16 ≠ 0 then none
    else
      let r := ctx.cbcDecrypt (crypt.length / 16) cbc crypt
      some (r.1, .aes ctx r.2)
  | .des3 key cbc =>
    if crypt.length % 8 ≠ 0 then none
    else
      let r := key.cbcDecrypt (crypt.length / 8) cbc crypt
      some (r.1, .des3 key r.2)
  | .des key cbc des3Cbc =>
    if crypt.length % 8 ≠ 0 then none
    else
      let r := key.cbcDecrypt (crypt.length / 8) cbc crypt
      some (r.1, .des key r.2 des3Cbc)

/-- A cipher that is not DES, and whose chaining block is whole. -/
def CryptoCipher.Chained : CryptoCipher → Prop
  | .rc4 .. => True
  | .aes _ cbc => cbc.length = 16
  | .des3 _ cbc => cbc.length = 8
  | .des .. => False

theorem cryptoCipherInit_chained {cr : Crypto} {alg : CipherAlg} {iv key : Bytes} {keyLen : ℕ}
    {c : CryptoCipher} (h : cryptoCipherInit cr alg iv key keyLen = some c) (hiv : iv.length = 16)
    (halg : alg ≠ .des) : c.Chained := by
  cases alg with
  | rc4 =>
    simp only [cryptoCipherInit] at h
    split at h
    · cases h
    · cases h
      trivial
  | aes =>
    obtain ⟨ctx, -, rfl⟩ := Option.map_eq_some_iff.mp h
    show (iv.take 16).length = 16
    rw [List.length_take, hiv, Nat.min_self]
  | des3 =>
    simp only [cryptoCipherInit] at h
    split at h
    · cases h
    · cases h
      show (iv.take 8).length = 8
      rw [List.length_take, hiv]
      rfl
  | des => exact absurd rfl halg
  | null => cases h
  | rc2 => cases h

/-- A context of the same contents at the other end gets the plain text back, and the two stay
alike. -/
theorem CryptoCipher.decrypt_encrypt {c c' : CryptoCipher} {plain crypt : Bytes} (hc : c.Chained)
    (h : c.encrypt plain = some (crypt, c')) :
    c.decrypt crypt = some (plain, c') ∧ crypt.length = plain.length ∧ c'.Chained := by
  cases c with
  | rc4 used key keylen =>
    cases h
    have hlen : (rc4Skip key keylen used plain).length = plain.length := Rc4.length_apply _ _
    refine ⟨?_, hlen, trivial⟩
    simp only [decrypt]
    rw [hlen, rc4Skip, rc4Skip, Rc4.apply_apply]
  | aes ctx cbc =>
    simp only [encrypt, ite_not] at h
    split at h
    case isFalse => cases h
    case isTrue hmod =>
      obtain ⟨hlen, hlast, hback⟩ := ctx.cbcDecrypt_whole hc hmod
      cases h
      refine ⟨?_, hlen, hlast⟩
      rw [decrypt, hback, hlen, if_neg (not_not_intro hmod)]
  | des3 key cbc =>
    simp only [encrypt, ite_not] at h
    split at h
    case isFalse => cases h
    case isTrue hmod =>
      obtain ⟨hlen, hlast, hback⟩ := key.cbcDecrypt_whole hc hmod
      cases h
      refine ⟨?_, hlen, hlast⟩
      rw [decrypt, hback, hlen, if_neg (not_not_intro hmod)]
  | des key cbc des3Cbc => exact absurd hc id

/-- What DES makes of a text depends on its length only. -/
theorem desEncrypt_eq (key : BlockCipher 8) (n : ℕ) (cbc x y plain plain' : Bytes) :
    (desEncrypt key n cbc x plain).1 = (desEncrypt key n cbc y plain').1 ∧
      (desEncrypt key n cbc x plain).2.1 = (desEncrypt key n cbc y plain').2.1 := by
  induction n generalizing cbc x y plain plain' with
  | zero => exact ⟨rfl, rfl⟩
  | succ n ih =>
    obtain ⟨hout, hcbc⟩ := ih (key.encrypt cbc) (xor x (plain.take 8)) (xor y (plain'.take 8))
      (plain.drop 8) (plain'.drop 8)
    exact ⟨congrArg (key.encrypt cbc ++ ·) hout, hcbc⟩

end Cipher

section Suites

/-- `tls_cipher`. -/
inductive TlsCipher where
  | null
  | rc4_40
  | rc4_128
  | rc2Cbc40
  | ideaCbc
  | des40Cbc
  | desCbc
  | des3EdeCbc
  | aes128Cbc
  | aes256Cbc
  deriving DecidableEq

/-- `tls_hash`. -/
inductive TlsHash where
  | null
  | md5
  | sha
  | sha256
  deriving DecidableEq

/-- `struct tls_cipher_suite`. -/
structure TlsCipherSuite where
  suite : ℕ
  cipher : TlsCipher
  hash : TlsHash
  deriving DecidableEq

/-- `tls_cipher_suites`. -/
def tlsCipherSuites : List TlsCipherSuite :=
  [⟨0x0000, .null, .null⟩, ⟨0x0004, .rc4_128, .md5⟩, ⟨0x0005, .rc4_128, .sha⟩,
    ⟨0x0009, .desCbc, .sha⟩, ⟨0x000a, .des3EdeCbc, .sha⟩, ⟨0x0015, .desCbc, .sha⟩,
    ⟨0x0016, .des3EdeCbc, .sha⟩, ⟨0x0018, .rc4_128, .md5⟩, ⟨0x001a, .desCbc, .sha⟩,
    ⟨0x001b, .des3EdeCbc, .sha⟩, ⟨0x002f, .aes128Cbc, .sha⟩, ⟨0x0033, .aes128Cbc, .sha⟩,
    ⟨0x0034, .aes128Cbc, .sha⟩, ⟨0x0035, .aes256Cbc, .sha⟩, ⟨0x0039, .aes256Cbc, .sha⟩,
    ⟨0x003a, .aes256Cbc, .sha⟩, ⟨0x003c, .aes128Cbc, .sha256⟩, ⟨0x003d, .aes256Cbc, .sha256⟩,
    ⟨0x0067, .aes128Cbc, .sha256⟩, ⟨0x006b, .aes256Cbc, .sha256⟩, ⟨0x006c, .aes128Cbc, .sha256⟩,
    ⟨0x006d, .aes256Cbc, .sha256⟩]

/-- `struct tls_cipher_data`. -/
structure TlsCipherData where
  cipher : TlsCipher
  keyMaterial : ℕ
  blockSize : ℕ
  alg : CipherAlg
  deriving DecidableEq

/-- `tls_ciphers`. -/
def tlsCiphers : List TlsCipherData :=
  [⟨.null, 0, 0, .null⟩, ⟨.ideaCbc, 16, 8, .null⟩, ⟨.rc2Cbc40, 5, 0, .rc2⟩, ⟨.rc4_40, 5, 0, .rc4⟩,
    ⟨.rc4_128, 16, 0, .rc4⟩, ⟨.des40Cbc, 5, 8, .des⟩, ⟨.desCbc, 8, 8, .des⟩,
    ⟨.des3EdeCbc, 24, 8, .des3⟩, ⟨.aes128Cbc, 16, 16, .aes⟩, ⟨.aes256Cbc, 32, 16, .aes⟩]

/-- `tls_get_cipher_suite`. -/
def tlsGetCipherSuite (suite : ℕ) : Option TlsCipherSuite :=
  tlsCipherSuites.find? (·.suite == suite)

/-- `tls_get_cipher_data`. -/
def tlsGetCipherData (cipher : TlsCipher) : Option TlsCipherData :=
  tlsCiphers.find? (·.cipher == cipher)

/-- `struct tlsv1_record_layer`. -/
structure RecordLayer where
  tlsVersion : ℕ := 0x0301
  writeMacSecret : Bytes := zeros 32
  readMacSecret : Bytes := zeros 32
  writeKey : Bytes := zeros 32
  readKey : Bytes := zeros 32
  writeIv : Bytes := zeros 16
  readIv : Bytes := zeros 16
  hashSize : ℕ := 0
  keyMaterialLen : ℕ := 0
  ivSize : ℕ := 0
  hashAlg : HashAlg := .md5
  cipherAlg : CipherAlg := .null
  writeSeqNum : Bytes := zeros 8
  readSeqNum : Bytes := zeros 8
  cipherSuite : ℕ := 0
  writeCipherSuite : ℕ := 0
  readCipherSuite : ℕ := 0
  writeCbc : Option CryptoCipher := none
  readCbc : Option CryptoCipher := none

/-- The hash of a suite. -/
def RecordLayer.setHash (rl : RecordLayer) : TlsHash → RecordLayer
  | .null => rl
  | .md5 => { rl with hashAlg := .hmacMd5, hashSize := 16 }
  | .sha => { rl with hashAlg := .hmacSha1, hashSize := 20 }
  | .sha256 => { rl with hashAlg := .hmacSha256, hashSize := 32 }

/-- `tlsv1_record_set_cipher_suite`, with whether it succeeds. -/
def tlsv1RecordSetCipherSuite (rl : RecordLayer) (cipherSuite : ℕ) : RecordLayer × Bool :=
  let rl := { rl with cipherSuite }
  match tlsGetCipherSuite cipherSuite with
  | none => (rl, false)
  | some suite =>
    let rl := rl.setHash suite.hash
    match tlsGetCipherData suite.cipher with
    | none => (rl, false)
    | some data =>
      ({ rl with
        keyMaterialLen := data.keyMaterial
        ivSize := data.blockSize
        cipherAlg := data.alg }, true)

/-- `tlsv1_record_change_write_cipher`. -/
def tlsv1RecordChangeWriteCipher (cr : Crypto) (rl : RecordLayer) : RecordLayer × Bool :=
  let rl := { rl with
    writeCipherSuite := rl.cipherSuite
    writeSeqNum := zeros 8
    writeCbc := none }
  if rl.cipherAlg = .null then (rl, true)
  else
    let cbc := cryptoCipherInit cr rl.cipherAlg rl.writeIv rl.writeKey rl.keyMaterialLen
    ({ rl with writeCbc := cbc }, cbc.isSome)

/-- `tlsv1_record_change_read_cipher`. -/
def tlsv1RecordChangeReadCipher (cr : Crypto) (rl : RecordLayer) : RecordLayer × Bool :=
  let rl := { rl with
    readCipherSuite := rl.cipherSuite
    readSeqNum := zeros 8
    readCbc := none }
  if rl.cipherAlg = .null then (rl, true)
  else
    let cbc := cryptoCipherInit cr rl.cipherAlg rl.readIv rl.readKey rl.keyMaterialLen
    ({ rl with readCbc := cbc }, cbc.isSome)

end Suites

section Send

abbrev tlsVersion11 : ℕ := 0x0302
abbrev tlsNullWithNullNull : ℕ := 0

/-- The type, the version and a length. -/
def recordHeader (contentType : UInt8) (version length : ℕ) : Bytes :=
  contentType :: (ofBeNat version 2 ++ ofBeNat length 2)

/-- The octets under the block cipher: enough of them for whole blocks, each the number of those
behind the first. -/
def padding (ivSize len : ℕ) : Bytes :=
  let pad := (len + 1) % ivSize
  let pad := if pad ≠ 0 then ivSize - pad else 0
  List.replicate (pad + 1) (UInt8.ofNat pad)

/-- The part of `tlsv1_record_send` behind the payload: the MAC, the padding and the cipher. `iv` is
the explicit IV, and `room` what the buffer has behind the header. -/
def protect (cr : Crypto) (rl : RecordLayer) (contentType : UInt8) (room : ℕ) (iv payload : Bytes) :
    Option (Bytes × CryptoCipher) :=
  let clen := room - (iv.length + payload.length)
  if clen < rl.hashSize then none
  else do
    let mac ← cr.hashFinish rl.hashAlg (rl.writeMacSecret.take rl.hashSize)
      (rl.writeSeqNum ++ recordHeader contentType rl.tlsVersion payload.length ++ payload) clen
    let body := iv ++ payload ++ mac
    let pad := if rl.ivSize ≠ 0 then padding rl.ivSize body.length else []
    if room < body.length + pad.length then none
    else do
      let cbc ← rl.writeCbc
      cbc.encrypt (body ++ pad)

/-- `tlsv1_record_send`. `random` is what `os_get_random` has; too few octets stand for its
failure. -/
def tlsv1RecordSend (cr : Crypto) (rl : RecordLayer) (contentType : UInt8) (bufSize : ℕ)
    (payload random : Bytes) : Option (Bytes × RecordLayer) :=
  let room := bufSize - 5
  let ivLen :=
    if rl.writeCipherSuite ≠ tlsNullWithNullNull ∧ rl.ivSize ≠ 0 ∧ rl.tlsVersion ≥ tlsVersion11 then
      rl.ivSize
    else 0
  let writeSeqNum := incByteArray rl.writeSeqNum
  if bufSize < 5 ∨ room < ivLen ∨ random.length < ivLen ∨ room < ivLen + payload.length then none
  else if rl.writeCipherSuite ≠ tlsNullWithNullNull then do
    let (body, cbc) ← protect cr rl contentType room (random.take ivLen) payload
    some (recordHeader contentType rl.tlsVersion body.length ++ body,
      { rl with writeSeqNum, writeCbc := some cbc })
  else
    some (recordHeader contentType rl.tlsVersion payload.length ++ payload, { rl with writeSeqNum })

end Send

section Receive

def alertUnexpectedMessage : ℕ := 10
def alertBadRecordMac : ℕ := 20
def alertDecryptionFailed : ℕ := 21
def alertRecordOverflow : ℕ := 22
def alertDecodeError : ℕ := 50
def alertProtocolVersion : ℕ := 70
def alertInternalError : ℕ := 80

def contentTypeChangeCipherSpec : UInt8 := 20
def contentTypeAlert : UInt8 := 21
def contentTypeHandshake : UInt8 := 22
def contentTypeApplicationData : UInt8 := 23

def KnownType (ct : UInt8) : Prop :=
  ct = contentTypeHandshake ∨ ct = contentTypeChangeCipherSpec ∨ ct = contentTypeAlert ∨
    ct = contentTypeApplicationData

instance (ct : UInt8) : Decidable (KnownType ct) := by
  unfold KnownType
  infer_instance

/-- The decrypted octets without the IV and the padding, and whether the MAC has to fail. -/
def removePadding (rl : RecordLayer) (out : Bytes) : Bytes × Bool :=
  if rl.ivSize = 0 then (out, false)
  else if rl.tlsVersion ≥ tlsVersion11 ∧ out.length < rl.ivSize then (out, true)
  else
    let out : Bytes := if rl.tlsVersion ≥ tlsVersion11 then out.drop rl.ivSize else out
    let plen := out.length
    if plen = 0 then (out, true)
    else
      let padlen := out.byteAt (plen - 1)
      if padlen ≥ plen then (out, true)
      else if (out.slice (plen - padlen - 1) padlen).any (·.toNat != padlen) then (out, true)
      else (out.take (plen - (padlen + 1)), false)

/-- The part of `tlsv1_record_receive` for a record under a cipher, with the octets of its header
in front of the length. -/
def unprotect (cr : Crypto) (rl : RecordLayer) (header inData : Bytes) :
    Except (ℕ × RecordLayer) (Bytes × RecordLayer) :=
  match rl.readCbc.bind (·.decrypt inData) with
  | none => .error (alertDecryptionFailed, rl)
  | some (out, cbc) =>
    let rl' := { rl with readCbc := some cbc }
    let (out, forceMacError) := removePadding rl out
    if out.length < rl.hashSize then .error (alertBadRecordMac, rl')
    else
      let plen := out.length - rl.hashSize
      match cr.hashFinish rl.hashAlg (rl.readMacSecret.take rl.hashSize)
        (rl.readSeqNum ++ (header ++ ofBeNat plen 2) ++ out.take plen) 100 with
      | none => .error (alertInternalError, rl')
      | some hash =>
        if hash.length ≠ rl.hashSize ∨ out.slice plen hash.length ≠ hash ∨ forceMacError then
          .error (alertBadRecordMac, rl')
        else .ok (out.take plen, rl')

/-- What `tlsv1_record_receive` makes of its input. -/
inductive Received where
  | more
  | fail (alert : ℕ) (rl : RecordLayer)
  | record (used : ℕ) (out : Bytes) (rl : RecordLayer)

/-- The end of `tlsv1_record_receive`. -/
def Received.finish (rlen : ℕ) : Except (ℕ × RecordLayer) (Bytes × RecordLayer) → Received
  | .error (alert, rl) => .fail alert rl
  | .ok (out, rl) =>
    if 5 + out.length > 17408 then .fail alertRecordOverflow rl
    else .record (5 + rlen) out { rl with readSeqNum := incByteArray rl.readSeqNum }

/-- `tlsv1_record_receive`. -/
def tlsv1RecordReceive (cr : Crypto) (rl : RecordLayer) (inData : Bytes) (outLen : ℕ) : Received :=
  if inData.length < 5 then .more
  else
    let rlen := inData.be16 3
    if inData.byteAt 1 ≠ 3 then .fail alertProtocolVersion rl
    else if 5 + rlen > 18432 then .fail alertRecordOverflow rl
    else if rlen > inData.length - 5 then .more
    else if ¬KnownType (inData.getD 0 0) then .fail alertUnexpectedMessage rl
    else if outLen < rlen then .fail alertInternalError rl
    else
      Received.finish rlen
        (if rl.readCipherSuite ≠ tlsNullWithNullNull then
          unprotect cr rl (inData.take 3) (inData.slice 5 rlen)
        else .ok (inData.slice 5 rlen, rl))

end Receive

section RoundTrip
variable {cr : Crypto} {w r w' : RecordLayer} {ct : UInt8} {version n : ℕ}
variable {payload body rest random : Bytes}

@[simp] theorem recordHeader_length : (recordHeader ct version n).length = 5 := by
  simp [recordHeader]

theorem recordHeader_take : (recordHeader ct version n).take 3 = ct :: ofBeNat version 2 := by
  rw [recordHeader, List.take_succ_cons, List.take_left' (ofBeNat_length version 2)]

theorem recordHeader_eq : recordHeader ct version n = (recordHeader ct version 0).take 3 ++ ofBeNat n 2 := by
  rw [recordHeader_take]
  rfl

/-- The length of a record is read back, and so is the first octet of the version. -/
theorem recordHeader_reads (ct : UInt8) (version : ℕ) (hn : n < 65536) (rest : Bytes) :
    (recordHeader ct version n ++ rest).be16 3 = n ∧
      (recordHeader ct version n ++ rest).byteAt 1 = version / 256 % 256 ∧
      (recordHeader ct version n ++ rest).getD 0 0 = ct := by
  refine ⟨?_, ?_, rfl⟩
  · rw [recordHeader, ← List.cons_append, List.append_assoc,
      be16_append_right (ct :: ofBeNat version 2) _ (by simp)]
    exact be16_ofBeNat hn rest
  · show (UInt8.ofNat (version / 256 ^ 1)).toNat = version / 256 % 256
    rw [UInt8.toNat_ofNat', pow_one]

/-- The padding is as long as its last octet says, and all its octets are the same. -/
theorem padding_spec {ivSize : ℕ} (len : ℕ) (hpos : 0 < ivSize) (hsize : ivSize ≤ 256) :
    ∃ pad < ivSize, padding ivSize len = List.replicate (pad + 1) (UInt8.ofNat pad) ∧
      (UInt8.ofNat pad).toNat = pad := by
  have hmod := Nat.mod_lt (len + 1) hpos
  refine ⟨if (len + 1) % ivSize ≠ 0 then ivSize - (len + 1) % ivSize else 0, ?_, rfl, ?_⟩
  · split <;> omega
  · rw [UInt8.toNat_ofNat']
    apply Nat.mod_eq_of_lt
    split <;> omega

/-- Padding that was added is removed again, with the IV in front. -/
theorem removePadding_padding {iv : Bytes} (text : Bytes) (len : ℕ) (hsize : r.ivSize ≤ 256)
    (hiv : iv.length = if r.ivSize ≠ 0 ∧ r.tlsVersion ≥ tlsVersion11 then r.ivSize else 0) :
    removePadding r (iv ++ text ++ if r.ivSize ≠ 0 then padding r.ivSize len else []) =
      (text, false) := by
  by_cases hzero : r.ivSize = 0
  · have hnil : iv = [] := List.length_eq_zero_iff.mp (by rw [hiv, if_neg (fun h => h.1 hzero)])
    rw [removePadding, if_pos hzero, hnil, if_neg (not_not_intro hzero), List.append_nil]
    rfl
  · obtain ⟨pad, hlt, hpad, hoctet⟩ := padding_spec len (Nat.pos_of_ne_zero hzero) hsize
    rw [if_pos hzero, hpad]
    have hout : (if r.tlsVersion ≥ tlsVersion11 then
        (iv ++ text ++ List.replicate (pad + 1) (UInt8.ofNat pad)).drop r.ivSize
        else iv ++ text ++ List.replicate (pad + 1) (UInt8.ofNat pad)) =
          text ++ List.replicate (pad + 1) (UInt8.ofNat pad) := by
      by_cases hversion : r.tlsVersion ≥ tlsVersion11
      · rw [if_pos ⟨hzero, hversion⟩] at hiv
        rw [if_pos hversion, List.append_assoc, List.drop_left' hiv]
      · rw [if_neg (fun h => hversion h.2)] at hiv
        rw [if_neg hversion, List.length_eq_zero_iff.mp hiv]
        rfl
    have hlong : ¬(r.tlsVersion ≥ tlsVersion11 ∧
        (iv ++ text ++ List.replicate (pad + 1) (UInt8.ofNat pad)).length < r.ivSize) := by
      rintro ⟨hversion, hshort⟩
      rw [if_pos ⟨hzero, hversion⟩] at hiv
      simp only [List.length_append, List.length_replicate] at hshort
      omega
    have hlast : (text ++ List.replicate (pad + 1) (UInt8.ofNat pad)).byteAt
        (text.length + (pad + 1) - 1) = pad := by
      rw [byteAt_append_right _ _ (by omega)]
      have hget : (List.replicate (pad + 1) (UInt8.ofNat pad)).getD
          (text.length + (pad + 1) - 1 - text.length) 0 = UInt8.ofNat pad := by
        rw [List.getD_eq_getElem?_getD, List.getElem?_replicate, if_pos (by omega)]
        rfl
      rw [byteAt, hget, hoctet]
    have hall : ((text ++ List.replicate (pad + 1) (UInt8.ofNat pad)).slice
        (text.length + (pad + 1) - pad - 1) pad).any (·.toNat != pad) = false := by
      have hoff : text.length + (pad + 1) - pad - 1 = text.length := by omega
      rw [hoff, slice, List.drop_left, List.take_replicate, List.any_eq_false]
      intro x hx
      rw [List.eq_of_mem_replicate hx, hoctet]
      simp
    simp only [removePadding, if_neg hzero, if_neg hlong, hout]
    rw [List.length_append, List.length_replicate, hlast, if_neg (by omega), if_neg (by omega), hall]
    have hcut : text.length + (pad + 1) - (pad + 1) = text.length := by omega
    rw [if_neg Bool.false_ne_true, hcut, List.take_left]

/-- What the two ends of a cipher have in common. -/
structure Keyed (w r : RecordLayer) : Prop where
  secret : w.writeMacSecret = r.readMacSecret
  hashAlg : w.hashAlg = r.hashAlg
  hashSize : w.hashSize = r.hashSize
  macLen : r.hashSize = r.hashAlg.macLen
  small : r.hashSize ≤ 32
  ivSize : w.ivSize = r.ivSize
  block : r.ivSize ≤ 16
  cipher : ∃ c, w.writeCbc = some c ∧ r.readCbc = some c ∧ c.Chained

/-- A record layer that writes and one that reads what it has written. -/
structure Matched (w r : RecordLayer) : Prop where
  version : w.tlsVersion = r.tlsVersion
  tls : 0x0300 ≤ r.tlsVersion ∧ r.tlsVersion < 0x0400
  suite : w.writeCipherSuite = r.readCipherSuite
  seq : w.writeSeqNum = r.readSeqNum
  keyed : r.readCipherSuite ≠ tlsNullWithNullNull → Keyed w r

/-- What `protect` has put together before it encrypts. -/
theorem protect_cases {room : ℕ} {iv : Bytes} {cbc : CryptoCipher}
    (h : protect cr w ct room iv payload = some (body, cbc)) :
    ∃ mac c, cr.hash w.hashAlg (w.writeMacSecret.take w.hashSize)
        (w.writeSeqNum ++ recordHeader ct w.tlsVersion payload.length ++ payload) = some mac ∧
      w.writeCbc = some c ∧
      c.encrypt (iv ++ (payload ++ mac) ++
        if w.ivSize ≠ 0 then padding w.ivSize (iv ++ payload ++ mac).length else []) =
          some (body, cbc) := by
  simp only [protect, Option.ite_none_left_eq_some, Option.bind_eq_bind,
    Option.bind_eq_some_iff] at h
  obtain ⟨-, mac, hmac, -, c, hc, henc⟩ := h
  refine ⟨mac, c, ?_, hc, ?_⟩
  · rw [Crypto.hashFinish, Option.ite_none_left_eq_some] at hmac
    exact hmac.2
  · rwa [← List.append_assoc iv]

theorem padding_length {ivSize len : ℕ} (hpos : 0 < ivSize) (hsize : ivSize ≤ 256) :
    (padding ivSize len).length ≤ ivSize := by
  obtain ⟨pad, hlt, hpad, -⟩ := padding_spec len hpos hsize
  rw [hpad, List.length_replicate]
  exact hlt

theorem unprotect_protect {room : ℕ} {iv : Bytes} {cbc : CryptoCipher} (hk : Keyed w r)
    (hseq : w.writeSeqNum = r.readSeqNum)
    (hiv : iv.length = if r.ivSize ≠ 0 ∧ r.tlsVersion ≥ tlsVersion11 then r.ivSize else 0)
    (h : protect cr w ct room iv payload = some (body, cbc)) :
    unprotect cr r ((recordHeader ct w.tlsVersion n).take 3) body =
        .ok (payload, { r with readCbc := some cbc }) ∧
      body.length ≤ payload.length + 64 ∧ cbc.Chained := by
  obtain ⟨mac, c, hmac, hc, henc⟩ := protect_cases h
  obtain ⟨c', hwc, hrc, hchained⟩ := hk.cipher
  obtain rfl : c = c' := Option.some.inj (hc.symm.trans hwc)
  obtain ⟨hdec, hlen, hnext⟩ := c.decrypt_encrypt hchained henc
  have hblock := hk.block
  have hsmall := hk.small
  -- the MAC fills the room that the reader cuts off behind the payload
  have hmaclen : mac.length = r.hashSize := by
    rw [cr.length_hash _ _ _ _ hmac, hk.hashAlg, hk.macLen]
  rw [hk.ivSize] at hdec hlen
  have hlast : payload.length + mac.length - r.hashSize = payload.length := by omega
  have hopen := removePadding_padding (payload ++ mac) (iv ++ payload ++ mac).length
    (by omega) hiv
  refine ⟨?_, ?_, hnext⟩
  · have hhash : cr.hashFinish r.hashAlg (r.readMacSecret.take r.hashSize)
        (r.readSeqNum ++ ((recordHeader ct w.tlsVersion n).take 3 ++ ofBeNat payload.length 2) ++
          payload) 100 = some mac := by
      have hroom : ¬100 < r.hashAlg.macLen := by rw [← hk.macLen]; omega
      rw [Crypto.hashFinish, if_neg hroom, recordHeader_take, ← recordHeader_take (n := 0),
        ← recordHeader_eq, ← hseq, ← hk.hashAlg, ← hk.secret, ← hk.hashSize]
      exact hmac
    rw [unprotect, hrc, Option.bind_some, hdec]
    simp only [hopen]
    rw [List.length_append, if_neg (by omega), hlast, List.take_left, hhash]
    have hsame : (payload ++ mac).slice payload.length r.hashSize = mac := by
      rw [slice, List.drop_left, ← hmaclen, List.take_length]
    simp only [hmaclen, hsame]
    rw [if_neg (by simp)]
  · have hpad : (if r.ivSize ≠ 0 then padding r.ivSize (iv ++ payload ++ mac).length
        else []).length ≤ 16 := by
      split
      · exact (padding_length (by omega) (by omega)).trans hblock
      · exact Nat.zero_le _
    have hivlen : iv.length ≤ 16 := by
      rw [hiv]
      split <;> omega
    rw [hlen]
    simp only [List.length_append]
    simp only [List.length_append] at hpad
    omega

/-- A record, its payload, and the record layer that has written it. -/
theorem send_cases {size : ℕ} {record : Bytes}
    (h : tlsv1RecordSend cr w ct size payload random = some (record, w')) :
    ∃ body, record = recordHeader ct w.tlsVersion body.length ++ body ∧
      ((w.writeCipherSuite = tlsNullWithNullNull ∧ body = payload ∧
          w' = { w with writeSeqNum := incByteArray w.writeSeqNum }) ∨
        (w.writeCipherSuite ≠ tlsNullWithNullNull ∧ ∃ iv cbc,
          iv.length = (if w.ivSize ≠ 0 ∧ w.tlsVersion ≥ tlsVersion11 then w.ivSize else 0) ∧
          protect cr w ct (size - 5) iv payload = some (body, cbc) ∧
          w' = { w with writeSeqNum := incByteArray w.writeSeqNum, writeCbc := some cbc })) := by
  rw [tlsv1RecordSend] at h
  obtain ⟨hroom, h⟩ := Option.ite_none_left_eq_some.mp h
  by_cases hsuite : w.writeCipherSuite ≠ tlsNullWithNullNull
  · rw [if_pos hsuite, Option.bind_eq_bind, Option.bind_eq_some_iff] at h
    obtain ⟨⟨body, cbc⟩, hprotect, h⟩ := h
    cases h
    refine ⟨body, rfl, .inr ⟨hsuite, _, cbc, ?_, hprotect, rfl⟩⟩
    rw [List.length_take, Nat.min_eq_left (by omega)]
    simp only [hsuite, ne_eq, not_false_eq_true, true_and]
  · rw [if_neg hsuite] at h
    cases h
    exact ⟨payload, rfl, .inl ⟨not_not.mp hsuite, rfl, rfl⟩⟩

/-- The reader of a whole record goes on to what is in it. -/
theorem receive_frame {outLen : ℕ} (hversion : version / 256 % 256 = 3) (hct : KnownType ct)
    (hlen : 5 + body.length ≤ 18432) (hout : body.length ≤ outLen) :
    tlsv1RecordReceive cr r (recordHeader ct version body.length ++ body ++ rest) outLen =
      Received.finish body.length
        (if r.readCipherSuite ≠ tlsNullWithNullNull then
          unprotect cr r ((recordHeader ct version body.length).take 3) body
        else .ok (body, r)) := by
  obtain ⟨hbe, hbyte, htype⟩ := recordHeader_reads ct version
    (n := body.length) (by omega) (body ++ rest)
  have hbody : slice (recordHeader ct version body.length ++ (body ++ rest)) 5 body.length =
      body := by
    rw [slice, List.drop_left' recordHeader_length, List.take_left]
  have hhead : (recordHeader ct version body.length ++ (body ++ rest)).take 3 =
      (recordHeader ct version body.length).take 3 := by
    rw [List.take_append_of_le_length]
    rw [recordHeader_length]
    omega
  have htotal : (recordHeader ct version body.length ++ (body ++ rest)).length =
      5 + (body.length + rest.length) := by
    rw [List.length_append, recordHeader_length, List.length_append]
  rw [tlsv1RecordReceive, List.append_assoc]
  simp only [hbe, hbyte, htype, hbody, hhead, htotal]
  rw [if_neg (by omega), if_neg (not_not_intro hversion), if_neg (by omega), if_neg (by omega),
    if_neg (not_not_intro hct), if_neg (by omega)]

/-- One record: the reader takes exactly its octets, finds its payload, and the two ends stay
matched. -/
theorem receive_send {size : ℕ} {record : Bytes} (outLen : ℕ) (hm : Matched w r) (hct : KnownType ct)
    (hlen : payload.length ≤ 17403) (rest : Bytes)
    (h : tlsv1RecordSend cr w ct size payload random = some (record, w'))
    (hout : record.length ≤ outLen) :
    ∃ r', tlsv1RecordReceive cr r (record ++ rest) outLen = .record record.length payload r' ∧
      Matched w' r' := by
  have htls := hm.tls
  have hversion : w.tlsVersion / 256 % 256 = 3 := by
    rw [hm.version]
    omega
  obtain ⟨body, rfl, ⟨hnull, rfl, rfl⟩ | ⟨hsuite, iv, cbc, hiv, hprotect, rfl⟩⟩ := send_cases h
  -- without a cipher the payload goes out as it is
  · rw [List.length_append, recordHeader_length] at hout ⊢
    refine ⟨{ r with readSeqNum := incByteArray r.readSeqNum }, ?_,
      ⟨hm.version, hm.tls, hm.suite, congrArg incByteArray hm.seq, fun hkeyed => ?_⟩⟩
    · rw [receive_frame hversion hct (by omega) (by omega),
        if_neg (not_not_intro (hm.suite.symm.trans hnull)), Received.finish, if_neg (by omega)]
    · exact absurd (hm.suite.symm.trans hnull) hkeyed
  · have hread : r.readCipherSuite ≠ tlsNullWithNullNull := hm.suite ▸ hsuite
    have hk := hm.keyed hread
    rw [hk.ivSize, hm.version] at hiv
    obtain ⟨hopen, hbody, hnext⟩ :=
      unprotect_protect (n := body.length) hk hm.seq hiv hprotect
    rw [List.length_append, recordHeader_length] at hout ⊢
    refine ⟨{ r with readCbc := some cbc, readSeqNum := incByteArray r.readSeqNum }, ?_,
      ⟨hm.version, hm.tls, hm.suite, congrArg incByteArray hm.seq, fun _ => ?_⟩⟩
    · rw [receive_frame hversion hct (by omega) (by omega), if_pos hread, hopen, Received.finish,
        if_neg (by omega)]
    · exact ⟨hk.secret, hk.hashAlg, hk.hashSize, hk.macLen, hk.small, hk.ivSize, hk.block, cbc,
        rfl, rfl, hnext⟩

/-- A record that is cut short is waited for. -/
theorem receive_short {size : ℕ} {record part : Bytes} (outLen : ℕ) (hm : Matched w r)
    (hlen : payload.length ≤ 17403)
    (h : tlsv1RecordSend cr w ct size payload random = some (record, w'))
    (hpart : part <+: record) (hshort : part.length < record.length) :
    tlsv1RecordReceive cr r part outLen = .more := by
  rw [tlsv1RecordReceive]
  by_cases hheader : part.length < 5
  · exact if_pos hheader
  have htls := hm.tls
  have hversion : w.tlsVersion / 256 % 256 = 3 := by
    rw [hm.version]
    omega
  obtain ⟨body, rfl, hcases⟩ := send_cases h
  have hbody : body.length ≤ payload.length + 64 := by
    obtain ⟨-, rfl, -⟩ | ⟨hsuite, iv, cbc, hiv, hprotect, -⟩ := hcases
    · omega
    · have hk := hm.keyed (hm.suite ▸ hsuite)
      rw [hk.ivSize, hm.version] at hiv
      exact (unprotect_protect (n := 0) hk hm.seq hiv hprotect).2.1
  -- the header is there, and says how long the record is
  obtain ⟨tail, htail⟩ := hpart
  obtain ⟨hbe, hbyte, -⟩ := recordHeader_reads ct w.tlsVersion
    (n := body.length) (by omega) body
  rw [← htail, be16_append_left _ _ (by omega)] at hbe
  rw [← htail, byteAt_append_left _ _ (by omega)] at hbyte
  rw [List.length_append, recordHeader_length] at hshort
  simp only [hbe, hbyte]
  rw [if_neg hheader, if_neg (not_not_intro hversion), if_neg (by omega), if_pos (by omega)]

end RoundTrip

section Change
variable {cr : Crypto} {w r w₁ r₁ w₂ r₂ : RecordLayer} {suite : ℕ}

/-- The suites that encrypt with DES. -/
def DesSuite (suite : ℕ) : Prop := suite = 0x0009 ∨ suite = 0x0015 ∨ suite = 0x001a

/-- What the tables hold for a suite other than the first. -/
theorem tlsCipherSuites_spec : ∀ s ∈ tlsCipherSuites, s.suite ≠ tlsNullWithNullNull →
    s.hash ≠ .null ∧ ∀ d ∈ tlsGetCipherData s.cipher, d.blockSize ≤ 16 ∧ d.alg ≠ .null ∧
      (d.alg = .des ↔ s.suite = 0x0009 ∨ s.suite = 0x0015 ∨ s.suite = 0x001a) := by
  decide

theorem setHash_spec {h : TlsHash} (hnull : h ≠ .null) :
    ∃ alg : HashAlg, (∀ rl : RecordLayer,
      rl.setHash h = { rl with hashAlg := alg, hashSize := alg.macLen }) ∧ alg.macLen ≤ 32 := by
  cases h with
  | null => exact absurd rfl hnull
  | md5 => exact ⟨.hmacMd5, fun _ => rfl, by decide⟩
  | sha => exact ⟨.hmacSha1, fun _ => rfl, by decide⟩
  | sha256 => exact ⟨.hmacSha256, fun _ => rfl, by decide⟩

/-- Two record layers that have agreed on a version and on the keys of one direction. -/
structure Agreed (w r : RecordLayer) : Prop where
  version : w.tlsVersion = r.tlsVersion
  tls : 0x0300 ≤ r.tlsVersion ∧ r.tlsVersion < 0x0400
  secret : w.writeMacSecret = r.readMacSecret
  key : w.writeKey = r.readKey
  iv : w.writeIv = r.readIv
  block : r.readIv.length = 16

/-- A change to a suite that is not one of DES matches the two ends. -/
theorem matched_of_change (h : Agreed w r) (hdes : ¬DesSuite suite)
    (hw₁ : tlsv1RecordSetCipherSuite w suite = (w₁, true))
    (hr₁ : tlsv1RecordSetCipherSuite r suite = (r₁, true))
    (hw₂ : tlsv1RecordChangeWriteCipher cr w₁ = (w₂, true))
    (hr₂ : tlsv1RecordChangeReadCipher cr r₁ = (r₂, true)) : Matched w₂ r₂ := by
  unfold tlsv1RecordSetCipherSuite at hw₁ hr₁
  cases hsuite : tlsGetCipherSuite suite with
  | none =>
    rw [hsuite] at hw₁
    cases congrArg Prod.snd hw₁
  | some s =>
    have hmem := List.mem_of_find?_eq_some hsuite
    have hs : s.suite = suite := by simpa using List.find?_some hsuite
    simp only [hsuite] at hw₁ hr₁
    cases hdata : tlsGetCipherData s.cipher with
    | none =>
      rw [hdata] at hw₁
      cases congrArg Prod.snd hw₁
    | some d =>
      simp only [hdata, Prod.mk.injEq, and_true] at hw₁ hr₁
      by_cases hnull : suite = tlsNullWithNullNull
      -- the first suite has no cipher, so nothing is keyed
      · subst hnull
        obtain rfl : s = ⟨0, .null, .null⟩ := (Option.some.inj hsuite).symm
        obtain rfl : d = ⟨.null, 0, 0, .null⟩ := (Option.some.inj hdata).symm
        subst hw₁ hr₁
        cases hw₂
        cases hr₂
        exact ⟨h.version, h.tls, rfl, rfl, fun hne => absurd rfl hne⟩
      · obtain ⟨hhash, hspec⟩ := tlsCipherSuites_spec s hmem (hs ▸ hnull)
        obtain ⟨hblock, halg, hdesAlg⟩ := hspec d hdata
        obtain ⟨alg, hset, hmac⟩ := setHash_spec hhash
        rw [hset] at hw₁ hr₁
        subst hw₁ hr₁
        simp only [tlsv1RecordChangeWriteCipher, if_neg halg, Prod.mk.injEq,
          Option.isSome_iff_exists] at hw₂
        simp only [tlsv1RecordChangeReadCipher, if_neg halg, Prod.mk.injEq] at hr₂
        obtain ⟨rfl, c, hc⟩ := hw₂
        obtain ⟨rfl, -⟩ := hr₂
        refine ⟨h.version, h.tls, rfl, rfl, fun _ => ⟨h.secret, rfl, rfl, rfl, hmac, rfl, hblock, c,
          hc, ?_, ?_⟩⟩
        · show cryptoCipherInit cr d.alg r.readIv r.readKey d.keyMaterial = some c
          rw [← h.iv, ← h.key]
          exact hc
        · refine cryptoCipherInit_chained hc ?_ fun hd => hdes ?_
          · show w.writeIv.length = 16
            rw [h.iv, h.block]
          · rw [DesSuite, ← hs]
            exact hdesAlg.mp hd

end Change

end Wpa.Record
