import Wpa.Common.Defs

/-! The EAPOL-Key frame: `struct ieee802_1x_hdr`, `struct wpa_eapol_key`, the Key MIC field whose
length depends on the AKM, the Key Data Length and the Key Data, at their octet offsets. -/

namespace Wpa
open Lib Bytes

def keyInfoTypeMask : ℕ := 7
def keyInfoTypeAkmDefined : ℕ := 0
def keyInfoTypeHmacMd5Rc4 : ℕ := 1
def keyInfoTypeHmacSha1Aes : ℕ := 2
def keyInfoTypeAes128Cmac : ℕ := 3
def keyInfoKeyType : ℕ := 2 ^ 3
def keyInfoKeyIndexMask : ℕ := 2 ^ 4 ||| 2 ^ 5
def keyInfoKeyIndexShift : ℕ := 4
def keyInfoInstall : ℕ := 2 ^ 6
def keyInfoTxrx : ℕ := 2 ^ 6
def keyInfoAck : ℕ := 2 ^ 7
def keyInfoMic : ℕ := 2 ^ 8
def keyInfoSecure : ℕ := 2 ^ 9
def keyInfoError : ℕ := 2 ^ 10
def keyInfoRequest : ℕ := 2 ^ 11
def keyInfoEncrKeyData : ℕ := 2 ^ 12
def keyInfoSmkMessage : ℕ := 2 ^ 13

def ieee8021xTypeEapolKey : ℕ := 3
def eapolKeyTypeRsn : ℕ := 2
def eapolKeyTypeWpa : ℕ := 254

/-- `sizeof(struct ieee802_1x_hdr)`. -/
def hdrSize : ℕ := 4

/-- `sizeof(struct wpa_eapol_key)`. -/
def keySize : ℕ := 77

/-- Offset of the Key MIC field, `key + 1` in the source. -/
def micOffset : ℕ := hdrSize + keySize

structure EapolKey where
  type : ℕ
  keyInfo : ℕ
  keyLength : ℕ
  replayCounter : Bytes
  keyNonce : Bytes
  keyIv : Bytes
  keyRsc : Bytes
  keyId : Bytes
  deriving DecidableEq

namespace EapolKey

/-- The fields of `struct wpa_eapol_key` behind the 802.1X header of a frame. -/
def read (buf : Bytes) : EapolKey where
  type := buf.byteAt 4
  keyInfo := buf.be16 5
  keyLength := buf.be16 7
  replayCounter := buf.slice 9 8
  keyNonce := buf.slice 17 32
  keyIv := buf.slice 49 16
  keyRsc := buf.slice 65 8
  keyId := buf.slice 73 8

/-- Key descriptor version. -/
def ver (key : EapolKey) : ℕ := key.keyInfo &&& keyInfoTypeMask

def has (key : EapolKey) (mask : ℕ) : Bool := hasBits key.keyInfo mask

def write (key : EapolKey) : Bytes :=
  [UInt8.ofNat key.type] ++ ofBeNat key.keyInfo 2 ++ ofBeNat key.keyLength 2 ++
    key.replayCounter ++ key.keyNonce ++ key.keyIv ++ key.keyRsc ++ key.keyId

/-- The fields fit their places in the frame. -/
structure Fits (key : EapolKey) : Prop where
  type : key.type < 256
  keyInfo : key.keyInfo < 65536
  keyLength : key.keyLength < 65536
  replayCounter : key.replayCounter.length = 8
  keyNonce : key.keyNonce.length = 32
  keyIv : key.keyIv.length = 16
  keyRsc : key.keyRsc.length = 8
  keyId : key.keyId.length = 8

/-- Octets behind the structure do not change its fields. -/
theorem read_append {a : Bytes} (h : hdrSize + keySize ≤ a.length) (b : Bytes) :
    read (a ++ b) = read a := by
  simp only [hdrSize, keySize] at h
  simp only [read, mk.injEq]
  refine ⟨byteAt_append_left a b (by omega), be16_append_left a b (by omega),
    be16_append_left a b (by omega), ?_⟩
  refine ⟨slice_append_left a b (by omega), slice_append_left a b (by omega), ?_⟩
  exact ⟨slice_append_left a b (by omega), slice_append_left a b (by omega),
    slice_append_left a b (by omega)⟩

end EapolKey

def hdrType (buf : Bytes) : ℕ := buf.byteAt 1

def hdrLength (buf : Bytes) : ℕ := buf.be16 2

/-- Key Data Length field of a frame whose Key MIC field has `micLen` octets. -/
def keyDataLength (buf : Bytes) (micLen : ℕ) : ℕ := buf.be16 (micOffset + micLen)

def keyDataOffset (micLen : ℕ) : ℕ := micOffset + micLen + 2

def keyhdrlen (micLen : ℕ) : ℕ := keySize + micLen + 2

/-- The frame with its Key MIC field cleared, over which the MIC is computed. -/
def zeroMic (buf : Bytes) (micLen : ℕ) : Bytes := buf.writeAt micOffset (zeros micLen)

/-- An EAPOL-Key frame as the sender assembles it. -/
structure EapolFrame where
  version : ℕ
  key : EapolKey
  mic : Bytes
  keyData : Bytes
  deriving DecidableEq

namespace EapolFrame
variable {f : EapolFrame}

def bodyLength (f : EapolFrame) : ℕ := keySize + f.mic.length + 2 + f.keyData.length

def write (f : EapolFrame) : Bytes :=
  [UInt8.ofNat f.version, UInt8.ofNat ieee8021xTypeEapolKey] ++ ofBeNat f.bodyLength 2 ++
    f.key.write ++ f.mic ++ ofBeNat f.keyData.length 2 ++ f.keyData

end EapolFrame

end Wpa
