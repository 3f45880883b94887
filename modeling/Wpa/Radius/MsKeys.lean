import Wpa.Lib.Chaining
import Wpa.Lib.InPlace
import Wpa.Radius.Attributes

/-! The keys and passwords that `radius/radius.c` hides in attributes: MS-MPPE keys in both
directions, and Tunnel-Password. `none` stands for an access outside an allocation or an
attribute. -/

namespace Wpa.RadiusMsg
open Lib Bytes

def attrVendorSpecific : UInt8 := 26
def attrTunnelPassword : UInt8 := 69
def vendorIdMicrosoft : ℕ := 311
def vendorAttrMsMppeSendKey : UInt8 := 16
def vendorAttrMsMppeRecvKey : UInt8 := 17
def vendorHdrLen : ℕ := 2

/-- What `os_malloc` returns, with anything in it. -/
structure Malloc where
  block : ℕ → Bytes
  length_block : ∀ n, (block n).length = n

/-- What is hashed behind the secret for the block at `pos`: `first` for the first one, else the
block in front of it. -/
def chained (first : Option Bytes) (buf : Bytes) (pos : ℕ) : Option Bytes :=
  match first with
  | some bs => some bs
  | none => buf.readSlice (pos - md5MacLen) md5MacLen

/-- The loop of `encrypt_ms_key`. -/
def encryptBlocks (md5 : Md5) (secret : Bytes) (len : ℕ) (first : Option Bytes) (pos : ℕ)
    (buf : Bytes) : Option Bytes :=
  if len = 0 then some buf
  else do
    let prev ← chained first buf pos
    let hash := md5.vector (secret ++ prev)
    let block ← buf.readSlice pos md5MacLen
    let buf ← buf.store pos (xor block hash.val)
    encryptBlocks md5 secret (len - md5MacLen) none (pos + md5MacLen) buf
termination_by len
decreasing_by
  rw [md5MacLen]
  omega

/-- The padded length of a key with its length octet. -/
def encryptedLen (keyLen : ℕ) : ℕ :=
  let len := 1 + keyLen
  if len &&& 0x0f ≠ 0 then (len &&& 0xf0) + 16 else len

/-- `encrypt_ms_key` into the buffer from `pos` on, and the length of the result. -/
def encryptMsKey (md5 : Md5) (key : Bytes) (salt : UInt16) (reqAuthenticator : Octets16)
    (secret : Bytes) (pos : ℕ) (buf : Bytes) : Option (Bytes × ℕ) := do
  let len := encryptedLen key.length
  let buf ← buf.store pos (zeros len)
  let buf ← buf.store pos [UInt8.ofNat key.length]
  let buf ← buf.store (pos + 1) key
  let buf ← encryptBlocks md5 secret len
    (some (reqAuthenticator.val ++ ofBeNat salt.toNat 2)) pos buf
  return (buf, len)

/-- One of the two halves of `radius_msg_add_mppe_keys`. -/
def addMppeKey (md5 : Md5) (malloc : Malloc) (msg : Msg) (reqAuthenticator : Octets16)
    (secret : Bytes) (vendorType : UInt8) (salt : UInt16) (key : Bytes) :
    Option (Msg × Option ℕ) := do
  let hlen := 4 + vendorHdrLen + 2
  let buf := malloc.block (hlen + key.length + 16)
  let buf ← buf.store 0 (ofBeNat vendorIdMicrosoft 4)
  let buf ← buf.store 4 [vendorType]
  let buf ← buf.store 6 (ofBeNat salt.toNat 2)
  let (buf, elen) ← encryptMsKey md5 key salt reqAuthenticator secret hlen buf
  let buf ← buf.store 5 [UInt8.ofNat (hlen + elen - 4)]
  let data ← buf.readSlice 0 (hlen + elen)
  radiusMsgAddAttr msg attrVendorSpecific data

/-- `radius_msg_add_mppe_keys`; the second component tells whether it returns one. -/
def radiusMsgAddMppeKeys (md5 : Md5) (malloc : Malloc) (random : UInt16) (msg : Msg)
    (reqAuthenticator : Octets16) (secret sendKey recvKey : Bytes) : Option (Msg × Bool) := do
  let salt := random ||| 0x8000
  let (msg, attr) ← addMppeKey md5 malloc msg reqAuthenticator secret vendorAttrMsMppeSendKey salt
    sendKey
  match attr with
  | none => return (msg, false)
  | some _ =>
    let salt := salt ^^^ 1
    let (msg, attr) ← addMppeKey md5 malloc msg reqAuthenticator secret vendorAttrMsMppeRecvKey
      salt recvKey
    return (msg, attr.isSome)

/-- The loop of `decrypt_ms_key`: what stands in the plain text from here on. -/
def decryptBlocks (md5 : Md5) (secret key : Bytes) (left : ℕ) (first : Option Bytes) (pos : ℕ) :
    Option Bytes :=
  if left = 0 then some []
  else do
    let prev ← chained first key pos
    let hash := md5.vector (secret ++ prev)
    let block ← key.readSlice pos md5MacLen
    let rest ← decryptBlocks md5 secret key (left - md5MacLen) none (pos + md5MacLen)
    return xor block hash.val ++ rest
termination_by left
decreasing_by
  rw [md5MacLen]
  omega

/-- `decrypt_ms_key`; the inner `none` is the null pointer. -/
def decryptMsKey (md5 : Md5) (key : Bytes) (reqAuthenticator secret : Bytes) :
    Option (Option Bytes) :=
  if key.length < 2 + 16 then some none
  else
    let left := key.length - 2
    if left % 16 ≠ 0 then some none
    else do
      let salt ← key.readSlice 0 2
      let plain ← decryptBlocks md5 secret key left (some (reqAuthenticator ++ salt)) 2
      let n ← plain.read8 0
      if n = 0 ∨ n > left - 1 then return none
      else
        let res ← plain.readSlice 1 n
        return some res

/-- The inner loop of `radius_msg_get_vendor_attr` over what is left of an attribute. -/
def vendorData (subtype : UInt8) (left : Bytes) : Option Bytes :=
  if left.length < vendorHdrLen then none
  else
    let vendorLength := left.byteAt 1
    if _ : vendorLength > left.length ∨ vendorLength < vendorHdrLen then none
    else if left.byteAt 0 ≠ subtype.toNat then vendorData subtype (left.drop vendorLength)
    else some (left.slice vendorHdrLen (vendorLength - vendorHdrLen))
termination_by left.length
decreasing_by
  rw [List.length_drop]
  simp only [vendorHdrLen] at *
  omega

/-- What an attribute says to `radius_msg_get_vendor_attr`. -/
def vendorAttr (vendor : ℕ) (subtype : UInt8) (attr : UInt8 × Bytes) : Option Bytes :=
  if attr.1 ≠ attrVendorSpecific ∨ attr.2.length < 4 then none
  else if attr.2.be32 0 ≠ vendor then none
  else vendorData subtype (attr.2.drop 4)

/-- The outer loop of `radius_msg_get_vendor_attr`; the inner `none` is the null pointer. -/
def getVendorAttr (data : Bytes) (vendor : ℕ) (subtype : UInt8) : List ℕ → Option (Option Bytes)
  | [] => some none
  | pos :: rest => do
    let attr ← readAttr data pos
    match vendorAttr vendor subtype attr with
    | some payload => return some payload
    | none => getVendorAttr data vendor subtype rest

/-- `msg->hdr->authenticator`. -/
def Msg.authenticator (msg : Msg) : Option Bytes := msg.data.readSlice authenticatorOff md5MacLen

/-- `struct radius_ms_mppe_keys`. -/
structure MsMppeKeys where
  send : Option Bytes
  recv : Option Bytes
  deriving DecidableEq

/-- One of the two halves of `radius_msg_get_ms_keys`. -/
def getMsKey (md5 : Md5) (msg sentMsg : Msg) (secret : Bytes) (subtype : UInt8) :
    Option (Option Bytes) := do
  let key ← getVendorAttr msg.data vendorIdMicrosoft subtype msg.attrs.pos
  match key with
  | none => return none
  | some key =>
    let authenticator ← sentMsg.authenticator
    decryptMsKey md5 key authenticator secret

def radiusMsgGetMsKeys (md5 : Md5) (msg sentMsg : Msg) (secret : Bytes) : Option MsMppeKeys := do
  let send ← getMsKey md5 msg sentMsg secret vendorAttrMsMppeSendKey
  let recv ← getMsKey md5 msg sentMsg secret vendorAttrMsMppeRecvKey
  return ⟨send, recv⟩

/-- The search of `radius_msg_get_tunnel_password` for the `n`-th password of a length that can be
right. -/
def findTunnelPassword (data : Bytes) : List ℕ → ℕ → Option (Option Bytes)
  | [], _ => some none
  | pos :: rest, n => do
    let attr ← readAttr data pos
    let dlen := attr.2.length
    if attr.1 ≠ attrTunnelPassword ∨ attrHdrLen + dlen ≤ 5 then findTunnelPassword data rest n
    else if dlen ≤ 3 ∨ dlen % 16 ≠ 3 then findTunnelPassword data rest n
    else if n = 0 then return some attr.2
    else findTunnelPassword data rest (n - 1)

/-- The loop of `radius_msg_get_tunnel_password` from the last block down to the second one; where
it ends. -/
def tunnelBlocks (md5 : Md5) (secret : Bytes) (pos : ℕ) (buf : Bytes) : Option (Bytes × ℕ) :=
  if pos ≥ 3 + 16 then do
    let prev ← buf.readSlice (pos - 16) 16
    let block ← buf.readSlice pos 16
    let buf ← buf.store pos (xor block (md5.vector (secret ++ prev)).val)
    tunnelBlocks md5 secret (pos - 16) buf
  else some (buf, pos)
termination_by pos

/-- `radius_msg_get_tunnel_password`; the inner `none` is the null pointer. -/
def radiusMsgGetTunnelPassword (md5 : Md5) (msg : Msg) (secret : Bytes) (sentMsg : Msg) (n : ℕ) :
    Option (Option Bytes) := do
  let found ← findTunnelPassword msg.data msg.attrs.pos n
  match found with
  | none => return none
  | some buf =>
    let (buf, pos) ← tunnelBlocks md5 secret (buf.length - 16) buf
    if pos ≠ 3 then return none
    else
      let authenticator ← sentMsg.authenticator
      let salt ← buf.readSlice 1 2
      let block ← buf.readSlice pos 16
      let buf ← buf.store pos (xor block (md5.vector (secret ++ (authenticator ++ salt))).val)
      let keylen ← buf.read8 3
      if 3 + keylen ≥ buf.length ∨ keylen = 0 then return none
      else
        let ret ← buf.readSlice 4 keylen
        return some ret

end Wpa.RadiusMsg
