import Wpa.Lib.Reads
import Wpa.Lib.Wpabuf

/-! The messages of `radius/radius.c`: building, closing, parsing and reading them. Memory is there
when it is asked for; `none` stands for an access outside what was allocated. -/

namespace Wpa.RadiusMsg
open Lib Bytes

def hdrLen : ℕ := 20
def attrHdrLen : ℕ := 2
def maxAttrLen : ℕ := 255 - attrHdrLen
def defaultMsgSize : ℕ := 1024
def defaultAttrCount : ℕ := 16
def md5MacLen : ℕ := 16

/-- The offset of the authenticator in `struct radius_hdr`. -/
def authenticatorOff : ℕ := 4

def attrEapMessage : UInt8 := 79
def attrMessageAuthenticator : UInt8 := 80

abbrev Octets16 := { b : Bytes // b.length = md5MacLen }

def zero16 : Octets16 := ⟨zeros md5MacLen, zeros_length _⟩

/-- `hmac_md5` of a key and data, and `md5_vector` of the parts in a row. -/
structure Md5 where
  hmac : Bytes → Bytes → Octets16
  vector : Bytes → Octets16

/-- The index array `attr_pos`: its used part, and the number of elements allocated. -/
structure AttrArray where
  pos : List ℕ := []
  size : ℕ := defaultAttrCount
  fits : pos.length ≤ size := by decide

/-- `radius_msg_add_attr_to_array`. -/
def AttrArray.add (attrs : AttrArray) (attr : ℕ) : Option AttrArray :=
  let size := if attrs.pos.length ≥ attrs.size then attrs.size * 2 else attrs.size
  if h : attrs.pos.length < size then
    some ⟨attrs.pos ++ [attr], size, by rw [List.length_append]; exact h⟩
  else none

structure Msg where
  buf : Wpabuf
  attrs : AttrArray

namespace Msg

def data (msg : Msg) : Bytes := msg.buf.data

def write (msg : Msg) (off : ℕ) (src : Bytes) : Option Msg := do
  let buf ← msg.buf.overwrite off src
  return { msg with buf := buf }

/-- `msg->hdr->length = host_to_be16(wpabuf_len(msg->buf))`. -/
def setLength (msg : Msg) : Option Msg := msg.write 2 (ofBeNat msg.data.length 2)

end Msg

def radiusMsgNew (code identifier : UInt8) : Option Msg := do
  let buf ← (Wpabuf.mk defaultMsgSize [] (Nat.zero_le _)).put (zeros hdrLen)
  let buf ← buf.overwrite 0 [code, identifier]
  return { buf := buf, attrs := {} }

/-- `radius_msg_add_attr`; the second component is the offset of the attribute, or `none` for the
null pointer. -/
def radiusMsgAddAttr (msg : Msg) (type : UInt8) (data : Bytes) : Option (Msg × Option ℕ) :=
  if data.length > maxAttrLen then some (msg, none)
  else do
    let bufNeeded := attrHdrLen + data.length
    let buf := if msg.buf.tailroom < bufNeeded then msg.buf.resize bufNeeded else msg.buf
    let attr := buf.data.length
    let buf ← buf.put [type, UInt8.ofNat bufNeeded]
    let buf ← buf.put data
    let attrs ← msg.attrs.add attr
    return ({ buf := buf, attrs := attrs }, some attr)

def radiusMsgAddEap (msg : Msg) (data : Bytes) : Option (Msg × Bool) :=
  if _ : data = [] then some (msg, true)
  else do
    let len := if data.length > maxAttrLen then maxAttrLen else data.length
    let (msg, attr) ← radiusMsgAddAttr msg attrEapMessage (data.take len)
    match attr with
    | none => return (msg, false)
    | some _ => radiusMsgAddEap msg (data.drop len)
termination_by data.length
decreasing_by
  have hpos := List.length_pos_iff.mpr ‹¬data = []›
  rw [List.length_drop]
  split <;> simp only [maxAttrLen, attrHdrLen] at * <;> omega

/-- `radius_msg_finish`; the second component tells whether it returns zero. -/
def radiusMsgFinish (md5 : Md5) (msg : Msg) (secret : Option Bytes) : Option (Msg × Bool) :=
  match secret with
  | some secret => do
    let (msg, attr) ← radiusMsgAddAttr msg attrMessageAuthenticator zero16.val
    match attr with
    | none => return (msg, false)
    | some attr =>
      let msg ← msg.setLength
      let msg ← msg.write (attr + attrHdrLen) (md5.hmac secret msg.data).val
      return (msg, msg.data.length ≤ 0xffff)
  | none => do
    let msg ← msg.setLength
    return (msg, msg.data.length ≤ 0xffff)

def radiusMsgFinishSrv (md5 : Md5) (msg : Msg) (secret : Bytes) (reqAuthenticator : Octets16) :
    Option (Msg × Bool) := do
  let (msg, attr) ← radiusMsgAddAttr msg attrMessageAuthenticator zero16.val
  match attr with
  | none => return (msg, false)
  | some attr =>
    let msg ← msg.setLength
    let msg ← msg.write authenticatorOff reqAuthenticator.val
    let msg ← msg.write (attr + attrHdrLen) (md5.hmac secret msg.data).val
    let start ← msg.data.readSlice 0 4
    let attributes ← msg.data.readSlice hdrLen (msg.data.length - hdrLen)
    let msg ← msg.write authenticatorOff
      (md5.vector (start ++ reqAuthenticator.val ++ attributes ++ secret)).val
    return (msg, msg.data.length ≤ 0xffff)

def radiusMsgFinishDasResp (md5 : Md5) (msg : Msg) (secret : Bytes) (reqAuthenticator : Octets16) :
    Option (Msg × Bool) := do
  let (msg, attr) ← radiusMsgAddAttr msg attrMessageAuthenticator zero16.val
  match attr with
  | none => return (msg, false)
  | some attr =>
    let msg ← msg.setLength
    let msg ← msg.write authenticatorOff reqAuthenticator.val
    let msg ← msg.write (attr + attrHdrLen) (md5.hmac secret msg.data).val
    let msg ← msg.write authenticatorOff (md5.vector (msg.data ++ secret)).val
    return (msg, msg.data.length ≤ 0xffff)

/-- `radius_msg_finish_acct`, and `radius_msg_finish_acct_resp` with the authenticator of the
request in place of zeros. -/
def radiusMsgFinishAcct (md5 : Md5) (msg : Msg) (secret : Bytes) (authenticator : Octets16) :
    Option Msg := do
  let msg ← msg.setLength
  let msg ← msg.write authenticatorOff authenticator.val
  msg.write authenticatorOff (md5.vector (msg.data ++ secret)).val

/-- The loop of `radius_msg_parse` over the copied message, from `pos` on; the inner `none` is its
failure. -/
def parseAttrs (data : Bytes) (attrs : AttrArray) (pos : ℕ) : Option (Option AttrArray) :=
  if pos < data.length then
    if data.length - pos < attrHdrLen then some none
    else do
      let length ← data.read8 (pos + 1)
      if _ : length > data.length - pos ∨ length < attrHdrLen then some none
      else
        let attrs ← attrs.add pos
        parseAttrs data attrs (pos + length)
  else some (some attrs)
termination_by data.length - pos
decreasing_by
  simp only [attrHdrLen] at *
  omega

/-- `radius_msg_parse`; the inner `none` is the null pointer. -/
def radiusMsgParse (data : Bytes) : Option (Option Msg) :=
  if data.length < hdrLen then some none
  else do
    let hi ← data.read8 2
    let lo ← data.read8 3
    let msgLen := hi * 256 + lo
    if msgLen < hdrLen ∨ msgLen > data.length then some none
    else
      let copy ← data.readSlice 0 msgLen
      let attrs ← parseAttrs copy {} hdrLen
      return attrs.map fun attrs => { buf := ⟨copy.length, copy, Nat.le_refl _⟩, attrs := attrs }

/-- Type and value of the attribute at an offset that `attr_pos` holds. -/
def readAttr (data : Bytes) (pos : ℕ) : Option (UInt8 × Bytes) := do
  let type ← data[pos]?
  let length ← data.read8 (pos + 1)
  let value ← data.readSlice (pos + attrHdrLen) (length - attrHdrLen)
  return (type, value)

/-- The attributes of a message in their order. -/
def Msg.attributes (msg : Msg) : Option (List (UInt8 × Bytes)) :=
  msg.attrs.pos.mapM (readAttr msg.data)

/-- The first loop of `radius_msg_get_eap`. -/
def eapLen (data : Bytes) : List ℕ → ℕ → Option ℕ
  | [], len => some len
  | pos :: rest, len => do
    let type ← data[pos]?
    let length ← data.read8 (pos + 1)
    if type = attrEapMessage ∧ length > attrHdrLen then
      eapLen data rest (len + (length - attrHdrLen))
    else eapLen data rest len

/-- The second loop of `radius_msg_get_eap`. -/
def eapPut (data : Bytes) : List ℕ → Wpabuf → Option Wpabuf
  | [], eap => some eap
  | pos :: rest, eap => do
    let type ← data[pos]?
    let length ← data.read8 (pos + 1)
    if type = attrEapMessage ∧ length > attrHdrLen then
      let flen := length - attrHdrLen
      let value ← data.readSlice (pos + attrHdrLen) flen
      let eap ← eap.put value
      eapPut data rest eap
    else eapPut data rest eap

/-- `radius_msg_get_eap`; the inner `none` is the null pointer. -/
def radiusMsgGetEap (msg : Msg) : Option (Option Bytes) := do
  let len ← eapLen msg.data msg.attrs.pos 0
  if len = 0 then return none
  else
    let eap ← eapPut msg.data msg.attrs.pos ⟨len, [], Nat.zero_le _⟩
    return some eap.data

end Wpa.RadiusMsg
