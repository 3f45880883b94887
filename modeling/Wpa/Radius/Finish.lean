import Wpa.Radius.Attributes

/-! What closing a message leaves in it: the length in the header, the authenticators, and behind
the attributes of the caller a Message-Authenticator. -/

namespace Wpa.RadiusMsg
open Lib Bytes

/-- The Message-Authenticator attribute with a given value. -/
def msgAuth (mac : Octets16) : Attr :=
  ⟨attrMessageAuthenticator, mac.val, by rw [mac.2]; decide⟩

theorem encode_msgAuth_length (attrs : List Attr) (mac : Octets16) :
    (encode (attrs ++ [msgAuth mac])).length = (encode attrs).length + 18 := by
  rw [encode_append, encode_cons, encode_nil, List.append_nil, List.length_append,
    Attr.encode_length]
  have hmac : (msgAuth mac).value.length = 16 := mac.2
  rw [hmac]
  rfl

section Header
variable {msg : Msg} {hdr : Bytes} {attrs : List Attr}

theorem setLength_holds (h : Holds msg hdr attrs) :
    ∃ msg', msg.setLength = some msg' ∧
      Holds msg' (hdr.writeAt 2 (ofBeNat msg.data.length 2)) attrs :=
  write_hdr h (by rw [ofBeNat_length]; decide)

theorem writeAuthenticator_holds (h : Holds msg hdr attrs) (auth : Octets16) :
    ∃ msg', msg.write authenticatorOff auth.val = some msg' ∧
      Holds msg' (hdr.writeAt authenticatorOff auth.val) attrs :=
  write_hdr h (by rw [auth.2]; decide)

theorem addMsgAuth_holds (h : Holds msg hdr attrs) :
    ∃ msg', radiusMsgAddAttr msg attrMessageAuthenticator zero16.val =
        some (msg', some (hdrLen + (encode attrs).length)) ∧
      Holds msg' hdr (attrs ++ [msgAuth zero16]) := by
  rw [← h.length_eq]
  exact addAttr_holds h (msgAuth zero16)

theorem writeMac_holds {mac : Octets16} (h : Holds msg hdr (attrs ++ [msgAuth mac]))
    (mac' : Octets16) :
    ∃ msg', msg.write (hdrLen + (encode attrs).length + attrHdrLen) mac'.val = some msg' ∧
      Holds msg' hdr (attrs ++ [msgAuth mac']) :=
  write_last h (by rw [mac.2, mac'.2])

theorem be16_setLength {n : ℕ} (hhdr : hdr.length = hdrLen) (hn : n ≤ 0xffff) :
    be16 (hdr.writeAt 2 (ofBeNat n 2)) 2 = n := by
  have hlen : 2 + (ofBeNat n 2).length ≤ hdr.length := by
    rw [hhdr, ofBeNat_length]
    decide
  have htake : (hdr.take 2).length = 2 := by
    rw [List.length_take, hhdr]
    decide
  rw [writeAt_eq hlen, List.append_assoc, be16_append_right _ _ (by rw [htake]), htake,
    be16_ofBeNat (by omega)]

theorem be16_writeAuthenticator (hhdr : hdr.length = hdrLen) (auth : Octets16) :
    be16 (hdr.writeAt authenticatorOff auth.val) 2 = hdr.be16 2 := by
  have hlen : authenticatorOff + auth.val.length ≤ hdr.length := by
    rw [hhdr, auth.2]
    decide
  have htake : (hdr.take authenticatorOff).length = 4 := by
    rw [List.length_take, hhdr]
    decide
  have hsplit := be16_append_left (hdr.take authenticatorOff) (hdr.drop authenticatorOff)
    (show 2 + 1 < _ by rw [htake]; decide)
  rw [List.take_append_drop] at hsplit
  rw [writeAt_eq hlen, List.append_assoc, be16_append_left _ _ (by rw [htake]; decide), hsplit]

/-- A second authenticator takes the place of the first. -/
theorem writeAuthenticator_twice (hhdr : hdr.length = hdrLen) (auth auth' : Octets16) :
    (hdr.writeAt authenticatorOff auth.val).writeAt authenticatorOff auth'.val =
      hdr.writeAt authenticatorOff auth'.val := by
  have hlen : ∀ a : Octets16, ∀ b : Bytes, b.length = hdrLen →
      authenticatorOff + a.val.length ≤ b.length := by
    intro a b hb
    rw [hb, a.2]
    decide
  have htake : (hdr.take authenticatorOff).length = authenticatorOff := by
    rw [List.length_take, hhdr]
    decide
  have hfirst : (hdr.take authenticatorOff ++ auth.val).length = authenticatorOff + auth'.val.length := by
    rw [List.length_append, htake, auth.2, auth'.2]
  rw [writeAt_eq (hlen auth' _ (by rw [writeAt_length, hhdr])), writeAt_eq (hlen auth _ hhdr),
    writeAt_eq (hlen auth' _ hhdr), List.drop_left' hfirst, List.append_assoc (hdr.take _),
    List.take_left' htake, auth.2, auth'.2]

end Header

section Finish
variable {msg : Msg} {hdr : Bytes} {attrs : List Attr} (md5 : Md5)

/-- The header of a message of `n` octets with an authenticator. -/
def closedHdr (hdr : Bytes) (n : ℕ) (auth : Octets16) : Bytes :=
  (hdr.writeAt 2 (ofBeNat n 2)).writeAt authenticatorOff auth.val

theorem closedHdr_twice (hhdr : hdr.length = hdrLen) (n : ℕ) (auth auth' : Octets16) :
    (closedHdr hdr n auth).writeAt authenticatorOff auth'.val = closedHdr hdr n auth' :=
  writeAuthenticator_twice (by rw [writeAt_length, hhdr]) auth auth'

theorem be16_closedHdr {n : ℕ} (hhdr : hdr.length = hdrLen) (hn : n ≤ 0xffff) (auth : Octets16) :
    be16 (closedHdr hdr n auth) 2 = n := by
  rw [closedHdr, be16_writeAuthenticator (by rw [writeAt_length, hhdr]), be16_setLength hhdr hn]

/-- The header starts the same whatever its authenticator is. -/
theorem closedHdr_take (hhdr : hdr.length = hdrLen) (n : ℕ) (auth auth' : Octets16) :
    (closedHdr hdr n auth).take 4 = (closedHdr hdr n auth').take 4 := by
  have hlen : ∀ a : Octets16, authenticatorOff + a.val.length ≤
      (hdr.writeAt 2 (ofBeNat n 2)).length := by
    intro a
    rw [writeAt_length, hhdr, a.2]
    decide
  have htake : ((hdr.writeAt 2 (ofBeNat n 2)).take authenticatorOff).length = 4 := by
    rw [List.length_take, writeAt_length, hhdr]
    decide
  rw [closedHdr, closedHdr, writeAt_eq (hlen auth), writeAt_eq (hlen auth'), List.append_assoc,
    List.append_assoc, List.take_left' htake, List.take_left' htake]

/-- The octets that the Message-Authenticator of a response is computed over. -/
def macInput (hdr : Bytes) (attrs : List Attr) (auth : Octets16) : Bytes :=
  closedHdr hdr (hdrLen + (encode attrs).length + 18) auth ++ encode (attrs ++ [msgAuth zero16])

/-- What the authenticator of a response is the digest of. -/
def digestInput (hdr attributes secret : Bytes) (auth : Octets16) : Bytes :=
  hdr.take 4 ++ auth.val ++ attributes ++ secret

theorem start_eq (h : Holds msg hdr attrs) : msg.data.readSlice 0 4 = some (hdr.take 4) := by
  have hlen := h.length_eq
  have hhdr : hdr.length = 20 := h.hdr_length
  rw [readSlice_eq (by rw [hlen, hdrLen]; omega), slice, List.drop_zero, h.data_eq,
    List.take_append_of_le_length (by omega)]

theorem rest_eq (h : Holds msg hdr attrs) :
    msg.data.readSlice hdrLen (msg.data.length - hdrLen) = some (encode attrs) := by
  have hlen := h.length_eq
  rw [readSlice_eq (by omega), slice, hlen, Nat.add_sub_cancel_left, h.data_eq,
    List.drop_left' h.hdr_length, List.take_length]

/-- The message that `radius_msg_finish_srv` makes. -/
theorem finishSrv_holds (h : Holds msg hdr attrs) (secret : Bytes) (auth : Octets16) :
    ∃ msg' mac digest,
      radiusMsgFinishSrv md5 msg secret auth = some (msg', decide (msg'.data.length ≤ 0xffff)) ∧
      mac = md5.hmac secret (macInput hdr attrs auth) ∧
      digest = md5.vector (digestInput (closedHdr hdr (hdrLen + (encode attrs).length + 18) auth)
        (encode (attrs ++ [msgAuth mac])) secret auth) ∧
      Holds msg' (closedHdr hdr (hdrLen + (encode attrs).length + 18) digest)
        (attrs ++ [msgAuth mac]) := by
  obtain ⟨m₁, hadd, h₁⟩ := addMsgAuth_holds h
  obtain ⟨m₂, hset, h₂⟩ := setLength_holds h₁
  have hlen : m₁.data.length = hdrLen + (encode attrs).length + 18 := by
    rw [h₁.length_eq, encode_msgAuth_length, Nat.add_assoc]
  rw [hlen] at h₂
  obtain ⟨m₃, hauth, h₃⟩ := writeAuthenticator_holds h₂ auth
  obtain ⟨m₄, hmac, h₄⟩ := writeMac_holds h₃ (md5.hmac secret m₃.data)
  obtain ⟨m₅, hdigest, h₅⟩ := writeAuthenticator_holds h₄ (md5.vector
    (digestInput (closedHdr hdr (hdrLen + (encode attrs).length + 18) auth)
      (encode (attrs ++ [msgAuth (md5.hmac secret m₃.data)])) secret auth))
  refine ⟨m₅, md5.hmac secret m₃.data, _, ?_, ?_, rfl, ?_⟩
  · have hstart := start_eq h₄
    have hrest := rest_eq h₄
    simp only [radiusMsgFinishSrv, hadd, hset, hauth, hmac, hstart, hrest, Option.bind_eq_bind,
      Option.bind_some]
    rw [digestInput, closedHdr] at hdigest
    rw [hdigest]
    rfl
  · rw [h₃.data_eq]
    rfl
  · have htwice := closedHdr_twice h.hdr_length (hdrLen + (encode attrs).length + 18) auth
    rw [closedHdr] at htwice
    rw [htwice] at h₅
    exact h₅

/-- A message that is ready to be sent: its header tells its length where that fits. -/
def Closed (msg : Msg) (attrs : List Attr) : Prop :=
  ∃ hdr, Holds msg hdr attrs ∧ (msg.data.length ≤ 0xffff → hdr.be16 2 = msg.data.length)

theorem finishSrv_closed (h : Holds msg hdr attrs) (secret : Bytes) (auth : Octets16) :
    ∃ msg' mac, radiusMsgFinishSrv md5 msg secret auth =
        some (msg', decide (msg'.data.length ≤ 0xffff)) ∧ Closed msg' (attrs ++ [msgAuth mac]) := by
  obtain ⟨msg', mac, digest, hfinish, -, -, h'⟩ := finishSrv_holds md5 h secret auth
  refine ⟨msg', mac, hfinish, _, h', ?_⟩
  intro hlen
  have hlen' : msg'.data.length = hdrLen + (encode attrs).length + 18 := by
    rw [h'.length_eq, encode_msgAuth_length, Nat.add_assoc]
  rw [hlen'] at hlen ⊢
  exact be16_closedHdr h.hdr_length hlen digest

theorem finish_closed (h : Holds msg hdr attrs) (secret : Option Bytes) :
    ∃ msg' auth, radiusMsgFinish md5 msg secret =
        some (msg', decide (msg'.data.length ≤ 0xffff)) ∧
      Closed msg' (attrs ++ if secret.isSome then [msgAuth auth] else []) := by
  cases secret with
  | none =>
    obtain ⟨m₁, hset, h₁⟩ := setLength_holds h
    refine ⟨m₁, zero16, ?_, ?_⟩
    · simp only [radiusMsgFinish, hset, Option.bind_eq_bind, Option.bind_some]
      rfl
    · refine ⟨_, by simpa using h₁, ?_⟩
      rw [h₁.length_eq, ← h.length_eq]
      exact be16_setLength h.hdr_length
  | some secret =>
    obtain ⟨m₁, hadd, h₁⟩ := addMsgAuth_holds h
    obtain ⟨m₂, hset, h₂⟩ := setLength_holds h₁
    obtain ⟨m₃, hmac, h₃⟩ := writeMac_holds h₂ (md5.hmac secret m₂.data)
    refine ⟨m₃, md5.hmac secret m₂.data, ?_, _, h₃, ?_⟩
    · simp only [radiusMsgFinish, hadd, hset, hmac, Option.bind_eq_bind, Option.bind_some]
      rfl
    · rw [h₃.length_eq, encode_msgAuth_length, h₁.length_eq, encode_msgAuth_length]
      exact be16_setLength h.hdr_length

theorem finishDasResp_closed (h : Holds msg hdr attrs) (secret : Bytes) (auth : Octets16) :
    ∃ msg' mac, radiusMsgFinishDasResp md5 msg secret auth =
        some (msg', decide (msg'.data.length ≤ 0xffff)) ∧ Closed msg' (attrs ++ [msgAuth mac]) := by
  obtain ⟨m₁, hadd, h₁⟩ := addMsgAuth_holds h
  obtain ⟨m₂, hset, h₂⟩ := setLength_holds h₁
  obtain ⟨m₃, hauth, h₃⟩ := writeAuthenticator_holds h₂ auth
  obtain ⟨m₄, hmac, h₄⟩ := writeMac_holds h₃ (md5.hmac secret m₃.data)
  obtain ⟨m₅, hdigest, h₅⟩ := writeAuthenticator_holds h₄ (md5.vector (m₄.data ++ secret))
  refine ⟨m₅, md5.hmac secret m₃.data, ?_, _, h₅, ?_⟩
  · simp only [radiusMsgFinishDasResp, hadd, hset, hauth, hmac, hdigest, Option.bind_eq_bind,
      Option.bind_some]
    rfl
  · intro hlen
    rw [be16_writeAuthenticator h₄.hdr_length, be16_writeAuthenticator h₂.hdr_length]
    rw [h₅.length_eq, encode_msgAuth_length] at hlen ⊢
    rw [h₁.length_eq, encode_msgAuth_length]
    exact be16_setLength h.hdr_length hlen

theorem finishAcct_closed (h : Holds msg hdr attrs) (secret : Bytes) (auth : Octets16) :
    ∃ msg', radiusMsgFinishAcct md5 msg secret auth = some msg' ∧ Closed msg' attrs := by
  obtain ⟨m₁, hset, h₁⟩ := setLength_holds h
  obtain ⟨m₂, hauth, h₂⟩ := writeAuthenticator_holds h₁ auth
  obtain ⟨m₃, hdigest, h₃⟩ := writeAuthenticator_holds h₂ (md5.vector (m₂.data ++ secret))
  refine ⟨m₃, ?_, _, h₃, ?_⟩
  · simp only [radiusMsgFinishAcct, hset, hauth, hdigest, Option.bind_eq_bind, Option.bind_some]
  · intro hlen
    rw [be16_writeAuthenticator h₂.hdr_length, be16_writeAuthenticator h₁.hdr_length]
    rw [h₃.length_eq, ← h.length_eq] at hlen ⊢
    exact be16_setLength h.hdr_length hlen

end Finish

end Wpa.RadiusMsg
