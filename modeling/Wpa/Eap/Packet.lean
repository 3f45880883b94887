import Wpa.Lib.Bytes

/-! EAP packets: the header that `eap_msg_alloc` writes and `eap_hdr_validate` reads. The Length
field has sixteen bits, and `eap_msg_alloc` stores the length in it as it is. -/

namespace Wpa.Eap
open Lib Bytes

def eapCodeRequest : UInt8 := 1
def eapCodeResponse : UInt8 := 2

def eapTypeTls : ℕ := 13
def eapTypePeap : ℕ := 25
def eapTypeExpanded : ℕ := 254
def eapWfaUnauthTlsType : ℕ := 254
def eapUnauthTlsType : ℕ := 255

def eapVendorIetf : ℕ := 0
def eapVendorUnauthTls : ℕ := 39068
def eapVendorTypeUnauthTls : ℕ := 1
def eapVendorWfaNew : ℕ := 40808
def eapVendorWfaUnauthTls : ℕ := 13

def eapHdrSize : ℕ := 4

/-- The header and type fields; the buffer has room for `payloadLen` octets behind them. -/
def eapMsgAlloc (vendor type payloadLen : ℕ) (code identifier : UInt8) : Bytes :=
  let len := eapHdrSize + (if vendor = eapVendorIetf then 1 else 8) + payloadLen
  [code, identifier] ++ ofBeNat (len % 65536) 2 ++
    if vendor = eapVendorIetf then [UInt8.ofNat type]
    else UInt8.ofNat eapTypeExpanded :: (ofBeNat vendor 3 ++ ofBeNat type 4)

def eapHdrLenValid (msg : Bytes) (minPayload : ℕ) : Bool :=
  decide (eapHdrSize ≤ msg.length) && decide (eapHdrSize + minPayload ≤ msg.be16 2) &&
    decide (msg.be16 2 ≤ msg.length)

/-- The payload behind the type field. -/
def eapHdrValidate (vendor eapType : ℕ) (msg : Bytes) : Option Bytes :=
  if ¬ eapHdrLenValid msg 1 then none
  else
    let len := msg.be16 2
    if msg.byteAt eapHdrSize = eapTypeExpanded then
      if len < eapHdrSize + 8 then none
      else if msg.be24 (eapHdrSize + 1) ≠ vendor ∨ msg.be32 (eapHdrSize + 4) ≠ eapType then none
      else some (msg.slice (eapHdrSize + 8) (len - eapHdrSize - 8))
    else if vendor ≠ eapVendorIetf ∨ msg.byteAt eapHdrSize ≠ eapType then none
    else some (msg.slice (eapHdrSize + 1) (len - eapHdrSize - 1))

/-- The vendor and the vendor's type that stand for a TLS-based method. -/
def eapTlsVendorType (eapType : ℕ) : ℕ × ℕ :=
  if eapType = eapUnauthTlsType then (eapVendorUnauthTls, eapVendorTypeUnauthTls)
  else if eapType = eapWfaUnauthTlsType then (eapVendorWfaNew, eapVendorWfaUnauthTls)
  else (eapVendorIetf, eapType)

def eapTlsMsgAlloc (eapType payloadLen : ℕ) (code identifier : UInt8) : Bytes :=
  eapMsgAlloc (eapTlsVendorType eapType).1 (eapTlsVendorType eapType).2 payloadLen code identifier

def eapTlsHdrValidate (eapType : ℕ) (msg : Bytes) : Option Bytes :=
  eapHdrValidate (eapTlsVendorType eapType).1 (eapTlsVendorType eapType).2 msg

/-- The octets in front of the payload of a TLS-based method. -/
def eapTlsHdrLen (eapType : ℕ) : ℕ :=
  if (eapTlsVendorType eapType).1 = eapVendorIetf then eapHdrSize + 1 else eapHdrSize + 8

theorem length_eapTlsMsgAlloc (eapType payloadLen : ℕ) (code identifier : UInt8) :
    (eapTlsMsgAlloc eapType payloadLen code identifier).length = eapTlsHdrLen eapType := by
  unfold eapTlsMsgAlloc eapMsgAlloc eapTlsHdrLen
  split <;> simp [eapHdrSize]

theorem eapTlsMsgAlloc_eq (eapType payloadLen : ℕ) (code identifier : UInt8) :
    eapTlsMsgAlloc eapType payloadLen code identifier =
      [code, identifier] ++ (ofBeNat ((eapTlsHdrLen eapType + payloadLen) % 65536) 2 ++
        if (eapTlsVendorType eapType).1 = eapVendorIetf then
          [UInt8.ofNat (eapTlsVendorType eapType).2]
        else UInt8.ofNat eapTypeExpanded ::
          (ofBeNat (eapTlsVendorType eapType).1 3 ++ ofBeNat (eapTlsVendorType eapType).2 4)) := by
  unfold eapTlsMsgAlloc eapMsgAlloc eapTlsHdrLen
  split <;> simp

theorem be16_eapTlsMsgAlloc (eapType payloadLen : ℕ) (code identifier : UInt8) (rest : Bytes) :
    be16 (eapTlsMsgAlloc eapType payloadLen code identifier ++ rest) 2 =
      (eapTlsHdrLen eapType + payloadLen) % 65536 := by
  rw [eapTlsMsgAlloc_eq, List.append_assoc, be16_append_right _ _ (by simp), List.append_assoc]
  exact be16_ofBeNat (Nat.mod_lt _ (by decide)) _

theorem eapHdrValidate_length_le {vendor eapType : ℕ} {msg payload : Bytes}
    (h : eapHdrValidate vendor eapType msg = some payload) : payload.length + 5 ≤ 65535 := by
  have hlt := msg.be16_lt 2
  have hbound : ∀ off k, 5 ≤ k → (msg.slice off (msg.be16 2 - k)).length + 5 ≤ 65535 := by
    intro off k hk
    rw [slice_length]
    omega
  simp only [eapHdrValidate, Nat.sub_sub] at h
  split_ifs at h with hvalid hexp hshort htype htype
  · rw [← Option.some.inj h]
    exact hbound _ _ (by decide)
  · rw [← Option.some.inj h]
    exact hbound _ _ (by decide)

theorem byteAt_type (eapType payloadLen : ℕ) (code identifier : UInt8) (rest : Bytes) :
    byteAt (eapTlsMsgAlloc eapType payloadLen code identifier ++ rest) eapHdrSize =
      if (eapTlsVendorType eapType).1 = eapVendorIetf then (eapTlsVendorType eapType).2 % 256
      else eapTypeExpanded := by
  rw [eapTlsMsgAlloc_eq]
  split <;> simp [byteAt, ofBeNat, eapHdrSize, eapTypeExpanded]

theorem vendorType_ietf {eapType : ℕ} (h : (eapTlsVendorType eapType).1 = eapVendorIetf) :
    (eapTlsVendorType eapType).2 = eapType ∧ eapType ≠ eapTypeExpanded := by
  unfold eapTlsVendorType at h ⊢
  split_ifs at h ⊢ with h₁ h₂
  · exact absurd h (by decide)
  · exact absurd h (by decide)
  · exact ⟨rfl, h₂⟩

theorem be24_vendor {eapType : ℕ} (h : (eapTlsVendorType eapType).1 ≠ eapVendorIetf)
    (payloadLen : ℕ) (code identifier : UInt8) (rest : Bytes) :
    be24 (eapTlsMsgAlloc eapType payloadLen code identifier ++ rest) (eapHdrSize + 1) =
        (eapTlsVendorType eapType).1 ∧
      be32 (eapTlsMsgAlloc eapType payloadLen code identifier ++ rest) (eapHdrSize + 4) =
        (eapTlsVendorType eapType).2 := by
  rw [eapTlsMsgAlloc_eq, if_neg h]
  unfold eapTlsVendorType at h ⊢
  split_ifs at h ⊢ with h₁ h₂
  · simp [be24, be32, be16, byteAt, ofBeNat, eapHdrSize, eapVendorUnauthTls, eapVendorTypeUnauthTls]
  · simp [be24, be32, be16, byteAt, ofBeNat, eapHdrSize, eapVendorWfaNew, eapVendorWfaUnauthTls]
  · exact absurd rfl h

/-- A message whose length fits its Length field is read back as it was built. -/
theorem eapTlsHdrValidate_built {eapType : ℕ} (htype : eapType < 256) {payload : Bytes}
    (hlen : eapTlsHdrLen eapType + payload.length ≤ 65535) (code identifier : UInt8) :
    eapTlsHdrValidate eapType
      (eapTlsMsgAlloc eapType payload.length code identifier ++ payload) = some payload := by
  set msg := eapTlsMsgAlloc eapType payload.length code identifier ++ payload with hmsg
  have hsize : msg.length = eapTlsHdrLen eapType + payload.length := by
    rw [hmsg, List.length_append, length_eapTlsMsgAlloc]
  have hfield : msg.be16 2 = eapTlsHdrLen eapType + payload.length := by
    rw [hmsg, be16_eapTlsMsgAlloc, Nat.mod_eq_of_lt (by omega)]
  have htypeAt := byteAt_type eapType payload.length code identifier payload
  rw [← hmsg] at htypeAt
  have hpayload : msg.slice (eapTlsHdrLen eapType) payload.length = payload := by
    rw [hmsg, slice_append_right _ _ (by rw [length_eapTlsMsgAlloc]), length_eapTlsMsgAlloc,
      Nat.sub_self]
    simp [slice]
  have hmin : eapHdrSize + 1 ≤ eapTlsHdrLen eapType := by
    unfold eapTlsHdrLen
    split <;> decide
  have hvalid : eapHdrLenValid msg 1 = true := by
    simp only [eapHdrLenValid, hfield, hsize, Bool.and_eq_true, decide_eq_true_eq]
    omega
  rw [eapTlsHdrValidate, eapHdrValidate, if_neg (not_not.mpr hvalid), htypeAt, hfield]
  by_cases hietf : (eapTlsVendorType eapType).1 = eapVendorIetf
  · obtain ⟨htype', hne⟩ := vendorType_ietf hietf
    have hhdr : eapTlsHdrLen eapType = eapHdrSize + 1 := if_pos hietf
    rw [if_pos hietf, htype', Nat.mod_eq_of_lt htype, if_neg hne, if_neg (by simp [hietf]), hhdr,
      show eapHdrSize + 1 + payload.length - eapHdrSize - 1 = payload.length by omega, ← hhdr,
      hpayload]
  · have hhdr : eapTlsHdrLen eapType = eapHdrSize + 8 := if_neg hietf
    have hvendor := be24_vendor hietf payload.length code identifier payload
    rw [← hmsg] at hvendor
    rw [if_neg hietf, if_pos rfl, if_neg (by omega), if_neg (by simp [hvendor]), hhdr,
      show eapHdrSize + 8 + payload.length - eapHdrSize - 8 = payload.length by omega, ← hhdr,
      hpayload]

end Wpa.Eap
