import Wpa.Eap.Packet

/-! The peer side of `eap_peer/eap_tls_common.c`: what is done with a request in front of the TLS
library, reassembly of TLS messages, and the fragments of a response. Allocation failures and the
answers of the TLS library are arguments. -/

namespace Wpa.Eap
open Lib Bytes

def flagsLengthIncluded : UInt8 := 0x80
def flagsMoreFragments : UInt8 := 0x40
def versionMask : UInt8 := 0x07

/-- Octets of a TLS message that are kept at most. -/
def maxTlsInLen : ℕ := 65536

/-- `struct eap_ssl_data` of the peer. -/
structure PeerSslData where
  tlsIn : Option Bytes := none
  tlsInLeft : ℕ := 0
  tlsInTotal : ℕ := 0
  tlsOut : Option Bytes := none
  tlsOutPos : ℕ := 0
  tlsOutLimit : ℕ := 1398
  includeTlsLength : Bool := false
  deriving DecidableEq

namespace PeerSslData

def resetInput (data : PeerSslData) : PeerSslData :=
  { data with tlsIn := none, tlsInLeft := 0, tlsInTotal := 0 }

def resetOutput (data : PeerSslData) : PeerSslData :=
  { data with tlsOut := none, tlsOutPos := 0 }

end PeerSslData

/-- The Flags octet and what follows it. -/
def tlsFrame (workaround : Bool) (eapType : ℕ) (req : Bytes) : Option (UInt8 × Bytes) :=
  match eapTlsHdrValidate eapType req with
  | none => none
  | some [] => if workaround then some (0, []) else none
  | some (flags :: rest) => some (flags, rest)

/-- `eap_peer_tls_process_init`; without an answer the request is ignored. -/
def eapPeerTlsProcessInit (tlsErrors workaround : Bool) (eapType : ℕ) (data : PeerSslData)
    (req : Bytes) : PeerSslData × Option (UInt8 × Bytes) :=
  if tlsErrors then (data, none)
  else
    match tlsFrame workaround eapType req with
    | none => (data, none)
    | some (flags, body) =>
      if flags &&& flagsLengthIncluded ≠ 0 then
        if body.length < 4 then (data, none)
        else
          let tlsMsgLen := body.be32 0
          let data :=
            if data.tlsInLeft = 0 then
              { data with tlsInTotal := tlsMsgLen, tlsInLeft := tlsMsgLen, tlsIn := none }
            else data
          if (body.drop 4).length > tlsMsgLen then (data, none)
          else (data, some (flags, body.drop 4))
      else (data, some (flags, body))

inductive Reassembly where
  | more
  | failed
  | message (msg : Bytes)
  deriving DecidableEq

def eapPeerTlsReassembleFragment (allocOk : Bool) (data : PeerSslData) (inData : Bytes) :
    PeerSslData × Reassembly :=
  let tlsIn := data.tlsIn.getD []
  if tlsIn.length + inData.length = 0 then (data.resetInput, .failed)
  else if tlsIn.length + inData.length > maxTlsInLen then (data.resetInput, .failed)
  else if inData.length > data.tlsInLeft then (data.resetInput, .failed)
  else if ¬ allocOk then (data.resetInput, .failed)
  else
    let data := { data with
      tlsIn := some (tlsIn ++ inData)
      tlsInLeft := data.tlsInLeft - inData.length }
    if data.tlsInLeft > 0 then (data, .more) else (data, .message (tlsIn ++ inData))

def eapPeerTlsDataReassemble (allocOk : Bool) (data : PeerSslData) (inData : Bytes) :
    PeerSslData × Reassembly :=
  if data.tlsInLeft > inData.length ∨ data.tlsIn.isSome then
    eapPeerTlsReassembleFragment allocOk data inData
  else if ¬ allocOk then ({ data with tlsInLeft := 0, tlsIn := none }, .failed)
  else ({ data with tlsInLeft := 0, tlsIn := some inData }, .message inData)

/-- The Flags octet: the version with the flags that apply. -/
def tlsFlags (version : UInt8) (moreFragments lengthIncluded : Bool) : UInt8 :=
  version ||| (if moreFragments then flagsMoreFragments else 0) |||
    (if lengthIncluded then flagsLengthIncluded else 0)

/-- `eap_tls_process_output`: the next fragment of `tls_out`. `established` is the answer of
`tls_connection_established`. -/
def eapTlsProcessOutput (established : Bool) (data : PeerSslData) (eapType : ℕ)
    (peapVersion id : UInt8) : Option (PeerSslData × Bytes) :=
  match data.tlsOut with
  | none => none
  | some tlsOut =>
    let left := tlsOut.length - data.tlsOutPos
    let moreFragments := decide (left > data.tlsOutLimit)
    let len := if left > data.tlsOutLimit then data.tlsOutLimit else left
    let lengthIncluded :=
      (decide (data.tlsOutPos = 0) &&
        (decide (tlsOut.length > data.tlsOutLimit) || data.includeTlsLength)) ||
      (decide (eapType = eapTypePeap) && peapVersion == 0 && !established)
    let flags := tlsFlags peapVersion moreFragments lengthIncluded
    let header := eapTlsMsgAlloc eapType (1 + (if lengthIncluded then 4 else 0) + len)
      eapCodeResponse id
    let out := header ++ [flags] ++ (if lengthIncluded then ofBeNat tlsOut.length 4 else []) ++
      tlsOut.slice data.tlsOutPos len
    let data := { data with tlsOutPos := data.tlsOutPos + len }
    some (if moreFragments then data else data.resetOutput, out)

section Spec
variable {tlsErrors workaround allocOk : Bool} {eapType : ℕ} {data : PeerSslData} {req : Bytes}

/-- Everything `eap_peer_tls_process_init` can do. -/
theorem processInit_cases (tlsErrors workaround : Bool) (eapType : ℕ) (data : PeerSslData)
    (req : Bytes) :
    (tlsErrors = true ∨ tlsFrame workaround eapType req = none) ∧
        eapPeerTlsProcessInit tlsErrors workaround eapType data req = (data, none) ∨
    ∃ flags body, tlsErrors = false ∧ tlsFrame workaround eapType req = some (flags, body) ∧
      (flags &&& flagsLengthIncluded = 0 ∧
          eapPeerTlsProcessInit tlsErrors workaround eapType data req =
            (data, some (flags, body)) ∨
        flags &&& flagsLengthIncluded ≠ 0 ∧ body.length < 4 ∧
          eapPeerTlsProcessInit tlsErrors workaround eapType data req = (data, none) ∨
        flags &&& flagsLengthIncluded ≠ 0 ∧ 4 ≤ body.length ∧
          eapPeerTlsProcessInit tlsErrors workaround eapType data req =
            (if data.tlsInLeft = 0 then
              { data with tlsInTotal := body.be32 0, tlsInLeft := body.be32 0, tlsIn := none }
            else data,
            if body.be32 0 < body.length - 4 then none else some (flags, body.drop 4))) := by
  unfold eapPeerTlsProcessInit
  cases tlsErrors with
  | true => exact Or.inl ⟨Or.inl rfl, rfl⟩
  | false =>
    cases hframe : tlsFrame workaround eapType req with
    | none => exact Or.inl ⟨Or.inr rfl, rfl⟩
    | some frame =>
      obtain ⟨flags, body⟩ := frame
      refine Or.inr ⟨flags, body, rfl, rfl, ?_⟩
      by_cases hflag : flags &&& flagsLengthIncluded = 0
      · exact Or.inl ⟨hflag, by simp [hflag]⟩
      · by_cases hshort : body.length < 4
        · exact Or.inr (Or.inl ⟨hflag, hshort, by simp [hflag, hshort]⟩)
        · refine Or.inr (Or.inr ⟨hflag, by omega, ?_⟩)
          simp only [hflag, hshort, ne_eq, not_false_eq_true, if_true, if_false, Bool.false_eq_true,
            List.length_drop, gt_iff_lt]
          split_ifs <;> rfl

theorem tlsFrame_length_le {flags : UInt8} {body : Bytes}
    (h : tlsFrame workaround eapType req = some (flags, body)) : body.length ≤ 65535 := by
  unfold tlsFrame at h
  split at h
  · cases h
  · split at h
    · cases h
      simp
    · cases h
  · rename_i hval
    cases h
    have := eapHdrValidate_length_le hval
    rw [List.length_cons] at this
    omega

end Spec

end Wpa.Eap
