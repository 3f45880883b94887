import Wpa.Eap.TlsPeer
import Wpa.Lib.Wpabuf

/-! The server side, `eap_server/eap_server_tls_common.c`: requests that carry the next fragment of a
TLS message, and reassembly of what the peer sends. -/

namespace Wpa.Eap
open Lib Bytes

inductive ServerState where
  | msg
  | fragAck
  | waitFragAck
  deriving DecidableEq

/-- `struct eap_ssl_data` of the server. An unfragmented message is wrapped without a copy, as a
buffer that is full. -/
structure ServerSslData where
  tlsIn : Option Wpabuf := none
  tlsOut : Option Bytes := none
  tlsOutPos : ℕ := 0
  tlsOutLimit : ℕ := 1398
  state : ServerState := .msg

/-- `eap_server_tls_build_msg`, for limits that leave room for the first fragment (`6` and more);
below, the unsigned subtractions of the source wrap. -/
def eapServerTlsBuildMsg (data : ServerSslData) (eapType : ℕ) (version id : UInt8) :
    Option (ServerSslData × Bytes) :=
  match data.tlsOut with
  | none => none
  | some tlsOut =>
    let left := tlsOut.length - data.tlsOutPos
    let fragmented := decide (1 + left > data.tlsOutLimit)
    let lengthIncluded := fragmented && decide (data.tlsOutPos = 0)
    let flags := tlsFlags version fragmented lengthIncluded
    let sendLen :=
      if fragmented then data.tlsOutLimit - 1 - (if lengthIncluded then 4 else 0) else left
    let plen := 1 + sendLen + (if lengthIncluded then 4 else 0)
    let req := eapTlsMsgAlloc eapType plen eapCodeRequest id ++ [flags] ++
      (if lengthIncluded then ofBeNat tlsOut.length 4 else []) ++
      tlsOut.slice data.tlsOutPos sendLen
    let pos := data.tlsOutPos + sendLen
    if pos = tlsOut.length then
      some ({ data with tlsOut := none, tlsOutPos := 0, state := .msg }, req)
    else some ({ data with tlsOutPos := pos, state := .waitFragAck }, req)

def eapServerTlsBuildAck (id : UInt8) (eapType : ℕ) (version : UInt8) : Bytes :=
  eapTlsMsgAlloc eapType 1 eapCodeRequest id ++ [version]

def eapPeerTlsBuildAck (id : UInt8) (eapType : ℕ) (peapVersion : UInt8) : Bytes :=
  eapTlsMsgAlloc eapType 1 eapCodeResponse id ++ [peapVersion]

/-- `eap_server_tls_process_cont`. -/
def eapServerTlsProcessCont (tlsIn : Wpabuf) (buf : Bytes) : Option Wpabuf :=
  if buf.length > tlsIn.tailroom then none else tlsIn.put buf

/-- `eap_server_tls_process_fragment`: the buffer for a message that is not complete yet. -/
def eapServerTlsProcessFragment (allocOk : Bool) (tlsIn : Option Wpabuf) (flags : UInt8)
    (messageLength : ℕ) (buf : Bytes) : Option Wpabuf :=
  match tlsIn with
  | some tlsIn => some tlsIn
  | none =>
    if flags &&& flagsLengthIncluded = 0 then none
    else if messageLength > maxTlsInLen then none
    else if buf.length > messageLength then none
    else if ¬ allocOk then none
    else Wpabuf.put ⟨messageLength, [], Nat.zero_le _⟩ buf

/-- The length field, if there is one, and the octets behind it. -/
def eapServerTlsLength (flags : UInt8) (body : Bytes) : Option (ℕ × Bytes) :=
  if flags &&& flagsLengthIncluded ≠ 0 then
    if body.length < 4 then none
    else if (body.drop 4).length > body.be32 0 then none
    else some (body.be32 0, body.drop 4)
  else some (0, body)

/-- `eap_server_tls_reassemble`: `-1` on error, `1` when there is nothing to process yet, `0` when
`tls_in` holds a message. -/
def eapServerTlsReassemble (allocOk : Bool) (data : ServerSslData) (flags : UInt8) (body : Bytes) :
    ServerSslData × ℤ :=
  match eapServerTlsLength flags body with
  | none => (data, -1)
  | some (tlsMsgLen, buf) =>
    if data.state = .waitFragAck then if buf.length ≠ 0 then (data, -1) else (data, 1)
    else
      let cont :=
        match data.tlsIn with
        | none => some none
        | some tlsIn => (eapServerTlsProcessCont tlsIn buf).map some
      match cont with
      | none => (data, -1)
      | some tlsIn =>
        let data := { data with tlsIn := tlsIn }
        if flags &&& flagsMoreFragments ≠ 0 then
          match eapServerTlsProcessFragment allocOk tlsIn flags tlsMsgLen buf with
          | none => (data, -1)
          | some tlsIn => ({ data with tlsIn := some tlsIn, state := .fragAck }, 1)
        else
          let data := if data.state = .fragAck then { data with state := .msg } else data
          match tlsIn with
          | some _ => (data, 0)
          | none => ({ data with tlsIn := some ⟨buf.length, buf, le_rfl⟩ }, 0)

/-- `eap_server_tls_process` up to the message that is handed to `proc_msg`; the input is freed
behind it and behind an error. -/
def eapServerTlsProcess (allocOk : Bool) (data : ServerSslData) (eapType : ℕ) (resp : Bytes) :
    ServerSslData × Option Bytes :=
  match eapTlsHdrValidate eapType resp with
  | none => (data, none)
  | some [] => (data, none)
  | some (flags :: body) =>
    match eapServerTlsReassemble allocOk data flags body with
    | (data, 1) => (data, none)
    | (data, 0) => ({ data with tlsIn := none }, data.tlsIn.map Wpabuf.data)
    | (data, _) => ({ data with tlsIn := none }, none)

end Wpa.Eap
