import Wpa.Common.Defs
import Wpa.Lib.Ownership

/-! Who owns the memory of a driver event of the FreeRTOS port, from `wpa_supplicant_event_wrapper`
with its deep copy to `process_wpa_supplicant_event`. -/

namespace Wpa.Freertos.EventMemory
open Lib Prog Ownership

section Data

/-- An event with the pointers of its member of `union wpa_event_data`. -/
inductive EventData
  | auth (ies : Pointer)
  | rxMgmt (frame : Pointer)
  | txStatus (dst data : Pointer)
  | assoc (addr reqIes respIes respFrame : Pointer)
  | assocReject (bssid respIes : Pointer)
  | deauth (addr ie : Pointer)
  | disassoc (addr ie : Pointer)
  | unprotDeauth (sa da : Pointer)
  | unprotDisassoc (sa da : Pointer)
  | eapolRx (data src : Pointer)
  /-- Any event whose data is not copied further. -/
  | other (event : ℕ)
  deriving DecidableEq

structure EventMsg where
  self : Pointer
  /-- The block of the union and what stands in it. -/
  data : Option (Pointer × EventData)

/-- The one other action is the call of `wpa_supplicant_event`. -/
abbrev EventProg (α : Type) := MemProg (Option EventData) α

end Data

section DeepCopy

/-- The copy of a buffer that may be null, of any length; none where the allocation fails. -/
def copyBuffer (src : Pointer) : EventProg (Option Pointer) :=
  if src ≠ .null then do
    let p ← malloc
    if p = .null then pure none
    else do
      readFrom src 1
      pure (some p)
  else pure (some src)

/-- The copy of an address and of a buffer that may be null. -/
def copyAddrAndBuffer (addr buffer : Pointer) (copied : Pointer → Pointer → EventData) :
    EventProg (Option EventData) := do
  let a ← malloc
  if a = .null then pure none
  else do
    readFrom addr ethAlen
    let p ← copyBuffer buffer
    match p with
    | none => do
      free a
      pure none
    | some p => pure (some (copied a p))

/-- The copies of two addresses. -/
def copyAddrs (sa da : Pointer) (copied : Pointer → Pointer → EventData) :
    EventProg (Option EventData) := do
  let s ← malloc
  let d ← malloc
  if s = .null then do
    free d
    pure none
  else if d = .null then do
    free s
    pure none
  else do
    readFrom sa ethAlen
    readFrom da ethAlen
    pure (some (copied s d))

def deepCopyAuth (ies : Pointer) : EventProg (Option EventData) :=
  Option.map .auth <$> copyBuffer ies

def deepCopyRxMgmt (frame : Pointer) : EventProg (Option EventData) :=
  Option.map .rxMgmt <$> copyBuffer frame

/-- The destination is then the address in the copied header. -/
def deepCopyTxStatus (dst data : Pointer) : EventProg (Option EventData) :=
  Option.map (fun frame => .txStatus (if data ≠ .null then frame else dst) frame) <$>
    copyBuffer data

def deepCopyAssoc (addr reqIes respIes respFrame : Pointer) : EventProg (Option EventData) := do
  let a ← malloc
  if a = .null then pure none
  else do
    readFrom addr ethAlen
    let req ← copyBuffer reqIes
    match req with
    | none => do
      free a
      pure none
    | some req => do
      let resp ← copyBuffer respIes
      match resp with
      | none => do
        free a
        pure none
      | some resp => do
        let frame ← copyBuffer respFrame
        match frame with
        | none => do
          free a
          pure none
        | some frame => pure (some (.assoc a req resp frame))

def deepCopyAssocReject (bssid respIes : Pointer) : EventProg (Option EventData) :=
  copyAddrAndBuffer bssid respIes .assocReject

def deepCopyDeauth (addr ie : Pointer) : EventProg (Option EventData) :=
  copyAddrAndBuffer addr ie .deauth

def deepCopyDisassoc (addr ie : Pointer) : EventProg (Option EventData) :=
  copyAddrAndBuffer addr ie .disassoc

def deepCopyUnprotDeauth (sa da : Pointer) : EventProg (Option EventData) :=
  copyAddrs sa da .unprotDeauth

def deepCopyUnprotDisassoc (sa da : Pointer) : EventProg (Option EventData) :=
  copyAddrs sa da .unprotDisassoc

def deepCopyEapolRx (data src : Pointer) : EventProg (Option EventData) :=
  if data ≠ .null ∧ src ≠ .null then do
    let frame ← malloc
    if frame = .null then pure none
    else do
      let addr ← malloc
      if addr = .null then do
        free frame
        pure none
      else do
        readFrom data 1
        readFrom src ethAlen
        pure (some (.eapolRx frame addr))
  else pure (some (.eapolRx data src))

/-- `wpa_supplicant_event_wrapper_deep_copy`: the data with its copies, or none for `-1`. -/
def deepCopy : EventData → EventProg (Option EventData)
  | .auth ies => deepCopyAuth ies
  | .rxMgmt frame => deepCopyRxMgmt frame
  | .txStatus dst data => deepCopyTxStatus dst data
  | .assoc addr reqIes respIes respFrame => deepCopyAssoc addr reqIes respIes respFrame
  | .assocReject bssid respIes => deepCopyAssocReject bssid respIes
  | .deauth addr ie => deepCopyDeauth addr ie
  | .disassoc addr ie => deepCopyDisassoc addr ie
  | .unprotDeauth sa da => deepCopyUnprotDeauth sa da
  | .unprotDisassoc sa da => deepCopyUnprotDisassoc sa da
  | .eapolRx data src => deepCopyEapolRx data src
  | .other event => pure (some (.other event))

/-- `wpa_supplicant_event_wrapper_deep_copy_free`. -/
def deepCopyFree : EventData → EventProg Unit
  | .auth ies => free ies
  | .rxMgmt frame => free frame
  | .txStatus _ data => free data
  | .assoc addr reqIes respIes respFrame => do
    free addr
    free reqIes
    free respIes
    free respFrame
  | .assocReject bssid respIes => do
    free bssid
    free respIes
  | .deauth addr ie => do
    free addr
    free ie
  | .disassoc addr ie => do
    free addr
    free ie
  | .unprotDeauth sa da => do
    free sa
    free da
  | .unprotDisassoc sa da => do
    free sa
    free da
  | .eapolRx data src => do
    free data
    free src
  | .other _ => pure ()

end DeepCopy

section Life

/-- Free the copies and the union. -/
def freeData : Option (Pointer × EventData) → EventProg Unit
  | none => pure ()
  | some (copy, data) => do
    deepCopyFree data
    free copy

def freeMsg (msg : EventMsg) : EventProg Unit := do
  freeData msg.data
  free msg.self

/-- `send_wpa_supplicant_event`, with what the post to the mailbox answers. -/
def sendEvent (posted : Bool) (msg : EventMsg) : EventProg (Option EventMsg) :=
  if posted then pure (some msg)
  else do
    freeMsg msg
    pure none

/-- `wpa_supplicant_event_wrapper`; the message, if it was accepted. -/
def eventWrapper (posted : Bool) (data : Option EventData) : EventProg (Option EventMsg) := do
  let msg ← malloc
  if msg = .null then pure none
  else
    match data with
    | none => sendEvent posted ⟨msg, none⟩
    | some data => do
      let copy ← malloc
      if copy = .null then do
        free msg
        pure none
      else do
        let copied ← deepCopy data
        match copied with
        | none => do
          free copy
          free msg
          pure none
        | some data => sendEvent posted ⟨msg, some (copy, data)⟩

/-- What `process_wpa_supplicant_event` does with a message. -/
def processEvent : Option EventMsg → EventProg Unit
  | none => pure ()
  | some msg => do
    perform (msg.data.map Prod.snd)
    freeMsg msg

/-- The whole life of a message. -/
def life (posted : Bool) (data : Option EventData) : EventProg Unit := do
  let msg ← eventWrapper posted data
  processEvent msg

end Life

end Wpa.Freertos.EventMemory
