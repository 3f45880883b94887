import Wpa.Common.Defs
import Wpa.Embox.EventQueue
import Wpa.Lib.Ownership

/-! Who owns the memory of a driver event of the Embox port, from `wpa_embox_send_event` to
`wpa_embox_event_copy_free`. -/

namespace Wpa.Embox.EventMemory
open Lib Prog Ownership

section Data

structure EapolRx where
  src : Pointer
  data : Pointer
  dataLen : ℕ
  deriving DecidableEq

structure DeauthInfo where
  addr : Pointer
  ie : Pointer
  deriving DecidableEq

/-- The pointers of `struct assoc_info`. -/
structure AssocInfo where
  reqIes : Pointer
  respIes : Pointer
  respFrame : Pointer
  beaconIes : Pointer
  addr : Pointer
  keyReplayCtr : Pointer
  ptkKck : Pointer
  ptkKek : Pointer
  filsPmk : Pointer
  filsPmkid : Pointer
  deriving DecidableEq

/-- The pointers that the copy leaves as they are. -/
def AssocInfo.uncopied (a : AssocInfo) : List Pointer :=
  [a.reqIes, a.respIes, a.respFrame, a.beaconIes, a.keyReplayCtr, a.ptkKck, a.ptkKek, a.filsPmk,
    a.filsPmkid]

/-- `union wpa_event_data`, as its members for these events see it. -/
structure EventData where
  eapolRx : EapolRx
  deauthInfo : DeauthInfo
  assocInfo : AssocInfo
  deriving DecidableEq

/-- The pointers that belong to an event. -/
def EventData.pointers (event : ℤ) (data : EventData) : List Pointer :=
  if event = eventEapolRx then [data.eapolRx.src, data.eapolRx.data]
  else if event = eventDeauth then [data.deauthInfo.addr, data.deauthInfo.ie]
  else if event = eventAssoc then data.assocInfo.addr :: data.assocInfo.uncopied
  else []

structure EventMsg where
  self : Pointer
  ctx : ℕ
  event : ℤ
  /-- The block of the union and what stands in it. -/
  data : Option (Pointer × EventData)

/-- What `wpa_supplicant_event` is called with. -/
structure Handed where
  event : ℤ
  data : Option EventData

end Data

section Code

abbrev EventProg (α : Type) := MemProg Handed α

def eventCopyFree (event : ℤ) (data : EventData) : EventProg Unit :=
  if event = eventEapolRx then do
    free data.eapolRx.src
    free data.eapolRx.data
  else if event = eventDeauth then do
    free data.deauthInfo.addr
    free data.deauthInfo.ie
  else if event = eventAssoc then free data.assocInfo.addr
  else pure ()

/-- Free the copies and the union. -/
def freeData (event : ℤ) : Option (Pointer × EventData) → EventProg Unit
  | none => pure ()
  | some (copy, data) => do
    eventCopyFree event data
    free copy

def freeMsg (msg : EventMsg) : EventProg Unit := do
  freeData msg.event msg.data
  free msg.self

def osMemdup (src : Pointer) (len : ℕ) : EventProg Pointer := do
  let r ← malloc
  if r ≠ .null then do
    readFrom src len
    pure r
  else pure r

/-- What has become of the payload. -/
inductive Payload
  | failed
  | copied (data : EventData)
  | dropped

def duplicate (event : ℤ) (data : EventData) : EventProg Payload :=
  if event = eventEapolRx then do
    let src ← osMemdup data.eapolRx.src ethAlen
    let buf ← osMemdup data.eapolRx.data data.eapolRx.dataLen
    if src = .null ∨ buf = .null then do
      free src
      free buf
      pure .failed
    else pure (.copied { data with eapolRx := { data.eapolRx with src, data := buf } })
  else if event = eventDeauth then do
    let addr ← osMemdup data.deauthInfo.addr ethAlen
    if addr = .null then pure .failed
    else pure (.copied { data with deauthInfo := { data.deauthInfo with addr } })
  else if event = eventAssoc then
    if data.assocInfo.addr ≠ .null then do
      let addr ← osMemdup data.assocInfo.addr ethAlen
      if addr = .null then pure .failed
      else pure (.copied { data with assocInfo := { data.assocInfo with addr } })
    else pure (.copied data)
  else if event ≠ eventScanResults then pure .dropped
  else pure (.copied data)

/-- What stands under the mutex, and the drop. -/
def enqueue (full : Bool) (msg : EventMsg) : EventProg (Option EventMsg) :=
  if full then do
    freeMsg msg
    pure none
  else pure (some msg)

def sendEvent (full : Bool) (ctx : ℕ) (event : ℤ) (data : Option EventData) :
    EventProg (Option EventMsg) := do
  let msg ← malloc
  if msg = .null then pure none
  else
    match data with
    | none => enqueue full ⟨msg, ctx, event, none⟩
    | some data => do
      let copy ← malloc
      if copy = .null then do
        free msg
        pure none
      else do
        let payload ← duplicate event data
        match payload with
        | .failed => do
          free copy
          free msg
          pure none
        | .copied data => enqueue full ⟨msg, ctx, event, some (copy, data)⟩
        | .dropped => do
          free copy
          enqueue full ⟨msg, ctx, event, none⟩

def handOver (msg : EventMsg) : EventProg Unit :=
  if 0 ≤ msg.event ∧ msg.ctx ≠ 0 then perform ⟨msg.event, msg.data.map Prod.snd⟩ else pure ()

/-- One round of `wpa_embox_process_events`, if there is a message. -/
def processEvent : Option EventMsg → EventProg Unit
  | none => pure ()
  | some msg => do
    handOver msg
    freeMsg msg

/-- The whole life of a message. -/
def life (full : Bool) (ctx : ℕ) (event : ℤ) (data : Option EventData) : EventProg Unit := do
  let msg ← sendEvent full ctx event data
  processEvent msg

end Code

end Wpa.Embox.EventMemory
