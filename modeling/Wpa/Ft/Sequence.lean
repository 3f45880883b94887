import Wpa.Lib.Runs
import Wpa.Lib.Serial

/-! The replay protection of FT RRB messages: the sequence numbers that are received from a remote
key holder, the messages that wait for a sequence response, and the reset that a response makes. -/

namespace Wpa.FtSequence
open Lib

section Clock

/-- `struct os_reltime`; an offset between two clocks may be negative. -/
structure OsReltime where
  sec : ℤ
  usec : ℤ

def OsReltime.sub (a b : OsReltime) : OsReltime :=
  if a.usec < b.usec then ⟨a.sec - b.sec - 1, a.usec - b.usec + 1000000⟩
  else ⟨a.sec - b.sec, a.usec - b.usec⟩

def OsReltime.expired (now ts : OsReltime) (timeoutSecs : ℤ) : Bool :=
  let age := now.sub ts
  age.sec > timeoutSecs || (age.sec == timeoutSecs && age.usec > 0)

end Clock

section State

def ftRRBseqTimeout : ℕ := 10

def ftRRBmaxQueueLen : ℕ := 100

def ftRemoteSeqBacklog : ℕ := 16

/-- `struct ft_rrb_seq`, in host order. -/
structure FtRrbSeq where
  dom : UInt32
  seq : UInt32
  ts : UInt32

/-- `struct ft_remote_item`: `msg` is the message that is called back, if there is one. -/
structure FtRemoteItem where
  nonce : List UInt8
  nonceTs : OsReltime
  msg : Option FtRrbSeq

/-- `struct ft_remote_seq_rx`; `last` has the `num_last` numbers that are used. -/
structure FtRemoteSeqRx where
  dom : UInt32
  timeOffset : OsReltime
  last : List UInt32
  offsetidx : ℕ
  queue : List FtRemoteItem

def FtRemoteSeqRx.init : FtRemoteSeqRx := ⟨0, ⟨0, 0⟩, [], 0, []⟩

def FtRemoteSeqRx.base (rx : FtRemoteSeqRx) : UInt32 := rx.last.getD rx.offsetidx 0

end State

section Check

inductive SeqRet
  | ok | drop | defer
  deriving DecidableEq

/-- The time stamp is too far from what the remote clock should show. -/
def farTimestamp (rx : FtRemoteSeqRx) (msg : FtRrbSeq) : Option OsReltime → Bool
  | none => false
  | some now =>
    let nowRemote := now.sub rx.timeOffset
    let timeout := UInt32.ofNat ftRRBseqTimeout
    msg.ts - (UInt32.ofInt nowRemote.sec - timeout) > 2 * timeout

/-- `wpa_ft_rrb_seq_chk`, with what `os_get_reltime` gives. -/
def seqChk (rx : FtRemoteSeqRx) (now : Option OsReltime) (msg : FtRrbSeq) (noDefer : Bool) :
    SeqRet :=
  let deferred : SeqRet := if noDefer then .drop else .defer
  if rx.last.length = 0 then deferred
  else if msg.dom ≠ rx.dom then deferred
  else if farTimestamp rx msg now then deferred
  else
    let msgOff := msg.seq - rx.base
    if msgOff > 0xC0000000 then .drop
    else if msgOff ≤ 0x40000000 then if msg.seq ∈ rx.last then .drop else .ok
    else deferred

/-- The loop that looks for the next base. -/
def minIdx (rx : FtRemoteSeqRx) : ℕ :=
  (List.range rx.last.length).foldl (fun minidx i =>
    if rx.last.getD i 0 - rx.base < rx.last.getD minidx 0 - rx.base ∧ i ≠ rx.offsetidx then i
    else minidx) 0

/-- `wpa_ft_rrb_seq_accept`. -/
def seqAccept (rx : FtRemoteSeqRx) (msg : FtRrbSeq) : FtRemoteSeqRx :=
  if rx.last.length < ftRemoteSeqBacklog then { rx with last := rx.last ++ [msg.seq] }
  else { rx with last := rx.last.set rx.offsetidx msg.seq, offsetidx := minIdx rx }

end Check

section Receive

/-- How the calls in `wpa_ft_rrb_seq_req` end. -/
structure ReqCalls where
  alloc : Bool
  nonce : Option (List UInt8)
  now : Option OsReltime
  copy : Bool
  build : Bool

/-- `wpa_ft_rrb_seq_req`, with the message that is to be called back. -/
def seqReq (rx : FtRemoteSeqRx) (calls : ReqCalls) (msg : Option FtRrbSeq) : FtRemoteSeqRx :=
  if rx.queue.length ≥ ftRRBmaxQueueLen then rx
  else if !calls.alloc then rx
  else
    match calls.nonce, calls.now with
    | some nonce, some nonceTs =>
      if !calls.copy || !calls.build then rx
      else { rx with queue := ⟨nonce, nonceTs, msg⟩ :: rx.queue }
    | _, _ => rx

/-- What a key holder and its message are found to be: a wildcard with another address asks for a
sequence request, and the message is decrypted or not. -/
structure Found where
  wildcard : Bool
  decrypted : Bool

/-- The sequence number of a pull, a response or a push. The second value is the number that is
accepted. -/
def rxMessage (rx : FtRemoteSeqRx) (now : Option OsReltime) (msg : FtRrbSeq) (found : Found)
    (noDefer : Bool) (calls : ReqCalls) : FtRemoteSeqRx × List UInt32 :=
  let ret := seqChk rx now msg noDefer
  let ret := if !noDefer && found.wildcard then .defer else ret
  if ret = .drop then (rx, [])
  else if !found.decrypted then (rx, [])
  else if ret = .defer then (seqReq rx calls (some msg), [])
  else (seqAccept rx msg, [msg.seq])

/-- `wpa_ft_rrb_seq_flush` with callbacks. A callback does not defer. -/
def seqFlush (rx : FtRemoteSeqRx) (clock : ℕ → Option OsReltime) (found : ℕ → Found)
    (calls : ReqCalls) : FtRemoteSeqRx × List UInt32 :=
  let (rx, accepted) := rx.queue.zipIdx.foldl (fun (rx, accepted) (item, i) =>
    match item.msg with
    | none => (rx, accepted)
    | some msg =>
      let (rx, more) := rxMessage rx (clock i) msg (found i) true calls
      (rx, accepted ++ more)) (rx, [])
  ({ rx with queue := [] }, accepted)

/-- The first item with this nonce that is not expired, with the time that it was found at. -/
def findItem (nonce : List UInt8) (clock : ℕ → Option OsReltime) :
    List (FtRemoteItem × ℕ) → Option OsReltime
  | [] => none
  | (item, i) :: queue =>
    if item.nonce ≠ nonce then findItem nonce clock queue
    else
      match clock i with
      | none => findItem nonce clock queue
      | some now =>
        if now.expired item.nonceTs ftRRBseqTimeout then findItem nonce clock queue else some now

/-- The reset to the number of a response: some older messages are accepted as well. -/
def resetBase (rx : FtRemoteSeqRx) (msg : FtRrbSeq) : UInt32 :=
  msg.seq - UInt32.ofNat ftRemoteSeqBacklog - UInt32.ofNat rx.queue.length

def seqReset (rx : FtRemoteSeqRx) (now : OsReltime) (msg : FtRrbSeq) : FtRemoteSeqRx :=
  { rx with
    dom := msg.dom
    offsetidx := 0
    last := [resetBase rx msg, msg.seq]
    timeOffset := now.sub ⟨msg.ts.toNat, 0⟩ }

/-- The clock and the key holders as `wpa_ft_rrb_rx_seq_resp` finds them. -/
structure RespCalls where
  search : ℕ → Option OsReltime
  check : Option OsReltime
  flush : ℕ → Option OsReltime
  found : ℕ → Found

/-- `wpa_ft_rrb_rx_seq_resp`, for a response that is decrypted. -/
def rxSeqResp (rx : FtRemoteSeqRx) (nonce : List UInt8) (msg : FtRrbSeq) (calls : RespCalls)
    (req : ReqCalls) : FtRemoteSeqRx × List UInt32 :=
  match findItem nonce calls.search rx.queue.zipIdx with
  | none => (rx, [])
  | some now =>
    let (rx, accepted) :=
      if seqChk rx calls.check msg true = .ok then (seqAccept rx msg, [msg.seq])
      else (seqReset rx now msg, [])
    let (rx, more) := seqFlush rx calls.flush calls.found req
    (rx, accepted ++ more)

end Receive

section Machine

/-- What happens to the state of one remote key holder. -/
inductive Input
  | message (msg : FtRrbSeq) (now : Option OsReltime) (found : Found) (calls : ReqCalls)
  | request (calls : ReqCalls)
  | response (nonce : List UInt8) (msg : FtRrbSeq) (calls : RespCalls) (req : ReqCalls)
  | timeout (i : ℕ)

/-- The numbers that are accepted are put out. A request of its own is only sent before the first
number is known. -/
def step (rx : FtRemoteSeqRx) : Input → FtRemoteSeqRx × List UInt32
  | .message msg now found calls => rxMessage rx now msg found false calls
  | .request calls => if rx.last.length = 0 then (seqReq rx calls none, []) else (rx, [])
  | .response nonce msg calls req => rxSeqResp rx nonce msg calls req
  | .timeout i => ({ rx with queue := rx.queue.eraseIdx i }, [])

/-- The message that an input brings. -/
def Input.msg : Input → Option FtRrbSeq
  | .message msg _ _ _ => some msg
  | .request _ => none
  | .response _ msg _ _ => some msg
  | .timeout _ => none

end Machine
end Wpa.FtSequence
