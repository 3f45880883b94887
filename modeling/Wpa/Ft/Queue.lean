import Mathlib.Data.List.Nodup
import Wpa.Lib.Heap
import Wpa.Lib.Runs

/-! The queues of deferred messages of `ap/wpa_auth_ft.c`: each remote key holder has one, and each
item in it a timeout. Allocations, random numbers and messages that cannot be built fail as they
like; a callback that runs while a queue is flushed may ask for more items. -/

namespace Wpa.FtQueue
open Lib

def ftRrbMaxQueueLen : ℕ := 100

/-- `struct ft_remote_item`, of which it matters only if there is a callback. -/
structure Item where
  cb : Bool

/-- What happens to items: `corrupt` is taking one out of a list that is in none. -/
inductive Out
  | alloc (p : Ptr)
  | free (p : Ptr)
  | corrupt (p : Ptr)
  deriving DecidableEq

/-- A timeout is the context that it was registered with and its item; a key holder is there if it
is in one of the two lists, and its queue is there once the sequence state is allocated. -/
structure St where
  heap : Heap Item
  timeouts : List (ℕ × Ptr)
  r0khs : List Ptr
  r1khs : List Ptr
  seqs : Heap (List Ptr)
  out : List Out

def St.rkhs (s : St) : List Ptr := s.r0khs ++ s.r1khs

def St.queue (s : St) (k : Ptr) : List Ptr := (s.seqs k).getD []

/-- All items that are in a queue. -/
def St.linked (s : St) : List Ptr := s.rkhs.flatMap s.queue

/-- The arguments of a call of `wpa_ft_rrb_seq_req`, and how the calls it makes itself end. -/
structure Req where
  wpaAuth : ℕ
  rkh : Ptr
  cb : Bool
  enc : Bool
  auth : Bool
  mem : Allocator
  random : Bool
  reltime : Bool
  dupEnc : Bool
  dupAuth : Bool
  build : Bool

/-- All is there that is needed before the timeout is registered. -/
def Req.filled (r : Req) : Bool :=
  r.random && r.reltime && (!r.enc || r.dupEnc) && (!r.auth || r.dupAuth)

/-- The item that a request allocates, if there is a queue and it is not too long. -/
def Req.item (r : Req) (s : St) : Option Ptr :=
  match s.seqs r.rkh with
  | none => none
  | some queue => if queue.length ≥ ftRrbMaxQueueLen then none else r.mem.alloc s.heap.live

/-- `wpa_ft_rrb_seq_req`. -/
def seqReq (s : St) (r : Req) : St :=
  match r.item s with
  | none => s
  | some p =>
    let s := { s with heap := s.heap.set p ⟨r.cb⟩, out := s.out ++ [Out.alloc p] }
    if !r.filled then { s with heap := s.heap.free p, out := s.out ++ [Out.free p] }
    else
      let s := { s with timeouts := (r.wpaAuth, p) :: s.timeouts }
      -- The error exit forgets the item, which is not linked yet.
      if !r.build then s
      else { s with seqs := s.seqs.set r.rkh (p :: s.queue r.rkh) }

/-- `wpa_ft_rrb_seq_free`. -/
def seqFree (s : St) (p : Ptr) : St :=
  { s with
    timeouts := s.timeouts.filter fun t => t.2 ≠ p
    seqs := fun k => (s.seqs k).map fun queue => queue.filter fun q => q ≠ p
    heap := s.heap.free p
    out := s.out ++ (if p ∈ s.linked then [] else [.corrupt p]) ++ [.free p] }

/-- What the callback of an item asks for, if it is called. -/
def called (cb : Bool) (calls : Ptr → List Req) (s : St) (p : Ptr) : List Req :=
  if cb && (s.heap p).any Item.cb then calls p else []

/-- The loop of `wpa_ft_rrb_seq_flush` over the items. -/
def flushItems (cb : Bool) (calls : Ptr → List Req) : List Ptr → St → St
  | [], s => s
  | p :: ps, s =>
    flushItems cb calls ps (seqFree ((called cb calls s p).foldl seqReq s) p)

def seqFlush (s : St) (k : Ptr) (cb : Bool) (calls : Ptr → List Req) : St :=
  flushItems cb calls (s.queue k) s

/-- `wpa_ft_rrb_seq_timeout`, for a timeout that is pending. -/
def seqTimeout (s : St) (t : ℕ × Ptr) : St :=
  if t ∈ s.timeouts then seqFree { s with timeouts := s.timeouts.erase t } t.2 else s

/-- Flush and free the sequence state of a key holder. -/
def freeSeq (s : St) (k : Ptr) : St :=
  let s := seqFlush s k false fun _ => []
  { s with seqs := s.seqs.free k }

def delR0kh (s : St) (k : Ptr) : St :=
  if k ∈ s.r0khs then
    let s := freeSeq s k
    { s with r0khs := s.r0khs.erase k }
  else s

def delR1kh (s : St) (k : Ptr) : St :=
  if k ∈ s.r1khs then
    let s := freeSeq s k
    { s with r1khs := s.r1khs.erase k }
  else s

/-- `wpa_ft_deinit_seq`. -/
def deinitSeq (s : St) (wpaAuth : ℕ) : St :=
  s.rkhs.foldl freeSeq { s with timeouts := s.timeouts.filter fun t => t.1 ≠ wpaAuth }

inductive Input
  | addR0kh (k : Ptr)
  | addR1kh (k : Ptr)
  | initSeq (k : Ptr) (ok : Bool)
  | seqReq (r : Req)
  | timeout (t : ℕ × Ptr)
  | flush (k : Ptr) (calls : Ptr → List Req)
  | delR0kh (k : Ptr)
  | delR1kh (k : Ptr)
  | deinitSeq (wpaAuth : ℕ)

def handle (s : St) : Input → St
  | .addR0kh k => if k ∈ s.rkhs then s else { s with r0khs := k :: s.r0khs }
  | .addR1kh k => if k ∈ s.rkhs then s else { s with r1khs := k :: s.r1khs }
  | .initSeq k ok =>
    if k ∈ s.rkhs ∧ s.seqs k = none ∧ ok then { s with seqs := s.seqs.set k [] } else s
  | .seqReq r => seqReq s r
  | .timeout t => seqTimeout s t
  | .flush k calls => seqFlush s k true calls
  | .delR0kh k => delR0kh s k
  | .delR1kh k => delR1kh s k
  | .deinitSeq wpaAuth => deinitSeq s wpaAuth

def step (s : St) (i : Input) : St × List Out :=
  let s := handle { s with out := [] } i
  (s, s.out)

def init : St where
  heap := fun _ => none
  timeouts := []
  r0khs := []
  r1khs := []
  seqs := fun _ => none
  out := []

end Wpa.FtQueue
