import Mathlib.Algebra.Group.Nat.Defs
import Mathlib.Data.List.Perm.Basic
import Mathlib.Logic.Function.Basic
import Wpa.Lib.Runs

/-! Control jobs of the Embox port: `wpa_embox_job_run`, called by any number of threads, hands a
job over to `wpa_embox_process_jobs` on the supplicant thread. What stands under
`wpa_embox_job_mtx` is one step. A job is named by its allocation, so that no two records ever
share a name even where the allocator reuses an address. -/

namespace Wpa.Embox
open Lib

abbrev JobId := ℕ
abbrev Caller := ℕ

structure Job where
  fn : ℕ
  arg : Option (List UInt8)
  done : Bool
  started : Bool
  abandoned : Bool
  deriving DecidableEq

/-- What `wpa_embox_job_run` returns. -/
inductive JobResult where
  | ok
  | enomem
  | ebusy
  | eagain
  deriving DecidableEq

/-- Where a thread stands in `wpa_embox_job_run`. -/
inductive CallPc where
  | outside
  | allocated (job : JobId) (timeoutMs : ℕ)
  | polling (job : JobId) (timeoutMs waited : ℕ)
  | releasing (job : JobId) (result : JobResult)
  deriving DecidableEq

/-- Where the supplicant thread stands in `wpa_embox_process_jobs`. -/
inductive WorkPc where
  | outside
  | picked (job : JobId)
  | inside (job : JobId)
  | ended (job : JobId)
  | releasing (job : JobId)
  deriving DecidableEq

structure JobWorld where
  jobs : JobId → Option Job
  next : JobId
  slot : Option JobId
  call : Caller → CallPc
  work : WorkPc

def JobWorld.start : JobWorld := ⟨fun _ => none, 0, none, fun _ => .outside, .outside⟩

inductive JobAct where
  | call (c : Caller) (fn : ℕ) (arg : List UInt8) (timeoutMs : ℕ) (jobOk argOk : Bool)
  | submit (c : Caller)
  | poll (c : Caller)
  | release (c : Caller)
  | pick
  | begin
  | finish
  | mark
  | drop

inductive JobOut where
  | allocated (c : Caller) (job : JobId)
  | accepted (job : JobId)
  | picked (job : JobId)
  | began (job : JobId) (fn : ℕ) (arg : Option (List UInt8))
  | ended (job : JobId)
  | finished (job : JobId)
  | withdrawn (job : JobId)
  | freed (job : JobId)
  | returned (c : Caller) (job : Option JobId) (result : JobResult)
  | fault (job : JobId)
  deriving DecidableEq

namespace JobWorld
variable (w : JobWorld) (c : Caller) (j : JobId)

def setCall (pc : CallPc) : JobWorld := { w with call := Function.update w.call c pc }

def setJob (job : Option Job) : JobWorld := { w with jobs := Function.update w.jobs j job }

/-- An access to a record that is not allocated is a fault. -/
def withJob (f : Job → JobWorld × List JobOut) : JobWorld × List JobOut :=
  match w.jobs j with
  | none => (w, [.fault j])
  | some job => f job

/-- `wpa_embox_job_run` up to the first lock. -/
def allocate (fn : ℕ) (arg : List UInt8) (timeoutMs : ℕ) (jobOk argOk : Bool) :
    JobWorld × List JobOut :=
  if !jobOk then
    (w, [.returned c none .enomem])
  else if !arg.isEmpty && !argOk then
    ({ w with next := w.next + 1 },
      [.allocated c w.next, .freed w.next, .returned c (some w.next) .enomem])
  else
    let job : Job := ⟨fn, if arg.isEmpty then none else some arg, false, false, false⟩
    ({ (w.setJob w.next (some job)).setCall c (.allocated w.next timeoutMs) with
        next := w.next + 1 },
      [.allocated c w.next])

def submit (timeoutMs : ℕ) : JobWorld × List JobOut :=
  if w.slot.isSome then
    (w.setCall c (.releasing j .ebusy), [])
  else
    ({ w.setCall c (.polling j timeoutMs 0) with slot := some j }, [.accepted j])

/-- One turn of the loop, up to the unlock; `waited` is an `unsigned`. -/
def poll (timeoutMs waited : ℕ) : JobWorld × List JobOut :=
  w.withJob j fun job =>
    if job.done then
      (w.setCall c (.releasing j .ok), [])
    else if timeoutMs ≤ waited then
      let w := w.setJob j (some { job with abandoned := true })
      if !job.started then
        ({ w.setCall c (.releasing j .eagain) with slot := none }, [.withdrawn j])
      else
        (w.setCall c .outside, [.returned c (some j) .eagain])
    else
      (w.setCall c (.polling j timeoutMs ((waited + 10) % 2 ^ 32)), [])

def release (result : JobResult) : JobWorld × List JobOut :=
  w.withJob j fun _ =>
    ((w.setJob j none).setCall c .outside, [.freed j, .returned c (some j) result])

def pick : JobWorld × List JobOut :=
  w.withJob j fun job =>
    ({ w.setJob j (some { job with started := true }) with work := .picked j }, [.picked j])

def mark : JobWorld × List JobOut :=
  w.withJob j fun job =>
    ({ w.setJob j (some { job with done := true }) with
        slot := none
        work := if job.abandoned then .releasing j else .outside },
      [.finished j])

def step (w : JobWorld) : JobAct → JobWorld × List JobOut
  | .call c fn arg timeoutMs jobOk argOk =>
    match w.call c with
    | .outside => w.allocate c fn arg timeoutMs jobOk argOk
    | _ => (w, [])
  | .submit c =>
    match w.call c with
    | .allocated j timeoutMs => w.submit c j timeoutMs
    | _ => (w, [])
  | .poll c =>
    match w.call c with
    | .polling j timeoutMs waited => w.poll c j timeoutMs waited
    | _ => (w, [])
  | .release c =>
    match w.call c with
    | .releasing j result => w.release c j result
    | _ => (w, [])
  | .pick =>
    match w.work, w.slot with
    | .outside, some j => w.pick j
    | _, _ => (w, [])
  | .begin =>
    match w.work with
    | .picked j => w.withJob j fun job =>
        ({ w with work := .inside j }, [.began j job.fn job.arg])
    | _ => (w, [])
  | .finish =>
    match w.work with
    | .inside j => ({ w with work := .ended j }, [.ended j])
    | _ => (w, [])
  | .mark =>
    match w.work with
    | .ended j => w.mark j
    | _ => (w, [])
  | .drop =>
    match w.work with
    | .releasing j => w.withJob j fun _ =>
        ({ w.setJob j none with work := .outside }, [.freed j])
    | _ => (w, [])

end JobWorld

/-! ### The story of one job -/

inductive JobEvent where
  | allocated
  | accepted
  | picked
  | began
  | ended
  | finished
  | withdrawn
  | freed
  | returned (result : JobResult)
  deriving DecidableEq

def JobOut.about : JobOut → Option (JobId × JobEvent)
  | .allocated _ j => some (j, .allocated)
  | .accepted j => some (j, .accepted)
  | .picked j => some (j, .picked)
  | .began j _ _ => some (j, .began)
  | .ended j => some (j, .ended)
  | .finished j => some (j, .finished)
  | .withdrawn j => some (j, .withdrawn)
  | .freed j => some (j, .freed)
  | .returned _ (some j) result => some (j, .returned result)
  | .returned _ none _ => none
  | .fault _ => none

/-- What the outputs of a run say about one job, in order. -/
def story (j : JobId) (out : List JobOut) : List JobEvent :=
  out.filterMap fun o => o.about.bind fun (k, e) => if k = j then some e else none

@[simp] theorem story_append (j : JobId) (out more : List JobOut) :
    story j (out ++ more) = story j out ++ story j more :=
  List.filterMap_append

end Wpa.Embox
