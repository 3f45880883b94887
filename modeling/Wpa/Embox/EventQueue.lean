import Wpa.Common.Defs
import Wpa.Lib.RingQueue
import Wpa.Lib.Runs

/-! The queue of driver events of the Embox port: `wpa_embox_send_event`, called by any number of
driver threads, and `wpa_embox_process_events` on the supplicant thread. What stands under
`wpa_embox_queue_mtx` is one step. -/

namespace Wpa.Embox
open Lib

def queueLen : ℕ := 32

def eventAssoc : ℤ := 0
def eventScanResults : ℤ := 3
def eventDeauth : ℤ := 11
def eventEapolRx : ℤ := 23

structure EapolRx where
  src : List UInt8
  data : List UInt8
  deriving DecidableEq

structure DeauthInfo where
  addr : List UInt8
  ie : List UInt8
  deriving DecidableEq

/-- `union wpa_event_data`, as far as the copy reads it. -/
structure EventData where
  eapolRx : EapolRx
  deauthInfo : DeauthInfo
  assocAddr : Option (List UInt8)
  deriving DecidableEq

structure EventMsg where
  ctx : ℕ
  event : ℤ
  data : Option EventData
  deriving DecidableEq

/-- Which of the allocations of one call succeed. -/
structure Mem where
  msg : Bool
  copy : Bool
  first : Bool
  second : Bool
  deriving DecidableEq

def osMemdup (ok : Bool) (src : List UInt8) (len : ℕ) : Option (List UInt8) :=
  if ok then some (src.take len) else none

/-- The duplicates of the payloads that the producer keeps; the inner `none` is a null `data`. -/
def copyPayload (mem : Mem) (event : ℤ) (data : EventData) : Option (Option EventData) :=
  if event = eventEapolRx then do
    let src ← osMemdup mem.first data.eapolRx.src ethAlen
    let buf ← osMemdup mem.second data.eapolRx.data data.eapolRx.data.length
    some (some { data with eapolRx := ⟨src, buf⟩ })
  else if event = eventDeauth then do
    let addr ← osMemdup mem.first data.deauthInfo.addr ethAlen
    some (some { data with deauthInfo.addr := addr })
  else if event = eventAssoc then
    match data.assocAddr with
    | none => some (some data)
    | some addr => do
      let addr ← osMemdup mem.first addr ethAlen
      some (some { data with assocAddr := some addr })
  else if event ≠ eventScanResults then
    some none
  else
    some (some data)

def prepare (mem : Mem) (ctx : ℕ) (event : ℤ) (data : Option EventData) : Option EventMsg :=
  if !mem.msg then
    none
  else
    match data with
    | none => some ⟨ctx, event, none⟩
    | some data =>
      if !mem.copy then none
      else (copyPayload mem event data).map fun copy => ⟨ctx, event, copy⟩

/-- Where a thread stands in `wpa_embox_send_event`. -/
inductive SendPc where
  | outside
  | prepared (msg : EventMsg)
  | leaving (result : ℤ)
  deriving DecidableEq

/-- Where the supplicant thread stands in `wpa_embox_process_events`. -/
inductive EventsPc where
  | outside
  | looping (budget : ℕ)
  | handling (budget : ℕ) (msg : EventMsg)
  | crashed
  deriving DecidableEq

structure EventWorld where
  queue : RingQueue EventMsg
  send : ℕ → SendPc
  events : EventsPc

def EventWorld.start : EventWorld := ⟨RingQueue.empty queueLen, fun _ => .outside, .outside⟩

inductive EventAct where
  | call (p : ℕ) (mem : Mem) (ctx : ℕ) (event : ℤ) (data : Option EventData)
  | insert (p : ℕ)
  | leave (p : ℕ)
  | process
  | take
  | handle

inductive EventOut where
  | noMemory (p : ℕ)
  | inserted (p : ℕ) (msg : EventMsg)
  | refused (p : ℕ) (msg : EventMsg)
  | returned (p : ℕ) (result : ℤ)
  | taken (msg : Option EventMsg)
  | handled (msg : EventMsg)
  deriving DecidableEq

namespace EventWorld
variable (w : EventWorld) (p : ℕ)

def setSend (pc : SendPc) : EventWorld := { w with send := Function.update w.send p pc }

/-- The part of `wpa_embox_send_event` under the lock. -/
def insert (msg : EventMsg) : EventWorld × List EventOut :=
  if w.queue.isFull queueLen then
    (w.setSend p (.leaving (-1)), [.refused p msg])
  else
    ({ w.setSend p (.leaving 0) with queue := w.queue.push queueLen msg }, [.inserted p msg])

/-- One turn of the loop of `wpa_embox_process_events`, up to the unlock. -/
def take : ℕ → EventWorld × List EventOut
  | 0 => ({ w with events := .outside }, [])
  | budget + 1 =>
    if w.queue.isEmpty then
      ({ w with events := .outside }, [])
    else
      match w.queue.front with
      | none => ({ w with queue := w.queue.pop queueLen, events := .crashed }, [.taken none])
      | some msg =>
        ({ w with queue := w.queue.pop queueLen, events := .handling budget msg },
          [.taken (some msg)])

def step (w : EventWorld) : EventAct → EventWorld × List EventOut
  | .call p mem ctx event data =>
    match w.send p with
    | .outside =>
      match prepare mem ctx event data with
      | none => (w.setSend p (.leaving (-1)), [.noMemory p])
      | some msg => (w.setSend p (.prepared msg), [])
    | _ => (w, [])
  | .insert p =>
    match w.send p with
    | .prepared msg => w.insert p msg
    | _ => (w, [])
  | .leave p =>
    match w.send p with
    | .leaving result => (w.setSend p .outside, [.returned p result])
    | _ => (w, [])
  | .process =>
    match w.events with
    | .outside => ({ w with events := .looping queueLen }, [])
    | _ => (w, [])
  | .take =>
    match w.events with
    | .looping budget => w.take budget
    | _ => (w, [])
  | .handle =>
    match w.events with
    | .handling budget msg =>
      ({ w with events := .looping budget },
        if 0 ≤ msg.event ∧ msg.ctx ≠ 0 then [.handled msg] else [])
    | _ => (w, [])

end EventWorld

/-! ### What a run shows -/

/-- The messages that were put into the queue, in that order. -/
def inserted (out : List EventOut) : List EventMsg :=
  out.filterMap fun
    | .inserted _ msg => some msg
    | _ => none

def taken (out : List EventOut) : List (Option EventMsg) :=
  out.filterMap fun
    | .taken msg => some msg
    | _ => none

/-- What the calls of one thread are going to return: 0 for a message that was inserted. -/
def decisions (p : ℕ) (out : List EventOut) : List ℤ :=
  out.filterMap fun
    | .inserted q _ => if q = p then some 0 else none
    | .refused q _ => if q = p then some (-1) else none
    | .noMemory q => if q = p then some (-1) else none
    | _ => none

def returns (p : ℕ) (out : List EventOut) : List ℤ :=
  out.filterMap fun
    | .returned q result => if q = p then some result else none
    | _ => none

/-- The call that is decided but has not returned yet. -/
def SendPc.pending : SendPc → List ℤ
  | .leaving result => [result]
  | _ => []

section
variable (out more : List EventOut) (p : ℕ)

@[simp] theorem inserted_append : inserted (out ++ more) = inserted out ++ inserted more :=
  List.filterMap_append

@[simp] theorem taken_append : taken (out ++ more) = taken out ++ taken more :=
  List.filterMap_append

@[simp] theorem decisions_append :
    decisions p (out ++ more) = decisions p out ++ decisions p more :=
  List.filterMap_append

@[simp] theorem returns_append : returns p (out ++ more) = returns p out ++ returns p more :=
  List.filterMap_append

end

/-! ### The array is a first-in first-out queue -/

/-- What was inserted is what was taken, in the same order, and then the content of the array. -/
def Fifo (out : List EventOut) (queue : RingQueue EventMsg) : Prop :=
  ∃ q, RingQueue.Holds queueLen queue q ∧ (inserted out).map some = taken out ++ q.map some

section
variable {out more : List EventOut} {queue : RingQueue EventMsg} {msg : EventMsg}

theorem Fifo.calm (h : Fifo out queue) (hinserted : inserted more = []) (htaken : taken more = []) :
    Fifo (out ++ more) queue := by
  obtain ⟨q, hq, heq⟩ := h
  refine ⟨q, hq, ?_⟩
  rw [inserted_append, taken_append, hinserted, htaken, List.append_nil, List.append_nil]
  exact heq

/-- The queue is full exactly if all cells but one are in use. -/
theorem Fifo.isFull_iff (h : Fifo out queue) :
    queue.isFull queueLen = true ↔ (inserted out).length = (taken out).length + 31 := by
  obtain ⟨q, hq, heq⟩ := h
  have hlength := congrArg List.length heq
  simp only [List.length_append, List.length_map] at hlength
  have hroom := hq.room
  rw [hq.isFull_iff]
  unfold queueLen at hroom ⊢
  omega

theorem Fifo.push {p : ℕ} (h : Fifo out queue) (hroom : ¬ queue.isFull queueLen = true) :
    Fifo (out ++ [.inserted p msg]) (queue.push queueLen msg) := by
  obtain ⟨q, hq, heq⟩ := h
  rw [hq.isFull_iff] at hroom
  have hlt : q.length + 1 < queueLen := lt_of_le_of_ne hq.room hroom
  refine ⟨q ++ [msg], hq.push hlt, ?_⟩
  rw [inserted_append, taken_append, List.map_append, List.map_append, heq]
  change _ = (taken out ++ []) ++ (q.map some ++ [some msg])
  rw [List.append_nil, ← List.append_assoc]
  rfl

/-- A queue that is not empty has a message at the head, the oldest one. -/
theorem Fifo.pop (h : Fifo out queue) (hsome : ¬ queue.isEmpty = true) :
    ∃ msg, queue.front = some msg ∧ Fifo (out ++ [.taken (some msg)]) (queue.pop queueLen) := by
  obtain ⟨q, hq, heq⟩ := h
  rw [hq.isEmpty_iff] at hsome
  cases q with
  | nil => exact absurd rfl hsome
  | cons msg q =>
    refine ⟨msg, hq.front, q, hq.pop, ?_⟩
    rw [inserted_append, taken_append, List.map_append, heq]
    change (taken out ++ some msg :: q.map some) ++ [] = (taken out ++ [some msg]) ++ q.map some
    rw [List.append_nil, List.append_assoc]
    rfl

end

theorem fifo_insert {out : List EventOut} {w : EventWorld} (h : Fifo out w.queue) (p : ℕ)
    (msg : EventMsg) : Fifo (out ++ (w.insert p msg).2) (w.insert p msg).1.queue := by
  rw [EventWorld.insert]
  split
  case isTrue => exact h.calm rfl rfl
  case isFalse hroom => exact h.push hroom

theorem fifo_take {out : List EventOut} {w : EventWorld} (h : Fifo out w.queue) (budget : ℕ) :
    Fifo (out ++ (w.take budget).2) (w.take budget).1.queue := by
  cases budget with
  | zero => exact h.calm rfl rfl
  | succ budget =>
    rw [EventWorld.take]
    split
    case isTrue => exact h.calm rfl rfl
    case isFalse hsome =>
      obtain ⟨msg, hfront, hpop⟩ := h.pop hsome
      rw [hfront]
      exact hpop

theorem fifo_step {out : List EventOut} {w : EventWorld} (h : Fifo out w.queue) (a : EventAct) :
    Fifo (out ++ (w.step a).2) (w.step a).1.queue := by
  have hidle : Fifo (out ++ []) w.queue := h.calm rfl rfl
  cases a with
  | call p mem ctx event data =>
    rw [EventWorld.step]
    split
    · split
      · exact h.calm rfl rfl
      · exact hidle
    · exact hidle
  | insert p =>
    rw [EventWorld.step]
    split
    · exact fifo_insert h p _
    · exact hidle
  | leave p =>
    rw [EventWorld.step]
    split
    · exact h.calm rfl rfl
    · exact hidle
  | process =>
    rw [EventWorld.step]
    split <;> exact hidle
  | take =>
    rw [EventWorld.step]
    split
    · exact fifo_take h _
    · exact hidle
  | handle =>
    rw [EventWorld.step]
    split
    · split
      · exact h.calm rfl rfl
      · exact hidle
    · exact hidle

/-! ### Every caller gets the answer that was decided for it -/

def Answered (out : List EventOut) (send : ℕ → SendPc) : Prop :=
  ∀ p, decisions p out = returns p out ++ (send p).pending

section
variable {out more : List EventOut} {send : ℕ → SendPc} {p : ℕ}

/-- One thread moves; what it decides or returns on the way fits where it stands. -/
theorem Answered.move {pc : SendPc} (h : Answered out send)
    (hself : (send p).pending ++ decisions p more = returns p more ++ pc.pending)
    (hother : ∀ p', p' ≠ p → decisions p' more = [] ∧ returns p' more = []) :
    Answered (out ++ more) (Function.update send p pc) := by
  intro p'
  rw [decisions_append, returns_append, h p']
  by_cases hp : p' = p
  · subst hp
    rw [Function.update_self, List.append_assoc, hself, List.append_assoc]
  · obtain ⟨hd, hr⟩ := hother p' hp
    rw [hd, hr, Function.update_of_ne hp, List.append_nil, List.append_nil]

/-- Outputs of the supplicant thread answer nobody. -/
theorem Answered.calm (h : Answered out send)
    (hnone : ∀ p', decisions p' more = [] ∧ returns p' more = []) : Answered (out ++ more) send := by
  intro p'
  obtain ⟨hd, hr⟩ := hnone p'
  rw [decisions_append, returns_append, hd, hr, List.append_nil, List.append_nil]
  exact h p'

end

theorem decisions_ne {p p' : ℕ} (h : p' ≠ p) (msg : EventMsg) (result : ℤ) :
    (decisions p' [.noMemory p] = [] ∧ returns p' [.noMemory p] = []) ∧
    (decisions p' [.inserted p msg] = [] ∧ returns p' [.inserted p msg] = []) ∧
    (decisions p' [.refused p msg] = [] ∧ returns p' [.refused p msg] = []) ∧
    decisions p' [.returned p result] = [] ∧ returns p' [.returned p result] = [] := by
  simp [decisions, returns, h.symm]

theorem answered_insert {out : List EventOut} {w : EventWorld} {p : ℕ} {msg : EventMsg}
    (h : Answered out w.send) (hpc : w.send p = .prepared msg) :
    Answered (out ++ (w.insert p msg).2) (w.insert p msg).1.send := by
  rw [EventWorld.insert]
  split
  · apply h.move
    · rw [hpc]
      simp [SendPc.pending, decisions, returns]
    · intro p' hp'
      exact (decisions_ne hp' msg 0).2.2.1
  · apply h.move
    · rw [hpc]
      simp [SendPc.pending, decisions, returns]
    · intro p' hp'
      exact (decisions_ne hp' msg 0).2.1

theorem answered_take {out : List EventOut} {w : EventWorld} (h : Answered out w.send)
    (budget : ℕ) : Answered (out ++ (w.take budget).2) (w.take budget).1.send := by
  have hidle : Answered (out ++ []) w.send := h.calm fun _ => ⟨rfl, rfl⟩
  cases budget with
  | zero => exact hidle
  | succ budget =>
    rw [EventWorld.take]
    split
    · exact hidle
    · split <;> exact h.calm fun _ => ⟨rfl, rfl⟩

theorem answered_step {out : List EventOut} {w : EventWorld} (h : Answered out w.send)
    (a : EventAct) : Answered (out ++ (w.step a).2) (w.step a).1.send := by
  have hidle : Answered (out ++ []) w.send := h.calm fun _ => ⟨rfl, rfl⟩
  cases a with
  | call p mem ctx event data =>
    rw [EventWorld.step]
    split
    case h_1 hpc =>
      split
      · apply h.move
        · rw [hpc]
          simp [SendPc.pending, decisions, returns]
        · intro p' hp'
          exact (decisions_ne hp' ⟨0, 0, none⟩ 0).1
      · apply h.move
        · rw [hpc]
          rfl
        · exact fun _ _ => ⟨rfl, rfl⟩
    case h_2 => exact hidle
  | insert p =>
    rw [EventWorld.step]
    split
    case h_1 hpc => exact answered_insert h hpc
    case h_2 => exact hidle
  | leave p =>
    rw [EventWorld.step]
    split
    case h_1 result hpc =>
      apply h.move
      · rw [hpc]
        simp [SendPc.pending, decisions, returns]
      · intro p' hp'
        exact (decisions_ne hp' ⟨0, 0, none⟩ result).2.2.2
    case h_2 => exact hidle
  | process =>
    rw [EventWorld.step]
    split <;> exact hidle
  | take =>
    rw [EventWorld.step]
    split
    · exact answered_take h _
    · exact hidle
  | handle =>
    rw [EventWorld.step]
    split
    · split
      · exact h.calm fun _ => ⟨rfl, rfl⟩
      · exact hidle
    · exact hidle

/-! ### Whole runs -/

/-- What the queue guarantees of the outputs of a run and of the state it reaches. -/
structure InOrder (out : List EventOut) (w : EventWorld) : Prop where
  fifo : Fifo out w.queue
  answered : Answered out w.send

theorem inOrder_run (acts : List EventAct) :
    InOrder (Runs.outputs (Runs.trace EventWorld.step .start acts))
      (Runs.final EventWorld.step .start acts) := by
  refine Runs.outputs_invariant (H := fun _ => True) ?_ ?_ acts fun _ _ => trivial
  · exact ⟨⟨[], RingQueue.holds_empty (Nat.succ_pos 31), rfl⟩, fun _ => rfl⟩
  · intro out w a h _
    exact ⟨fifo_step h.fifo a, answered_step h.answered a⟩

theorem insert_refused_iff {w : EventWorld} {p : ℕ} {msg : EventMsg}
    (hpc : w.send p = .prepared msg) :
    (w.step (.insert p)).2 = [.refused p msg] ↔ w.queue.isFull queueLen = true := by
  rw [EventWorld.step, hpc]
  simp only [EventWorld.insert]
  split
  case isTrue hfull => simp [hfull]
  case isFalse hroom => simp [hroom]

theorem insert_full {w : EventWorld} {p : ℕ} {msg : EventMsg} (hpc : w.send p = .prepared msg)
    (hfull : w.queue.isFull queueLen = true) : (w.step (.insert p)).1.queue = w.queue := by
  rw [EventWorld.step, hpc]
  simp only [EventWorld.insert, hfull, if_true]
  rfl

/-- Messages are taken out in the order in which they went in, none is lost, doubled or null, a
call returns 0 exactly if its message went in, and it is refused for lack of room exactly if 31
messages are waiting, with the queue left as it is. -/
theorem events_in_order (acts : List EventAct) :
    let out := Runs.outputs (Runs.trace EventWorld.step .start acts)
    let w := Runs.final EventWorld.step .start acts
    taken out <+: (inserted out).map some ∧
    (w.queue.head < 32 ∧ w.queue.tail < 32) ∧
    (∀ p, decisions p out = returns p out ++ (w.send p).pending) ∧
    ∀ p msg, w.send p = .prepared msg →
      ((w.step (.insert p)).2 = [.refused p msg] ↔
        (inserted out).length = (taken out).length + 31) ∧
      ((w.step (.insert p)).2 = [.refused p msg] → (w.step (.insert p)).1.queue = w.queue) := by
  intro out w
  have h : InOrder out w := inOrder_run acts
  obtain ⟨q, hq, heq⟩ := h.fifo
  refine ⟨⟨q.map some, heq.symm⟩, ⟨hq.head_lt, hq.tail_lt⟩, h.answered, ?_⟩
  intro p msg hpc
  have hrefused := insert_refused_iff hpc
  exact ⟨hrefused.trans h.fifo.isFull_iff, fun hr => insert_full hpc (hrefused.mp hr)⟩

theorem events_in_order_first :
    let msg : EventMsg := ⟨1, eventAssoc, none⟩
    let acts : List EventAct := [.call 0 ⟨true, true, true, true⟩ 1 eventAssoc none]
    let w := Runs.final EventWorld.step .start acts
    w.send 0 = .prepared msg ∧ (w.step (.insert 0)).2 ≠ [.refused 0 msg] := by
  intro msg acts w
  have hpc : w.send 0 = .prepared msg := rfl
  refine ⟨hpc, fun hrefused => ?_⟩
  have hfull := ((events_in_order acts).2.2.2 0 msg hpc).1.mp hrefused
  exact absurd hfull (by decide)

end Wpa.Embox
