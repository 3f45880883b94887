import Wpa.Ft.Replay

/-! The window of sequence numbers of a remote key holder while nothing resets it: whether its base
is the oldest number in it. -/

namespace Wpa.FtSequence
open Lib Lib.Runs Lib.Serial

/-- A message that comes in, with what `os_get_reltime` gives. -/
structure Arrival where
  msg : FtRrbSeq
  now : Option OsReltime
  noDefer : Bool

/-- The check, and the acceptance of what passes it. -/
def receive (rx : FtRemoteSeqRx) (i : Arrival) : FtRemoteSeqRx × List UInt32 :=
  if seqChk rx i.now i.msg i.noDefer = .ok then (seqAccept rx i.msg, [i.msg.seq]) else (rx, [])

/-- A message with this number is dropped as too old. -/
def TooOld (rx : FtRemoteSeqRx) (seq : UInt32) : Prop := seq - rx.base > 0xC0000000

/-- No stored number is older than this one. -/
def Oldest (rx : FtRemoteSeqRx) (m : UInt32) : Prop := m ∈ rx.last ∧ ∀ x ∈ rx.last, AtOrAfter m x

/-- The base is the oldest number, so that no number after the oldest one is too old. -/
structure OldestBase (rx : FtRemoteSeqRx) : Prop where
  oldest : Oldest rx rx.base
  accepts : ∀ m seq, Oldest rx m → AtOrAfter m seq → ¬ TooOld rx seq

/-- A window with its base at the start: one that is empty, or as a reset or an acceptance leaves
it. -/
structure Opened (rx : FtRemoteSeqRx) : Prop where
  idx : rx.offsetidx = 0
  room : rx.last.length ≤ ftRemoteSeqBacklog
  oldest : rx.last ≠ [] → Oldest rx rx.base

/-- A number that is accepted into a full window is older than all that stay there. -/
def Late (rx : FtRemoteSeqRx) (i : Arrival) : Prop :=
  seqChk rx i.now i.msg i.noDefer = .ok → rx.last.length = ftRemoteSeqBacklog →
    ∀ x ∈ rx.last.tail, AtOrAfter i.msg.seq x

variable {rx : FtRemoteSeqRx} {i : Arrival}

theorem opened_init : Opened .init := ⟨rfl, by decide, fun h => absurd rfl h⟩

theorem opened_reset (rx : FtRemoteSeqRx) (now : OsReltime) (msg : FtRrbSeq)
    (hqueue : rx.queue.length ≤ ftRRBmaxQueueLen) : Opened (seqReset rx now msg) := by
  have hroom : 2 ≤ ftRemoteSeqBacklog := by decide
  refine ⟨rfl, hroom, fun _ => ⟨List.mem_cons_self .., fun x hx => ?_⟩⟩
  rcases List.mem_cons.mp hx with rfl | hx
  · exact atOrAfter_refl _
  · rw [List.mem_singleton.mp hx]
    unfold ftRRBmaxQueueLen at hqueue
    have hlen : (UInt32.ofNat rx.queue.length).toNat = rx.queue.length :=
      UInt32.toNat_ofNat_of_lt' (by show _ < 4294967296; omega)
    have hbacklog : (UInt32.ofNat ftRemoteSeqBacklog).toNat = 16 := rfl
    have hseq := msg.seq.toNat_lt
    show (msg.seq - resetBase rx msg).toNat < 2147483648
    simp only [resetBase, UInt32.toNat_sub, hlen, hbacklog]
    omega

/-- The base is what the numbers are compared with. -/
theorem OldestBase.of_oldest (h : Oldest rx rx.base) : OldestBase rx := by
  refine ⟨h, fun m seq hm hafter hold => ?_⟩
  obtain rfl : m = rx.base := (hm.2 _ h.1).antisymm (h.2 _ hm.1)
  have hlarge := UInt32.lt_iff_toNat_lt.mp hold
  unfold AtOrAfter at hafter
  have hbound : (0xC0000000 : UInt32).toNat = 3221225472 := rfl
  omega

/-- A number is put behind the others as long as there is room. -/
theorem oldest_append {base : UInt32} {last : List UInt32} (h : Opened rx)
    (hcons : rx.last = base :: last) (hafter : AtOrAfter base i.msg.seq) :
    Oldest { rx with last := rx.last ++ [i.msg.seq] } base := by
  have hbase := base_of_cons h.idx hcons
  have hold := h.oldest (by rw [hcons]; exact List.cons_ne_nil _ _)
  rw [hbase] at hold
  refine ⟨List.mem_append_left _ hold.1, fun x hx => ?_⟩
  rcases List.mem_append.mp hx with hx | hx
  · exact hold.2 x hx
  · rw [List.mem_singleton.mp hx]
    exact hafter

/-- In a full window the new number becomes the base. -/
theorem oldest_set {base : UInt32} {last : List UInt32} (hcons : rx.last = base :: last) :
    Oldest { rx with last := rx.last.set 0 i.msg.seq } i.msg.seq ↔
      ∀ x ∈ rx.last.tail, AtOrAfter i.msg.seq x := by
  unfold Oldest
  rw [hcons, List.set_cons_zero, List.tail_cons]
  constructor
  · intro hold x hx
    exact hold.2 x (List.mem_cons_of_mem _ hx)
  · intro hall
    refine ⟨List.mem_cons_self .., fun x hx => ?_⟩
    rcases List.mem_cons.mp hx with rfl | hx
    · exact atOrAfter_refl _
    · exact hall x hx

theorem receive_ok (h : seqChk rx i.now i.msg i.noDefer = .ok) :
    receive rx i = (seqAccept rx i.msg, [i.msg.seq]) := if_pos h

theorem receive_other (h : seqChk rx i.now i.msg i.noDefer ≠ .ok) : receive rx i = (rx, []) :=
  if_neg h

/-- What an accepted message leaves: a window with one number more, or with a new base. -/
theorem Opened.accept (h : Opened rx) (hok : seqChk rx i.now i.msg i.noDefer = .ok) :
    (rx.last.length < ftRemoteSeqBacklog ∧ Opened (receive rx i).1) ∨
      (rx.last.length = ftRemoteSeqBacklog ∧ (receive rx i).1.offsetidx = 0 ∧
        (receive rx i).1.last.length = ftRemoteSeqBacklog ∧
        (Oldest (receive rx i).1 (receive rx i).1.base ↔
          ∀ x ∈ rx.last.tail, AtOrAfter i.msg.seq x)) := by
  obtain ⟨hne, hoff, -⟩ := seqChk_ok hok
  obtain ⟨base, last, hcons⟩ := List.exists_cons_of_ne_nil hne
  have hbase := base_of_cons h.idx hcons
  rw [receive_ok hok]
  unfold seqAccept
  by_cases hroom : rx.last.length < ftRemoteSeqBacklog
  · rw [if_pos hroom]
    refine .inl ⟨hroom, h.idx, ?_, fun _ => ?_⟩
    · rw [List.length_append]
      exact hroom
    · have happ : ({ rx with last := rx.last ++ [i.msg.seq] } : FtRemoteSeqRx).base = base :=
        base_of_cons h.idx (by rw [hcons]; rfl)
      rw [happ]
      apply oldest_append h hcons
      rw [hbase] at hoff
      unfold AtOrAfter
      omega
  · rw [if_neg hroom, minIdx_eq_zero h.idx, h.idx]
    have hfull : rx.last.length = ftRemoteSeqBacklog := le_antisymm h.room (not_lt.mp hroom)
    have hset : ({ rx with last := rx.last.set 0 i.msg.seq, offsetidx := 0 } :
        FtRemoteSeqRx).base = i.msg.seq := base_of_cons rfl (by rw [hcons]; rfl)
    refine .inr ⟨hfull, rfl, by rw [List.length_set]; exact hfull, ?_⟩
    rw [hset]
    exact oldest_set hcons

/-- What is claimed of a step: once the window is full, its base is the oldest number. -/
def Keeps (t : Event FtRemoteSeqRx Arrival UInt32) : Prop :=
  t.post.last.length = ftRemoteSeqBacklog → OldestBase t.post

theorem keeps_iff (h : Opened rx) (i : Arrival) : Keeps (event receive rx i) ↔ Late rx i := by
  unfold Keeps Late event
  by_cases hok : seqChk rx i.now i.msg i.noDefer = .ok
  · rcases h.accept hok with ⟨hroom, hopened⟩ | ⟨hfull, -, hlength, hiff⟩
    · refine iff_of_true (fun hfull => ?_) fun _ hfull => absurd hfull hroom.ne
      refine .of_oldest (hopened.oldest fun hnil => ?_)
      rw [hnil] at hfull
      cases hfull
    · constructor
      · intro hkeeps _ _
        exact hiff.mp (hkeeps hlength).oldest
      · intro hlate _
        exact .of_oldest (hiff.mpr (hlate hok hfull))
  · rw [receive_other hok]
    refine iff_of_true (fun hfull => .of_oldest (h.oldest fun hnil => ?_)) fun hok' => absurd hok' hok
    rw [hnil] at hfull
    cases hfull

theorem opened_of_keeps (h : Opened rx) (hkeeps : Keeps (event receive rx i)) :
    Opened (receive rx i).1 := by
  by_cases hok : seqChk rx i.now i.msg i.noDefer = .ok
  · rcases h.accept hok with ⟨-, hopened⟩ | ⟨-, hidx, hlength, -⟩
    · exact hopened
    · exact ⟨hidx, hlength.le, fun _ => (hkeeps hlength).oldest⟩
  · rw [receive_other hok]
    exact h

/-- The base is the oldest number all along a run exactly if every number that a full window
accepts is older than all but the one that it replaces. -/
theorem window_oldest_iff (rx : FtRemoteSeqRx) (inputs : List Arrival) (h : Opened rx) :
    (∀ t ∈ trace receive rx inputs, Keeps t) ↔
      ∀ t ∈ trace receive rx inputs, Late t.pre t.input :=
  all_good_iff (fun _ i h => keeps_iff h i) (fun _ _ h hkeeps => opened_of_keeps h hkeeps) h inputs

def arrivalOf (seq : UInt32) : Arrival := ⟨⟨1, seq, 0⟩, some ⟨0, 0⟩, false⟩

/-- The window after a reset to number 17. -/
def openWindow : FtRemoteSeqRx := seqReset .init ⟨0, 0⟩ ⟨1, 17, 0⟩

theorem opened_openWindow : Opened openWindow := opened_reset _ _ _ (Nat.zero_le _)

/-- A number that finds room. -/
theorem window_oldest_first :
    (trace receive openWindow [arrivalOf 2]).length = 1 ∧
      ∀ t ∈ trace receive openWindow [arrivalOf 2], Keeps t := by
  refine ⟨rfl, (window_oldest_iff openWindow [arrivalOf 2] opened_openWindow).mpr fun t ht => ?_⟩
  rw [List.mem_singleton.mp ht]
  intro _ hfull
  cases hfull

/-- Fourteen numbers fill the window and leave out 5. -/
def fillingNumbers : List Arrival :=
  [2, 3, 4, 6, 7, 8, 9, 10, 11, 12, 13, 14, 15, 16].map arrivalOf

/-- The next number becomes the base. -/
def newerNumbers : List Arrival := fillingNumbers ++ [arrivalOf 18]

theorem newerNumbers_final :
    (final receive openWindow newerNumbers).base = 18 ∧
      2 ∈ (final receive openWindow newerNumbers).last ∧
      (final receive openWindow newerNumbers).last.length = ftRemoteSeqBacklog ∧
      seqChk (final receive openWindow newerNumbers) (arrivalOf 5).now (arrivalOf 5).msg false =
        .drop := by
  decide +kernel

/-- The base is then the newest number, and 5 is too old. -/
theorem newerNumbers_base :
    (¬ ∀ t ∈ trace receive openWindow newerNumbers, Keeps t) ∧
      seqChk (final receive openWindow newerNumbers) (arrivalOf 5).now (arrivalOf 5).msg false =
        .drop := by
  obtain ⟨hbase, hmem, hlength, hdrop⟩ := newerNumbers_final
  refine ⟨fun hall => ?_, hdrop⟩
  have hlast : event receive (final receive openWindow fillingNumbers) (arrivalOf 18) ∈
      trace receive openWindow newerNumbers := by
    rw [newerNumbers, trace_append]
    exact List.mem_append_right _ (List.mem_singleton_self _)
  have hpost : (event receive (final receive openWindow fillingNumbers) (arrivalOf 18)).post =
      final receive openWindow newerNumbers := by
    rw [newerNumbers, final_append]
    generalize final receive openWindow fillingNumbers = rx
    rfl
  have hkeeps := hall _ hlast
  unfold Keeps at hkeeps
  rw [hpost] at hkeeps
  have hafter := (hkeeps hlength).oldest.2 2 hmem
  rw [hbase] at hafter
  exact absurd hafter (by decide)

end Wpa.FtSequence
