import Mathlib.Data.List.TakeWhile
import Wpa.Auth.Session

/-! The replay counters of a session. Every frame takes the next number; a reply is accepted only
with a number that was taken, and one that admitted a message 2/4 or 2/2 admits none again. -/

namespace Wpa.Auth
open Lib Bytes Prog

section Slots
variable {ctr : List KeyReplayCounter} {r : KeyReplayCounter} {c : Bytes} {x : Option Bytes}

theorem valid_of_wpaReplayCounterValid (h : wpaReplayCounterValid ctr c) :
    ∃ r ∈ ctr, r.valid ∧ r.counter = c := by
  rw [wpaReplayCounterValid, List.any_eq_true] at h
  obtain ⟨r, hr, heq⟩ := h
  exact ⟨r, List.takeWhile_subset _ hr, List.mem_takeWhile_imp hr, beq_iff_eq.mp heq⟩

/-- What is still valid after a mark is valid before it and was not marked. -/
theorem valid_of_markInvalid (h : r ∈ wpaReplayCounterMarkInvalid ctr x) (hv : r.valid) :
    r ∈ ctr ∧ x ≠ none ∧ x ≠ some r.counter := by
  rw [wpaReplayCounterMarkInvalid, List.mem_map] at h
  obtain ⟨q, hq, heq⟩ := h
  split_ifs at heq with hmark
  · rw [← heq] at hv
    cases hv
  · subst heq
    refine ⟨hq, fun hx => hmark ⟨hv, .inl hx⟩, fun hx => hmark ⟨hv, .inr hx⟩⟩

theorem head_markInvalid :
    ((wpaReplayCounterMarkInvalid ctr x).headD {}).counter = (ctr.headD {}).counter := by
  cases ctr with
  | nil => rfl
  | cons r rs =>
    simp only [wpaReplayCounterMarkInvalid, List.map_cons, List.headD_cons]
    split_ifs <;> rfl

theorem valid_of_takeCounter (h : r ∈ takeCounter ctr) (hv : r.valid) :
    r.counter = nextCounter ctr ∨ r ∈ ctr := by
  rcases List.mem_cons.mp h with rfl | h
  · exact .inl rfl
  · exact .inr (List.mem_of_mem_take h)

theorem not_valid_of_cleared (h : r ∈ clearedCounters) : r.valid = false := by
  rw [List.eq_of_mem_replicate h]

end Slots

section Numbers

/-- The counters of `n` frames, from one on. -/
def numbered (n : ℕ) : List Bytes := (List.range n).map fun i => ofBeNat (i + 1) 8

theorem numbered_succ (n : ℕ) : numbered (n + 1) = numbered n ++ [ofBeNat (n + 1) 8] := by
  rw [numbered, List.range_succ, List.map_append]
  rfl

theorem incByteArray_ofBeNat {n : ℕ} (h : n + 1 < 256 ^ 8) :
    incByteArray (ofBeNat n 8) = ofBeNat (n + 1) 8 := by
  have hn : n < 256 ^ 8 := by omega
  rw [incByteArray, ofBeNat_length, beNat_ofBeNat hn, Nat.mod_eq_of_lt h]

/-- A number that is not reached yet is not among the counters. -/
theorem ofBeNat_notMem_numbered {n : ℕ} (h : n + 1 < 256 ^ 8) :
    ofBeNat (n + 1) 8 ∉ numbered n := by
  intro hmem
  rw [numbered, List.mem_map] at hmem
  obtain ⟨i, hi, heq⟩ := hmem
  have hlt := List.mem_range.mp hi
  have hnum := congrArg beNat heq
  rw [beNat_ofBeNat h, beNat_ofBeNat (by omega)] at hnum
  omega

end Numbers

/-- The counters that may be accepted were taken. -/
structure Counted (out : List Act) (s : Session) : Prop where
  key : ∀ r ∈ s.keyReplay, r.valid → r.counter ∈ takenCounters out
  prev : ∀ r ∈ s.prevKeyReplay, r.valid → r.counter ∈ takenCounters out
  head : takenCounters out ≠ [] → (s.keyReplay.headD {}).counter ∈ takenCounters out
  alt : s.altValid → s.altCounter ∈ takenCounters out

/-- A reply has a counter that was taken before. Unless it is message 4/4, no reply with that
counter was accepted before. -/
def AcceptsOnce (p : List Act) (a : Act) : Prop :=
  ∀ msg counter, a = .received msg counter → msg ≠ .request →
    counter ∈ takenCounters p ∧ (msg ≠ .pairwise4 → counter ∉ acceptedCounters p)

structure CounterInv (out : List Act) (s : Session) : Prop extends Counted out s where
  taken : takenCounters out = numbered (takenCounters out).length
  last : (s.keyReplay.headD {}).counter = ofBeNat (takenCounters out).length 8
  accepted : ∀ c ∈ acceptedCounters out, c ∈ takenCounters out
  keyOpen : ∀ r ∈ s.keyReplay, r.valid → r.counter ∉ acceptedCounters out
  prevOpen : ∀ r ∈ s.prevKeyReplay, r.valid → r.counter ∉ acceptedCounters out
  apart : ∀ r ∈ s.keyReplay, r.valid → ∀ q ∈ s.prevKeyReplay, q.valid → r.counter ≠ q.counter
  once : Each AcceptsOnce out

/-- Fewer frames than there are counters. -/
def InRange (out : List Act) : Prop := (takenCounters out).length < 256 ^ 8

section Invariant
variable {out new : List Act} {s t : Session} {msg : Msg} {c : Bytes} {b : Bool}

theorem Counted.append (h : Counted out s) (hnew : takenCounters new = []) :
    Counted (out ++ new) s := by
  have heq : takenCounters (out ++ new) = takenCounters out := by
    rw [takenCounters_append, hnew, List.append_nil]
  constructor <;> rw [heq]
  exacts [h.key, h.prev, h.head, h.alt]

theorem Counted.kept (h : Counted out s) (hk : s.Kept t) : Counted out t := by
  constructor
  · rw [hk.key]
    exact h.key
  · rw [hk.prev]
    exact h.prev
  · rw [hk.key]
    exact h.head
  · rw [hk.altCounter]
    exact fun hv => h.alt (hk.altValid hv)

theorem Kept.refl : s.Kept s := ⟨rfl, rfl, rfl, id, rfl⟩

theorem Counted.take (h : Counted out s) :
    Counted (out ++ [.take (nextCounter s.keyReplay)])
      { s with keyReplay := takeCounter s.keyReplay } := by
  have heq : takenCounters (out ++ [.take (nextCounter s.keyReplay)]) =
      takenCounters out ++ [nextCounter s.keyReplay] := by
    rw [takenCounters_append]
    rfl
  constructor <;> rw [heq]
  · intro r hr hv
    rcases valid_of_takeCounter hr hv with hnext | hold
    · rw [hnext]
      exact List.mem_append_right _ (List.mem_singleton_self _)
    · exact List.mem_append_left _ (h.key r hold hv)
  · exact fun r hr hv => List.mem_append_left _ (h.prev r hr hv)
  · exact fun _ => List.mem_append_right _ (List.mem_singleton_self _)
  · exact fun hv => List.mem_append_left _ (h.alt hv)

theorem Counted.note (h : Counted out s) (hv : wpaReplayCounterValid s.prevKeyReplay c) :
    Counted out { s with altValid := true, altCounter := (s.keyReplay.headD {}).counter } := by
  refine ⟨h.key, h.prev, h.head, fun _ => ?_⟩
  obtain ⟨r, hr, hvalid, -⟩ := valid_of_wpaReplayCounterValid hv
  exact h.head (List.ne_nil_of_mem (h.prev r hr hvalid))

/-- After a reply was accepted nothing but copies of message 1/4 may be answered. -/
theorem consume_slots : (∀ r ∈ (s.consume msg c b).keyReplay, r.valid = false) ∧
    ∀ r ∈ (s.consume msg c b).prevKeyReplay, r.valid → r ∈ s.keyReplay ∧ r.counter ≠ c := by
  constructor
  · intro r hr
    cases hv : r.valid with
    | false => rfl
    | true => exact absurd rfl (valid_of_markInvalid hr hv).2.1
  · intro r hr hv
    simp only [Session.consume] at hr
    split_ifs at hr with hmsg
    · obtain ⟨hmem, -, hne⟩ := valid_of_markInvalid hr hv
      exact ⟨hmem, fun heq => hne (by rw [heq])⟩
    · rw [not_valid_of_cleared hr] at hv
      cases hv

theorem consume_head :
    ((s.consume msg c b).keyReplay.headD {}).counter = (s.keyReplay.headD {}).counter :=
  head_markInvalid.trans head_markInvalid

theorem Counted.consume (h : Counted out s) : Counted out (s.consume msg c b) := by
  have hslots := @consume_slots s msg c b
  refine ⟨fun r hr hv => ?_, fun r hr hv => h.key r (hslots.2 r hr hv).1 hv, ?_, h.alt⟩
  · rw [hslots.1 r hr] at hv
    cases hv
  · rw [consume_head]
    exact h.head

theorem Session.Move.counted {c c' : Cfg Session Act} (h : Session.Move c c') :
    Preserves (fun _ => True) Counted c c' := by
  cases h with
  | quiet acts h => exact Preserves.of_append fun _ hi => hi.append (quiet_lists h).taken
  | demand h => exact Preserves.of_state fun hi => hi.kept h.kept
  | leave h => exact Preserves.of_state fun hi => hi.kept h.kept
  | redraw h => exact Preserves.of_append fun _ hi => (hi.append rfl).kept h.kept
  | advance h => exact Preserves.of_state fun hi => hi.kept h.kept
  | derive h hd => exact Preserves.of_append fun _ hi => hi.append rfl
  | accept h => exact Preserves.of_state fun hi => hi.kept h.kept
  | confirm h => exact Preserves.of_state fun hi => hi.kept ⟨rfl, rfl, rfl, id, rfl⟩
  | hear => exact Preserves.of_state fun hi => ⟨hi.key, hi.prev, hi.head, hi.alt⟩
  | verify => exact Preserves.of_append fun _ hi => hi.append rfl
  | mic => exact Preserves.of_append fun _ hi => hi.append rfl
  | install => exact Preserves.of_append fun _ hi => (hi.append rfl).kept ⟨rfl, rfl, rfl, id, rfl⟩
  | take => exact Preserves.of_append fun _ hi => hi.take
  | note h => exact Preserves.of_state fun hi => hi.note h
  | waste => exact Preserves.of_state fun hi => hi.consume
  | receive h hb => exact Preserves.of_append fun _ hi => (hi.append rfl).consume

/-- Other actions on the same counters. -/
theorem CounterInv.append (h : CounterInv out s) (htaken : takenCounters new = [])
    (haccepted : acceptedCounters new = []) (hk : s.Kept t) : CounterInv (out ++ new) t := by
  have hnew : ∀ a ∈ new, ∀ p, AcceptsOnce p a := by
    rintro a hmem p msg counter rfl hmsg
    have hnone := List.filterMap_eq_nil_iff.mp haccepted _ hmem
    rw [Act.accepted, if_neg hmsg] at hnone
    cases hnone
  have ht : takenCounters (out ++ new) = takenCounters out := by
    rw [takenCounters_append, htaken, List.append_nil]
  have ha : acceptedCounters (out ++ new) = acceptedCounters out := by
    rw [acceptedCounters_append, haccepted, List.append_nil]
  refine ⟨(h.toCounted.append htaken).kept hk, ?_, ?_, ?_, ?_, ?_, ?_, h.once.append hnew⟩
  · rw [ht]
    exact h.taken
  · rw [ht, hk.key]
    exact h.last
  · rw [ht, ha]
    exact h.accepted
  · rw [ha, hk.key]
    exact h.keyOpen
  · rw [ha, hk.prev]
    exact h.prevOpen
  · rw [hk.key, hk.prev]
    exact h.apart

theorem CounterInv.kept (h : CounterInv out s) (hk : s.Kept t) : CounterInv out t := by
  have happend : CounterInv (out ++ []) t := h.append rfl rfl hk
  rwa [List.append_nil] at happend

theorem CounterInv.take (h : CounterInv out s)
    (hrange : InRange (out ++ [.take (nextCounter s.keyReplay)])) :
    CounterInv (out ++ [.take (nextCounter s.keyReplay)])
      { s with keyReplay := takeCounter s.keyReplay } := by
  have ht : takenCounters (out ++ [.take (nextCounter s.keyReplay)]) =
      takenCounters out ++ [nextCounter s.keyReplay] := by
    rw [takenCounters_append]
    rfl
  have ha : acceptedCounters (out ++ [.take (nextCounter s.keyReplay)]) = acceptedCounters out := by
    rw [acceptedCounters_append]
    exact List.append_nil _
  have hlt : (takenCounters out).length + 1 < 256 ^ 8 := by
    rw [InRange, ht, List.length_append] at hrange
    exact hrange
  have hnext : nextCounter s.keyReplay = ofBeNat ((takenCounters out).length + 1) 8 := by
    rw [nextCounter, h.last, incByteArray_ofBeNat hlt]
  have hnew : nextCounter s.keyReplay ∉ takenCounters out := by
    rw [hnext, h.taken]
    have hnot := ofBeNat_notMem_numbered hlt
    rwa [show (numbered (takenCounters out).length).length = (takenCounters out).length by
      rw [← h.taken]]
  have hlen : (takenCounters (out ++ [.take (nextCounter s.keyReplay)])).length =
      (takenCounters out).length + 1 := by
    rw [ht, List.length_append]
    rfl
  refine ⟨h.toCounted.take, ?_, ?_, ?_, ?_, ?_, ?_, ?_⟩
  · rw [hlen, numbered_succ, ht, hnext]
    exact congrArg (· ++ _) h.taken
  · rw [hlen]
    exact hnext
  · rw [ha, ht]
    exact fun c hc => List.mem_append_left _ (h.accepted c hc)
  · rw [ha]
    intro r hr hv
    rcases valid_of_takeCounter hr hv with heq | hold
    · rw [heq]
      exact fun hmem => hnew (h.accepted _ hmem)
    · exact h.keyOpen r hold hv
  · rw [ha]
    exact h.prevOpen
  · intro r hr hv q hq hqv
    rcases valid_of_takeCounter hr hv with heq | hold
    · rw [heq]
      exact fun hsame => hnew (hsame ▸ h.prev q hq hqv)
    · exact h.apart r hold hv q hq hqv
  · exact each_concat.mpr ⟨h.once, fun msg counter heq => by cases heq⟩

theorem CounterInv.note (h : CounterInv out s) (hv : wpaReplayCounterValid s.prevKeyReplay c) :
    CounterInv out { s with altValid := true, altCounter := (s.keyReplay.headD {}).counter } :=
  ⟨h.toCounted.note hv, h.taken, h.last, h.accepted, h.keyOpen, h.prevOpen, h.apart, h.once⟩

/-- The counter of an admitted reply was taken, and unless it is message 4/4 it is open. -/
theorem CounterInv.admits (h : CounterInv out s) (ha : s.Admits out msg c) :
    c ∈ takenCounters out ∧ (msg ≠ .pairwise4 → c ∉ acceptedCounters out) ∧
      ∀ r ∈ (s.consume msg c b).prevKeyReplay, r.valid → r.counter ≠ c := by
  refine ⟨?_, ?_, fun r hr hv => (consume_slots.2 r hr hv).2⟩
  · rcases ha.counter with hk | ⟨-, hp⟩ | ⟨-, ht⟩
    · obtain ⟨r, hr, hv, rfl⟩ := valid_of_wpaReplayCounterValid hk
      exact h.key r hr hv
    · obtain ⟨r, hr, hv, rfl⟩ := valid_of_wpaReplayCounterValid hp
      exact h.prev r hr hv
    · exact ht
  · intro hmsg
    rcases ha.counter with hk | ⟨-, hp⟩ | ⟨h4, -⟩
    · obtain ⟨r, hr, hv, rfl⟩ := valid_of_wpaReplayCounterValid hk
      exact h.keyOpen r hr hv
    · obtain ⟨r, hr, hv, rfl⟩ := valid_of_wpaReplayCounterValid hp
      exact h.prevOpen r hr hv
    · exact absurd h4 hmsg

theorem CounterInv.waste (h : CounterInv out s) : CounterInv out (s.consume msg c b) := by
  have hslots := @consume_slots s msg c b
  refine ⟨h.toCounted.consume, h.taken, ?_, h.accepted, ?_, ?_, ?_, h.once⟩
  · rw [consume_head]
    exact h.last
  · intro r hr hv
    rw [hslots.1 r hr] at hv
    cases hv
  · exact fun r hr hv => h.keyOpen r (hslots.2 r hr hv).1 hv
  · intro r hr hv
    rw [hslots.1 r hr] at hv
    cases hv

theorem CounterInv.receive (h : CounterInv out s) (ha : s.Admits out msg c) :
    CounterInv (out ++ [.received msg c]) (s.consume msg c b) := by
  have hslots := @consume_slots s msg c b
  obtain ⟨htaken, hopen, hprev⟩ := h.admits (b := b) ha
  have ht : takenCounters (out ++ [.received msg c]) = takenCounters out := by
    rw [takenCounters_append]
    exact List.append_nil _
  have hacc : acceptedCounters (out ++ [.received msg c]) = acceptedCounters out ++ [c] := by
    have hone : acceptedCounters [.received msg c] = [c] := by
      simp [acceptedCounters, Act.accepted, ha.reply]
    rw [acceptedCounters_append, hone]
  refine ⟨(h.toCounted.append rfl).consume, ?_, ?_, ?_, ?_, ?_, ?_, ?_⟩
  · rw [ht]
    exact h.taken
  · rw [ht, consume_head]
    exact h.last
  · rw [ht, hacc]
    intro x hx
    rcases List.mem_append.mp hx with hx | hx
    · exact h.accepted x hx
    · rw [List.mem_singleton.mp hx]
      exact htaken
  · intro r hr hv
    rw [hslots.1 r hr] at hv
    cases hv
  · rw [hacc]
    intro r hr hv hmem
    rcases List.mem_append.mp hmem with hmem | hmem
    · exact h.keyOpen r (hslots.2 r hr hv).1 hv hmem
    · exact hprev r hr hv (List.mem_singleton.mp hmem)
  · intro r hr hv
    rw [hslots.1 r hr] at hv
    cases hv
  · refine each_concat.mpr ⟨h.once, fun msg' counter heq _ => ?_⟩
    cases heq
    exact ⟨htaken, hopen⟩

theorem Session.Move.counterInv {c c' : Cfg Session Act} (h : Session.Move c c') :
    Preserves InRange CounterInv c c' := by
  cases h with
  | quiet acts h =>
    exact Preserves.of_append fun _ hi =>
      hi.append (quiet_lists h).taken (quiet_lists h).accepted Kept.refl
  | demand h => exact Preserves.of_state fun hi => hi.kept h.kept
  | leave h => exact Preserves.of_state fun hi => hi.kept h.kept
  | redraw h => exact Preserves.of_append fun _ hi => hi.append rfl rfl h.kept
  | advance h => exact Preserves.of_state fun hi => hi.kept h.kept
  | derive h hd => exact Preserves.of_append fun _ hi => hi.append rfl rfl Kept.refl
  | accept h => exact Preserves.of_state fun hi => hi.kept h.kept
  | confirm h => exact Preserves.of_state fun hi => hi.kept ⟨rfl, rfl, rfl, id, rfl⟩
  | hear =>
    exact Preserves.of_state fun hi => ⟨⟨hi.key, hi.prev, hi.head, hi.alt⟩, hi.taken, hi.last,
      hi.accepted, hi.keyOpen, hi.prevOpen, hi.apart, hi.once⟩
  | verify => exact Preserves.of_append fun _ hi => hi.append rfl rfl Kept.refl
  | mic => exact Preserves.of_append fun _ hi => hi.append rfl rfl Kept.refl
  | install => exact Preserves.of_append fun _ hi => hi.append rfl rfl ⟨rfl, rfl, rfl, id, rfl⟩
  | take => exact Preserves.of_append fun hr hi => hi.take hr
  | note h => exact Preserves.of_state fun hi => hi.note h
  | waste => exact Preserves.of_state fun hi => hi.waste
  | receive h hb => exact Preserves.of_append fun _ hi => hi.receive h

theorem InRange.of_prefix {out' : List Act} (h : InRange out') (hp : out <+: out') : InRange out := by
  obtain ⟨new, rfl⟩ := hp
  rw [InRange, takenCounters_append, List.length_append] at h
  rw [InRange]
  omega

/-- Counters that were never used. -/
structure Unused (s : Session) : Prop where
  key : s.keyReplay = clearedCounters
  prev : ∀ r ∈ s.prevKeyReplay, r.valid = false
  alt : s.altValid = false

theorem Unused.key_valid {r : KeyReplayCounter} (h : Unused s) (hr : r ∈ s.keyReplay) :
    r.valid = false := by
  rw [h.key] at hr
  exact not_valid_of_cleared hr

theorem Unused.counted (h : Unused s) : Counted [] s := by
  refine ⟨fun r hr hv => ?_, fun r hr hv => ?_, fun hne => absurd rfl hne, fun hv => ?_⟩
  · rw [h.key_valid hr] at hv
    cases hv
  · rw [h.prev r hr] at hv
    cases hv
  · rw [h.alt] at hv
    cases hv

theorem Unused.counterInv (h : Unused s) : CounterInv [] s := by
  refine ⟨h.counted, rfl, ?_, fun _ hc => absurd hc List.not_mem_nil,
    fun _ _ _ => List.not_mem_nil, fun _ _ _ => List.not_mem_nil, fun r hr hv => ?_, each_nil⟩
  · rw [h.key]
    rfl
  · rw [h.key_valid hr] at hv
    cases hv

theorem counterInv_of_path (hu : Unused s)
    (h : Relation.ReflTransGen Session.Move ⟨s, []⟩ ⟨t, out⟩) (hrange : InRange out) :
    CounterInv out t :=
  (path_induction (R := Preserves InRange CounterInv) (fun _ _ => Session.Move.counterInv) h).2
    (fun _ hp => hrange.of_prefix hp) hu.counterInv

end Invariant
end Wpa.Auth
