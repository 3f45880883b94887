import Mathlib.Tactic.Common
import Wpa.Embox.EventMemory

/-! Each block of a driver event is freed exactly once, and the memory of the producer never, except
for the events whose copy and whose free step list different pointers. -/

namespace Wpa.Embox.EventMemory
open Lib Prog Ownership

section Safe

/-- The supplicant gets null pointers and blocks of the queue only. -/
def Handed.Owned (h : Handed) : Prop :=
  ∀ data, h.data = some data → ∀ p ∈ data.pointers h.event, p.Ours

/-- No null pointer is copied from, no `ie` comes with a deauthentication, and only the address
with an association that somebody is told of. -/
structure Safe (nullReadable : Bool) (ctx : ℕ) (event : ℤ) (data : EventData) : Prop where
  eapolRx : event = eventEapolRx → nullReadable = true ∨ data.eapolRx.src ≠ .null ∧
    (data.eapolRx.data ≠ .null ∨ data.eapolRx.dataLen = 0)
  deauth : event = eventDeauth →
    (nullReadable = true ∨ data.deauthInfo.addr ≠ .null) ∧ data.deauthInfo.ie = .null
  assoc : event = eventAssoc → ctx ≠ 0 → ∀ p ∈ data.assocInfo.uncopied, p = .null

end Safe

section Triples
variable {os : Os} {held : List Pointer} {event : ℤ} {data : EventData}

abbrev EventTriple (os : Os) (held : List Pointer) {α : Type} (x : EventProg α)
    (post : α → List Pointer → Prop) : Prop :=
  Triple os Handed.Owned held x post

theorem osMemdup_spec {src : Pointer} {len : ℕ}
    (hread : src = .null → len ≠ 0 → os.nullReadable = true) :
    EventTriple os held (osMemdup src len) fun r held' => r.Ours ∧ held' = r :: held := by
  apply Triple.malloc
  intro r hr
  apply Triple.ite
  · intro _
    apply Triple.readFrom hread
    exact Triple.pure ⟨hr, rfl⟩
  · intro _
    exact Triple.pure ⟨hr, rfl⟩

/-- The pointers that the free step of an event frees. -/
def freed (event : ℤ) (data : EventData) : List Pointer :=
  if event = eventEapolRx then [data.eapolRx.src, data.eapolRx.data]
  else if event = eventDeauth then [data.deauthInfo.addr, data.deauthInfo.ie]
  else if event = eventAssoc then [data.assocInfo.addr]
  else []

theorem eventCopyFree_spec : EventTriple os (freed event data ++ held) (eventCopyFree event data)
    fun _ held' => held' = held := by
  unfold freed eventCopyFree
  split
  · apply Triple.free
    exact Triple.free_last rfl
  · split
    · apply Triple.free
      exact Triple.free_last rfl
    · split
      · exact Triple.free_last rfl
      · exact Triple.pure rfl

/-- What the payload step leaves: nothing new where it fails or drops, and else what the free step
will free. -/
inductive Duplicated (ctx : ℕ) (event : ℤ) (held : List Pointer) : Payload → List Pointer → Prop
  | failed : Duplicated ctx event held .failed held
  | copied (data : EventData) (hours : ctx ≠ 0 → ∀ p ∈ data.pointers event, p.Ours) :
    Duplicated ctx event held (.copied data) (freed event data ++ held)
  | dropped : Duplicated ctx event held .dropped held

theorem duplicate_spec {ctx : ℕ} (hsafe : Safe os.nullReadable ctx event data) :
    EventTriple os held (duplicate event data) (Duplicated ctx event held) := by
  unfold duplicate
  apply Triple.ite
  · intro hevent
    have hreadable := hsafe.eapolRx hevent
    apply Triple.bind (osMemdup_spec fun hnull _ => hreadable.resolve_right fun h => h.1 hnull)
    rintro src _ ⟨hsrc, rfl⟩
    apply Triple.bind (osMemdup_spec fun hnull hlen =>
      hreadable.resolve_right fun h => h.2.elim (· hnull) (hlen ·))
    rintro buf _ ⟨hbuf, rfl⟩
    apply Triple.of_perm (List.Perm.swap ..)
    apply Triple.ite
    · intro _
      apply Triple.free
      apply Triple.free
      exact Triple.pure .failed
    · intro _
      apply Triple.pure
      have hcopied := @Duplicated.copied ctx event held
        { data with eapolRx := { data.eapolRx with src, data := buf } }
      simp only [freed, EventData.pointers, if_pos hevent] at hcopied
      apply hcopied
      rintro - p hp
      simp only [List.mem_cons, List.not_mem_nil, or_false] at hp
      rcases hp with rfl | rfl
      · exact hsrc
      · exact hbuf
  intro hrx
  apply Triple.ite
  · intro hevent
    obtain ⟨hreadable, hie⟩ := hsafe.deauth hevent
    apply Triple.bind (osMemdup_spec fun hnull _ => hreadable.resolve_right (· hnull))
    rintro addr _ ⟨haddr, rfl⟩
    apply Triple.ite
    · rintro rfl
      apply Triple.of_null
      exact Triple.pure .failed
    · intro _
      -- the free step will also free the `ie`, which is null
      apply Triple.with_null
      apply Triple.of_perm (List.Perm.swap ..)
      rw [← hie]
      apply Triple.pure
      have hcopied := @Duplicated.copied ctx event held
        { data with deauthInfo := { data.deauthInfo with addr } }
      simp only [freed, EventData.pointers, if_neg hrx, if_pos hevent] at hcopied
      apply hcopied
      rintro - p hp
      simp only [List.mem_cons, List.not_mem_nil, or_false] at hp
      rcases hp with rfl | rfl
      · exact haddr
      · rw [hie]
        trivial
  intro hdeauth
  apply Triple.ite
  · intro hevent
    have huncopied (a : AssocInfo) (ha : a.uncopied = data.assocInfo.uncopied) (haddr : a.addr.Ours)
        (hctx : ctx ≠ 0) : ∀ p ∈ a.addr :: a.uncopied, p.Ours := by
      intro p hp
      rcases List.mem_cons.mp hp with rfl | hp
      · exact haddr
      · rw [hsafe.assoc hevent hctx p (ha ▸ hp)]
        trivial
    apply Triple.ite
    · intro hne
      apply Triple.bind (osMemdup_spec fun hnull _ => absurd hnull hne)
      rintro addr _ ⟨haddr, rfl⟩
      apply Triple.ite
      · rintro rfl
        apply Triple.of_null
        exact Triple.pure .failed
      · intro _
        apply Triple.pure
        have hcopied := @Duplicated.copied ctx event held
          { data with assocInfo := { data.assocInfo with addr } }
        simp only [freed, EventData.pointers, if_neg hrx, if_neg hdeauth, if_pos hevent] at hcopied
        exact hcopied (huncopied { data.assocInfo with addr } rfl haddr)
    · intro hnull
      apply Triple.with_null
      apply Triple.pure
      have hcopied := @Duplicated.copied ctx event held data
      have haddr : data.assocInfo.addr = .null := not_not.mp hnull
      simp only [freed, EventData.pointers, if_neg hrx, if_neg hdeauth, if_pos hevent] at hcopied
      rw [haddr] at hcopied
      apply hcopied
      have hours := huncopied data.assocInfo rfl (by rw [haddr]; trivial)
      rw [haddr] at hours
      exact hours
  intro hassoc
  apply Triple.ite
  · intro _
    exact Triple.pure .dropped
  · intro _
    apply Triple.pure
    have hcopied := @Duplicated.copied ctx event held data
    simp only [freed, EventData.pointers, if_neg hrx, if_neg hdeauth, if_neg hassoc,
      List.nil_append] at hcopied
    apply hcopied
    intro _ p hp
    cases hp

/-- Everything that a message holds. -/
def EventMsg.holds (msg : EventMsg) : List Pointer :=
  match msg.data with
  | none => [msg.self]
  | some (copy, data) => freed msg.event data ++ [copy, msg.self]

/-- What may be handed over with a message. -/
def EventMsg.Owned (msg : EventMsg) : Prop :=
  msg.ctx ≠ 0 → Handed.Owned ⟨msg.event, msg.data.map Prod.snd⟩

theorem freeMsg_spec (msg : EventMsg) :
    EventTriple os msg.holds (freeMsg msg) fun _ held => held = [] := by
  obtain ⟨self, ctx, event, data⟩ := msg
  have hdata : EventTriple os (EventMsg.holds ⟨self, ctx, event, data⟩) (freeData event data)
      fun _ held => held = [self] := by
    match data with
    | none => exact Triple.pure rfl
    | some (copy, data) =>
      apply Triple.bind eventCopyFree_spec
      rintro _ _ rfl
      exact Triple.free_last rfl
  apply Triple.bind hdata
  rintro _ _ rfl
  exact Triple.free_last rfl

theorem enqueue_spec (full : Bool) {msg : EventMsg} (howned : msg.Owned) :
    EventTriple os msg.holds (enqueue full msg) fun queued held =>
      queued = none ∧ held = [] ∨ ∃ msg, queued = some msg ∧ held = msg.holds ∧ msg.Owned := by
  apply Triple.ite
  · intro _
    apply Triple.bind (freeMsg_spec msg)
    rintro _ _ rfl
    exact Triple.pure (.inl ⟨rfl, rfl⟩)
  · intro _
    exact Triple.pure (.inr ⟨msg, rfl, rfl, howned⟩)

theorem sendEvent_spec (full : Bool) (ctx : ℕ) (data : Option EventData)
    (hsafe : ∀ d, data = some d → Safe os.nullReadable ctx event d) :
    EventTriple os [] (sendEvent full ctx event data) fun queued held =>
      queued = none ∧ held = [] ∨ ∃ msg, queued = some msg ∧ held = msg.holds ∧ msg.Owned := by
  have hnone (msg : Pointer) : EventMsg.Owned ⟨msg, ctx, event, none⟩ := by
    intro _ d hd
    cases hd
  apply Triple.malloc
  intro msg _
  apply Triple.ite
  · rintro rfl
    apply Triple.of_null
    exact Triple.pure (.inl ⟨rfl, rfl⟩)
  intro _
  match data, hsafe with
  | none, _ => exact enqueue_spec full (hnone msg)
  | some data, hsafe =>
    apply Triple.malloc
    intro copy _
    apply Triple.ite
    · rintro rfl
      apply Triple.of_null
      apply Triple.free
      exact Triple.pure (.inl ⟨rfl, rfl⟩)
    intro _
    apply Triple.bind (duplicate_spec (hsafe data rfl))
    rintro payload _ (_ | ⟨data, hours⟩ | _)
    · apply Triple.free
      apply Triple.free
      exact Triple.pure (.inl ⟨rfl, rfl⟩)
    · apply @enqueue_spec _ full ⟨msg, ctx, event, some (copy, data)⟩
      intro hctx d hd
      obtain rfl := Option.some.inj hd
      exact hours hctx
    · apply Triple.free
      exact enqueue_spec full (hnone msg)

/-- Over its whole life a safe message is balanced. -/
theorem life_spec (full : Bool) (ctx : ℕ) (data : Option EventData)
    (hsafe : ∀ d, data = some d → Safe os.nullReadable ctx event d) :
    EventTriple os [] (life full ctx event data) fun _ held => held = [] := by
  apply Triple.bind (sendEvent_spec full ctx data hsafe)
  rintro queued _ (⟨rfl, rfl⟩ | ⟨msg, rfl, rfl, howned⟩)
  · exact Triple.pure rfl
  · have hhand : EventTriple os msg.holds (handOver msg) fun _ held => held = msg.holds := by
      apply Triple.ite
      · rintro ⟨-, hctx⟩
        exact Triple.perform_last (howned hctx) rfl
      · intro _
        exact Triple.pure rfl
    apply Triple.bind hhand
    rintro _ _ rfl
    exact freeMsg_spec msg

end Triples

section Unsafe
variable {nullReadable : Bool} {ctx : ℕ} {data : EventData}

/-- All allocations succeed. -/
def plain (nullReadable : Bool) : Os := ⟨fun _ => true, nullReadable⟩

@[simp] theorem malloc_plain {ω : Type} (c : Cfg ℕ (Action ω)) :
    malloc (plain nullReadable) c = (.block c.st, ⟨c.st + 1, c.out ++ [.allocated c.st]⟩) := rfl

/-- What a message does that finds room in the queue. -/
def plainLog (nullReadable : Bool) (ctx : ℕ) (event : ℤ) (data : EventData) :
    List (Action Handed) :=
  (exec (life false ctx event (some data)) (plain nullReadable) 0).2

theorem eapolRx_nullRead (h : data.eapolRx.src = .null ∨
    data.eapolRx.data = .null ∧ data.eapolRx.dataLen ≠ 0) :
    .nullRead ∈ plainLog nullReadable ctx eventEapolRx data := by
  have hlen : ethAlen ≠ 0 := by decide
  rcases h with hsrc | ⟨hbuf, hz⟩
  · by_cases hbuf : data.eapolRx.data = .null <;> by_cases hz : data.eapolRx.dataLen = 0 <;>
      by_cases hctx : ctx = 0 <;>
      simp [plainLog, exec, life, sendEvent, duplicate, osMemdup, enqueue, processEvent, handOver,
        freeMsg, freeData, eventCopyFree, free, readFrom, perform, eventEapolRx, hlen, hsrc, hbuf, hz,
        hctx]
  · by_cases hsrc : data.eapolRx.src = .null <;> by_cases hctx : ctx = 0 <;>
      simp [plainLog, exec, life, sendEvent, duplicate, osMemdup, enqueue, processEvent, handOver,
        freeMsg, freeData, eventCopyFree, free, readFrom, perform, eventEapolRx, hlen, hsrc, hbuf, hz,
        hctx]

theorem deauth_nullRead (h : data.deauthInfo.addr = .null) :
    .nullRead ∈ plainLog nullReadable ctx eventDeauth data := by
  have hlen : ethAlen ≠ 0 := by decide
  by_cases hie : data.deauthInfo.ie = .null <;> by_cases hctx : ctx = 0 <;>
    simp [plainLog, exec, life, sendEvent, duplicate, osMemdup, enqueue, processEvent, handOver,
      freeMsg, freeData, eventCopyFree, free, readFrom, perform, eventEapolRx, eventDeauth, h, hlen,
      hie, hctx]

/-- The free step of a deauthentication frees the `ie` of the producer. -/
theorem deauth_frees (hne : data.deauthInfo.ie ≠ .null) :
    .freed data.deauthInfo.ie ∈ plainLog nullReadable ctx eventDeauth data := by
  have hlen : ethAlen ≠ 0 := by decide
  by_cases haddr : data.deauthInfo.addr = .null <;> by_cases hctx : ctx = 0 <;>
    simp [plainLog, exec, life, sendEvent, duplicate, osMemdup, enqueue, processEvent, handOver,
      freeMsg, freeData, eventCopyFree, free, readFrom, perform, eventEapolRx, eventDeauth, hlen,
      hne, haddr, hctx]

/-- An association is handed over with all its pointers but the address. -/
theorem assoc_hands (hctx : ctx ≠ 0) :
    ∃ d : EventData, d.assocInfo.uncopied = data.assocInfo.uncopied ∧
      .other ⟨eventAssoc, some d⟩ ∈ plainLog nullReadable ctx eventAssoc data := by
  by_cases haddr : data.assocInfo.addr = .null
  · refine ⟨data, rfl, ?_⟩
    simp [plainLog, exec, life, sendEvent, duplicate, enqueue, processEvent, handOver, freeMsg,
      freeData, eventCopyFree, free, perform, eventEapolRx, eventDeauth, eventAssoc, hctx, haddr]
  · refine ⟨{ data with assocInfo := { data.assocInfo with addr := .block 2 } }, rfl, ?_⟩
    simp [plainLog, exec, life, sendEvent, duplicate, osMemdup, enqueue, processEvent, handOver,
      freeMsg, freeData, eventCopyFree, free, readFrom, perform, eventEapolRx, eventDeauth,
      eventAssoc, hctx, haddr]

variable {event : ℤ}

/-- A message that is balanced where everything succeeds is a safe one. -/
theorem safe_of_balanced (htheirs : ∀ p ∈ data.pointers event, p.Theirs)
    (h : Balanced (plain nullReadable) Handed.Owned (plainLog nullReadable ctx event data)) :
    Safe nullReadable ctx event data := by
  constructor
  · rintro rfl
    by_contra hnot
    obtain ⟨hreadable, hnull⟩ := not_or.mp hnot
    apply hreadable
    apply h.reads
    apply eapolRx_nullRead
    by_cases hsrc : data.eapolRx.src = .null
    · exact .inl hsrc
    · exact .inr (not_or.mp (not_and.mp hnull hsrc) |>.imp not_not.mp id)
  · rintro rfl
    constructor
    · by_contra hnot
      obtain ⟨hreadable, haddr⟩ := not_or.mp hnot
      exact hreadable (h.reads (deauth_nullRead (not_not.mp haddr)))
    · by_contra hie
      refine h.freed_notMem hie ?_ (deauth_frees hie)
      exact htheirs _ (List.mem_cons_of_mem _ (List.mem_singleton_self _))
  · rintro rfl hctx p hp
    by_contra hne
    obtain ⟨d, hsame, hhanded⟩ := @assoc_hands nullReadable ctx data hctx
    have hours := h.others _ hhanded d rfl p (List.mem_cons_of_mem _ (hsame ▸ hp))
    have htheirs := htheirs p (List.mem_cons_of_mem _ hp)
    cases p with
    | null => exact hne rfl
    | foreign id => exact hours
    | block id => exact htheirs

/-- For every event and payload of a producer: whatever allocations fail and whether the queue is
full or not, the message is balanced over its whole life exactly when it is a safe one. -/
theorem life_iff (nullReadable : Bool) (ctx : ℕ) (event : ℤ) (data : Option EventData)
    (htheirs : ∀ d, data = some d → ∀ p ∈ d.pointers event, p.Theirs) :
    (∀ (mallocs : ℕ → Bool) (full : Bool), Balanced ⟨mallocs, nullReadable⟩ Handed.Owned
      (exec (life full ctx event data) ⟨mallocs, nullReadable⟩ 0).2) ↔
    ∀ d, data = some d → Safe nullReadable ctx event d := by
  constructor
  · rintro h d rfl
    exact safe_of_balanced (htheirs d rfl) (h (fun _ => true) false)
  · intro hsafe mallocs full
    exact Triple.balanced (@life_spec ⟨mallocs, nullReadable⟩ event full ctx data hsafe)

/-- Nothing but null pointers in the members that the event does not use. -/
def noData : EventData where
  eapolRx := ⟨.null, .null, 0⟩
  deauthInfo := ⟨.null, .null⟩
  assocInfo := ⟨.null, .null, .null, .null, .null, .null, .null, .null, .null, .null⟩

/-- A received frame. -/
def frameData : EventData := { noData with eapolRx := ⟨.foreign 0, .foreign 1, 99⟩ }

theorem frameData_balanced : Balanced ⟨fun _ => true, false⟩ Handed.Owned
    (exec (life false 1 eventEapolRx (some frameData)) ⟨fun _ => true, false⟩ 0).2 := by
  apply (life_iff false 1 eventEapolRx (some frameData) ?_).mpr
  · rintro d hd
    obtain rfl := Option.some.inj hd
    exact ⟨fun _ => .inr ⟨by decide, .inl (by decide)⟩, by decide, by decide⟩
  · rintro d hd p hp
    obtain rfl := Option.some.inj hd
    simp only [EventData.pointers, frameData, if_pos, List.mem_cons, List.not_mem_nil,
      or_false] at hp
    rcases hp with rfl | rfl
    · trivial
    · trivial

/-- A deauthentication with an `ie`: memory of the producer is freed. -/
def reasonData : EventData := { noData with deauthInfo := ⟨.foreign 0, .foreign 1⟩ }

theorem producer_freed :
    ¬∀ (nullReadable : Bool) (ctx : ℕ) (event : ℤ) (data : Option EventData),
      (∀ d, data = some d → ∀ p ∈ d.pointers event, p.Theirs) →
      ∀ (mallocs : ℕ → Bool) (full : Bool), Balanced ⟨mallocs, nullReadable⟩ Handed.Owned
        (exec (life full ctx event data) ⟨mallocs, nullReadable⟩ 0).2 := by
  intro h
  have htheirs : ∀ d, some reasonData = some d → ∀ p ∈ d.pointers eventDeauth, p.Theirs := by
    rintro d hd p hp
    obtain rfl := Option.some.inj hd
    have hp : p ∈ [Pointer.foreign 0, .foreign 1] := hp
    simp only [List.mem_cons, List.not_mem_nil, or_false] at hp
    rcases hp with rfl | rfl
    · trivial
    · trivial
  have hbalanced := h true 1 eventDeauth (some reasonData) htheirs (fun _ => true) false
  have hfreed := @deauth_frees true 1 reasonData (by decide)
  exact hbalanced.freed_notMem (by decide) (show (Pointer.foreign 1).Theirs from trivial) hfreed

end Unsafe

end Wpa.Embox.EventMemory
