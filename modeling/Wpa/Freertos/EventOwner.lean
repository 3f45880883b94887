import Mathlib.Tactic.Common
import Wpa.Freertos.EventMemory

/-! Each block of a driver event is freed exactly once, but for an association with several buffers
whose copy fails and for a received frame with one null pointer. -/

namespace Wpa.Freertos.EventMemory
open Lib Prog Ownership

section Safe

/-- The addresses that are copied without a test for null. -/
def EventData.addrs : EventData → List Pointer
  | .assoc addr _ _ _ => [addr]
  | .assocReject bssid _ => [bssid]
  | .deauth addr _ => [addr]
  | .disassoc addr _ => [addr]
  | .unprotDeauth sa da => [sa, da]
  | .unprotDisassoc sa da => [sa, da]
  | _ => []

/-- All pointers of an event. -/
def EventData.pointers : EventData → List Pointer
  | .auth ies => [ies]
  | .rxMgmt frame => [frame]
  | .txStatus dst data => [dst, data]
  | .assoc addr reqIes respIes respFrame => [addr, reqIes, respIes, respFrame]
  | .assocReject bssid respIes => [bssid, respIes]
  | .deauth addr ie => [addr, ie]
  | .disassoc addr ie => [addr, ie]
  | .unprotDeauth sa da => [sa, da]
  | .unprotDisassoc sa da => [sa, da]
  | .eapolRx data src => [data, src]
  | .other _ => []

/-- No null address is copied from, an association comes with one buffer at most, and a received
frame with both pointers or none. -/
structure Safe (nullReadable : Bool) (data : EventData) : Prop where
  addrs : nullReadable = true ∨ ∀ p ∈ data.addrs, p ≠ .null
  assoc : ∀ addr reqIes respIes respFrame, data = .assoc addr reqIes respIes respFrame →
    respIes = .null ∧ respFrame = .null ∨ reqIes = .null ∧ respFrame = .null ∨
      reqIes = .null ∧ respIes = .null
  eapolRx : ∀ frame src, data = .eapolRx frame src → (frame = .null ↔ src = .null)

end Safe

section Triples
variable {os : Os} {held : List Pointer}

abbrev EventTriple (os : Os) (held : List Pointer) {α : Type} (x : EventProg α)
    (post : α → List Pointer → Prop) : Prop :=
  Triple os (fun _ : Option EventData => True) held x post

/-- What the free step frees. -/
def EventData.freed : EventData → List Pointer
  | .auth ies => [ies]
  | .rxMgmt frame => [frame]
  | .txStatus _ data => [data]
  | .assoc addr reqIes respIes respFrame => [addr, reqIes, respIes, respFrame]
  | .assocReject bssid respIes => [bssid, respIes]
  | .deauth addr ie => [addr, ie]
  | .disassoc addr ie => [addr, ie]
  | .unprotDeauth sa da => [sa, da]
  | .unprotDisassoc sa da => [sa, da]
  | .eapolRx data src => [data, src]
  | .other _ => []

theorem deepCopyFree_spec (data : EventData) :
    EventTriple os (data.freed ++ held) (deepCopyFree data) fun _ held' => held' = held := by
  have htwo (p q : Pointer) : EventTriple os (p :: q :: held)
      (do
        free p
        free q) fun _ held' => held' = held :=
    Triple.free (Triple.free_last rfl)
  cases data with
  | auth ies => exact Triple.free_last rfl
  | rxMgmt frame => exact Triple.free_last rfl
  | txStatus dst data => exact Triple.free_last rfl
  | assoc addr reqIes respIes respFrame =>
    exact Triple.free (Triple.free (Triple.free (Triple.free_last rfl)))
  | assocReject bssid respIes => exact htwo bssid respIes
  | deauth addr ie => exact htwo addr ie
  | disassoc addr ie => exact htwo addr ie
  | unprotDeauth sa da => exact htwo sa da
  | unprotDisassoc sa da => exact htwo sa da
  | eapolRx data src => exact htwo data src
  | other event => exact Triple.pure rfl

/-- A copy step leaves nothing where it fails, and else what will be freed. -/
inductive Copied {α : Type} (freed : α → List Pointer) (held : List Pointer) :
    Option α → List Pointer → Prop
  | failed : Copied freed held none held
  | copied (a : α) : Copied freed held (some a) (freed a ++ held)

theorem copyBuffer_spec (src : Pointer) :
    EventTriple os held (copyBuffer src) (Copied (fun p => [p]) held) := by
  apply Triple.ite
  · intro hne
    apply Triple.malloc
    intro p _
    apply Triple.ite
    · rintro rfl
      apply Triple.of_null
      exact Triple.pure .failed
    · intro _
      apply Triple.readFrom fun hnull _ => absurd hnull hne
      exact Triple.pure (.copied p)
  · intro hnull
    rw [not_not.mp hnull]
    apply Triple.with_null
    exact Triple.pure (.copied Pointer.null)

theorem copyBuffer_null {α : Type} (f : Option Pointer → EventProg α) :
    copyBuffer .null >>= f = f (some .null) := rfl

/-- An event with one buffer. -/
theorem mapBuffer_spec (src : Pointer) {copied : Pointer → EventData}
    (hfreed : ∀ p, (copied p).freed = [p]) :
    EventTriple os held (Option.map copied <$> copyBuffer src) (Copied EventData.freed held) := by
  apply Triple.bind (copyBuffer_spec src)
  rintro _ _ (_ | p)
  · exact Triple.pure .failed
  · apply Triple.pure
    rw [← hfreed p]
    exact .copied _

theorem copyAddrAndBuffer_spec {addr : Pointer} (buffer : Pointer)
    {copied : Pointer → Pointer → EventData} (hfreed : ∀ a p, (copied a p).freed = [a, p])
    (hread : addr = .null → os.nullReadable = true) :
    EventTriple os held (copyAddrAndBuffer addr buffer copied) (Copied EventData.freed held) := by
  apply Triple.malloc
  intro a _
  apply Triple.ite
  · rintro rfl
    apply Triple.of_null
    exact Triple.pure .failed
  intro _
  apply Triple.readFrom fun hnull _ => hread hnull
  apply Triple.bind (copyBuffer_spec buffer)
  rintro _ _ (_ | p)
  · apply Triple.free
    exact Triple.pure .failed
  · apply Triple.of_perm (List.Perm.swap ..)
    apply Triple.pure
    have hcopied := @Copied.copied _ EventData.freed held (copied a p)
    rw [hfreed] at hcopied
    exact hcopied

theorem copyAddrs_spec {sa da : Pointer} {copied : Pointer → Pointer → EventData}
    (hfreed : ∀ s d, (copied s d).freed = [s, d]) (hsa : sa = .null → os.nullReadable = true)
    (hda : da = .null → os.nullReadable = true) :
    EventTriple os held (copyAddrs sa da copied) (Copied EventData.freed held) := by
  apply Triple.malloc
  intro s _
  apply Triple.malloc
  intro d _
  apply Triple.ite
  · rintro rfl
    apply Triple.free
    apply Triple.of_null
    exact Triple.pure .failed
  intro _
  apply Triple.ite
  · rintro rfl
    apply Triple.of_null
    apply Triple.free
    exact Triple.pure .failed
  intro _
  apply Triple.readFrom fun hnull _ => hsa hnull
  apply Triple.readFrom fun hnull _ => hda hnull
  apply Triple.of_perm (List.Perm.swap ..)
  apply Triple.pure
  have hcopied := @Copied.copied _ EventData.freed held (copied s d)
  rw [hfreed] at hcopied
  exact hcopied

/-- With one buffer at most there is nothing else to free where its copy fails. -/
theorem deepCopyAssoc_spec {addr reqIes respIes respFrame : Pointer}
    (hread : addr = .null → os.nullReadable = true)
    (hone : respIes = .null ∧ respFrame = .null ∨ reqIes = .null ∧ respFrame = .null ∨
      reqIes = .null ∧ respIes = .null) :
    EventTriple os held (deepCopyAssoc addr reqIes respIes respFrame)
      (Copied EventData.freed held) := by
  have hcopied (a req resp frame : Pointer) : EventTriple os (frame :: resp :: req :: a :: held)
      (pure (some (.assoc a req resp frame))) (Copied EventData.freed held) := by
    apply Triple.of_perm ((List.reverse_perm [a, req, resp, frame]).append_right held)
    exact Triple.pure (.copied (EventData.assoc a req resp frame))
  apply Triple.malloc
  intro a _
  apply Triple.ite
  · rintro rfl
    apply Triple.of_null
    exact Triple.pure .failed
  intro _
  apply Triple.readFrom fun hnull _ => hread hnull
  rcases hone with ⟨rfl, rfl⟩ | ⟨rfl, rfl⟩ | ⟨rfl, rfl⟩
  · apply Triple.bind (copyBuffer_spec reqIes)
    rintro _ _ (_ | p)
    · apply Triple.free
      exact Triple.pure .failed
    · exact Triple.with_null (Triple.with_null (hcopied a p .null .null))
  · simp only [copyBuffer_null]
    apply Triple.with_null
    apply Triple.bind (copyBuffer_spec respIes)
    rintro _ _ (_ | p)
    · apply Triple.of_null
      apply Triple.free
      exact Triple.pure .failed
    · exact Triple.with_null (hcopied a .null p .null)
  · simp only [copyBuffer_null]
    apply Triple.with_null
    apply Triple.with_null
    apply Triple.bind (copyBuffer_spec respFrame)
    rintro _ _ (_ | p)
    · apply Triple.of_null
      apply Triple.of_null
      apply Triple.free
      exact Triple.pure .failed
    · exact hcopied a .null .null p

theorem deepCopyEapolRx_spec {data src : Pointer} (hboth : data = .null ↔ src = .null) :
    EventTriple os held (deepCopyEapolRx data src) (Copied EventData.freed held) := by
  apply Triple.ite
  · rintro ⟨hdata, hsrc⟩
    apply Triple.malloc
    intro frame _
    apply Triple.ite
    · rintro rfl
      apply Triple.of_null
      exact Triple.pure .failed
    intro _
    apply Triple.malloc
    intro addr _
    apply Triple.ite
    · rintro rfl
      apply Triple.of_null
      apply Triple.free
      exact Triple.pure .failed
    intro _
    apply Triple.readFrom fun hnull _ => absurd hnull hdata
    apply Triple.readFrom fun hnull _ => absurd hnull hsrc
    apply Triple.of_perm (List.Perm.swap ..)
    exact Triple.pure (.copied (EventData.eapolRx frame addr))
  · intro hnot
    have hnull : data = .null := by
      by_contra hdata
      exact hnot ⟨hdata, fun hsrc => hdata (hboth.mpr hsrc)⟩
    rw [hnull, hboth.mp hnull]
    apply Triple.with_null
    apply Triple.with_null
    exact Triple.pure (.copied (EventData.eapolRx .null .null))

theorem deepCopy_spec {data : EventData} (hsafe : Safe os.nullReadable data) :
    EventTriple os held (deepCopy data) (Copied EventData.freed held) := by
  have hread (p : Pointer) (hp : p ∈ data.addrs) (hnull : p = .null) : os.nullReadable = true :=
    hsafe.addrs.resolve_right fun h => h p hp hnull
  cases data with
  | auth ies => exact mapBuffer_spec ies fun _ => rfl
  | rxMgmt frame => exact mapBuffer_spec frame fun _ => rfl
  | txStatus dst data => exact mapBuffer_spec data fun _ => rfl
  | assoc addr reqIes respIes respFrame =>
    exact deepCopyAssoc_spec (hread addr (List.mem_singleton_self _))
      (hsafe.assoc _ _ _ _ rfl)
  | assocReject bssid respIes =>
    exact copyAddrAndBuffer_spec respIes (fun _ _ => rfl) (hread bssid (List.mem_singleton_self _))
  | deauth addr ie =>
    exact copyAddrAndBuffer_spec ie (fun _ _ => rfl) (hread addr (List.mem_singleton_self _))
  | disassoc addr ie =>
    exact copyAddrAndBuffer_spec ie (fun _ _ => rfl) (hread addr (List.mem_singleton_self _))
  | unprotDeauth sa da =>
    exact copyAddrs_spec (fun _ _ => rfl) (hread sa (List.mem_cons_self ..))
      (hread da (List.mem_cons_of_mem _ (List.mem_singleton_self _)))
  | unprotDisassoc sa da =>
    exact copyAddrs_spec (fun _ _ => rfl) (hread sa (List.mem_cons_self ..))
      (hread da (List.mem_cons_of_mem _ (List.mem_singleton_self _)))
  | eapolRx data src => exact deepCopyEapolRx_spec (hsafe.eapolRx _ _ rfl)
  | other event => exact Triple.pure (.copied (EventData.other event))

/-- Everything that a message holds. -/
def EventMsg.holds (msg : EventMsg) : List Pointer :=
  match msg.data with
  | none => [msg.self]
  | some (copy, data) => data.freed ++ [copy, msg.self]

theorem freeMsg_spec (msg : EventMsg) :
    EventTriple os msg.holds (freeMsg msg) fun _ held => held = [] := by
  obtain ⟨self, data⟩ := msg
  have hdata : EventTriple os (EventMsg.holds ⟨self, data⟩) (freeData data)
      fun _ held => held = [self] := by
    match data with
    | none => exact Triple.pure rfl
    | some (copy, data) =>
      apply Triple.bind (deepCopyFree_spec data)
      rintro _ _ rfl
      exact Triple.free_last rfl
  apply Triple.bind hdata
  rintro _ _ rfl
  exact Triple.free_last rfl

theorem sendEvent_spec (posted : Bool) (msg : EventMsg) :
    EventTriple os msg.holds (sendEvent posted msg) fun accepted held =>
      held = (accepted.map EventMsg.holds).getD [] := by
  apply Triple.ite
  · intro _
    exact Triple.pure rfl
  · intro _
    apply Triple.bind (freeMsg_spec msg)
    rintro _ _ rfl
    exact Triple.pure rfl

theorem eventWrapper_spec (posted : Bool) (data : Option EventData)
    (hsafe : ∀ d, data = some d → Safe os.nullReadable d) :
    EventTriple os [] (eventWrapper posted data) fun accepted held =>
      held = (accepted.map EventMsg.holds).getD [] := by
  apply Triple.malloc
  intro msg _
  apply Triple.ite
  · rintro rfl
    apply Triple.of_null
    exact Triple.pure rfl
  intro _
  match data, hsafe with
  | none, _ => exact sendEvent_spec posted ⟨msg, none⟩
  | some data, hsafe =>
    apply Triple.malloc
    intro copy _
    apply Triple.ite
    · rintro rfl
      apply Triple.of_null
      apply Triple.free
      exact Triple.pure rfl
    intro _
    apply Triple.bind (deepCopy_spec (hsafe data rfl))
    rintro _ _ (_ | data)
    · apply Triple.free
      apply Triple.free
      exact Triple.pure rfl
    · exact sendEvent_spec posted ⟨msg, some (copy, data)⟩

/-- Over its whole life a safe message is balanced. -/
theorem life_spec (posted : Bool) (data : Option EventData)
    (hsafe : ∀ d, data = some d → Safe os.nullReadable d) :
    EventTriple os [] (life posted data) fun _ held => held = [] := by
  apply Triple.bind (eventWrapper_spec posted data hsafe)
  rintro (_ | msg) _ rfl
  · exact Triple.pure rfl
  · apply Triple.perform trivial
    exact freeMsg_spec msg

end Triples

section Unsafe
variable {nullReadable : Bool}

/-- What a message does that is posted. -/
def postedLog (mallocs : ℕ → Bool) (nullReadable : Bool) (data : EventData) :
    List (Action (Option EventData)) :=
  (exec (life true (some data)) ⟨mallocs, nullReadable⟩ 0).2

theorem addr_nullRead {data : EventData} (h : .null ∈ data.addrs) :
    .nullRead ∈ postedLog (fun _ => true) nullReadable data := by
  have hlen : ethAlen ≠ 0 := by decide
  cases data with
  | auth | rxMgmt | txStatus | eapolRx | other => cases h
  | assoc addr reqIes respIes respFrame =>
    have haddr := (List.mem_singleton.mp h).symm
    by_cases hreq : reqIes = .null <;> by_cases hresp : respIes = .null <;>
      by_cases hframe : respFrame = .null <;>
      simp [postedLog, exec, life, eventWrapper, deepCopy, deepCopyAssoc, copyBuffer, malloc,
        sendEvent, processEvent, freeMsg, freeData, deepCopyFree, free, readFrom, perform, hlen, haddr,
        hreq, hresp, hframe]
  | assocReject addr buffer | deauth addr buffer | disassoc addr buffer =>
    have haddr := (List.mem_singleton.mp h).symm
    by_cases hbuffer : buffer = .null <;>
      simp [postedLog, exec, life, eventWrapper, deepCopy, deepCopyAssocReject, deepCopyDeauth,
        deepCopyDisassoc, copyAddrAndBuffer, copyBuffer, malloc, sendEvent, processEvent, freeMsg,
        freeData, deepCopyFree, free, readFrom, perform, hlen, haddr, hbuffer]
  | unprotDeauth sa da | unprotDisassoc sa da =>
    have haddrs : sa = .null ∨ da = .null := by
      rcases List.mem_cons.mp h with h | h
      · exact .inl h.symm
      · exact .inr (List.mem_singleton.mp h).symm
    by_cases hsa : sa = .null <;> by_cases hda : da = .null <;>
      simp [hsa, hda] at haddrs <;>
      simp [postedLog, exec, life, eventWrapper, deepCopy, deepCopyUnprotDeauth,
        deepCopyUnprotDisassoc, copyAddrs, malloc, sendEvent, processEvent, freeMsg, freeData,
        deepCopyFree, free, readFrom, perform, hlen, hsa, hda]

/-- A received frame with one null pointer is not copied, but its other pointer is freed. -/
theorem eapolRx_frees {frame src : Pointer} (hone : ¬(frame = .null ↔ src = .null)) :
    (∃ p ∈ [frame, src], p ≠ .null ∧
      .freed p ∈ postedLog (fun _ => true) nullReadable (.eapolRx frame src)) := by
  by_cases hframe : frame = .null
  · have hsrc : src ≠ .null := fun h => hone (iff_of_true hframe h)
    refine ⟨src, List.mem_cons_of_mem _ (List.mem_singleton_self _), hsrc, ?_⟩
    simp [postedLog, exec, life, eventWrapper, deepCopy, deepCopyEapolRx, malloc, sendEvent,
      processEvent, freeMsg, freeData, deepCopyFree, free, perform, hframe, hsrc]
  · have hsrc : src = .null := by
      by_contra h
      exact hone (iff_of_false hframe h)
    refine ⟨frame, List.mem_cons_self .., hframe, ?_⟩
    simp [postedLog, exec, life, eventWrapper, deepCopy, deepCopyEapolRx, malloc, sendEvent,
      processEvent, freeMsg, freeData, deepCopyFree, free, perform, hframe, hsrc]

/-- The allocation after that of the first buffer of an association. -/
def failsSecond : ℕ → Bool := fun k => k ≠ 4

/-- Where the copy of the second buffer fails, only the address is freed. -/
theorem assoc_leaks {addr reqIes respIes respFrame : Pointer}
    (htwo : ¬(respIes = .null ∧ respFrame = .null ∨ reqIes = .null ∧ respFrame = .null ∨
      reqIes = .null ∧ respIes = .null)) :
    blocks (postedLog failsSecond nullReadable (.assoc addr reqIes respIes respFrame)) = [0, 1, 2, 3] ∧
      frees (postedLog failsSecond nullReadable (.assoc addr reqIes respIes respFrame)) =
        [.block 2, .block 1, .block 0] := by
  have hlen : ethAlen ≠ 0 := by decide
  have hlog : ∃ reads, (reads = [] ∨ reads = [.nullRead]) ∧
      postedLog failsSecond nullReadable (.assoc addr reqIes respIes respFrame) =
        [.allocated 0, .allocated 1, .allocated 2] ++ reads ++
          [.allocated 3, .freed (.block 2), .freed (.block 1), .freed (.block 0)] := by
    refine ⟨if addr = .null then [.nullRead] else [], ?_, ?_⟩
    · split
      · exact .inr rfl
      · exact .inl rfl
    · by_cases haddr : addr = .null <;> by_cases hreq : reqIes = .null <;>
        by_cases hresp : respIes = .null <;> by_cases hframe : respFrame = .null <;>
        simp [hreq, hresp, hframe] at htwo <;>
        simp [postedLog, failsSecond, exec, life, eventWrapper, deepCopy, deepCopyAssoc, copyBuffer,
          malloc, free, readFrom, processEvent, hlen, haddr, hreq, hresp, hframe]
  obtain ⟨reads, rfl | rfl, hlog⟩ := hlog
  · rw [hlog]
    exact ⟨rfl, rfl⟩
  · rw [hlog]
    exact ⟨rfl, rfl⟩

/-- The life of a message, with the outcome of each allocation and of the post. -/
def BalancedLife (nullReadable : Bool) (data : Option EventData) (mallocs : ℕ → Bool)
    (posted : Bool) : Prop :=
  Balanced ⟨mallocs, nullReadable⟩ (fun _ => True)
    (exec (life posted data) ⟨mallocs, nullReadable⟩ 0).2

theorem safe_of_balanced {data : EventData} (htheirs : ∀ p ∈ data.pointers, p.Theirs)
    (h : ∀ mallocs, BalancedLife nullReadable (some data) mallocs true) :
    Safe nullReadable data := by
  constructor
  · by_contra hnot
    obtain ⟨hreadable, haddrs⟩ := not_or.mp hnot
    apply hreadable
    apply (h fun _ => true).reads
    apply addr_nullRead
    by_contra hnull
    exact haddrs fun p hp heq => hnull (heq ▸ hp)
  · rintro addr reqIes respIes respFrame rfl
    by_contra htwo
    have hperm := (h failsSecond).perm.length_eq
    obtain ⟨hblocks, hfrees⟩ := @assoc_leaks nullReadable addr _ _ _ htwo
    unfold postedLog at hblocks hfrees
    rw [hblocks, hfrees] at hperm
    revert hperm
    decide
  · rintro frame src rfl
    by_contra hone
    obtain ⟨p, hp, hne, hfreed⟩ := @eapolRx_frees nullReadable _ _ hone
    exact (h fun _ => true).freed_notMem hne (htheirs p hp) hfreed

/-- For every event and payload of a producer: whatever allocations fail and whether the message is
accepted or not, exactly its blocks are freed, each once, if and only if it is a safe one. -/
theorem eventLife_iff (nullReadable : Bool) (data : Option EventData)
    (htheirs : ∀ d, data = some d → ∀ p ∈ d.pointers, p.Theirs) :
    (∀ mallocs posted, BalancedLife nullReadable data mallocs posted) ↔
      ∀ d, data = some d → Safe nullReadable d := by
  constructor
  · rintro h d rfl
    exact safe_of_balanced (htheirs d rfl) fun mallocs => h mallocs true
  · intro hsafe mallocs posted
    exact Triple.balanced (@life_spec ⟨mallocs, nullReadable⟩ posted data hsafe)

/-- A disassociation with its `ie`. -/
theorem disassoc_balanced :
    BalancedLife false (some (.disassoc (.foreign 0) (.foreign 1))) (fun _ => true) true := by
  apply (eventLife_iff false (some (.disassoc (.foreign 0) (.foreign 1))) ?_).mpr
  · rintro d hd
    obtain rfl := Option.some.inj hd
    constructor
    · exact .inr (by decide)
    · intro _ _ _ _ heq
      cases heq
    · intro _ _ heq
      cases heq
  · rintro d hd p hp
    obtain rfl := Option.some.inj hd
    have hp : p ∈ [Pointer.foreign 0, .foreign 1] := hp
    simp only [List.mem_cons, List.not_mem_nil, or_false] at hp
    rcases hp with rfl | rfl
    · trivial
    · trivial

/-- The copy of the request IEs is not freed where that of the response IEs fails. -/
theorem copy_leaks :
    ¬∀ (nullReadable : Bool) (data : Option EventData),
      (∀ d, data = some d → ∀ p ∈ d.pointers, p.Theirs) →
        ∀ mallocs posted, BalancedLife nullReadable data mallocs posted := by
  intro h
  have htheirs : ∀ d, some (EventData.assoc (.foreign 0) (.foreign 1) (.foreign 2) .null) = some d →
      ∀ p ∈ d.pointers, p.Theirs := by
    rintro d hd p hp
    obtain rfl := Option.some.inj hd
    have hp : p ∈ [Pointer.foreign 0, .foreign 1, .foreign 2, .null] := hp
    simp only [List.mem_cons, List.not_mem_nil, or_false] at hp
    rcases hp with rfl | rfl | rfl | rfl <;> trivial
  have hperm := (h true _ htheirs failsSecond true).perm.length_eq
  revert hperm
  decide

end Unsafe

end Wpa.Freertos.EventMemory
