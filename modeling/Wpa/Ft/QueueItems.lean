import Wpa.Ft.Queue

/-! Items, queues and timeouts over any run: an item that is allocated is in one queue and has one
timeout, until it is freed, unless a message that asks for a sequence number cannot be built. -/

namespace Wpa.FtQueue
open Lib

/-- Items are in one queue if they are allocated, and a timeout is one of theirs. What has been
allocated and freed since `was` accounts for what is allocated. -/
structure Weak (was : Ptr → Bool) (s : St) : Prop where
  nodup_rkhs : s.rkhs.Nodup
  seqs_mem : ∀ k, s.seqs.live k → k ∈ s.rkhs
  nodup : s.linked.Nodup
  live_iff : ∀ p, s.heap.live p ↔ p ∈ s.linked
  timeouts_nodup : (s.timeouts.map Prod.snd).Nodup
  timeouts_linked : ∀ t ∈ s.timeouts, t.2 ∈ s.linked
  bound : ∀ k, (s.queue k).length ≤ ftRrbMaxQueueLen
  balanced : ∀ p, (was p).toNat + s.out.count (.alloc p) =
    (s.heap.live p).toNat + s.out.count (.free p)
  intact : ∀ p, .corrupt p ∉ s.out

/-- Every item in a queue has a timeout, which is then its only one. -/
structure Sound (was : Ptr → Bool) (s : St) : Prop extends Weak was s where
  linked_timeouts : ∀ p ∈ s.linked, p ∈ s.timeouts.map Prod.snd

/-- An item that is allocated and has a timeout, but is in no queue. -/
structure Orphan (p : Ptr) (s : St) : Prop where
  timeout : p ∈ s.timeouts.map Prod.snd
  unlinked : p ∉ s.linked
  live : s.heap.live p

/-- The request gets to the point where its message cannot be built. -/
def Req.Fails (r : Req) (s : St) : Prop := (r.item s).isSome ∧ r.filled ∧ ¬r.build

variable {was : Ptr → Bool} {s : St} {p k : Ptr} {r : Req}

theorem Orphan.not_weak (h : Orphan p s) : ¬Weak was s := by
  intro hweak
  obtain ⟨t, ht, rfl⟩ := List.mem_map.mp h.timeout
  exact h.unlinked (hweak.timeouts_linked t ht)

/-- The states differ in the lists of the key holders only. -/
structure SameItems (s s' : St) : Prop where
  seqs : s'.seqs = s.seqs
  heap : s'.heap = s.heap
  timeouts : s'.timeouts = s.timeouts
  out : s'.out = s.out

theorem SameItems.queue {s' : St} (h : SameItems s s') : s'.queue = s.queue := by
  funext j
  rw [St.queue, h.seqs]
  rfl

theorem Sound.congr {s' : St} (h : Sound was s) (hsame : SameItems s s')
    (hnodup : s'.rkhs.Nodup) (hmem : ∀ k, s'.seqs.live k → k ∈ s'.rkhs)
    (hlinked : s'.linked.Perm s.linked) : Sound was s' := by
  refine ⟨⟨hnodup, hmem, hlinked.nodup_iff.mpr h.nodup, ?_, ?_, ?_, ?_, ?_, ?_⟩, ?_⟩
  · intro p
    rw [hsame.heap, hlinked.mem_iff]
    exact h.live_iff p
  · rw [hsame.timeouts]
    exact h.timeouts_nodup
  · intro t ht
    rw [hsame.timeouts] at ht
    exact hlinked.mem_iff.mpr (h.timeouts_linked t ht)
  · rw [hsame.queue]
    exact h.bound
  · rw [hsame.heap, hsame.out]
    exact h.balanced
  · rw [hsame.out]
    exact h.intact
  · intro p hp
    rw [hsame.timeouts]
    exact h.linked_timeouts p (hlinked.mem_iff.mp hp)

section Free

theorem queue_seqFree (s : St) (p k : Ptr) :
    (seqFree s p).queue k = (s.queue k).filter fun q => q ≠ p := by
  show ((s.seqs k).map _).getD [] = _
  rw [St.queue]
  cases s.seqs k <;> rfl

theorem linked_seqFree (s : St) (p : Ptr) :
    (seqFree s p).linked = s.linked.filter fun q => q ≠ p := by
  show s.rkhs.flatMap (seqFree s p).queue = _
  rw [St.linked, List.filter_flatMap]
  apply congrArg (List.flatMap · s.rkhs)
  funext k
  exact queue_seqFree s p k

theorem mem_linked_seqFree {q : Ptr} : q ∈ (seqFree s p).linked ↔ q ∈ s.linked ∧ q ≠ p := by
  rw [linked_seqFree, List.mem_filter, decide_eq_true_eq]

theorem mem_timeouts_seqFree {q : Ptr} :
    q ∈ (seqFree s p).timeouts.map Prod.snd ↔ q ∈ s.timeouts.map Prod.snd ∧ q ≠ p := by
  simp only [seqFree, List.mem_map, List.mem_filter, decide_eq_true_eq]
  constructor
  · rintro ⟨t, ⟨ht, hne⟩, rfl⟩
    exact ⟨⟨t, ht, rfl⟩, hne⟩
  · rintro ⟨⟨t, ht, rfl⟩, hne⟩
    exact ⟨t, ⟨ht, hne⟩, rfl⟩

/-- Freeing an item of a queue takes everything with it that refers to it. -/
theorem Weak.seqFree (h : Weak was s) (hp : p ∈ s.linked) : Weak was (seqFree s p) := by
  have hout : (FtQueue.seqFree s p).out = s.out ++ [.free p] := by
    show s.out ++ (if p ∈ s.linked then [] else [.corrupt p]) ++ [.free p] = _
    rw [if_pos hp, List.append_nil]
  refine ⟨h.nodup_rkhs, ?_, ?_, ?_, ?_, ?_, ?_, ?_, ?_⟩
  · intro k hk
    apply h.seqs_mem k
    have hk' : ((s.seqs k).map _).isSome := hk
    rw [Option.isSome_map] at hk'
    exact hk'
  · rw [linked_seqFree]
    exact h.nodup.filter _
  · intro q
    rw [mem_linked_seqFree]
    show ((s.heap.free p) q).isSome ↔ _
    by_cases hq : q = p
    · rw [hq, Heap.free_self]
      simp
    · rw [Heap.free_of_ne hq]
      exact (h.live_iff q).trans (and_iff_left hq).symm
  · exact List.Nodup.sublist (List.filter_sublist.map _) h.timeouts_nodup
  · intro t ht
    obtain ⟨ht, hne⟩ := List.mem_filter.mp ht
    exact mem_linked_seqFree.mpr ⟨h.timeouts_linked t ht, of_decide_eq_true hne⟩
  · intro k
    rw [queue_seqFree]
    exact Nat.le_trans (List.length_filter_le _ _) (h.bound k)
  · intro q
    have hbalanced := h.balanced q
    rw [hout, List.count_append, List.count_append]
    show _ = (((s.heap.free p) q).isSome).toNat + _
    by_cases hq : q = p
    · subst hq
      rw [(h.live_iff q).mpr hp] at hbalanced
      rw [Heap.free_self]
      simp only [List.count_singleton, beq_iff_eq, reduceCtorEq, if_false, if_true,
        Option.isSome_none, Bool.toNat_false, Bool.toNat_true] at *
      omega
    · rw [Heap.free_of_ne hq]
      have hne : ¬Out.free p = Out.free q := fun heq => hq (Out.free.inj heq).symm
      simp only [List.count_singleton, beq_iff_eq, reduceCtorEq, if_false, hne]
      exact hbalanced
  · intro q hq
    rw [hout] at hq
    rcases List.mem_append.mp hq with hq | hq
    · exact h.intact q hq
    · cases List.mem_singleton.mp hq

theorem Sound.seqFree (h : Sound was s) (hp : p ∈ s.linked) : Sound was (seqFree s p) := by
  refine ⟨h.toWeak.seqFree hp, ?_⟩
  intro q hq
  obtain ⟨hq, hne⟩ := mem_linked_seqFree.mp hq
  exact mem_timeouts_seqFree.mpr ⟨h.linked_timeouts q hq, hne⟩

theorem Orphan.seqFree (h : Orphan p s) {q : Ptr} (hne : p ≠ q) : Orphan p (seqFree s q) := by
  refine ⟨mem_timeouts_seqFree.mpr ⟨h.timeout, hne⟩, ?_, ?_⟩
  · exact fun hp => h.unlinked (mem_linked_seqFree.mp hp).1
  · show ((s.heap.free q) p).isSome
    rw [Heap.free_of_ne hne]
    exact h.live

end Free

section Request

/-- A request does nothing, allocates an item and frees it again, forgets it behind its timeout, or
puts it into the queue. -/
theorem seqReq_cases (s : St) (r : Req) :
    (r.item s = none ∧ seqReq s r = s) ∨
    ∃ p, r.item s = some p ∧
      ((¬r.filled ∧ seqReq s r = { s with
          heap := (s.heap.set p ⟨r.cb⟩).free p, out := s.out ++ [.alloc p] ++ [.free p] }) ∨
        (r.Fails s ∧ seqReq s r = { s with
          heap := s.heap.set p ⟨r.cb⟩, out := s.out ++ [.alloc p]
          timeouts := (r.wpaAuth, p) :: s.timeouts }) ∨
        (r.filled ∧ r.build ∧ seqReq s r = { s with
          heap := s.heap.set p ⟨r.cb⟩, out := s.out ++ [.alloc p]
          timeouts := (r.wpaAuth, p) :: s.timeouts
          seqs := s.seqs.set r.rkh (p :: s.queue r.rkh) })) := by
  unfold seqReq Req.Fails
  cases hitem : r.item s with
  | none => exact .inl ⟨rfl, rfl⟩
  | some p =>
    refine .inr ⟨p, rfl, ?_⟩
    cases hfilled : r.filled with
    | false => exact .inl ⟨by simp, rfl⟩
    | true =>
      cases hbuild : r.build with
      | false => exact .inr (.inl ⟨by simp, rfl⟩)
      | true => exact .inr (.inr ⟨rfl, rfl, rfl⟩)

/-- The item of a request is new, and there is room for it. -/
theorem item_some (hp : r.item s = some p) :
    s.heap.live p = false ∧ s.seqs.live r.rkh ∧ (s.queue r.rkh).length < ftRrbMaxQueueLen := by
  unfold Req.item at hp
  unfold Heap.live St.queue
  cases hseq : s.seqs r.rkh with
  | none =>
    rw [hseq] at hp
    cases hp
  | some queue =>
    rw [hseq] at hp
    dsimp only at hp
    split at hp
    · cases hp
    · rename_i hroom
      exact ⟨r.mem.alloc_fresh hp, rfl, Nat.not_le.mp hroom⟩

/-- A queue with one more item in front. -/
theorem perm_flatMap_cons {ks : List Ptr} {f g : Ptr → List Ptr} (hks : ks.Nodup) (hk : k ∈ ks)
    (hcons : g k = p :: f k) (hother : ∀ j, j ≠ k → g j = f j) :
    (ks.flatMap g).Perm (p :: ks.flatMap f) := by
  induction ks with
  | nil => cases hk
  | cons j ks ih =>
    rw [List.nodup_cons] at hks
    rw [List.flatMap_cons, List.flatMap_cons]
    by_cases hj : j = k
    · subst hj
      have hrest : ks.flatMap g = ks.flatMap f := by
        apply List.flatMap_congr
        intro i hi
        apply hother
        rintro rfl
        exact hks.1 hi
      rw [hcons, hrest]
      rfl
    · rw [hother j hj]
      have hmem := (List.mem_cons.mp hk).resolve_left (Ne.symm hj)
      exact ((ih hks.2 hmem).append_left (f j)).trans List.perm_middle

theorem queue_set (s : St) (k j : Ptr) (q : List Ptr) :
    ({ s with seqs := s.seqs.set k q } : St).queue j = if j = k then q else s.queue j := by
  show ((s.seqs.set k q) j).getD [] = _
  split
  · rename_i hj
    rw [hj, Heap.set_self]
    rfl
  · rename_i hj
    rw [Heap.set_of_ne hj]
    rfl

theorem linked_push (h : Weak was s) (hk : s.seqs.live k) :
    ({ s with seqs := s.seqs.set k (p :: s.queue k) } : St).linked.Perm (p :: s.linked) := by
  refine perm_flatMap_cons h.nodup_rkhs (h.seqs_mem k hk) ?_ ?_
  · rw [queue_set, if_pos rfl]
  · intro j hj
    rw [queue_set, if_neg hj]

/-- The account of an item that is allocated. -/
theorem balanced_alloc {heap heap' : Heap Item} {out : List Out} (hp : heap p = none)
    (hp' : (heap' p).isSome) (hother : ∀ q, q ≠ p → heap' q = heap q)
    (h : ∀ q, (was q).toNat + out.count (Out.alloc q) =
      (heap.live q).toNat + out.count (Out.free q))
    (q : Ptr) : (was q).toNat + (out ++ [Out.alloc p]).count (Out.alloc q) =
      (heap'.live q).toNat + (out ++ [Out.alloc p]).count (Out.free q) := by
  have hq := h q
  rw [List.count_append, List.count_append]
  by_cases hqp : q = p
  · subst hqp
    rw [Heap.live, hp] at hq
    rw [Heap.live, hp']
    simp only [List.count_singleton, beq_iff_eq, reduceCtorEq, if_false, if_true,
      Option.isSome_none, Bool.toNat_false, Bool.toNat_true] at *
    omega
  · rw [Heap.live] at hq
    rw [Heap.live, hother q hqp]
    have hne : ¬Out.alloc p = Out.alloc q := fun heq => hqp (Out.alloc.inj heq).symm
    simp only [List.count_singleton, beq_iff_eq, reduceCtorEq, if_false, hne]
    exact hq

theorem Weak.seqReq (h : Weak was s) (hok : ¬r.Fails s) :
    Weak was (seqReq s r) ∧ ∀ p ∈ s.linked, p ∈ (seqReq s r).linked := by
  rcases seqReq_cases s r with ⟨-, heq⟩ | ⟨p, hitem, ⟨-, heq⟩ | ⟨hfails, -⟩ | ⟨-, -, heq⟩⟩
  · rw [heq]
    exact ⟨h, fun _ hp => hp⟩
  · -- The item comes and goes.
    have hdead := Heap.eq_none_of_fresh (item_some hitem).1
    have hheap : (s.heap.set p ⟨r.cb⟩).free p = s.heap := by
      rw [Heap.free_set]
      exact (congrArg (Function.update s.heap p) hdead.symm).trans (Function.update_eq_self ..)
    rw [heq, hheap]
    refine ⟨⟨h.nodup_rkhs, h.seqs_mem, h.nodup, h.live_iff, h.timeouts_nodup, h.timeouts_linked,
      h.bound, ?_, ?_⟩, fun _ hp => hp⟩
    · intro q
      have hq := h.balanced q
      simp only [List.count_append, List.count_singleton, beq_iff_eq, reduceCtorEq, if_false,
        Out.alloc.injEq, Out.free.injEq]
      omega
    · intro q hq
      simp only [List.mem_append, List.mem_singleton, reduceCtorEq, or_false] at hq
      exact h.intact q hq
  · exact absurd hfails hok
  · obtain ⟨hfresh, hlive, hroom⟩ := item_some hitem
    have hdead := Heap.eq_none_of_fresh hfresh
    have hnot : p ∉ s.linked := by
      intro hp
      rw [(h.live_iff p).mpr hp] at hfresh
      cases hfresh
    have hperm : (FtQueue.seqReq s r).linked.Perm (p :: s.linked) := by
      rw [heq]
      exact linked_push h hlive
    have hmem : ∀ q, q ∈ (FtQueue.seqReq s r).linked ↔ q = p ∨ q ∈ s.linked := by
      intro q
      rw [hperm.mem_iff, List.mem_cons]
    refine ⟨⟨?_, ?_, ?_, ?_, ?_, ?_, ?_, ?_, ?_⟩, fun q hq => (hmem q).mpr (.inr hq)⟩
    · rw [heq]
      exact h.nodup_rkhs
    · intro k hk
      rw [heq] at hk ⊢
      by_cases hkr : k = r.rkh
      · rw [hkr]
        exact h.seqs_mem _ hlive
      · have hk' : ((s.seqs.set r.rkh _) k).isSome := hk
        rw [Heap.set_of_ne hkr] at hk'
        exact h.seqs_mem k hk'
    · rw [hperm.nodup_iff, List.nodup_cons]
      exact ⟨hnot, h.nodup⟩
    · intro q
      rw [hmem, heq]
      show ((s.heap.set p _) q).isSome ↔ _
      by_cases hq : q = p
      · rw [hq, Heap.set_self]
        simp
      · rw [Heap.set_of_ne hq, or_iff_right hq]
        exact h.live_iff q
    · rw [heq]
      show (p :: s.timeouts.map Prod.snd).Nodup
      rw [List.nodup_cons]
      refine ⟨?_, h.timeouts_nodup⟩
      intro hp
      obtain ⟨t, ht, rfl⟩ := List.mem_map.mp hp
      exact hnot (h.timeouts_linked t ht)
    · intro t ht
      rw [heq] at ht
      rw [hmem]
      rcases List.mem_cons.mp ht with rfl | ht
      · exact .inl rfl
      · exact .inr (h.timeouts_linked t ht)
    · intro k
      rw [heq]
      show (({ s with seqs := s.seqs.set r.rkh (p :: s.queue r.rkh) } : St).queue k).length ≤ _
      rw [queue_set]
      split
      · rw [List.length_cons]
        exact hroom
      · exact h.bound k
    · rw [heq]
      have hself : ((s.heap.set p ⟨r.cb⟩) p).isSome := by
        rw [Heap.set_self]
        rfl
      exact balanced_alloc hdead hself (fun q hq => Heap.set_of_ne hq) h.balanced
    · intro q hq
      rw [heq] at hq
      rcases List.mem_append.mp hq with hq | hq
      · exact h.intact q hq
      · cases List.mem_singleton.mp hq

theorem Sound.seqReq (h : Sound was s) (hok : ¬r.Fails s) : Sound was (seqReq s r) := by
  refine ⟨(h.toWeak.seqReq hok).1, ?_⟩
  rcases seqReq_cases s r with ⟨-, heq⟩ | ⟨p, hitem, ⟨-, heq⟩ | ⟨hfails, -⟩ | ⟨-, -, heq⟩⟩
  · rw [heq]
    exact h.linked_timeouts
  · rw [heq]
    exact h.linked_timeouts
  · exact absurd hfails hok
  · intro q hq
    rw [heq] at hq ⊢
    have hq' := (linked_push h.toWeak (item_some hitem).2.1).mem_iff.mp hq
    show q ∈ p :: s.timeouts.map Prod.snd
    rcases List.mem_cons.mp hq' with rfl | hq'
    · exact List.mem_cons_self ..
    · exact List.mem_cons_of_mem _ (h.linked_timeouts q hq')

/-- The item of a message that cannot be built is left behind, and was none before. -/
theorem orphan_of_fails (h : Weak was s) (hfails : r.Fails s) :
    ∃ p, Orphan p (seqReq s r) ∧ p ∉ s.linked := by
  rcases seqReq_cases s r with ⟨hnone, -⟩ | ⟨p, hitem, ⟨hempty, -⟩ | ⟨-, heq⟩ | ⟨-, hbuild, -⟩⟩
  · rw [Req.Fails, hnone] at hfails
    cases hfails.1
  · exact absurd hfails.2.1 hempty
  · have hfresh := (item_some hitem).1
    have hnot : p ∉ s.linked := by
      intro hp
      rw [(h.live_iff p).mpr hp] at hfresh
      cases hfresh
    refine ⟨p, ?_, hnot⟩
    rw [heq]
    refine ⟨List.mem_cons_self .., hnot, ?_⟩
    show ((s.heap.set p _) p).isSome
    rw [Heap.set_self]
    rfl
  · exact absurd hbuild hfails.2.2

/-- No request takes an item that is allocated. -/
theorem Orphan.seqReq (h : Orphan p s) (r : Req) : Orphan p (seqReq s r) := by
  rcases seqReq_cases s r with ⟨-, heq⟩ | ⟨q, hitem, hcase⟩
  · rw [heq]
    exact h
  · have hne : p ≠ q := by
      rintro rfl
      have hlive := h.live
      rw [(item_some hitem).1] at hlive
      cases hlive
    have hset : (s.heap.set q ⟨r.cb⟩) p = s.heap p := Heap.set_of_ne hne
    rcases hcase with ⟨-, heq⟩ | ⟨-, heq⟩ | ⟨-, -, heq⟩
    · rw [heq]
      refine ⟨h.timeout, h.unlinked, ?_⟩
      show (((s.heap.set q _).free q) p).isSome
      rw [Heap.free_of_ne hne, hset]
      exact h.live
    · rw [heq]
      refine ⟨List.mem_cons_of_mem _ h.timeout, h.unlinked, ?_⟩
      show ((s.heap.set q _) p).isSome
      rw [hset]
      exact h.live
    · rw [heq]
      refine ⟨List.mem_cons_of_mem _ h.timeout, ?_, ?_⟩
      · intro hp
        obtain ⟨k, hk, hp⟩ := List.mem_flatMap.mp hp
        have hp' : p ∈ ({ s with seqs := s.seqs.set r.rkh (q :: s.queue r.rkh) } : St).queue k := hp
        rw [queue_set] at hp'
        apply h.unlinked
        split at hp'
        · rename_i hkr
          rw [hkr] at hk
          exact List.mem_flatMap.mpr ⟨_, hk, (List.mem_cons.mp hp').resolve_left hne⟩
        · exact List.mem_flatMap.mpr ⟨k, hk, hp'⟩
      · show ((s.heap.set q _) p).isSome
        rw [hset]
        exact h.live

end Request

section Flush

/-- One of the requests of a callback gets to a message that cannot be built. -/
def RequestsFail : List Req → St → Prop
  | [], _ => False
  | r :: rs, s => r.Fails s ∨ RequestsFail rs (seqReq s r)

/-- One of the callbacks of a flush makes such a request. -/
def FlushFails (calls : Ptr → List Req) : List Ptr → St → Prop
  | [], _ => False
  | p :: ps, s =>
    RequestsFail (called true calls s p) s ∨
      FlushFails calls ps (seqFree ((called true calls s p).foldl seqReq s) p)

theorem foldl_seqReq_sound (rs : List Req) (h : Sound was s) (hok : ¬RequestsFail rs s) :
    Sound was (rs.foldl seqReq s) ∧ ∀ p ∈ s.linked, p ∈ (rs.foldl seqReq s).linked := by
  induction rs generalizing s with
  | nil => exact ⟨h, fun _ hp => hp⟩
  | cons r rs ih =>
    have hr : ¬r.Fails s := fun hr => hok (.inl hr)
    obtain ⟨hsound, hkeep⟩ := ih (h.seqReq hr) fun hrs => hok (.inr hrs)
    exact ⟨hsound, fun p hp => hkeep p ((h.toWeak.seqReq hr).2 p hp)⟩

theorem Orphan.foldl_seqReq (rs : List Req) (h : Orphan p s) :
    Orphan p (rs.foldl FtQueue.seqReq s) := by
  induction rs generalizing s with
  | nil => exact h
  | cons r rs ih => exact ih (h.seqReq r)

theorem orphan_of_requestsFail (rs : List Req) (h : Sound was s) (hfails : RequestsFail rs s) :
    ∃ p, Orphan p (rs.foldl seqReq s) ∧ p ∉ s.linked := by
  induction rs generalizing s with
  | nil => exact hfails.elim
  | cons r rs ih =>
    by_cases hr : r.Fails s
    · obtain ⟨p, hp, hnot⟩ := orphan_of_fails h.toWeak hr
      exact ⟨p, hp.foldl_seqReq rs, hnot⟩
    · obtain ⟨p, hp, hnot⟩ := ih (h.seqReq hr) (hfails.resolve_left hr)
      exact ⟨p, hp, fun hmem => hnot ((h.toWeak.seqReq hr).2 p hmem)⟩

theorem Orphan.flushItems (calls : Ptr → List Req) (ps : List Ptr) (h : Orphan p s) (hp : p ∉ ps) :
    Orphan p (flushItems true calls ps s) := by
  induction ps generalizing s with
  | nil => exact h
  | cons q ps ih =>
    rw [List.mem_cons, not_or] at hp
    exact ih ((h.foldl_seqReq _).seqFree hp.1) hp.2

/-- The items that are flushed are still linked when their turn comes. -/
theorem mem_linked_turn {s' : St} {q : Ptr} {ps : List Ptr} (hps : (q :: ps).Nodup)
    (hkeep : ∀ p ∈ s.linked, p ∈ s'.linked) (hlinked : ∀ p ∈ q :: ps, p ∈ s.linked) :
    q ∈ s'.linked ∧ ∀ p ∈ ps, p ∈ (FtQueue.seqFree s' q).linked := by
  rw [List.nodup_cons] at hps
  refine ⟨hkeep q (hlinked q (List.mem_cons_self ..)), ?_⟩
  intro p hp
  refine mem_linked_seqFree.mpr ⟨hkeep p (hlinked p (List.mem_cons_of_mem _ hp)), ?_⟩
  rintro rfl
  exact hps.1 hp

theorem flushItems_sound (calls : Ptr → List Req) (ps : List Ptr) (h : Sound was s)
    (hps : ps.Nodup) (hlinked : ∀ p ∈ ps, p ∈ s.linked) :
    (¬FlushFails calls ps s → Sound was (flushItems true calls ps s)) ∧
      (FlushFails calls ps s → ∃ p, Orphan p (flushItems true calls ps s)) := by
  induction ps generalizing s with
  | nil => exact ⟨fun _ => h, fun hfails => hfails.elim⟩
  | cons q ps ih =>
    by_cases hreq : RequestsFail (called true calls s q) s
    · refine ⟨fun hno => absurd (.inl hreq) hno, fun _ => ?_⟩
      obtain ⟨p, hp, hnot⟩ := orphan_of_requestsFail _ h hreq
      have hne : p ∉ q :: ps := fun hmem => hnot (hlinked p hmem)
      rw [List.mem_cons, not_or] at hne
      exact ⟨p, (hp.seqFree hne.1).flushItems calls ps hne.2⟩
    · obtain ⟨hsound, hkeep⟩ := foldl_seqReq_sound _ h hreq
      obtain ⟨hq, hrest⟩ := mem_linked_turn hps hkeep hlinked
      obtain ⟨hgood, hbad⟩ := ih (hsound.seqFree hq) (List.nodup_cons.mp hps).2 hrest
      exact ⟨fun hno => hgood fun hfails => hno (.inr hfails),
        fun hfails => hbad (hfails.resolve_left hreq)⟩

/-- A queue is flushed without callbacks when its key holder goes. -/
theorem flushItems_weak (calls : Ptr → List Req) (ps : List Ptr) (h : Weak was s) (hps : ps.Nodup)
    (hlinked : ∀ p ∈ ps, p ∈ s.linked) :
    Weak was (flushItems false calls ps s) ∧
      (flushItems false calls ps s).r0khs = s.r0khs ∧
      (flushItems false calls ps s).r1khs = s.r1khs ∧
      (∀ k, (flushItems false calls ps s).queue k = (s.queue k).filter fun q => q ∉ ps) ∧
      (Sound was s → Sound was (flushItems false calls ps s)) := by
  induction ps generalizing s with
  | nil =>
    refine ⟨h, rfl, rfl, fun k => ?_, id⟩
    simp [flushItems]
  | cons q ps ih =>
    obtain ⟨hq, hrest⟩ := mem_linked_turn hps (fun _ hp => hp) hlinked
    obtain ⟨hweak, hr0, hr1, hqueue, hsound⟩ := ih (h.seqFree hq) (List.nodup_cons.mp hps).2 hrest
    refine ⟨hweak, hr0, hr1, fun k => ?_, fun h => hsound (h.seqFree hq)⟩
    have hboth : ∀ p, (decide (p ≠ q) && decide (p ∉ ps)) = decide (p ∉ q :: ps) := by
      intro p
      simp [List.mem_cons, not_or]
    show (flushItems false calls ps (seqFree s q)).queue k = _
    rw [hqueue, queue_seqFree, List.filter_filter]
    apply List.filter_congr
    intro p _
    rw [Bool.and_comm]
    exact hboth p

end Flush

section Removal

theorem nodup_queue (h : Weak was s) (k : Ptr) (hk : k ∈ s.rkhs) : (s.queue k).Nodup :=
  (List.nodup_flatMap.mp h.nodup).1 k hk

theorem mem_linked (hk : k ∈ s.rkhs) (hp : p ∈ s.queue k) : p ∈ s.linked :=
  List.mem_flatMap.mpr ⟨k, hk, hp⟩

/-- Without its sequence state a key holder has no queue. -/
theorem freeSeq_weak (h : Weak was s) (hk : k ∈ s.rkhs) :
    Weak was (freeSeq s k) ∧ (freeSeq s k).r0khs = s.r0khs ∧ (freeSeq s k).r1khs = s.r1khs ∧
      (freeSeq s k).seqs k = none ∧ (∀ j, (freeSeq s k).queue j ⊆ s.queue j) ∧
      (Sound was s → Sound was (freeSeq s k)) := by
  obtain ⟨hweak, hr0, hr1, hqueue, hsound⟩ :=
    flushItems_weak (fun _ => []) (s.queue k) h (nodup_queue h k hk) fun p hp => mem_linked hk hp
  have hempty : (seqFlush s k false fun _ => []).queue k = [] := by
    rw [seqFlush, hqueue, List.filter_eq_nil_iff]
    intro p hp
    simp [hp]
  have hsame : (freeSeq s k).queue = (seqFlush s k false fun _ => []).queue := by
    funext j
    show (((seqFlush s k false fun _ => []).seqs.free k) j).getD [] = _
    by_cases hj : j = k
    · rw [hj, Heap.free_self, hempty]
      rfl
    · rw [Heap.free_of_ne hj]
      rfl
  have hlinked : (freeSeq s k).linked = (seqFlush s k false fun _ => []).linked := by
    show List.flatMap _ (seqFlush s k false fun _ => []).rkhs = _
    rw [hsame]
    rfl
  have hweak' : Weak was (freeSeq s k) := by
    refine ⟨hweak.nodup_rkhs, ?_, ?_, ?_, hweak.timeouts_nodup, ?_, ?_, hweak.balanced,
      hweak.intact⟩
    · intro j hj
      have hj' : (((seqFlush s k false fun _ => []).seqs.free k) j).isSome := hj
      by_cases hjk : j = k
      · rw [hjk, Heap.free_self] at hj'
        cases hj'
      · rw [Heap.free_of_ne hjk] at hj'
        exact hweak.seqs_mem j hj'
    · rw [hlinked]
      exact hweak.nodup
    · intro p
      rw [hlinked]
      exact hweak.live_iff p
    · intro t ht
      rw [hlinked]
      exact hweak.timeouts_linked t ht
    · intro j
      rw [hsame]
      exact hweak.bound j
  refine ⟨hweak', hr0, hr1, ?_, ?_, ?_⟩
  · show ((seqFlush s k false fun _ => []).seqs.free k) k = none
    rw [Heap.free_self]
  · intro j
    rw [hsame, seqFlush, hqueue]
    exact List.filter_subset_self _
  · intro h
    refine ⟨hweak', ?_⟩
    rw [hlinked]
    exact (hsound h).linked_timeouts

/-- A key holder without sequence state leaves the list. -/
theorem Sound.unlist {s' : St} (h : Sound was s) (hseq : s.seqs k = none) (hk : k ∈ s.rkhs)
    (hrkhs : s'.rkhs.Perm (s.rkhs.erase k)) (hsame : SameItems s s') : Sound was s' := by
  have hqueue := hsame.queue
  refine h.congr hsame (hrkhs.nodup_iff.mpr (h.nodup_rkhs.erase k)) ?_ ?_
  · intro j hj
    rw [hsame.seqs] at hj
    rw [hrkhs.mem_iff, h.nodup_rkhs.mem_erase_iff]
    refine ⟨?_, h.seqs_mem j hj⟩
    rintro rfl
    rw [Heap.live, hseq] at hj
    cases hj
  · have hnone : s.queue k = [] := by
      rw [St.queue, hseq]
      rfl
    have hall := (List.perm_cons_erase hk).flatMap_right s.queue
    rw [List.flatMap_cons, hnone, List.nil_append] at hall
    rw [St.linked, hqueue]
    exact (hrkhs.flatMap_right s.queue).trans hall.symm

end Removal

section Run

/-- A message that asks for a sequence number cannot be built in this step. -/
def BuildFails (s : St) : Input → Prop
  | .seqReq r => r.Fails s
  | .flush k calls => FlushFails calls (s.queue k) { s with out := [] }
  | _ => False

theorem Sound.enlist {s' : St} (h : Sound was s) (hk : k ∉ s.rkhs)
    (hrkhs : s'.rkhs.Perm (k :: s.rkhs)) (hsame : SameItems s s') : Sound was s' := by
  refine h.congr hsame ?_ ?_ ?_
  · rw [hrkhs.nodup_iff, List.nodup_cons]
    exact ⟨hk, h.nodup_rkhs⟩
  · intro j hj
    rw [hsame.seqs] at hj
    rw [hrkhs.mem_iff]
    exact List.mem_cons_of_mem _ (h.seqs_mem j hj)
  · have hnone : s.queue k = [] := by
      have hdead : s.seqs k = none := by
        by_contra hlive
        exact hk (h.seqs_mem k (by simpa [Heap.live, Option.isSome_iff_ne_none] using hlive))
      rw [St.queue, hdead]
      rfl
    have hall := hrkhs.flatMap_right s.queue
    rw [List.flatMap_cons, hnone, List.nil_append] at hall
    rw [St.linked, hsame.queue]
    exact hall

theorem Sound.initSeq (h : Sound was s) (hk : k ∈ s.rkhs) (hnone : s.seqs k = none) :
    Sound was { s with seqs := s.seqs.set k [] } := by
  have hqueue : ({ s with seqs := s.seqs.set k [] } : St).queue = s.queue := by
    funext j
    rw [queue_set]
    split
    · rename_i hj
      rw [hj, St.queue, hnone]
      rfl
    · rfl
  have hlinked : ({ s with seqs := s.seqs.set k [] } : St).linked = s.linked := by
    show List.flatMap _ s.rkhs = _
    rw [hqueue]
    rfl
  refine ⟨⟨h.nodup_rkhs, ?_, hlinked ▸ h.nodup, ?_, h.timeouts_nodup, ?_, ?_, h.balanced,
    h.intact⟩, ?_⟩
  · intro j hj
    have hj' : ((s.seqs.set k []) j).isSome := hj
    by_cases hjk : j = k
    · exact hjk ▸ hk
    · rw [Heap.set_of_ne hjk] at hj'
      exact h.seqs_mem j hj'
  · intro p
    rw [hlinked]
    exact h.live_iff p
  · rw [hlinked]
    exact h.timeouts_linked
  · intro j
    rw [hqueue]
    exact h.bound j
  · rw [hlinked]
    exact h.linked_timeouts

theorem seqTimeout_sound (h : Sound was s) (t : ℕ × Ptr) : Sound was (seqTimeout s t) := by
  unfold seqTimeout
  split
  · rename_i ht
    have hweak : Weak was { s with timeouts := s.timeouts.erase t } := by
      refine ⟨h.nodup_rkhs, h.seqs_mem, h.nodup, h.live_iff, ?_, ?_, h.bound, h.balanced, h.intact⟩
      · exact List.Nodup.sublist (List.erase_sublist.map _) h.timeouts_nodup
      · exact fun t' ht' => h.timeouts_linked t' (List.mem_of_mem_erase ht')
    refine ⟨hweak.seqFree (h.timeouts_linked t ht), ?_⟩
    intro q hq
    obtain ⟨hq, hne⟩ := mem_linked_seqFree.mp hq
    refine mem_timeouts_seqFree.mpr ⟨?_, hne⟩
    obtain ⟨t', ht', rfl⟩ := List.mem_map.mp (h.linked_timeouts q hq)
    refine List.mem_map.mpr ⟨t', (List.mem_erase_of_ne ?_).mpr ht', rfl⟩
    rintro rfl
    exact hne rfl
  · exact h

/-- The sequence state of some key holders is freed, and that of others before. -/
theorem foldl_freeSeq (ks : List Ptr) (h : Weak was s) (hks : ∀ k ∈ ks, k ∈ s.rkhs) :
    Weak was (ks.foldl freeSeq s) ∧ (ks.foldl freeSeq s).rkhs = s.rkhs ∧
      ∀ k, k ∈ ks ∨ s.queue k = [] → (ks.foldl freeSeq s).queue k = [] := by
  induction ks generalizing s with
  | nil => exact ⟨h, rfl, fun k hk => hk.resolve_left List.not_mem_nil⟩
  | cons k ks ih =>
    obtain ⟨hweak, hr0, hr1, hnone, hsub, -⟩ := freeSeq_weak h (hks k (List.mem_cons_self ..))
    have hrkhs : (freeSeq s k).rkhs = s.rkhs := by
      rw [St.rkhs, hr0, hr1]
      rfl
    obtain ⟨hweak', hrkhs', hempty⟩ := ih hweak fun j hj => by
      rw [hrkhs]
      exact hks j (List.mem_cons_of_mem _ hj)
    refine ⟨hweak', hrkhs'.trans hrkhs, ?_⟩
    intro j hj
    apply hempty j
    rcases hj with hj | hj
    · rcases List.mem_cons.mp hj with rfl | hj
      · right
        rw [St.queue, hnone]
        rfl
      · exact .inl hj
    · exact .inr (List.subset_nil.mp (hj ▸ hsub j))

theorem deinitSeq_sound (h : Sound was s) (wpaAuth : ℕ) : Sound was (deinitSeq s wpaAuth) := by
  have hweak : Weak was { s with timeouts := s.timeouts.filter fun t => t.1 ≠ wpaAuth } := by
    refine ⟨h.nodup_rkhs, h.seqs_mem, h.nodup, h.live_iff, ?_, ?_, h.bound, h.balanced, h.intact⟩
    · exact List.Nodup.sublist (List.filter_sublist.map _) h.timeouts_nodup
    · exact fun t ht => h.timeouts_linked t (List.mem_of_mem_filter ht)
  obtain ⟨hweak', hrkhs, hempty⟩ := foldl_freeSeq s.rkhs hweak fun _ hk => hk
  refine ⟨hweak', ?_⟩
  intro p hp
  obtain ⟨k, hk, hp⟩ := List.mem_flatMap.mp hp
  have hk' : k ∈ s.rkhs := hrkhs ▸ hk
  have hnone := hempty k (.inl hk')
  have hp' : p ∈ (s.rkhs.foldl freeSeq
      { s with timeouts := s.timeouts.filter fun t => t.1 ≠ wpaAuth }).queue k := hp
  rw [hnone] at hp'
  cases hp'

theorem delR0kh_sound (h : Sound was s) (k : Ptr) : Sound was (delR0kh s k) := by
  unfold delR0kh
  split
  · rename_i hk
    have hmem : k ∈ s.rkhs := List.mem_append_left _ hk
    obtain ⟨-, hr0, hr1, hnone, -, hsound⟩ := freeSeq_weak h.toWeak hmem
    have hmem' : k ∈ (freeSeq s k).rkhs := by
      rw [St.rkhs, hr0, hr1]
      exact hmem
    refine (hsound h).unlist hnone hmem' ?_ ⟨rfl, rfl, rfl, rfl⟩
    show ((freeSeq s k).r0khs.erase k ++ (freeSeq s k).r1khs).Perm _
    rw [St.rkhs, List.erase_append_left _ (hr0 ▸ hk)]
  · exact h

theorem delR1kh_sound (h : Sound was s) (k : Ptr) : Sound was (delR1kh s k) := by
  unfold delR1kh
  split
  · rename_i hk
    have hmem : k ∈ s.rkhs := List.mem_append_right _ hk
    obtain ⟨-, hr0, hr1, hnone, -, hsound⟩ := freeSeq_weak h.toWeak hmem
    have hmem' : k ∈ (freeSeq s k).rkhs := by
      rw [St.rkhs, hr0, hr1]
      exact hmem
    have hnot : k ∉ (freeSeq s k).r0khs := by
      rw [hr0]
      exact fun hk' => (List.disjoint_of_nodup_append h.nodup_rkhs) hk' hk
    refine (hsound h).unlist hnone hmem' ?_ ⟨rfl, rfl, rfl, rfl⟩
    show ((freeSeq s k).r0khs ++ (freeSeq s k).r1khs.erase k).Perm _
    rw [St.rkhs, List.erase_append_right _ hnot]
  · exact h

/-- A step keeps items, queues and timeouts together exactly if no message fails in it. -/
theorem handle_sound_iff (h : Sound was s) (hout : s.out = []) (i : Input) :
    Sound was (handle s i) ↔ ¬BuildFails s i := by
  cases i with
  | addR0kh k =>
    refine iff_of_true ?_ id
    show Sound was (if k ∈ s.rkhs then s else { s with r0khs := k :: s.r0khs })
    split
    · exact h
    · rename_i hk
      exact h.enlist hk (List.Perm.refl _) ⟨rfl, rfl, rfl, rfl⟩
  | addR1kh k =>
    refine iff_of_true ?_ id
    show Sound was (if k ∈ s.rkhs then s else { s with r1khs := k :: s.r1khs })
    split
    · exact h
    · rename_i hk
      exact h.enlist hk List.perm_middle ⟨rfl, rfl, rfl, rfl⟩
  | initSeq k ok =>
    refine iff_of_true ?_ id
    show Sound was (if k ∈ s.rkhs ∧ s.seqs k = none ∧ ok then _ else s)
    split
    · rename_i hk
      exact h.initSeq hk.1 hk.2.1
    · exact h
  | seqReq r =>
    constructor
    · intro hsound hfails
      obtain ⟨p, hp, -⟩ := orphan_of_fails h.toWeak hfails
      exact hp.not_weak hsound.toWeak
    · exact h.seqReq
  | timeout t => exact iff_of_true (seqTimeout_sound h t) id
  | flush k calls =>
    have hqueue : (s.queue k).Nodup ∧ ∀ p ∈ s.queue k, p ∈ s.linked := by
      by_cases hk : k ∈ s.rkhs
      · exact ⟨nodup_queue h.toWeak k hk, fun p hp => mem_linked hk hp⟩
      · have hdead : s.seqs k = none := by
          by_contra hlive
          exact hk (h.seqs_mem k (by simpa [Heap.live, Option.isSome_iff_ne_none] using hlive))
        rw [St.queue, hdead]
        exact ⟨List.nodup_nil, fun p hp => absurd hp List.not_mem_nil⟩
    obtain ⟨hgood, hbad⟩ := flushItems_sound calls (s.queue k) h hqueue.1 hqueue.2
    have hfails : BuildFails s (.flush k calls) ↔ FlushFails calls (s.queue k) s := by
      show FlushFails calls (s.queue k) { s with out := [] } ↔ _
      rw [← hout]
    rw [hfails]
    refine ⟨?_, hgood⟩
    intro hsound hfails
    obtain ⟨p, hp⟩ := hbad hfails
    exact hp.not_weak hsound.toWeak
  | delR0kh k => exact iff_of_true (delR0kh_sound h k) id
  | delR1kh k => exact iff_of_true (delR1kh_sound h k) id
  | deinitSeq wpaAuth => exact iff_of_true (deinitSeq_sound h wpaAuth) id

theorem init_sound : Sound (init.heap.live) init := by
  have hempty : ∀ p, p ∉ init.linked := fun p => List.not_mem_nil
  refine ⟨⟨List.nodup_nil, ?_, List.nodup_nil, ?_, List.nodup_nil, ?_, ?_, ?_, ?_⟩, ?_⟩
  · intro k hk
    cases hk
  · intro p
    exact iff_of_false (fun hp => by cases hp) (hempty p)
  · exact fun t ht => absurd ht List.not_mem_nil
  · exact fun k => Nat.zero_le _
  · exact fun p => rfl
  · exact fun p hp => absurd hp List.not_mem_nil
  · exact fun p hp => absurd hp (hempty p)

/-- The account starts anew with each step. -/
theorem Sound.restart (h : Sound was s) : Sound s.heap.live { s with out := [] } :=
  ⟨⟨h.nodup_rkhs, h.seqs_mem, h.nodup, h.live_iff, h.timeouts_nodup, h.timeouts_linked, h.bound,
    fun _ => rfl, fun _ hp => absurd hp List.not_mem_nil⟩, h.linked_timeouts⟩

/-- Everything is there for a request but the memory for its message. -/
def failedRequest : Req where
  wpaAuth := 0
  rkh := 0
  cb := true
  enc := true
  auth := true
  mem := .ofPlaces [1]
  random := true
  reltime := true
  dupEnc := true
  dupAuth := true
  build := false

end Run

end Wpa.FtQueue
