import Wpa.Bss.Table

/-! The structure of the BSS table over any run: both lists link the same entries, of which there
are no two for the same BSSID and SSID, and no pointer to an entry is left behind. The identifiers
are in order until they have wrapped. -/

namespace Wpa.BssTable
open Lib Bytes Ie

structure Inv (s : St) : Prop where
  perm : s.bss.Perm s.bssId
  nodup : s.bss.Nodup
  live : ∀ p ∈ s.bss, s.heap.live p
  num : s.numBss = s.bss.length
  unique : ∀ p ∈ s.bss, ∀ q ∈ s.bss, (s.entry p).key = (s.entry q).key → p = q
  last_nodup : s.lastScanRes.Nodup
  last_mem : ∀ p ∈ s.lastScanRes, p ∈ s.bss
  pending_mem : ∀ p, s.pendingConnect.bind ConnectWork.bss = some p → p ∈ s.bss
  fits : ∀ p ∈ s.bss, (s.entry p).Fits

/-- The identifiers in the order of the list `bss_id`. -/
def St.ids (s : St) : List ℕ := s.bssId.map fun p => (s.entry p).id

def Note.isAdded : Note → Bool
  | .added _ => true
  | .removed _ => false

/-- How many entries the notifications say were added. -/
def added (notes : List Note) : ℕ := notes.countP Note.isAdded

@[simp] theorem added_append (notes notes' : List Note) :
    added (notes ++ notes') = added notes + added notes' := List.countP_append

theorem updatePendingConnect_bss (work : Option ConnectWork) (p : Ptr) (new : Option Ptr) :
    (updatePendingConnect work p new).bind ConnectWork.bss =
      if work.bind ConnectWork.bss = some p then new else work.bind ConnectWork.bss := by
  cases work with
  | none => rfl
  | some cwork =>
    simp only [updatePendingConnect, Option.map_some, Option.bind_some]
    split <;> rfl

theorem updatePendingConnect_self (work : Option ConnectWork) (p : Ptr) :
    updatePendingConnect work p (some p) = work := by
  cases work with
  | none => rfl
  | some cwork =>
    rcases cwork with ⟨bss, removed⟩
    simp only [updatePendingConnect, Option.map_some, Option.isNone_some, Bool.or_false]
    split
    · rename_i hbss
      rw [hbss]
    · rfl

section Steps
variable {s : St} {p q : Ptr}

theorem Inv.mem_bssId (h : Inv s) : p ∈ s.bssId ↔ p ∈ s.bss := h.perm.mem_iff.symm

theorem Inv.nodup_bssId (h : Inv s) : s.bssId.Nodup := h.perm.nodup_iff.mp h.nodup

/-- Entries have gone, or have changed in what does not tell them apart; the current BSS is still
the same pointer. -/
structure Shrinks (s s' : St) : Prop where
  inv : Inv s'
  bss : s'.bss ⊆ s.bss
  ids : s'.ids.Sublist s.ids
  key : ∀ p ∈ s'.bss, (s'.entry p).key = (s.entry p).key
  nextId : s'.bssNextId = s.bssNextId
  notes : added s'.notes = added s.notes
  current : s'.currentBss = s.currentBss

theorem Shrinks.refl (h : Inv s) : Shrinks s s :=
  ⟨h, fun _ hp => hp, List.Sublist.refl _, fun _ _ => rfl, rfl, rfl, rfl⟩

theorem Shrinks.trans {s₁ s₂ s₃ : St} (h₁ : Shrinks s₁ s₂) (h₂ : Shrinks s₂ s₃) : Shrinks s₁ s₃ :=
  ⟨h₂.inv, fun _ hp => h₁.bss (h₂.bss hp), h₂.ids.trans h₁.ids,
    fun p hp => (h₂.key p hp).trans (h₁.key p (h₂.bss hp)), h₂.nextId.trans h₁.nextId,
    h₂.notes.trans h₁.notes, h₂.current.trans h₁.current⟩

theorem mem_bssRemove (h : Inv s) : q ∈ (bssRemove s p).bss ↔ q ≠ p ∧ q ∈ s.bss :=
  h.nodup.mem_erase_iff

theorem shrinks_bssRemove (h : Inv s) (hp : p ∈ s.bss) : Shrinks s (bssRemove s p) := by
  have hmem : ∀ q ∈ (bssRemove s p).bss, q ≠ p ∧ q ∈ s.bss := fun q => (mem_bssRemove h).mp
  have hentry : ∀ q ∈ (bssRemove s p).bss, (bssRemove s p).entry q = s.entry q :=
    fun q hq => entry_bssRemove s p q (hmem q hq).1
  refine ⟨⟨h.perm.erase p, h.nodup.erase p, ?_, ?_, ?_, h.last_nodup.erase p, ?_, ?_, ?_⟩,
    List.erase_subset, ?_, ?_, rfl, ?_, rfl⟩
  · intro q hq
    show ((s.heap.free p) q).isSome
    rw [Heap.free_of_ne (hmem q hq).1]
    exact h.live q (hmem q hq).2
  · show s.numBss - 1 = (s.bss.erase p).length
    rw [h.num, List.length_erase_of_mem hp]
  · intro q hq r hr hkey
    rw [hentry q hq, hentry r hr] at hkey
    exact h.unique q (hmem q hq).2 r (hmem r hr).2 hkey
  · intro q hq
    have hq' := h.last_nodup.mem_erase_iff.mp hq
    exact (mem_bssRemove h).mpr ⟨hq'.1, h.last_mem q hq'.2⟩
  · intro q hq
    have hpending := updatePendingConnect_bss s.pendingConnect p none
    rw [show (bssRemove s p).pendingConnect = updatePendingConnect s.pendingConnect p none from rfl,
      hpending] at hq
    split at hq
    · cases hq
    · rename_i hne
      exact (mem_bssRemove h).mpr ⟨fun heq => hne (heq ▸ hq), h.pending_mem q hq⟩
  · intro q hq
    rw [hentry q hq]
    exact h.fits q (hmem q hq).2
  · have hids : (bssRemove s p).ids = (s.bssId.erase p).map fun q => (s.entry q).id := by
      apply List.map_congr_left
      intro q hq
      rw [entry_bssRemove s p q (h.nodup_bssId.mem_erase_iff.mp hq).1]
    rw [hids]
    exact List.erase_sublist.map _
  · intro q hq
    rw [hentry q hq]
  · show added (s.notes ++ [.removed _]) = _
    rw [added_append]
    rfl

/-- A change of an entry in place. -/
theorem shrinks_setEntry (h : Inv s) {b : Bss} (hkey : b.key = (s.entry p).key)
    (hid : b.id = (s.entry p).id) (hfits : b.Fits) : Shrinks s (s.setEntry p b) := by
  have hentry : ∀ q, (s.setEntry p b).entry q = if q = p then b else s.entry q := by
    intro q
    split
    · rename_i hq
      rw [hq, entry_setEntry_self]
    · rename_i hq
      exact entry_setEntry_of_ne s p q b hq
  have hkeys : ∀ q, ((s.setEntry p b).entry q).key = (s.entry q).key := by
    intro q
    rw [hentry]
    split
    · rename_i hq
      rw [hq, hkey]
    · rfl
  refine ⟨⟨h.perm, h.nodup, ?_, h.num, ?_, h.last_nodup, h.last_mem, h.pending_mem, ?_⟩,
    fun _ hq => hq, ?_, fun q _ => hkeys q, rfl, rfl, rfl⟩
  · intro q hq
    show ((s.heap.set p b) q).isSome
    by_cases hqp : q = p
    · rw [hqp, Heap.set_self]
      rfl
    · rw [Heap.set_of_ne hqp]
      exact h.live q hq
  · intro q hq r hr hqr
    rw [hkeys, hkeys] at hqr
    exact h.unique q hq r hr hqr
  · intro q hq
    rw [hentry]
    split
    · exact hfits
    · exact h.fits q hq
  · have hids : (s.setEntry p b).ids = s.ids := by
      apply List.map_congr_left
      intro q hq
      rw [hentry]
      split
      · rename_i hqp
        rw [hqp, hid]
      · rfl
    rw [hids]

/-- A loop over the entries of a table that changes or removes the entry of its turn, but not the
current BSS. -/
theorem foldl_shrinks {f : St → Ptr → St}
    (hf : ∀ s p, Inv s → p ∈ s.bss → Shrinks s (f s p) ∧
      ∀ q ∈ s.bss, q ≠ p ∨ s.currentBss = some q → q ∈ (f s p).bss)
    (l : List Ptr) (h : Inv s) (hl : l.Nodup) (hmem : l ⊆ s.bss) :
    Shrinks s (l.foldl f s) ∧
      ∀ q ∈ s.bss, s.currentBss = some q → q ∈ (l.foldl f s).bss := by
  induction l generalizing s with
  | nil => exact ⟨Shrinks.refl h, fun q hq _ => hq⟩
  | cons p l ih =>
    rw [List.nodup_cons] at hl
    obtain ⟨hshrinks, hkeep⟩ := hf s p h (hmem (List.mem_cons_self ..))
    have hrest : l ⊆ (f s p).bss := by
      intro q hq
      apply hkeep q (hmem (List.mem_cons_of_mem _ hq))
      left
      rintro rfl
      exact hl.1 hq
    obtain ⟨hshrinks', hkeep'⟩ := ih hshrinks.inv hl.2 hrest
    refine ⟨hshrinks.trans hshrinks', ?_⟩
    intro q hq hcur
    exact hkeep' q (hkeep q hq (.inr hcur)) (hshrinks.current.trans hcur)

/-- An entry that is not in use is not the current one. -/
theorem ne_of_not_inUse (huse : ¬bssInUse s p = true) (hq : s.currentBss = some q) : q ≠ p := by
  rintro rfl
  exact huse (if_pos hq)

theorem removed_of_not_inUse (h : Inv s) (huse : ¬bssInUse s p = true) (hp : p ∈ s.bss) :
    Shrinks s (bssRemove s p) ∧
      ∀ q ∈ s.bss, q ≠ p ∨ s.currentBss = some q → q ∈ (bssRemove s p).bss := by
  refine ⟨shrinks_bssRemove h hp, ?_⟩
  rintro q hq (hne | hcur)
  · exact (mem_bssRemove h).mpr ⟨hne, hq⟩
  · exact (mem_bssRemove h).mpr ⟨ne_of_not_inUse huse hcur, hq⟩

theorem expire_shrinks (info : Option ScanInfo) (h : Inv s) (hp : p ∈ s.bss) :
    Shrinks s (expire info s p) ∧
      ∀ q ∈ s.bss, q ≠ p ∨ s.currentBss = some q → q ∈ (expire info s p).bss := by
  have hself : Shrinks s s ∧ ∀ q ∈ s.bss, q ≠ p ∨ s.currentBss = some q → q ∈ s.bss :=
    ⟨Shrinks.refl h, fun q hq _ => hq⟩
  unfold expire
  split
  · exact hself
  · rename_i hskip
    have huse : ¬bssInUse s p = true := fun huse => hskip (by rw [huse]; rfl)
    -- The count is changed in place, so the entry is still linked when it is removed.
    obtain ⟨s₁, hs₁, h₁, hbss₁⟩ : ∃ s₁, s₁ = (if (s.entry p).lastUpdateIdx < s.bssUpdateIdx then
        s.setEntry p { s.entry p with
          scanMissCount := ((s.entry p).scanMissCount + 1) % 2 ^ 32 } else s) ∧
        Shrinks s s₁ ∧ s₁.bss = s.bss := by
      refine ⟨_, rfl, ?_⟩
      split
      · exact ⟨shrinks_setEntry h rfl rfl (h.fits p hp), rfl⟩
      · exact ⟨Shrinks.refl h, rfl⟩
    rw [← hs₁]
    dsimp only
    split
    · have hp₁ : p ∈ s₁.bss := hbss₁ ▸ hp
      refine ⟨h₁.trans (shrinks_bssRemove h₁.inv hp₁), ?_⟩
      intro q hq hor
      refine (mem_bssRemove h₁.inv).mpr ⟨?_, hbss₁ ▸ hq⟩
      rcases hor with hne | hcur
      · exact hne
      · exact ne_of_not_inUse huse hcur
    · exact ⟨h₁, fun q hq _ => hbss₁ ▸ hq⟩

theorem flushOne_shrinks (h : Inv s) (hp : p ∈ s.bss) :
    Shrinks s (flushOne s p) ∧
      ∀ q ∈ s.bss, q ≠ p ∨ s.currentBss = some q → q ∈ (flushOne s p).bss := by
  unfold flushOne
  split
  · exact ⟨Shrinks.refl h, fun q hq _ => hq⟩
  · rename_i huse
    exact removed_of_not_inUse h huse hp

theorem flushByAgeFrom_shrinks (t : Reltime) (l : List Ptr) (h : Inv s) (hl : l.Nodup)
    (hmem : l ⊆ s.bss) :
    Shrinks s (flushByAgeFrom t l s) ∧
      ∀ q ∈ s.bss, s.currentBss = some q → q ∈ (flushByAgeFrom t l s).bss := by
  induction l generalizing s with
  | nil => exact ⟨Shrinks.refl h, fun q hq _ => hq⟩
  | cons p l ih =>
    rw [List.nodup_cons] at hl
    have hp := hmem (List.mem_cons_self ..)
    have hrest : l ⊆ s.bss := fun q hq => hmem (List.mem_cons_of_mem _ hq)
    rw [flushByAgeFrom]
    split
    · exact ih h hl.2 hrest
    · rename_i huse
      split
      · obtain ⟨hshrinks, hkeep⟩ := removed_of_not_inUse h huse hp
        have hrest' : l ⊆ (bssRemove s p).bss := by
          intro q hq
          apply hkeep q (hrest hq)
          left
          rintro rfl
          exact hl.1 hq
        obtain ⟨hshrinks', hkeep'⟩ := ih hshrinks.inv hl.2 hrest'
        exact ⟨hshrinks.trans hshrinks', fun q hq hcur =>
          hkeep' q (hkeep q hq (.inr hcur)) (hshrinks.current.trans hcur)⟩
      · exact ⟨Shrinks.refl h, fun q hq _ => hq⟩

/-- An entry that has been moved in memory, or changed where it is, at the end of its list. -/
def moved (s : St) (p q : Ptr) (b : Bss) : St :=
  { relocate s p q b with bss := s.bss.erase p ++ [q] }

theorem relocate_self (b : Bss) : relocate s p p b = s.setEntry p b := by
  have hcur : (if s.currentBss = some p then some p else s.currentBss) = s.currentBss := by
    split
    · rename_i hcur
      exact hcur.symm
    · rfl
  rw [relocate, Heap.set_free, replace_self, replace_self, updatePendingConnect_self, hcur]
  rfl

theorem setEntry_entry (hp : s.heap.live p) : s.setEntry p (s.entry p) = s := by
  show { s with heap := s.heap.set p (s.heap.read s.env.stale p) } = s
  rw [Heap.set_read hp]

theorem entry_relocate_self (b : Bss) : (relocate s p q b).entry q = b := Heap.read_set_self

/-- The new elements are stored in place, or in an entry that is allocated for them. -/
theorem storeIes_eq (res : ScanRes) (mem : Memory) (hp : s.heap.live p) (hfits : (s.entry p).Fits) :
    ∃ q b, storeIes s p res mem = (relocate s p q b, q) ∧ (q = p ∨ s.heap.live q = false) ∧
      b.key = (s.entry p).key ∧ b.id = (s.entry p).id ∧ b.Fits := by
  have hself : relocate s p p (s.entry p) = s := by
    rw [relocate_self, setEntry_entry hp]
  unfold storeIes
  dsimp only
  split
  · refine ⟨p, s.entry p, ?_, .inl rfl, rfl, rfl, hfits⟩
    rw [hself]
  · split
    · rename_i hroom
      refine ⟨p, { s.entry p with
        ies := (s.entry p).ies.writeAt 0 res.allIes
        ieLen := res.ies.length
        beaconIeLen := res.beaconIes.length }, ?_, .inl rfl, rfl, rfl, ?_⟩
      · rw [relocate_self]
      · show _ ≤ ((s.entry p).ies.writeAt 0 res.allIes).length
        rw [writeAt_length]
        exact hroom.trans hfits
    · cases hrealloc : mem.realloc s.heap.live p with
      | none =>
        refine ⟨p, s.entry p, ?_, .inl rfl, rfl, rfl, hfits⟩
        rw [hself]
      | some q =>
        refine ⟨q, _, rfl, mem.realloc_fresh hrealloc, rfl, rfl, ?_⟩
        show _ ≤ (res.ies ++ res.beaconIes).length
        rw [List.length_append]

/-- An update leaves the table alone, or moves the entry to the end. -/
theorem bssUpdate_eq (h : Inv s) (res : ScanRes) (fetchTime : Reltime) (mem : Memory)
    (hp : p ∈ s.bss) (hbssid : (s.entry p).bssid = res.bssid) :
    bssUpdate s p res fetchTime mem = (s, p) ∨
      ∃ q b, bssUpdate s p res fetchTime mem = (moved s p q b, q) ∧
        (q = p ∨ s.heap.live q = false) ∧ b.key = (s.entry p).key ∧ b.id = (s.entry p).id ∧
        b.Fits := by
  unfold bssUpdate
  dsimp only
  split
  · exact .inl rfl
  · right
    obtain ⟨b₁, hb₁⟩ : ∃ b₁, b₁ = copyRes { s.entry p with
        scanMissCount := 0, lastUpdateIdx := s.bssUpdateIdx } res fetchTime := ⟨_, rfl⟩
    have hkey₁ : b₁.key = (s.entry p).key := by
      rw [hb₁, Bss.key, Bss.key, hbssid]
      rfl
    have hid₁ : b₁.id = (s.entry p).id := by
      rw [hb₁]
      rfl
    have hfits₁ : b₁.Fits := by
      rw [hb₁]
      exact h.fits p hp
    obtain ⟨s₂, hs₂⟩ : ∃ s₂, s₂ = takeOut s p b₁ := ⟨_, rfl⟩
    have hentry₂ : s₂.entry p = b₁ := by
      rw [hs₂]
      exact entry_setEntry_self s p b₁
    have hlive₂ : ∀ q, s₂.heap.live q = false → q ≠ p ∧ s.heap.live q = false := by
      intro q hq
      have hheap : s₂.heap = s.heap.set p b₁ := by
        rw [hs₂]
        rfl
      rw [hheap] at hq
      have hne : q ≠ p := by
        rintro rfl
        rw [Heap.live, Heap.set_self] at hq
        cases hq
      rw [Heap.live, Heap.set_of_ne hne] at hq
      exact ⟨hne, hq⟩
    have hp₂ : s₂.heap.live p := by
      by_contra hlive
      exact (hlive₂ p (by simpa using hlive)).1 rfl
    obtain ⟨q, b₂, hstore, hq, hkey₂, hid₂, hfits₂⟩ :=
      storeIes_eq res mem hp₂ (by rw [hentry₂]; exact hfits₁)
    have hmove : ∀ b, { (relocate s₂ p q b) with bss := (relocate s₂ p q b).bss ++ [q] } =
        moved s p q b := by
      intro b
      rw [hs₂]
      simp only [relocate, moved, takeOut, Heap.free_set]
      rfl
    refine ⟨q, if iesChanged (s.entry p) res then setHessid b₂ else b₂, ?_, ?_, ?_, ?_, ?_⟩
    · rw [← hb₁, ← hs₂, hstore]
      dsimp only
      rw [← hmove, entry_relocate_self]
      split
      · simp only [St.setEntry, relocate, Heap.set_set]
      · rfl
    · rcases hq with hq | hq
      · exact .inl hq
      · exact .inr (hlive₂ q hq).2
    · split
      · rw [setHessid_key, hkey₂, hentry₂, hkey₁]
      · rw [hkey₂, hentry₂, hkey₁]
    · split
      · rw [setHessid_id, hid₂, hentry₂, hid₁]
      · rw [hid₂, hentry₂, hid₁]
    · split
      · exact hfits₂
      · exact hfits₂

section Moved
variable {b : Bss}

theorem entry_moved (h : Inv s) {r : Ptr} (hq : q = p ∨ s.heap.live q = false)
    (hr : r ∈ s.bss.erase p) : (moved s p q b).entry r = s.entry r ∧ r ≠ q := by
  have hr' := h.nodup.mem_erase_iff.mp hr
  have hrq : r ≠ q := by
    rintro rfl
    rcases hq with rfl | hq
    · exact hr'.1 rfl
    · rw [h.live r hr'.2] at hq
      cases hq
  refine ⟨?_, hrq⟩
  show ((s.heap.free p).set q b).read s.env.stale r = _
  rw [Heap.read_set_of_ne hrq, Heap.read_free_of_ne hr'.1]
  rfl

theorem mem_moved {r : Ptr} : r ∈ (moved s p q b).bss ↔ r ∈ s.bss.erase p ∨ r = q := by
  show r ∈ s.bss.erase p ++ [q] ↔ _
  rw [List.mem_append, List.mem_singleton]

/-- Where `p` was, there is `q` now. -/
theorem mem_moved_of_mem {r : Ptr} (hr : r ∈ s.bss) :
    (if r = p then q else r) ∈ (moved s p q b).bss := by
  rw [mem_moved]
  split
  · exact .inr rfl
  · rename_i hne
    exact .inl ((List.mem_erase_of_ne hne).mpr hr)

theorem Inv.moved (h : Inv s) (hp : p ∈ s.bss) (hq : q = p ∨ s.heap.live q = false)
    (hkey : b.key = (s.entry p).key) (hfits : b.Fits) : Inv (moved s p q b) := by
  have hself : (BssTable.moved s p q b).entry q = b := entry_relocate_self b
  have hfresh : q = p ∨ q ∉ s.bss := by
    refine hq.imp_right fun hdead hmem => ?_
    rw [h.live q hmem] at hdead
    cases hdead
  have hnot : q ∉ s.bss.erase p := fun hmem => (entry_moved (b := b) h hq hmem).2 rfl
  have hperm : (s.bss.erase p ++ [q]).Perm (q :: s.bss.erase p) := List.perm_append_comm
  -- An entry that is left has the key of one that is not at the new place.
  have hne : ∀ r ∈ s.bss.erase p, (s.entry r).key ≠ b.key := by
    intro r hr heq
    have hr' := h.nodup.mem_erase_iff.mp hr
    exact hr'.1 (h.unique r hr'.2 p hp (heq.trans hkey))
  refine ⟨?_, ?_, ?_, ?_, ?_, nodup_replace h.last_nodup ?_, ?_, ?_, ?_⟩
  · exact hperm.trans (((h.perm.erase p).cons q).trans
      (perm_replace (h.mem_bssId.mpr hp)).symm)
  · rw [show (BssTable.moved s p q b).bss = s.bss.erase p ++ [q] from rfl, hperm.nodup_iff,
      List.nodup_cons]
    exact ⟨hnot, h.nodup.erase p⟩
  · intro r hr
    rcases mem_moved.mp hr with hr | rfl
    · have hr' := h.nodup.mem_erase_iff.mp hr
      show (((s.heap.free p).set q b) r).isSome
      rw [Heap.set_of_ne (entry_moved (b := b) h hq hr).2, Heap.free_of_ne hr'.1]
      exact h.live r hr'.2
    · show (((s.heap.free p).set r b) r).isSome
      rw [Heap.set_self]
      rfl
  · have hpos := List.length_pos_of_mem hp
    show s.numBss = (s.bss.erase p ++ [q]).length
    rw [h.num, List.length_append, List.length_erase_of_mem hp, List.length_singleton]
    omega
  · intro r hr t ht hkeys
    rcases mem_moved.mp hr with hr₁ | rfl <;> rcases mem_moved.mp ht with ht₁ | rfl
    · rw [(entry_moved h hq hr₁).1, (entry_moved h hq ht₁).1] at hkeys
      exact h.unique r (List.mem_of_mem_erase hr₁) t (List.mem_of_mem_erase ht₁) hkeys
    · rw [(entry_moved h hq hr₁).1, hself] at hkeys
      exact absurd hkeys (hne r hr₁)
    · rw [(entry_moved h hq ht₁).1, hself] at hkeys
      exact absurd hkeys.symm (hne t ht₁)
    · rfl
  · exact hfresh.imp_right fun hno hmem => hno (h.last_mem q hmem)
  · intro r hr
    rw [mem_moved]
    rcases mem_replace hr with rfl | hr
    · exact .inr rfl
    · have hr' := h.last_nodup.mem_erase_iff.mp hr
      exact .inl (h.nodup.mem_erase_iff.mpr ⟨hr'.1, h.last_mem r hr'.2⟩)
  · intro r hr
    have hpending := updatePendingConnect_bss s.pendingConnect p (some q)
    rw [show (BssTable.moved s p q b).pendingConnect =
      updatePendingConnect s.pendingConnect p (some q) from rfl, hpending] at hr
    rw [mem_moved]
    split at hr
    · cases hr
      exact .inr rfl
    · rename_i hother
      refine .inl (h.nodup.mem_erase_iff.mpr ⟨?_, h.pending_mem r hr⟩)
      rintro rfl
      exact hother hr
  · intro r hr
    rcases mem_moved.mp hr with hr | rfl
    · rw [(entry_moved h hq hr).1]
      exact h.fits r (List.mem_of_mem_erase hr)
    · rw [hself]
      exact hfits

theorem ids_moved (h : Inv s) (hp : p ∈ s.bss) (hq : q = p ∨ s.heap.live q = false)
    (hid : b.id = (s.entry p).id) : (moved s p q b).ids = s.ids := by
  have hself : (moved s p q b).entry q = b := entry_relocate_self b
  apply map_replace (h.mem_bssId.mpr hp) h.nodup_bssId
  · rw [hself, hid]
  · intro r hr
    have hr' : r ∈ s.bss.erase p := (h.perm.erase p).mem_iff.mpr hr
    rw [(entry_moved h hq hr').1]

end Moved

section Add
variable (attrs : Attrs)

/-- What is removed to make room is an entry, if anything is. -/
theorem oldest_mem (hp : oldest attrs s = some p) : p ∈ s.bss := by
  unfold oldest at hp
  split at hp
  · rename_i q hq
    cases hp
    exact List.mem_of_find?_eq_some hq
  · exact List.mem_of_find?_eq_some hp

theorem makeRoom_shrinks (h : Inv s) : Shrinks s (makeRoom attrs s) := by
  unfold makeRoom
  split
  · split
    · rename_i p hp
      exact shrinks_bssRemove h (oldest_mem attrs hp)
    · have hsame := Shrinks.refl h
      exact ⟨⟨h.perm, h.nodup, h.live, h.num, h.unique, h.last_nodup, h.last_mem, h.pending_mem,
        h.fits⟩, hsame.bss, hsame.ids, fun _ _ => rfl, rfl, rfl, rfl⟩
  · exact Shrinks.refl h

/-- An allocated entry that is linked behind all others. -/
theorem Inv.link (h : Inv s) (hlive : s.heap.live p) (hp : p ∉ s.bss)
    (hkey : ∀ q ∈ s.bss, (s.entry q).key ≠ (s.entry p).key) (hfits : (s.entry p).Fits) (id : ℕ) :
    Inv (link s p id) := by
  have hmem : ∀ q, q ∈ (BssTable.link s p id).bss ↔ q ∈ s.bss ∨ q = p := by
    intro q
    show q ∈ s.bss ++ [p] ↔ _
    rw [List.mem_append, List.mem_singleton]
  refine ⟨h.perm.append_right [p], ?_, ?_, ?_, ?_, h.last_nodup, ?_, ?_, ?_⟩
  · show (s.bss ++ [p]).Nodup
    rw [List.perm_append_comm.nodup_iff, List.singleton_append, List.nodup_cons]
    exact ⟨hp, h.nodup⟩
  · intro q hq
    rcases (hmem q).mp hq with hq | rfl
    · exact h.live q hq
    · exact hlive
  · show s.numBss + 1 = (s.bss ++ [p]).length
    rw [h.num, List.length_append, List.length_singleton]
  · intro q hq r hr hqr
    rcases (hmem q).mp hq with hq₁ | rfl <;> rcases (hmem r).mp hr with hr₁ | rfl
    · exact h.unique q hq₁ r hr₁ hqr
    · exact absurd hqr (hkey q hq₁)
    · exact absurd hqr.symm (hkey r hr₁)
    · rfl
  · exact fun q hq => (hmem q).mpr (.inl (h.last_mem q hq))
  · exact fun q hq => (hmem q).mpr (.inl (h.pending_mem q hq))
  · intro q hq
    rcases (hmem q).mp hq with hq | rfl
    · exact h.fits q hq
    · exact hfits

/-- What is not linked may be written. -/
theorem Inv.setEntry_fresh (h : Inv s) (hp : p ∉ s.bss) (b : Bss) (n : ℕ) :
    Inv { s.setEntry p b with bssNextId := n } := by
  have hne : ∀ q ∈ s.bss, q ≠ p := by
    rintro q hq rfl
    exact hp hq
  have hentry : ∀ q ∈ s.bss, (s.setEntry p b).entry q = s.entry q :=
    fun q hq => entry_setEntry_of_ne s p q b (hne q hq)
  refine ⟨h.perm, h.nodup, ?_, h.num, ?_, h.last_nodup, h.last_mem, h.pending_mem, ?_⟩
  · intro q hq
    show ((s.heap.set p b) q).isSome
    rw [Heap.set_of_ne (hne q hq)]
    exact h.live q hq
  · intro q hq r hr hqr
    have hqr' : ((s.setEntry p b).entry q).key = ((s.setEntry p b).entry r).key := hqr
    rw [hentry q hq, hentry r hr] at hqr'
    exact h.unique q hq r hr hqr'
  · intro q hq
    show ((s.setEntry p b).entry q).Fits
    rw [hentry q hq]
    exact h.fits q hq

theorem makeRoom_fresh (hp : p ∉ s.bss) :
    (makeRoom attrs s).heap p = s.heap p ∧ (makeRoom attrs s).entry p = s.entry p := by
  unfold makeRoom
  split
  · split
    · rename_i q hq
      have hne : p ≠ q := by
        rintro rfl
        exact hp (oldest_mem attrs hq)
      exact ⟨Heap.free_of_ne hne, entry_bssRemove s q p hne⟩
    · exact ⟨rfl, rfl⟩
  · exact ⟨rfl, rfl⟩

theorem addToLastScanRes_shrinks (h : Inv s) (mem : Memory) (hp : p ∈ s.bss)
    (hnew : p ∉ s.lastScanRes) : Shrinks s (addToLastScanRes s p mem) := by
  refine ⟨⟨h.perm, h.nodup, h.live, h.num, h.unique, ?_, ?_, h.pending_mem, h.fits⟩,
    fun _ hq => hq, List.Sublist.refl _, fun _ _ => rfl, rfl, rfl, rfl⟩
  · unfold addToLastScanRes
    dsimp only
    split
    · exact h.last_nodup
    · rw [List.perm_append_comm.nodup_iff, List.singleton_append, List.nodup_cons]
      exact ⟨hnew, h.last_nodup⟩
  · intro q hq
    unfold addToLastScanRes at hq
    dsimp only at hq
    split at hq
    · exact h.last_mem q hq
    · rcases List.mem_append.mp hq with hq | hq
      · exact h.last_mem q hq
      · exact List.mem_singleton.mp hq ▸ hp

/-- A new entry is linked into the table that room was made in. -/
theorem bssAdd_eq (h : Inv s) {ssid : Ssid} {res : ScanRes} (fetchTime : Reltime) (mem : Memory)
    (hnone : bssGet s res.bssid ssid = none) :
    bssAdd attrs s ssid res fetchTime mem = (s, none) ∨
      ∃ p s₁, bssAdd attrs s ssid res fetchTime mem = (link s₁ p s.bssNextId, some p) ∧
        s₁ = makeRoom attrs { s.setEntry p (newEntry s ssid res fetchTime) with
          bssNextId := (s.bssNextId + 1) % 2 ^ 32 } ∧
        p ∉ s.bss ∧ Inv s₁ ∧ s₁.bss ⊆ s.bss ∧ s₁.ids.Sublist s.ids ∧
        (s₁.entry p).id = s.bssNextId ∧ s₁.bssNextId = (s.bssNextId + 1) % 2 ^ 32 ∧
        added s₁.notes = added s.notes ∧ s₁.currentBss = s.currentBss ∧
        Inv (link s₁ p s.bssNextId) := by
  unfold bssAdd
  cases halloc : mem.alloc s.heap.live with
  | none => exact .inl rfl
  | some p =>
    right
    have hdead := mem.alloc_fresh halloc
    have hp : p ∉ s.bss := by
      intro hmem
      rw [h.live p hmem] at hdead
      cases hdead
    obtain ⟨s₀, hs₀⟩ : ∃ s₀, s₀ = { s.setEntry p (newEntry s ssid res fetchTime) with
        bssNextId := (s.bssNextId + 1) % 2 ^ 32 } := ⟨_, rfl⟩
    have h₀ : Inv s₀ := by
      rw [hs₀]
      exact h.setEntry_fresh hp _ _
    have hbss₀ : s₀.bss = s.bss := by rw [hs₀]; rfl
    have hentry₀ : ∀ q ∈ s.bss, s₀.entry q = s.entry q := by
      intro q hq
      rw [hs₀]
      apply entry_setEntry_of_ne
      rintro rfl
      exact hp hq
    have hself₀ : s₀.entry p = newEntry s ssid res fetchTime := by
      rw [hs₀]
      exact entry_setEntry_self s p _
    have hlive₀ : s₀.heap.live p := by
      rw [hs₀]
      show ((s.heap.set p _) p).isSome
      rw [Heap.set_self]
      rfl
    have hids₀ : s₀.ids = s.ids := by
      have hId : s₀.bssId = s.bssId := by rw [hs₀]; rfl
      rw [St.ids, St.ids, hId]
      apply List.map_congr_left
      intro q hq
      rw [hentry₀ q (h.mem_bssId.mp hq)]
    have hroom := makeRoom_shrinks attrs h₀
    obtain ⟨hheap₁, hentry₁⟩ := makeRoom_fresh attrs (s := s₀) (p := p) (hbss₀ ▸ hp)
    have hsub : (makeRoom attrs s₀).bss ⊆ s.bss := hbss₀ ▸ hroom.bss
    refine ⟨p, makeRoom attrs s₀, ?_, by rw [hs₀], hp, hroom.inv, hsub, hids₀ ▸ hroom.ids, ?_, ?_, ?_,
      ?_, hroom.inv.link ?_ (fun hmem => hp (hsub hmem)) ?_ ?_ _⟩
    · rw [hs₀]
      rfl
    · rw [hentry₁, hself₀]
      rfl
    · rw [hroom.nextId, hs₀]
    · rw [hroom.notes, hs₀]
      rfl
    · rw [hroom.current, hs₀]
      rfl
    · rw [Heap.live, hheap₁]
      exact hlive₀
    · intro q hq
      have hq' := hsub hq
      rw [hroom.key q hq, hentry₁, hself₀, hentry₀ q hq']
      intro hkey
      have hmiss := List.find?_eq_none.mp hnone q hq'
      have hparts := Prod.mk.inj hkey
      have hbssid : (s.entry q).bssid = res.bssid := hparts.1
      have hssid' : (s.entry q).ssid = ssid := hparts.2
      apply hmiss
      rw [hbssid, hssid', decide_eq_true rfl, decide_eq_true rfl]
      rfl
    · rw [hentry₁, hself₀]
      show _ ≤ (res.ies ++ res.beaconIes).length
      rw [List.length_append]
      exact le_rfl

end Add

/-- A step keeps the structure, and adds at most one identifier, which is the next one. -/
structure Grows (s s' : St) : Prop where
  inv : Inv s'
  ids : (s'.ids.Sublist s.ids ∧ s'.bssNextId = s.bssNextId ∧ added s'.notes = added s.notes) ∨
    ∃ l, l.Sublist s.ids ∧ s'.ids = l ++ [s.bssNextId] ∧
      s'.bssNextId = (s.bssNextId + 1) % 2 ^ 32 ∧ added s'.notes = added s.notes + 1

theorem Shrinks.grows {s' : St} (h : Shrinks s s') : Grows s s' :=
  ⟨h.inv, .inl ⟨h.ids, h.nextId, h.notes⟩⟩

theorem Grows.trans_shrinks {s₁ s₂ s₃ : St} (h₁ : Grows s₁ s₂) (h₂ : Shrinks s₂ s₃)
    (hids : s₃.ids = s₂.ids) : Grows s₁ s₃ := by
  refine ⟨h₂.inv, ?_⟩
  rw [hids, h₂.nextId, h₂.notes]
  exact h₁.ids

theorem bssGet_some {bssid : MacAddr} {ssid : Ssid} (hp : bssGet s bssid ssid = some p) :
    p ∈ s.bss ∧ (s.entry p).bssid = bssid := by
  have hfound := List.find?_some hp
  simp only [Bool.and_eq_true, decide_eq_true_eq] at hfound
  exact ⟨List.mem_of_find?_eq_some hp, hfound.1⟩

end Steps

section Run
variable (attrs : Attrs) {s : St}

theorem updateScanRes_grows (h : Inv s) (res : ScanRes) (fetchTime : Reltime) (mem : Memory) :
    Grows s (updateScanRes attrs s res fetchTime mem) := by
  unfold updateScanRes
  cases hssid : scanSsid s.env res fetchTime with
  | none => exact (Shrinks.refl h).grows
  | some ssid =>
    dsimp only
    cases hget : bssGet s res.bssid ssid with
    | none =>
      dsimp only
      rcases bssAdd_eq attrs h fetchTime mem hget with
        hadd | ⟨p, s₁, hadd, -, hp, hinv₁, hsub, hids, hid, hnext, hnotes, -, hinv⟩
      · rw [hadd]
        exact (Shrinks.refl h).grows
      · rw [hadd]
        dsimp only
        have hmem : p ∈ (link s₁ p s.bssNextId).bss :=
          List.mem_append_right _ (List.mem_singleton_self p)
        have hnew : p ∉ (link s₁ p s.bssNextId).lastScanRes := by
          intro hlast
          exact hp (hsub (hinv₁.last_mem p hlast))
        refine Grows.trans_shrinks ⟨hinv, .inr ⟨s₁.ids, hids, ?_, hnext, ?_⟩⟩
          (addToLastScanRes_shrinks hinv mem hmem hnew) rfl
        · show (s₁.bssId ++ [p]).map _ = _
          rw [List.map_append, List.map_singleton]
          show _ ++ [(s₁.entry p).id] = _
          rw [hid]
          rfl
        · show added (s₁.notes ++ [.added _]) = _
          rw [added_append, hnotes]
          rfl
    | some p =>
      obtain ⟨hp, hbssid⟩ := bssGet_some hget
      have hmoves : ∃ s' q, bssUpdate s p res fetchTime mem = (s', q) ∧ Grows s s' ∧ q ∈ s'.bss := by
        rcases bssUpdate_eq h res fetchTime mem hp hbssid with
          hsame | ⟨q, b, hmoved, hq, hkey, hid, hfits⟩
        · exact ⟨s, p, hsame, (Shrinks.refl h).grows, hp⟩
        · refine ⟨_, q, hmoved, ⟨h.moved hp hq hkey hfits, .inl ⟨?_, rfl, rfl⟩⟩,
            mem_moved.mpr (.inr rfl)⟩
          rw [ids_moved h hp hq hid]
      obtain ⟨s', q, hupdate, hgrows, hq⟩ := hmoves
      dsimp only
      rw [hupdate]
      dsimp only
      split
      · exact hgrows
      · rename_i hnew
        exact hgrows.trans_shrinks (addToLastScanRes_shrinks hgrows.inv mem hq hnew) rfl

theorem entry_setEnv (h : Inv s) (env : Env) {p : Ptr} (hp : p ∈ s.bss) :
    ({ s with env := env } : St).entry p = s.entry p :=
  Heap.read_stale (h.live p hp) _

theorem setEnv_grows (h : Inv s) (env : Env) : Grows s { s with env := env } := by
  have hentry := fun p => entry_setEnv h env (p := p)
  refine ⟨⟨h.perm, h.nodup, h.live, h.num, ?_, h.last_nodup, h.last_mem, h.pending_mem, ?_⟩,
    .inl ⟨?_, rfl, rfl⟩⟩
  · intro p hp q hq hkey
    rw [hentry p hp, hentry q hq] at hkey
    exact h.unique p hp q hq hkey
  · intro p hp
    rw [hentry p hp]
    exact h.fits p hp
  · have hids : ({ s with env := env } : St).ids = s.ids := by
      apply List.map_congr_left
      intro p hp
      rw [hentry p (h.mem_bssId.mp hp)]
    rw [hids]

theorem handle_grows (h : Inv s) (i : Input) : Grows s (handle attrs s i) := by
  cases i with
  | updateStart =>
    exact ⟨⟨h.perm, h.nodup, h.live, h.num, h.unique, List.nodup_nil,
      fun _ hp => absurd hp List.not_mem_nil, h.pending_mem, h.fits⟩, .inl ⟨List.Sublist.refl _, rfl, rfl⟩⟩
  | scanRes res fetchTime mem => exact updateScanRes_grows attrs h res fetchTime mem
  | updateEnd info newScan =>
    show Grows s (updateEnd s info newScan)
    unfold updateEnd
    split
    · exact (Shrinks.refl h).grows
    · have hloop := foldl_shrinks (f := expire info) (fun _ _ h hp => expire_shrinks info h hp)
        s.bss h h.nodup fun _ hp => hp
      exact hloop.1.grows
  | flush =>
    have hloop := foldl_shrinks (f := flushOne) (fun _ _ h hp => flushOne_shrinks h hp)
      s.bss h h.nodup fun _ hp => hp
    exact hloop.1.grows
  | flushByAge age now =>
    exact (flushByAgeFrom_shrinks _ s.bss h h.nodup fun _ hp => hp).1.grows
  | remove p =>
    show Grows s (if p ∈ s.bss then bssRemove s p else s)
    split
    · rename_i hp
      exact (shrinks_bssRemove h hp).grows
    · exact (Shrinks.refl h).grows
  | setCurrent p =>
    exact ⟨⟨h.perm, h.nodup, h.live, h.num, h.unique, h.last_nodup, h.last_mem, h.pending_mem,
      h.fits⟩, .inl ⟨List.Sublist.refl _, rfl, rfl⟩⟩
  | setPending work =>
    refine ⟨⟨h.perm, h.nodup, h.live, h.num, h.unique, h.last_nodup, h.last_mem, ?_, h.fits⟩,
      .inl ⟨List.Sublist.refl _, rfl, rfl⟩⟩
    intro p hp
    cases work with
    | none => cases hp
    | some cwork =>
      have hp' : cwork.bss.filter (fun p => decide (p ∈ s.bss)) = some p := hp
      exact of_decide_eq_true (Option.filter_eq_some_iff.mp hp').2
  | setEnv env => exact setEnv_grows h env

theorem step_grows (h : Inv s) (i : Input) : Grows { s with notes := [] } (step attrs s i).1 := by
  have h' : Inv { s with notes := [] } :=
    ⟨h.perm, h.nodup, h.live, h.num, h.unique, h.last_nodup, h.last_mem, h.pending_mem, h.fits⟩
  exact handle_grows attrs h' i

/-- After `n` additions the identifiers have been given out in order, if they have not wrapped. -/
structure Numbered (n : ℕ) (s : St) : Prop where
  nextId : s.bssNextId = n % 2 ^ 32
  ids : n ≤ 2 ^ 32 → s.ids.Pairwise (· < ·) ∧ ∀ id ∈ s.ids, id < n

theorem Numbered.grows {n : ℕ} {s' : St} (h : Numbered n s) (hgrows : Grows s s')
    (hnotes : added s.notes = 0) : Numbered (n + added s'.notes) s' := by
  rcases hgrows.ids with ⟨hsub, hnext, hadded⟩ | ⟨l, hsub, hids, hnext, hadded⟩
  · rw [hadded, hnotes, Nat.add_zero]
    refine ⟨hnext.trans h.nextId, ?_⟩
    intro hn
    obtain ⟨hsorted, hlt⟩ := h.ids hn
    exact ⟨hsorted.sublist hsub, fun id hid => hlt id (hsub.subset hid)⟩
  · rw [hadded, hnotes, Nat.zero_add]
    refine ⟨?_, ?_⟩
    · rw [hnext, h.nextId]
      omega
    · intro hn
      obtain ⟨hsorted, hlt⟩ := h.ids (by omega)
      have hid : s.bssNextId = n := by
        rw [h.nextId]
        omega
      rw [hids, hid]
      refine ⟨?_, ?_⟩
      · rw [List.pairwise_append]
        refine ⟨hsorted.sublist hsub, List.pairwise_singleton .., ?_⟩
        intro a ha b hb
        rw [List.mem_singleton.mp hb]
        exact hlt a (hsub.subset ha)
      · intro id hmem
        rcases List.mem_append.mp hmem with hmem | hmem
        · have hbelow := hlt id (hsub.subset hmem)
          omega
        · rw [List.mem_singleton.mp hmem]
          exact Nat.lt_succ_self n

theorem init_inv (env : Env) : Inv (init env) := by
  have hnone : ∀ p, p ∉ (init env).bss := fun _ => List.not_mem_nil
  refine ⟨List.Perm.refl _, List.nodup_nil, ?_, rfl, ?_, List.nodup_nil, ?_, ?_, ?_⟩
  · exact fun p hp => absurd hp (hnone p)
  · exact fun p hp => absurd hp (hnone p)
  · exact fun p hp => absurd hp (hnone p)
  · intro p hp
    cases hp
  · exact fun p hp => absurd hp (hnone p)

/-- In every run the table keeps its structure, and its identifiers are in order as long as no more
than 2^32 entries have been added. -/
theorem run_structure (env : Env) (inputs : List Input) :
    Inv (Runs.final (step attrs) (init env) inputs) ∧
      (added (Runs.outputs (Runs.trace (step attrs) (init env) inputs)) ≤ 2 ^ 32 →
        (Runs.final (step attrs) (init env) inputs).ids.Pairwise (· < ·)) := by
  have hrun := @Runs.history_induction _ _ _ (step attrs)
    (fun past s => Inv s ∧ Numbered (added (Runs.outputs past)) s) (fun _ _ => True) (init env)
    ⟨init_inv env, rfl, fun _ => ⟨List.Pairwise.nil, fun _ hid => absurd hid List.not_mem_nil⟩⟩
    (by
      intro past s i hI _
      have hgrows := step_grows attrs hI.1 i
      refine ⟨hgrows.inv, ?_⟩
      rw [Runs.outputs_concat, added_append]
      have hnumbered : Numbered (added (Runs.outputs past)) { s with notes := [] } :=
        ⟨hI.2.nextId, hI.2.ids⟩
      exact hnumbered.grows hgrows rfl)
    inputs fun _ _ => trivial
  exact ⟨hrun.1, fun hn => (hrun.2.ids hn).1⟩

end Run

section Wrap

def exampleBss : Bss where
  id := 0
  scanMissCount := 0
  lastUpdateIdx := 0
  flags := 0
  bssid := zeroAddr
  hessid := []
  ssid := ⟨[], Nat.zero_le _⟩
  freq := 0
  lastUpdate := ⟨0, 0⟩
  ieLen := 0
  beaconIeLen := 0
  ies := []

/-- The default settings, with no network and nothing to connect to. -/
def exampleEnv : Env where
  bssMaxCount := 200
  bssExpirationScanCount := 2
  ignoreOldScanRes := false
  networks := []
  scanTriggerTime := ⟨0, 0⟩
  p2pGroupInterface := false
  ownAddr := zeroAddr
  bssid := zeroAddr
  pendingBssid := zeroAddr
  pendingJoinIfaceAddr := zeroAddr
  pendingJoinDevAddr := zeroAddr
  stale := exampleBss

def exampleAttrs : Attrs := ⟨fun _ => false, fun _ _ => false, fun _ => none⟩

/-- Memory for two entries, and none for the last scan results. -/
def exampleMemory : Memory := { Allocator.ofPlaces [0, 1] with reallocArray := false }

/-- A scan result with the SSID "a" from one of a row of access points. -/
def exampleRes (i : UInt8) : ScanRes where
  flags := 0
  bssid := ⟨[2, 2, 2, 2, 2, i], rfl⟩
  freq := 2412
  age := 0
  ies := [eidSsid.toUInt8, 1, 97]
  beaconIes := []

def exampleScan (i : UInt8) : Input := .scanRes (exampleRes i) ⟨1, 1⟩ exampleMemory

/-- The same access point is found and forgotten, time after time. -/
def rounds (n : ℕ) : List Input := (List.replicate n [exampleScan 1, .flush]).flatten

/-- The table without entries after `n` have been added. -/
def emptyTable (n : ℕ) (notes : List Note) : St :=
  { init exampleEnv with bssNextId := n, notes := notes }

/-- The table with the entry at the first place in memory. -/
def oneEntry (n : ℕ) (b : Bss) (notes : List Note) : St :=
  { emptyTable n notes with
    heap := Heap.set (fun _ => none) 0 b, bss := [0], bssId := [0], numBss := 1 }

theorem entry_oneEntry (n : ℕ) (b : Bss) (notes : List Note) : (oneEntry n b notes).entry 0 = b :=
  Heap.read_set_self

theorem scanSsid_example (i : UInt8) :
    scanSsid exampleEnv (exampleRes i) ⟨1, 1⟩ = some ⟨[97], by decide⟩ := by
  have hfirst : scanSsid exampleEnv (exampleRes 1) ⟨1, 1⟩ = some ⟨[97], by decide⟩ := by decide
  exact hfirst

theorem scan_emptyTable (n : ℕ) (notes : List Note) :
    (step exampleAttrs (emptyTable n notes) (exampleScan 1)).1 =
      oneEntry ((n + 1) % 2 ^ 32) (newEntry (emptyTable n []) ⟨[97], by decide⟩ (exampleRes 1) ⟨1, 1⟩)
        [.added n] := by
  simp only [step, handle, exampleScan, updateScanRes]
  rw [show ({ emptyTable n notes with notes := [] } : St).env = exampleEnv from rfl, scanSsid_example]
  rfl

/-- Another access point gets the next identifier. -/
theorem ids_scan_oneEntry (n : ℕ) (b : Bss) (hb : b.bssid ≠ (exampleRes 2).bssid)
    (notes : List Note) :
    (step exampleAttrs (oneEntry n b notes) (exampleScan 2)).1.ids = [b.id, n] := by
  have hget : bssGet (oneEntry n b []) (exampleRes 2).bssid ⟨[97], by decide⟩ = none := by
    apply List.find?_eq_none.mpr
    intro p hp
    rw [List.mem_singleton.mp hp, entry_oneEntry]
    simp [hb]
  simp only [step, handle, exampleScan, updateScanRes]
  rw [show ({ oneEntry n b notes with notes := [] } : St) = oneEntry n b [] from rfl,
    show (oneEntry n b notes).env = exampleEnv from rfl, scanSsid_example]
  dsimp only
  rw [hget]
  rfl

theorem flush_oneEntry (n : ℕ) (b : Bss) (hb : b.bssid ≠ zeroAddr) (notes : List Note) :
    (step exampleAttrs (oneEntry n b notes) .flush).1 = emptyTable n [.removed b.id] := by
  have hfree : (Heap.set (fun _ => none) 0 b).free 0 = fun _ => none := by
    rw [Heap.free_set]
    exact Function.update_eq_self 0 _
  have hentry := entry_oneEntry n b []
  have huse : bssInUse (oneEntry n b []) 0 = false := by
    unfold bssInUse
    rw [hentry, if_neg (by simp [oneEntry, emptyTable, init])]
    simp only [oneEntry, emptyTable, init, exampleEnv, Option.any_none]
    simp [hb]
  have hremove : bssRemove (oneEntry n b []) 0 = emptyTable n [.removed b.id] := by
    unfold bssRemove
    rw [hentry]
    simp only [oneEntry, hfree]
    rfl
  show (flush (oneEntry n b [])) = _
  rw [flush]
  show flushOne (oneEntry n b []) 0 = _
  rw [flushOne, huse]
  exact hremove

theorem final_rounds (n : ℕ) : ∃ notes, Runs.final (step exampleAttrs) (init exampleEnv) (rounds n) =
    emptyTable (n % 2 ^ 32) notes := by
  induction n with
  | zero => exact ⟨[], rfl⟩
  | succ n ih =>
    obtain ⟨notes, hn⟩ := ih
    have hrounds : rounds (n + 1) = rounds n ++ [exampleScan 1, .flush] := by
      rw [rounds, List.replicate_succ', List.flatten_append, List.flatten_singleton]
      rfl
    rw [hrounds, Runs.final_append, hn]
    show ∃ notes, (step exampleAttrs (step exampleAttrs _ _).1 _).1 = _
    rw [scan_emptyTable]
    have hbssid : (exampleRes 1).bssid ≠ zeroAddr := by decide
    refine ⟨[.removed (n % 2 ^ 32)], ?_⟩
    rw [← Nat.mod_add_mod n]
    exact flush_oneEntry ((n % 2 ^ 32 + 1) % 2 ^ 32) _ hbssid _

/-- After 2^32 - 1 entries have come and gone, the next two are out of order. -/
theorem ids_wrap : ¬(Runs.final (step exampleAttrs) (init exampleEnv)
    (rounds (2 ^ 32 - 1) ++ [exampleScan 1, exampleScan 2])).ids.Pairwise (· < ·) := by
  have hbssid : (exampleRes 1).bssid ≠ (exampleRes 2).bssid := by decide
  obtain ⟨n, hn⟩ : ∃ n, n = 2 ^ 32 - 1 := ⟨_, rfl⟩
  obtain ⟨notes, hrounds⟩ := final_rounds n
  rw [← hn, Runs.final_append, hrounds]
  show ¬(step exampleAttrs (step exampleAttrs _ _).1 _).1.ids.Pairwise (· < ·)
  rw [scan_emptyTable, ids_scan_oneEntry _ _ hbssid]
  intro hsorted
  have hlt : n % 2 ^ 32 < (n % 2 ^ 32 + 1) % 2 ^ 32 :=
    List.rel_of_pairwise_cons hsorted (List.mem_singleton_self _)
  omega

end Wrap

end Wpa.BssTable
