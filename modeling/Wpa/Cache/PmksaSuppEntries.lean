import Wpa.Cache.PmksaSupp

/-! The entries of the supplicant's cache over whole runs: how many there are, for whom, and that
each one that was ever linked is either still in the list or was reported to `free_cb` once. -/

namespace Wpa.PmksaSupp
open Lib Lib.Expiry

/-- The books of the cache while the entries of `pending` are unlinked but not freed yet. -/
structure Ledger (pending : List Entry) (c : Cache) : Prop where
  count : c.pmksaCount = c.pmksa.length + pending.length
  bound : c.pmksa.length + pending.length ≤ pmksaCacheMaxEntries
  aaUnique : (c.pmksa.map Entry.aa).Nodup
  accounted : ((c.pmksa ++ pending).map Entry.ref ++ c.freed.map fun f => f.entry.ref).Perm
    (List.range c.nextRef)
  evicted : ∀ f ∈ c.freed, f.cause = .evicted → f.curPmksa ≠ some f.entry.ref

abbrev Structured (c : Cache) : Prop := Ledger [] c

section Free
variable (cause : Cause) (entry : Entry) (c : Cache)

@[simp] theorem freeEntry_pmksa : (pmksaCacheFreeEntry cause entry c).pmksa = c.pmksa := rfl

@[simp] theorem freeEntry_pmksaCount :
    (pmksaCacheFreeEntry cause entry c).pmksaCount = c.pmksaCount - 1 := rfl

@[simp] theorem freeEntry_nextRef : (pmksaCacheFreeEntry cause entry c).nextRef = c.nextRef := rfl

@[simp] theorem freeEntry_freed : (pmksaCacheFreeEntry cause entry c).freed =
    c.freed ++ [{ entry, cause, curPmksa := c.curPmksa }] := rfl

theorem foldl_freeEntry_setPmksa (l k : List Entry) :
    l.foldl (fun c entry => pmksaCacheFreeEntry cause entry c) { c with pmksa := k } =
      { l.foldl (fun c entry => pmksaCacheFreeEntry cause entry c) c with pmksa := k } := by
  induction l generalizing c with
  | nil => rfl
  | cons e l ih => exact ih (pmksaCacheFreeEntry cause e c)

end Free

theorem perm_eraseP_of_find? {p : Entry → Bool} {l : List Entry} {pos : Entry}
    (h : l.find? p = some pos) : l.Perm (pos :: l.eraseP p) := by
  obtain ⟨hp, as, bs, rfl, has⟩ := List.find?_eq_some_iff_append.mp h
  rw [List.eraseP_append_right _ fun b hb => by simpa using has b hb,
    List.eraseP_cons_of_pos hp]
  exact List.perm_middle

namespace Ledger
variable {pending : List Entry} {c : Cache}

/-- Entries leave the list and wait to be freed. -/
theorem unlink (h : Ledger pending c) {kept dropped : List Entry}
    (hperm : c.pmksa.Perm (kept ++ dropped)) (hsub : kept.Sublist c.pmksa) :
    Ledger (dropped ++ pending) { c with pmksa := kept } := by
  have hlen := hperm.length_eq
  rw [List.length_append] at hlen
  refine ⟨?_, ?_, h.aaUnique.sublist (hsub.map _), ?_, h.evicted⟩
  · simp only [h.count, List.length_append]
    omega
  · simp only [List.length_append]
    have := h.bound
    omega
  · refine List.Perm.trans ?_ h.accounted
    refine List.Perm.append_right _ (List.Perm.map _ ?_)
    rw [← List.append_assoc]
    exact hperm.symm.append_right pending

theorem free {entry : Entry} (h : Ledger (entry :: pending) c) {cause : Cause}
    (hcause : cause = .evicted → c.curPmksa ≠ some entry.ref) :
    Ledger pending (pmksaCacheFreeEntry cause entry c) := by
  refine ⟨?_, ?_, h.aaUnique, ?_, ?_⟩
  · simp only [freeEntry_pmksa, freeEntry_pmksaCount, h.count, List.length_cons]
    push_cast
    ring
  · have := h.bound
    simp only [List.length_cons] at this
    simp only [freeEntry_pmksa]
    omega
  · refine List.Perm.trans ?_ h.accounted
    simp only [freeEntry_pmksa, freeEntry_freed, List.map_append, List.map_cons, List.map_nil,
      List.append_assoc]
    refine List.Perm.append_left _ ?_
    rw [List.cons_append, ← List.append_assoc]
    exact List.perm_append_singleton _ _
  · intro f hf
    rw [freeEntry_freed, List.mem_append, List.mem_singleton] at hf
    rcases hf with hf | rfl
    · exact h.evicted f hf
    · exact hcause

theorem freeAll {l : List Entry} (h : Ledger (l ++ pending) c) {cause : Cause}
    (hcause : cause ≠ .evicted) :
    Ledger pending (l.foldl (fun c entry => pmksaCacheFreeEntry cause entry c) c) := by
  induction l generalizing c with
  | nil => exact h
  | cons e l ih => exact ih (h.free fun he => absurd he hcause)

theorem flush (h : Ledger pending c) (networkCtx : ℕ) (pmk : Option Bytes) (externalOnly : Bool) :
    Ledger pending (pmksaCacheFlush networkCtx pmk externalOnly c) := by
  set p := flushMatch networkCtx pmk externalOnly with hp
  have hperm : c.pmksa.Perm ((c.pmksa.filter fun e => !p e) ++ c.pmksa.filter p) :=
    ((List.filter_append_perm p c.pmksa).symm.trans List.perm_append_comm)
  have hunlinked := h.unlink hperm List.filter_sublist
  have hfreed := hunlinked.freeAll (show Cause.flushed ≠ .evicted by decide)
  rw [foldl_freeEntry_setPmksa] at hfreed
  exact hfreed

/-- The invariant of the walk: `kept` is what it has passed over. -/
theorem expireFrom (now : ℕ) (kept l : List Entry) (c : Cache)
    (h : Ledger pending { c with pmksa := kept ++ l }) :
    Ledger pending
      { (expireFrom now l c).2 with pmksa := kept ++ (expireFrom now l c).1 } := by
  induction l generalizing kept c with
  | nil => exact h
  | cons e l ih =>
    unfold PmksaSupp.expireFrom
    split
    · split
      · have hstep := ih (kept ++ [e]) c (by simpa using h)
        simpa using hstep
      · refine ih kept _ ?_
        have hperm : (kept ++ e :: l).Perm ((kept ++ l) ++ [e]) := by
          have hmid : (kept ++ e :: l).Perm (e :: (kept ++ l)) := List.perm_middle
          exact hmid.trans (List.perm_append_singleton e _).symm
        have hsub : (kept ++ l).Sublist (kept ++ e :: l) :=
          (List.Sublist.refl kept).append (List.sublist_cons_self e l)
        exact (h.unlink hperm hsub).free (show Cause.expired = .evicted → _ by simp)
    · exact h

theorem expire (h : Ledger pending c) (now : ℕ) : Ledger pending (pmksaCacheExpire now c) :=
  h.expireFrom now [] c.pmksa c

theorem unlinkOne (h : Structured c) {kept : List Entry} {entry : Entry}
    (hperm : c.pmksa.Perm (entry :: kept)) (hsub : kept.Sublist c.pmksa) :
    Ledger [entry] { c with pmksa := kept } :=
  h.unlink (hperm.trans (List.perm_append_singleton entry kept).symm) hsub

theorem replace (h : Structured c) {pos : Entry} {aa : Bytes}
    (hpos : c.pmksa.find? (sameAa aa) = some pos) (networkCtx : ℕ) :
    Structured (replaceEntry networkCtx pos c) := by
  have haa : pos.aa = aa := by simpa [sameAa] using List.find?_some hpos
  have hunlinked : Ledger [pos] { c with pmksa := c.pmksa.eraseP (sameAa pos.aa) } := by
    rw [haa]
    exact h.unlinkOne (perm_eraseP_of_find? hpos) List.eraseP_sublist
  unfold replaceEntry
  simp only
  split
  · exact hunlinked.free (by simp)
  · exact (hunlinked.flush _ _ _).free (by simp)

theorem evict (h : Structured c) : Structured (evictEntry c) ∧
    (evictEntry c).pmksa.length < pmksaCacheMaxEntries ∧
    (evictEntry c).pmksa.Sublist c.pmksa := by
  have hbound := h.bound
  have hcount := h.count
  simp only [List.length_nil, add_zero] at hbound
  unfold evictEntry
  split
  · rename_i hfull
    have hlen : c.pmksa.length = pmksaCacheMaxEntries := by
      simp only [hcount, List.length_nil] at hfull
      omega
    split
    · rename_i hnil
      rw [hnil] at hlen
      cases hlen
    · rename_i pos l hl
      rw [hl, List.length_cons] at hlen
      split
      · rename_i hcur
        split
        · cases hlen
        · rename_i next l
          have hmove : Ledger [next] { c with pmksa := pos :: l } := by
            refine h.unlinkOne ?_ ?_
            · exact hl ▸ List.Perm.swap next pos l
            · exact hl ▸ (List.sublist_cons_self next l).cons_cons pos
          have hne : c.curPmksa ≠ some next.ref := by
            have hnodup := (List.nodup_append.mp (h.accounted.nodup_iff.mpr List.nodup_range)).1
            simp only [hl, List.append_nil, List.map_cons, List.nodup_cons, List.mem_cons] at hnodup
            have hposcur : c.curPmksa = some pos.ref := by simpa [isCurrent] using hcur
            intro hnext
            rw [hposcur] at hnext
            exact hnodup.1 (.inl (Option.some.inj hnext))
          refine ⟨hmove.free fun _ => hne, ?_, ?_⟩
          · simp only [freeEntry_pmksa, List.length_cons] at hlen ⊢
            omega
          · exact hl ▸ (List.sublist_cons_self next l).cons_cons pos
      · rename_i hcur
        have hmove : Ledger [pos] { c with pmksa := l } := by
          refine h.unlinkOne ?_ ?_
          · exact hl ▸ List.Perm.refl _
          · exact hl ▸ List.sublist_cons_self pos l
        refine ⟨hmove.free fun _ hpos => hcur ?_, ?_, ?_⟩
        · simpa [isCurrent] using hpos
        · simp only [freeEntry_pmksa]
          omega
        · exact hl ▸ List.sublist_cons_self pos l
  · rename_i hroom
    refine ⟨h, ?_, List.Sublist.refl _⟩
    simp only [hcount, List.length_nil] at hroom
    omega

theorem link (h : Structured c) (hroom : c.pmksa.length < pmksaCacheMaxEntries) {entry : Entry}
    (haa : ∀ e ∈ c.pmksa, e.aa ≠ entry.aa) : Structured (linkEntry entry c).1 := by
  have hperm := insertBefore_perm Entry.expiration { entry with ref := c.nextRef } c.pmksa
  have hcount := h.count
  refine ⟨?_, ?_, ?_, ?_, h.evicted⟩
  · simp only [linkEntry, length_insertBefore, hcount, List.length_nil]
    push_cast
    ring
  · simp only [linkEntry, length_insertBefore, List.length_nil]
    omega
  · simp only [linkEntry]
    rw [(hperm.map Entry.aa).nodup_iff, List.map_cons, List.nodup_cons]
    refine ⟨fun hmem => ?_, h.aaUnique⟩
    obtain ⟨e, he, hea⟩ := List.mem_map.mp hmem
    exact haa e he hea
  · simp only [linkEntry, List.append_nil]
    rw [List.range_succ]
    refine List.Perm.trans ((hperm.map Entry.ref).append_right _) ?_
    rw [List.map_cons, List.cons_append]
    have hrest := h.accounted
    rw [List.append_nil] at hrest
    exact (hrest.cons _).trans (List.perm_append_singleton _ _).symm

end Ledger

theorem replaceEntry_pmksa_subset (networkCtx : ℕ) (pos : Entry) (c : Cache) :
    (replaceEntry networkCtx pos c).pmksa.Sublist (c.pmksa.eraseP (sameAa pos.aa)) := by
  unfold replaceEntry
  simp only
  split
  · exact List.Sublist.refl _
  · exact List.filter_sublist

theorem eraseP_sameAa {l : List Entry} (h : (l.map Entry.aa).Nodup) (aa : Bytes) :
    ∀ e ∈ l.eraseP (sameAa aa), e.aa ≠ aa := by
  induction l with
  | nil => simp
  | cons a l ih =>
    rw [List.map_cons, List.nodup_cons] at h
    intro e he
    by_cases ha : sameAa aa a
    · rw [List.eraseP_cons_of_pos ha] at he
      have haa : a.aa = aa := by simpa [sameAa] using ha
      intro hea
      exact h.1 (List.mem_map.mpr ⟨e, he, hea.trans haa.symm⟩)
    · rw [List.eraseP_cons_of_neg ha] at he
      rcases List.mem_cons.mp he with rfl | he
      · simpa [sameAa] using ha
      · exact ih h.2 e he

theorem addEntry_structured {c : Cache} (h : Structured c) (entry : Entry) :
    Structured (pmksaCacheAddEntry entry c).1 := by
  unfold pmksaCacheAddEntry
  split
  · rename_i pos hpos
    split
    · exact h
    · obtain ⟨hevict, hroom, hsub⟩ := (h.replace hpos entry.networkCtx).evict
      have haa : pos.aa = entry.aa := by simpa [sameAa] using List.find?_some hpos
      refine hevict.link hroom fun e he => ?_
      have hmem := (replaceEntry_pmksa_subset _ pos c).subset (hsub.subset he)
      rw [haa] at hmem
      exact eraseP_sameAa h.aaUnique entry.aa e hmem
  · rename_i hnone
    obtain ⟨hevict, hroom, hsub⟩ := h.evict
    refine hevict.link hroom fun e he => ?_
    have hno := List.find?_eq_none.mp hnone e (hsub.subset he)
    simpa [sameAa] using hno

theorem add_structured {c : Cache} (h : Structured c) (cr : Crypto) (p : Params) (a : AddArgs) :
    Structured (pmksaCacheAdd cr p a c).1 := by
  unfold pmksaCacheAdd
  split
  · exact addEntry_structured h _
  · exact h

/-- Writing to fields other than the addresses changes nothing in the books. -/
theorem Ledger.map {c : Cache} (h : Structured c) {f : Entry → Entry}
    (href : ∀ e, (f e).ref = e.ref) (haa : ∀ e, (f e).aa = e.aa) :
    Structured { c with pmksa := c.pmksa.map f } := by
  have hrefs : (c.pmksa.map f).map Entry.ref = c.pmksa.map Entry.ref := by
    simp [List.map_map, Function.comp_def, href]
  have haas : (c.pmksa.map f).map Entry.aa = c.pmksa.map Entry.aa := by
    simp [List.map_map, Function.comp_def, haa]
  refine ⟨?_, ?_, ?_, ?_, h.evicted⟩
  · simpa using h.count
  · simpa using h.bound
  · exact haas ▸ h.aaUnique
  · have hacc := h.accounted
    simp only [List.append_nil] at hacc ⊢
    exact hrefs ▸ hacc

theorem Ledger.setCurPmksa {c : Cache} (h : Structured c) (cur : Option ℕ) :
    Structured { c with curPmksa := cur } :=
  ⟨h.count, h.bound, h.aaUnique, h.accounted, h.evicted⟩

theorem cloneEntry_structured {c : Cache} (h : Structured c) (cr : Crypto) (p : Params)
    (old : Entry) (aa : Bytes) : Structured (pmksaCacheCloneEntry cr p old aa c).1 := by
  have hadd := add_structured h cr p (cloneArgs p old aa)
  unfold pmksaCacheCloneEntry
  simp only
  split
  · exact hadd
  · refine hadd.map (fun e => ?_) fun e => ?_
    · unfold overwrite
      split <;> rfl
    · unfold overwrite
      split <;> rfl

theorem getOpportunistic_structured {c : Cache} (h : Structured c) (cr : Crypto) (p : Params)
    (networkCtx : ℕ) (aa : Bytes) (akmp : ℕ) :
    Structured (pmksaCacheGetOpportunistic cr p networkCtx aa akmp c).1 := by
  unfold pmksaCacheGetOpportunistic
  split
  · exact cloneEntry_structured h cr p _ aa
  · exact h

theorem setCurrent_structured {c : Cache} (h : Structured c) (cr : Crypto) (p : Params)
    (a : SelectArgs) : Structured (pmksaCacheSetCurrent cr p a c) := by
  have hnone : Structured { c with curPmksa := none } := h.setCurPmksa none
  unfold pmksaCacheSetCurrent
  refine Ledger.setCurPmksa ?_ _
  split
  · exact hnone
  · split
    · exact getOpportunistic_structured hnone cr p _ _ _
    · exact hnone
  · exact hnone

theorem step_structured (cr : Crypto) (c : Cache) (i : Call) (h : Structured c) :
    Structured (step cr c i).1 := by
  obtain ⟨p, op⟩ := i
  cases op with
  | add args => exact add_structured h cr p args
  | addEntry entry => exact addEntry_structured h entry
  | flush networkCtx pmk externalOnly => exact h.flush networkCtx pmk externalOnly
  | getOpportunistic networkCtx aa akmp => exact getOpportunistic_structured h cr p _ _ _
  | setCurrent args => exact setCurrent_structured h cr p args
  | expire => exact h.expire p.now
  | assignCurrent ref => exact h.setCurPmksa ref
  | setPmk pmk => exact ⟨h.count, h.bound, h.aaUnique, h.accounted, h.evicted⟩
  | keyNegComplete =>
    refine h.map (fun e => ?_) fun e => ?_
    · split <;> rfl
    · split <;> rfl

theorem pmksaCacheInit_structured : Structured pmksaCacheInit :=
  ⟨rfl, Nat.zero_le _, List.nodup_nil, List.Perm.refl _, by simp [pmksaCacheInit]⟩

theorem expireFrom_sublist (now : ℕ) (l : List Entry) (c : Cache) :
    (expireFrom now l c).1.Sublist l := by
  induction l generalizing c with
  | nil => exact List.Sublist.refl _
  | cons a l ih =>
    unfold expireFrom
    split
    · split
      · exact (ih c).cons_cons a
      · exact (ih _).cons a
    · exact List.Sublist.refl _

/-- The two copies of an entry differ in nothing that makes it a PMKSA. -/
def SamePmksa (a b : Entry) : Prop :=
  a.ref = b.ref ∧ a.pmk = b.pmk ∧ a.pmkid = b.pmkid ∧ a.aa = b.aa ∧ a.akmp = b.akmp

/-- Reports are only added, and the entries of `c'` are those of `c` or linked later. -/
structure Carries (c c' : Cache) : Prop where
  freed : c.freed <+: c'.freed
  nextRef : c.nextRef ≤ c'.nextRef
  entries : ∀ e' ∈ c'.pmksa, (∃ e ∈ c.pmksa, SamePmksa e e') ∨ c.nextRef ≤ e'.ref

namespace Carries
variable {c c' c'' : Cache}

theorem of_subset (hfreed : c.freed <+: c'.freed) (hnext : c.nextRef = c'.nextRef)
    (hsub : c'.pmksa ⊆ c.pmksa) : Carries c c' :=
  ⟨hfreed, hnext.le, fun e he => .inl ⟨e, hsub he, rfl, rfl, rfl, rfl, rfl⟩⟩

theorem refl (c : Cache) : Carries c c := of_subset List.prefix_rfl rfl (List.Subset.refl _)

theorem trans (h : Carries c c') (h' : Carries c' c'') : Carries c c'' := by
  refine ⟨h.freed.trans h'.freed, h.nextRef.trans h'.nextRef, fun e he => ?_⟩
  rcases h'.entries e he with ⟨e', he', hsame⟩ | hnew
  · rcases h.entries e' he' with ⟨e₀, he₀, hsame₀⟩ | hnew
    · refine .inl ⟨e₀, he₀, ?_⟩
      obtain ⟨h1, h2, h3, h4, h5⟩ := hsame₀
      obtain ⟨k1, k2, k3, k4, k5⟩ := hsame
      exact ⟨h1.trans k1, h2.trans k2, h3.trans k3, h4.trans k4, h5.trans k5⟩
    · exact .inr (hsame.1 ▸ hnew)
  · exact .inr (h.nextRef.trans hnew)

theorem freeEntry (cause : Cause) (entry : Entry) (c : Cache) :
    Carries c (pmksaCacheFreeEntry cause entry c) :=
  of_subset (List.prefix_append _ _) rfl (List.Subset.refl _)

theorem freeAll (cause : Cause) (l : List Entry) (c : Cache) :
    Carries c (l.foldl (fun c entry => pmksaCacheFreeEntry cause entry c) c) := by
  induction l generalizing c with
  | nil => exact refl c
  | cons e l ih => exact (freeEntry cause e c).trans (ih _)

theorem setPmksa (h : Carries c c') {l : List Entry} (hsub : l ⊆ c.pmksa) :
    Carries c { c' with pmksa := l } :=
  ⟨h.freed, h.nextRef, fun e he => .inl ⟨e, hsub he, rfl, rfl, rfl, rfl, rfl⟩⟩

theorem flush (networkCtx : ℕ) (pmk : Option Bytes) (externalOnly : Bool) (c : Cache) :
    Carries c (pmksaCacheFlush networkCtx pmk externalOnly c) :=
  (freeAll .flushed _ c).setPmksa List.filter_sublist.subset

theorem expireFrom (now : ℕ) (l : List Entry) (c : Cache) :
    Carries c (expireFrom now l c).2 := by
  induction l generalizing c with
  | nil => exact refl c
  | cons e l ih =>
    unfold PmksaSupp.expireFrom
    split
    · split
      · exact ih c
      · exact (freeEntry .expired e c).trans (ih _)
    · exact refl c

theorem expire (now : ℕ) (c : Cache) : Carries c (pmksaCacheExpire now c) :=
  (expireFrom now c.pmksa c).setPmksa (expireFrom_sublist now c.pmksa c).subset

theorem replace (networkCtx : ℕ) (pos : Entry) (c : Cache) :
    Carries c (replaceEntry networkCtx pos c) := by
  have herase : Carries c { c with pmksa := c.pmksa.eraseP (sameAa pos.aa) } :=
    (refl c).setPmksa List.eraseP_subset
  unfold replaceEntry
  simp only
  split
  · exact herase.trans (freeEntry _ _ _)
  · exact (herase.trans (flush _ _ _ _)).trans (freeEntry _ _ _)

theorem evict (c : Cache) : Carries c (evictEntry c) := by
  unfold evictEntry
  split
  · split
    · exact refl c
    · rename_i pos l hl
      split
      · split
        · exact (refl c).setPmksa (hl ▸ List.Subset.refl _)
        · rename_i next l
          refine Carries.trans ((refl c).setPmksa ?_) (freeEntry _ _ _)
          exact hl ▸ List.cons_subset_cons pos (List.subset_cons_self next l)
      · refine Carries.trans ((refl c).setPmksa ?_) (freeEntry _ _ _)
        exact hl ▸ List.subset_cons_self pos l
  · exact refl c

theorem link (entry : Entry) (c : Cache) : Carries c (linkEntry entry c).1 := by
  refine ⟨List.prefix_rfl, Nat.le_succ _, fun e he => ?_⟩
  rcases mem_insertBefore.mp he with rfl | he
  · exact .inr le_rfl
  · exact .inl ⟨e, he, rfl, rfl, rfl, rfl, rfl⟩

theorem addEntry (entry : Entry) (c : Cache) : Carries c (pmksaCacheAddEntry entry c).1 := by
  unfold pmksaCacheAddEntry
  split
  · split
    · exact refl c
    · exact ((replace _ _ c).trans (evict _)).trans (link _ _)
  · exact (evict c).trans (link _ _)

theorem add (cr : Crypto) (p : Params) (a : AddArgs) (c : Cache) :
    Carries c (pmksaCacheAdd cr p a c).1 := by
  unfold pmksaCacheAdd
  split
  · exact addEntry _ c
  · exact refl c

theorem map (f : Entry → Entry) (hf : ∀ e, SamePmksa e (f e)) (c : Cache) :
    Carries c { c with pmksa := c.pmksa.map f } := by
  refine ⟨List.prefix_rfl, le_rfl, fun e he => ?_⟩
  obtain ⟨e₀, he₀, rfl⟩ := List.mem_map.mp he
  exact .inl ⟨e₀, he₀, hf e₀⟩

theorem cloneEntry (cr : Crypto) (p : Params) (old : Entry) (aa : Bytes) (c : Cache) :
    Carries c (pmksaCacheCloneEntry cr p old aa c).1 := by
  have hadd := add cr p (cloneArgs p old aa) c
  unfold pmksaCacheCloneEntry
  simp only
  split
  · exact hadd
  · refine hadd.trans (map _ (fun e => ?_) _)
    unfold overwrite
    split <;> exact ⟨rfl, rfl, rfl, rfl, rfl⟩

theorem getOpportunistic (cr : Crypto) (p : Params) (networkCtx : ℕ) (aa : Bytes) (akmp : ℕ)
    (c : Cache) : Carries c (pmksaCacheGetOpportunistic cr p networkCtx aa akmp c).1 := by
  unfold pmksaCacheGetOpportunistic
  split
  · exact cloneEntry cr p _ aa c
  · exact refl c

theorem setCurPmksa (h : Carries c c') (cur : Option ℕ) : Carries c { c' with curPmksa := cur } :=
  ⟨h.freed, h.nextRef, h.entries⟩

theorem setCurrent (cr : Crypto) (p : Params) (a : SelectArgs) (c : Cache) :
    Carries c (pmksaCacheSetCurrent cr p a c) := by
  have hnone : Carries c { c with curPmksa := none } := (refl c).setCurPmksa none
  unfold pmksaCacheSetCurrent
  refine setCurPmksa ?_ _
  split
  · exact hnone
  · split
    · exact hnone.trans (getOpportunistic cr p _ _ _ _)
    · exact hnone
  · exact hnone

end Carries

theorem step_carries (cr : Crypto) (c : Cache) (i : Call) : Carries c (step cr c i).1 := by
  obtain ⟨p, op⟩ := i
  cases op with
  | add args => exact Carries.add cr p args c
  | addEntry entry => exact Carries.addEntry entry c
  | flush networkCtx pmk externalOnly => exact Carries.flush networkCtx pmk externalOnly c
  | getOpportunistic networkCtx aa akmp => exact Carries.getOpportunistic cr p _ _ _ c
  | setCurrent args => exact Carries.setCurrent cr p args c
  | expire => exact Carries.expire p.now c
  | assignCurrent ref => exact (Carries.refl c).setCurPmksa ref
  | setPmk pmk => exact Carries.of_subset List.prefix_rfl rfl (List.Subset.refl _)
  | keyNegComplete =>
    refine Carries.map _ (fun e => ?_) c
    split <;> exact ⟨rfl, rfl, rfl, rfl, rfl⟩

/-- The reports that a step adds. -/
def reports (pre post : Cache) : List Freed := post.freed.drop pre.freed.length

/-- Each entry is reported in the step and gone, or not reported and still there. -/
def KeepsOthers (pre post : Cache) : Prop :=
  ∀ e ∈ pre.pmksa,
    (((reports pre post).map fun f => f.entry.ref).count e.ref = 1 ∧
      ∀ e' ∈ post.pmksa, e'.ref ≠ e.ref) ∨
    ((∀ f ∈ reports pre post, f.entry.ref ≠ e.ref) ∧ ∃ e' ∈ post.pmksa, SamePmksa e e')

theorem Ledger.pmksa_nodup {c : Cache} (h : Structured c) : (c.pmksa.map Entry.ref).Nodup := by
  have hall := (List.nodup_append.mp (h.accounted.nodup_iff.mpr List.nodup_range)).1
  rwa [List.append_nil] at hall

theorem Ledger.mem_iff {c : Cache} (h : Structured c) (ref : ℕ) :
    ref ∈ c.pmksa.map Entry.ref ∨ ref ∈ c.freed.map (fun f => f.entry.ref) ↔ ref < c.nextRef := by
  have hmem := h.accounted.mem_iff (a := ref)
  rwa [List.append_nil, List.mem_append, List.mem_range] at hmem

theorem Ledger.not_both {c : Cache} (h : Structured c) {ref : ℕ}
    (hlist : ref ∈ c.pmksa.map Entry.ref) : ref ∉ c.freed.map fun f => f.entry.ref := by
  have hall := h.accounted.nodup_iff.mpr List.nodup_range
  rw [List.append_nil] at hall
  exact List.disjoint_of_nodup_append hall hlist

theorem keepsOthers {pre post : Cache} (hpre : Structured pre) (hpost : Structured post)
    (h : Carries pre post) : KeepsOthers pre post := by
  intro e he
  have href : e.ref ∈ pre.pmksa.map Entry.ref := List.mem_map_of_mem he
  obtain ⟨new, hnew⟩ := h.freed
  have hreports : reports pre post = new := by
    rw [reports, ← hnew, List.drop_left]
  have hfreed : post.freed.map (fun f => f.entry.ref) =
      (pre.freed.map fun f => f.entry.ref) ++ new.map fun f => f.entry.ref := by
    rw [← hnew, List.map_append]
  have hlt : e.ref < post.nextRef := ((hpre.mem_iff _).mp (.inl href)).trans_le h.nextRef
  rw [hreports]
  rcases (hpost.mem_iff e.ref).mpr hlt with hkept | hgone
  · refine .inr ⟨fun f hf hfe => ?_, ?_⟩
    · refine hpost.not_both hkept ?_
      rw [hfreed, List.mem_append]
      exact .inr (List.mem_map.mpr ⟨f, hf, hfe⟩)
    · obtain ⟨e', he', hee'⟩ := List.mem_map.mp hkept
      refine ⟨e', he', ?_⟩
      rcases h.entries e' he' with ⟨e₀, he₀, hsame⟩ | hlater
      · have heq := List.inj_on_of_nodup_map hpre.pmksa_nodup he₀ he (hsame.1.trans hee')
        exact heq ▸ hsame
      · have hold := (hpre.mem_iff _).mp (.inl href)
        omega
  · left
    constructor
    · have hall := (List.nodup_append.mp (hpost.accounted.nodup_iff.mpr List.nodup_range)).2.1
      rw [hfreed] at hall hgone
      have hmem : e.ref ∈ new.map fun f => f.entry.ref :=
        (List.mem_append.mp hgone).resolve_left (hpre.not_both href)
      exact List.count_eq_one_of_mem (List.nodup_append.mp hall).2.1 hmem
    · intro e' he' hee'
      exact hpost.not_both (List.mem_map.mpr ⟨e', he', hee'⟩) hgone

/-- Over every run from the empty cache: the books are right in every state, and every step
reports exactly the entries that it drops. -/
theorem run_structured (cr : Crypto) (calls : List Call) :
    ∀ t ∈ Runs.trace (step cr) pmksaCacheInit calls,
      Structured t.post ∧ KeepsOthers t.pre t.post := by
  intro t ht
  obtain ⟨hpre, heq⟩ := Runs.state_invariant (p := fun _ _ => True) pmksaCacheInit_structured
    (fun c i h _ => step_structured cr c i h) calls (fun _ _ => trivial) ht
  have hpost : Structured t.post := by
    rw [heq]
    exact step_structured cr t.pre t.input hpre
  refine ⟨hpost, keepsOthers hpre hpost ?_⟩
  rw [heq]
  exact step_carries cr t.pre t.input

/-- One SAE entry is added. -/
def addCall : Call where
  params :=
    { now := 0, ownAddr := [2, 0, 0, 0, 0, 9], dot11RSNAConfigPMKLifetime := 43200,
      dot11RSNAConfigPMKReauthThreshold := 70, alloc := true }
  op := .add
    { pmk := [1], pmkid := some [1], kck := none, aa := [2, 0, 0, 0, 0, 1],
      spa := [2, 0, 0, 0, 0, 9], networkCtx := 1, akmp := keyMgmtSae, cacheId := none }

theorem addCall_structured :
    (step default pmksaCacheInit addCall).1.pmksa.length = 1 ∧
      Structured (step default pmksaCacheInit addCall).1 :=
  ⟨by decide, (run_structured default [addCall] (Runs.event (step default) pmksaCacheInit addCall)
    (List.mem_singleton_self _)).1⟩

end Wpa.PmksaSupp
