import Wpa.Cache.PmksaSuppEntries

/-! Expiry in the supplicant's cache looks at the head of the list only, and so rests on the order
of the list. `pmksa_cache_clone_entry` writes the expiration of an entry that is already linked. -/

namespace Wpa.PmksaSupp
open Lib Lib.Expiry

/-- Nothing that has expired is left but an SAE entry in use. -/
def Clean (now : ℕ) (c : Cache) : Prop :=
  ∀ e ∈ c.pmksa, e.expiration ≤ now →
    wpaKeyMgmtSae e.akmp = true ∧ c.curPmksa = some e.ref

def GoodStep (t : Event Cache Call Empty) : Prop :=
  Ordered Entry.expiration t.post.pmksa ∧
    (t.input.op = .expire → Clean t.input.params.now t.post)

/-- The current SAE entry is passed over, and then an entry that holds the PMK of the association
expires, which ends the use of the current one. -/
def Stranded (now : ℕ) (cur : Option ℕ) (pmk : Bytes) (l : List Entry) : Prop :=
  ∃ l₁ e l₂, l = l₁ ++ e :: l₂ ∧ cur = some e.ref ∧ wpaKeyMgmtSae e.akmp = true ∧
    e.expiration ≤ now ∧ (∀ b ∈ l₁, b.pmk ≠ pmk) ∧ ∃ b ∈ l₂, b.expiration ≤ now ∧ b.pmk = pmk

/-- The entries that are left once the old entry of the authenticator is replaced. -/
def replacedList (entry : Entry) (l : List Entry) : List Entry :=
  match l.find? (sameAa entry.aa) with
  | none => l
  | some pos =>
    let l := l.eraseP (sameAa entry.aa)
    if pos.opportunistic then l
    else l.filter fun e => !flushMatch entry.networkCtx (some pos.pmk) false e

def evictedList (cur : Option ℕ) (l : List Entry) : List Entry :=
  if pmksaCacheMaxEntries ≤ l.length then
    match l with
    | [] => []
    | pos :: l => if cur = some pos.ref then pos :: l.tail else l
  else l

/-- The entries that stay when `entry` is linked. -/
def stays (entry : Entry) (c : Cache) : List Entry :=
  evictedList c.curPmksa (replacedList entry c.pmksa)

/-- The old expiration fits between the entries that stay before and behind the new one. -/
def LinksInOrder (old entry : Entry) (l : List Entry) : Prop :=
  ∀ e ∈ l, (e.expiration ≤ entry.expiration → e.expiration ≤ old.expiration) ∧
    (entry.expiration < e.expiration → old.expiration ≤ e.expiration)

/-- The old expiration fits at the place of the entry `pos` that is used again. -/
def ReusesInOrder (old pos : Entry) (l : List Entry) : Prop :=
  ∀ l₁ l₂, l = l₁ ++ pos :: l₂ →
    (∀ e ∈ l₁, e.expiration ≤ old.expiration) ∧ ∀ e ∈ l₂, old.expiration ≤ e.expiration

def CloneInOrder (cr : Crypto) (p : Params) (old : Entry) (aa : Bytes) (c : Cache) : Prop :=
  let entry := addedEntry cr p (cloneArgs p old aa)
  addAllowed p (cloneArgs p old aa) = true →
    (∀ pos, c.pmksa.find? (sameAa aa) = some pos → samePmksa entry pos = true →
      ReusesInOrder old pos c.pmksa) ∧
    ((∀ pos, c.pmksa.find? (sameAa aa) = some pos → samePmksa entry pos = false) →
      LinksInOrder old entry (stays entry c))

def OpportunisticInOrder (cr : Crypto) (p : Params) (networkCtx : ℕ) (aa : Bytes) (akmp : ℕ)
    (c : Cache) : Prop :=
  ∀ old, opportunisticSource p.now networkCtx akmp c = some old → CloneInOrder cr p old aa c

def KeepsOrder (cr : Crypto) (c : Cache) (i : Call) : Prop :=
  match i.op with
  | .getOpportunistic networkCtx aa akmp =>
    OpportunisticInOrder cr i.params networkCtx aa akmp c
  | .setCurrent a =>
    lookupCurrent a c = none → a.tryOpportunistic = true → ∀ bssid, a.bssid = some bssid →
      OpportunisticInOrder cr i.params a.networkCtx bssid a.akmp { c with curPmksa := none }
  | .expire => ¬Stranded i.params.now c.curPmksa c.pmk c.pmksa
  | _ => True

section Expire
variable {now : ℕ}

theorem isCurrent_iff {c : Cache} {e : Entry} : isCurrent c e = true ↔ c.curPmksa = some e.ref := by
  simp [isCurrent]

/-- What the walk leaves has not expired, or was in use when the walk began. -/
theorem expireFrom_left {l : List Entry} (ho : Ordered Entry.expiration l) (c : Cache) :
    ∀ e ∈ (expireFrom now l c).1, e ∈ l ∧
      (e.expiration ≤ now → wpaKeyMgmtSae e.akmp = true ∧ c.curPmksa = some e.ref) := by
  induction l generalizing c with
  | nil => simp [expireFrom]
  | cons a l ih =>
    obtain ⟨ha, hl⟩ := Ordered.cons_iff.mp ho
    intro e he
    unfold expireFrom at he
    split at he
    · split at he
      · rename_i hskip
        rw [Bool.and_eq_true, isCurrent_iff] at hskip
        rcases List.mem_cons.mp he with rfl | he
        · exact ⟨List.mem_cons_self .., fun _ => hskip⟩
        · obtain ⟨hmem, hkept⟩ := ih hl c e he
          exact ⟨List.mem_cons_of_mem _ hmem, hkept⟩
      · obtain ⟨hmem, hkept⟩ := ih hl _ e he
        refine ⟨List.mem_cons_of_mem _ hmem, fun hexp => ?_⟩
        obtain ⟨hsae, hcur⟩ := hkept hexp
        refine ⟨hsae, ?_⟩
        simp only [pmksaCacheFreeEntry, wpaSmPmksaFreeCb] at hcur
        split at hcur
        · cases hcur
        · exact hcur
    · rename_i hlate
      refine ⟨he, fun hexp => absurd hexp ?_⟩
      rcases List.mem_cons.mp he with rfl | he
      · exact hlate
      · have := ha e he
        omega

/-- Whether the entry that expires takes the current selection with it. -/
def endsUse (c : Cache) (e : Entry) : Bool := isCurrent c e || c.pmk == e.pmk

theorem freeExpired_curPmksa (e : Entry) (c : Cache) :
    (pmksaCacheFreeEntry .expired e c).curPmksa = if endsUse c e then none else c.curPmksa := rfl

theorem freeExpired_pmk {e : Entry} {c : Cache} (h : endsUse c e = false) :
    (pmksaCacheFreeEntry .expired e c).pmk = c.pmk := by
  obtain ⟨hcur, hpmk⟩ := Bool.or_eq_false_iff.mp h
  have hcur' : isCurrent { c with
      pmksaCount := c.pmksaCount - 1
      freed := c.freed ++ [{ entry := e, cause := .expired, curPmksa := c.curPmksa }] } e = false :=
    hcur
  simp [pmksaCacheFreeEntry, wpaSmPmksaFreeCb, hcur', hpmk]

theorem expireFrom_curPmksa_none {l : List Entry} {c : Cache} (h : c.curPmksa = none) :
    (expireFrom now l c).2.curPmksa = none := by
  induction l generalizing c with
  | nil => exact h
  | cons a l ih =>
    unfold expireFrom
    split
    · split
      · exact ih h
      · refine ih ?_
        rw [freeExpired_curPmksa, h, ite_self]
    · exact h

theorem expireFrom_curPmksa_iff {l : List Entry} (ho : Ordered Entry.expiration l) {c : Cache}
    {ref : ℕ} (hcur : c.curPmksa = some ref) (hne : ∀ b ∈ l, b.ref ≠ ref) :
    (expireFrom now l c).2.curPmksa = some ref ↔
      ∀ b ∈ l, b.expiration ≤ now → b.pmk ≠ c.pmk := by
  induction l generalizing c with
  | nil => simp [expireFrom, hcur]
  | cons a l ih =>
    obtain ⟨ha, hl⟩ := Ordered.cons_iff.mp ho
    have hnot : isCurrent c a = false := by
      have hane := hne a (List.mem_cons_self ..)
      simpa [isCurrent, hcur] using Ne.symm hane
    unfold expireFrom
    rw [hnot, Bool.and_false]
    split
    · rename_i hexp
      simp only [Bool.false_eq_true, if_false, List.forall_mem_cons]
      by_cases hpmk : a.pmk = c.pmk
      · have hend : endsUse c a = true := by simp [endsUse, hpmk]
        have hnone : (pmksaCacheFreeEntry .expired a c).curPmksa = none := by
          rw [freeExpired_curPmksa, hend, if_pos rfl]
        rw [expireFrom_curPmksa_none hnone]
        exact ⟨fun h => absurd h (by simp), fun h => absurd hpmk (h.1 hexp)⟩
      · have hend : endsUse c a = false := by simp [endsUse, hnot, Ne.symm hpmk]
        have hsame : (pmksaCacheFreeEntry .expired a c).curPmksa = some ref := by
          rw [freeExpired_curPmksa, hend, if_neg Bool.false_ne_true, hcur]
        rw [ih hl hsame fun b hb => hne b (List.mem_cons_of_mem _ hb), freeExpired_pmk hend]
        exact ⟨fun h => ⟨fun _ => hpmk, h⟩, fun h => h.2⟩
    · rename_i hlate
      refine iff_of_true hcur fun b hb hexp => absurd hexp ?_
      rcases List.mem_cons.mp hb with rfl | hb
      · exact hlate
      · have := ha b hb
        omega

theorem stranded_cons_iff {cur : Option ℕ} {pmk : Bytes} {a : Entry} {l : List Entry}
    (hcur : cur ≠ some a.ref) (hpmk : a.pmk ≠ pmk) :
    Stranded now cur pmk (a :: l) ↔ Stranded now cur pmk l := by
  constructor
  · rintro ⟨l₁, e, l₂, hsplit, he, hrest⟩
    cases l₁ with
    | nil =>
      cases hsplit
      exact absurd he hcur
    | cons b l₁ =>
      cases hsplit
      obtain ⟨hsae, hexp, hbefore, hafter⟩ := hrest
      exact ⟨l₁, e, l₂, rfl, he, hsae, hexp,
        fun b hb => hbefore b (List.mem_cons_of_mem _ hb), hafter⟩
  · rintro ⟨l₁, e, l₂, rfl, he, hsae, hexp, hbefore, hafter⟩
    exact ⟨a :: l₁, e, l₂, rfl, he, hsae, hexp,
      List.forall_mem_cons.mpr ⟨hpmk, hbefore⟩, hafter⟩

/-- Along the walk, in the order of its branches: the current SAE entry is passed over, the use
of it ends with the entry just freed, or neither. -/
theorem expireFrom_clean_iff {l : List Entry} (ho : Ordered Entry.expiration l)
    (hnodup : (l.map Entry.ref).Nodup) (c : Cache) :
    (∀ e ∈ (expireFrom now l c).1, e.expiration ≤ now →
      wpaKeyMgmtSae e.akmp = true ∧ (expireFrom now l c).2.curPmksa = some e.ref) ↔
      ¬Stranded now c.curPmksa c.pmk l := by
  induction l generalizing c with
  | nil =>
    refine iff_of_true (by simp [expireFrom]) ?_
    rintro ⟨l₁, e, l₂, hsplit, -⟩
    simp at hsplit
  | cons a l ih =>
    obtain ⟨ha, hl⟩ := Ordered.cons_iff.mp ho
    rw [List.map_cons, List.nodup_cons] at hnodup
    have hother : ∀ b ∈ l, b.ref ≠ a.ref := fun b hb hr =>
      hnodup.1 (List.mem_map.mpr ⟨b, hb, hr⟩)
    unfold expireFrom
    split
    · rename_i hexp
      split
      · rename_i hskip
        rw [Bool.and_eq_true, isCurrent_iff] at hskip
        have hrest : (expireFrom now l c).2.curPmksa = some a.ref ↔ _ :=
          expireFrom_curPmksa_iff hl hskip.2 hother
        constructor
        · intro hclean
          have hkept := (hclean a (List.mem_cons_self ..) hexp).2
          rintro ⟨l₁, e, l₂, hsplit, hcur, -, -, -, b, hb, hbexp, hbpmk⟩
          cases l₁ with
          | nil =>
            cases hsplit
            exact hrest.mp hkept b hb hbexp hbpmk
          | cons a' l₁ =>
            cases hsplit
            rw [hskip.2] at hcur
            exact hother e (by simp) (Option.some.inj hcur).symm
        · intro hfree e he hee
          have hkept : (expireFrom now l c).2.curPmksa = some a.ref := by
            refine hrest.mpr fun b hb hbexp hbpmk => hfree ?_
            exact ⟨[], a, l, rfl, hskip.2, hskip.1, hexp, by simp, b, hb, hbexp, hbpmk⟩
          rcases List.mem_cons.mp he with rfl | he
          · exact ⟨hskip.1, hkept⟩
          · obtain ⟨hmem, hold⟩ := expireFrom_left hl c e he
            have hcur := (hold hee).2
            rw [hskip.2] at hcur
            exact absurd (Option.some.inj hcur).symm (hother e hmem)
      · rename_i hskip
        cases hend : endsUse c a with
        | true =>
          have hnone : (pmksaCacheFreeEntry .expired a c).curPmksa = none := by
            rw [freeExpired_curPmksa, hend, if_pos rfl]
          refine iff_of_true ?_ ?_
          · intro e he hee
            have hcur := ((expireFrom_left hl _ e he).2 hee).2
            rw [hnone] at hcur
            cases hcur
          · rintro ⟨l₁, e, l₂, hsplit, hcur, hsae, -, hbefore, -⟩
            cases l₁ with
            | nil =>
              cases hsplit
              exact hskip (by rw [hsae, isCurrent_iff.mpr hcur]; rfl)
            | cons a' l₁ =>
              cases hsplit
              rcases Bool.or_eq_true_iff.mp hend with hcur' | hpmk
              · rw [isCurrent_iff.mp hcur'] at hcur
                exact hother e (by simp) (Option.some.inj hcur).symm
              · exact hbefore a (List.mem_cons_self ..) (beq_iff_eq.mp hpmk).symm
        | false =>
          have hsame : (pmksaCacheFreeEntry .expired a c).curPmksa = c.curPmksa := by
            rw [freeExpired_curPmksa, hend, if_neg Bool.false_ne_true]
          obtain ⟨hncur, hnpmk⟩ := Bool.or_eq_false_iff.mp hend
          rw [ih hl hnodup.2, hsame, freeExpired_pmk hend, stranded_cons_iff]
          · exact fun h => Bool.false_ne_true (hncur.symm.trans (isCurrent_iff.mpr h))
          · exact fun h => by simp [h] at hnpmk
    · rename_i hlate
      have hall : ∀ e ∈ a :: l, ¬e.expiration ≤ now := by
        intro e he
        rcases List.mem_cons.mp he with rfl | he
        · exact hlate
        · have := ha e he
          omega
      refine iff_of_true (fun e he hee => absurd hee (hall e he)) ?_
      rintro ⟨l₁, e, l₂, hsplit, -, -, hee, -⟩
      exact hall e (hsplit ▸ by simp) hee

theorem expire_good_iff {c : Cache} (hc : Structured c) (ho : Ordered Entry.expiration c.pmksa) :
    (Ordered Entry.expiration (pmksaCacheExpire now c).pmksa ∧
      Clean now (pmksaCacheExpire now c)) ↔ ¬Stranded now c.curPmksa c.pmk c.pmksa := by
  rw [← expireFrom_clean_iff ho hc.pmksa_nodup c]
  exact ⟨fun h => h.2, fun h => ⟨ho.sublist (expireFrom_sublist now c.pmksa c), h⟩⟩

end Expire

section Clone

/-- Freeing an entry for another reason than its age ends the use of that entry only. -/
theorem freeEntry_isCurrent {cause : Cause} (hcause : cause ≠ .expired) {entry pos : Entry}
    (hne : entry.ref ≠ pos.ref) (c : Cache) :
    isCurrent (pmksaCacheFreeEntry cause entry c) pos = isCurrent c pos := by
  have hreason : (cause.reason == FreeReason.expire) = false := by
    cases cause <;> first | rfl | exact absurd rfl hcause
  have hcur : (pmksaCacheFreeEntry cause entry c).curPmksa =
      if isCurrent c entry then none else c.curPmksa := by
    change (if isCurrent c entry || (cause.reason == .expire && c.pmk == entry.pmk) then none
      else c.curPmksa) = _
    rw [hreason, Bool.false_and, Bool.or_false]
  unfold isCurrent at hcur ⊢
  rw [hcur]
  split
  · rename_i h
    have hentry : c.curPmksa = some entry.ref := beq_iff_eq.mp h
    rw [hentry]
    simpa using hne
  · rfl

theorem freeAll_isCurrent {l : List Entry} {pos : Entry} (hne : ∀ e ∈ l, e.ref ≠ pos.ref)
    (c : Cache) :
    isCurrent (l.foldl (fun c e => pmksaCacheFreeEntry .flushed e c) c) pos =
      isCurrent c pos := by
  induction l generalizing c with
  | nil => rfl
  | cons a l ih =>
    obtain ⟨ha, hl⟩ := List.forall_mem_cons.mp hne
    rw [List.foldl_cons, ih hl, freeEntry_isCurrent (by decide) ha]

theorem replaceEntry_spec {c : Cache} (hc : Structured c) {entry pos : Entry}
    (hpos : c.pmksa.find? (sameAa entry.aa) = some pos) :
    (replaceEntry entry.networkCtx pos c).pmksa = replacedList entry c.pmksa ∧
    ∀ e ∈ (replaceEntry entry.networkCtx pos c).pmksa,
      isCurrent (replaceEntry entry.networkCtx pos c) e = isCurrent c e := by
  have haa : pos.aa = entry.aa := by simpa [sameAa] using List.find?_some hpos
  have hlist : replacedList entry c.pmksa = if pos.opportunistic then
      c.pmksa.eraseP (sameAa entry.aa) else (c.pmksa.eraseP (sameAa entry.aa)).filter fun e =>
        !flushMatch entry.networkCtx (some pos.pmk) false e := by
    simp [replacedList, hpos]
  have hnodup : ((pos :: c.pmksa.eraseP (sameAa entry.aa)).map Entry.ref).Nodup :=
    ((perm_eraseP_of_find? hpos).map Entry.ref).nodup_iff.mp hc.pmksa_nodup
  rw [List.map_cons, List.nodup_cons] at hnodup
  have hother : ∀ e ∈ c.pmksa.eraseP (sameAa entry.aa), pos.ref ≠ e.ref := fun e he hr =>
    hnodup.1 (List.mem_map.mpr ⟨e, he, hr.symm⟩)
  rw [hlist]
  unfold replaceEntry
  rw [haa]
  simp only
  split
  · refine ⟨rfl, fun e he => ?_⟩
    rw [freeEntry_isCurrent (by decide) (hother e he)]
    rfl
  · refine ⟨rfl, fun e he => ?_⟩
    obtain ⟨hmem, hkept⟩ := List.mem_filter.mp he
    rw [freeEntry_isCurrent (by decide) (hother e hmem)]
    refine (freeAll_isCurrent (fun b hb hr => ?_) _).trans rfl
    obtain ⟨hbmem, hbmatch⟩ := List.mem_filter.mp hb
    obtain rfl := List.inj_on_of_nodup_map hnodup.2 hbmem hmem hr
    rw [hbmatch] at hkept
    cases hkept

theorem evictEntry_spec {c : Cache} (hc : Structured c) {cur : Option ℕ}
    (hcur : ∀ e ∈ c.pmksa, (c.curPmksa = some e.ref ↔ cur = some e.ref)) :
    (evictEntry c).pmksa = evictedList cur c.pmksa := by
  have hcount : ((pmksaCacheMaxEntries : ℤ) ≤ c.pmksaCount) ↔
      pmksaCacheMaxEntries ≤ c.pmksa.length := by
    rw [hc.count]
    simp
  unfold evictEntry evictedList
  simp only [hcount]
  split
  · cases hl : c.pmksa with
    | nil => simp [hl]
    | cons pos l =>
      have hpos : isCurrent c pos = true ↔ cur = some pos.ref := by
        rw [isCurrent_iff]
        exact hcur pos (hl ▸ List.mem_cons_self ..)
      simp only [hpos]
      split
      · cases l with
        | nil => rfl
        | cons next l => rfl
      · rfl
  · rfl

/-- The cache in which a new entry is linked: either way its list is what `stays` says. -/
theorem room_spec {c : Cache} (hc : Structured c) (entry : Entry) :
    (∀ pos, c.pmksa.find? (sameAa entry.aa) = some pos →
      (evictEntry (replaceEntry entry.networkCtx pos c)).pmksa = stays entry c) ∧
    (c.pmksa.find? (sameAa entry.aa) = none → (evictEntry c).pmksa = stays entry c) := by
  constructor
  · intro pos hpos
    obtain ⟨hlist, hcur⟩ := replaceEntry_spec hc hpos
    unfold stays
    rw [← hlist]
    refine evictEntry_spec (hc.replace hpos _) fun e he => ?_
    rw [← isCurrent_iff, hcur e he, isCurrent_iff]
  · intro hnone
    have hlist : replacedList entry c.pmksa = c.pmksa := by simp [replacedList, hnone]
    unfold stays
    rw [hlist]
    exact evictEntry_spec hc fun _ _ => Iff.rfl

theorem map_overwrite {l₁ l₂ : List Entry} {a : Entry}
    (hnodup : ((l₁ ++ a :: l₂).map Entry.ref).Nodup) (old : Entry) :
    (l₁ ++ a :: l₂).map (overwrite old a.ref) = l₁ ++ overwrite old a.ref a :: l₂ := by
  have hperm : ((l₁ ++ a :: l₂).map Entry.ref).Perm ((a :: (l₁ ++ l₂)).map Entry.ref) :=
    List.Perm.map _ List.perm_middle
  have hother : ∀ e ∈ l₁ ++ l₂, overwrite old a.ref e = e := by
    have hcons := hperm.nodup_iff.mp hnodup
    rw [List.map_cons, List.nodup_cons] at hcons
    intro e he
    unfold overwrite
    rw [if_neg]
    exact fun hr => hcons.1 (List.mem_map.mpr ⟨e, he, hr⟩)
  rw [List.map_append, List.map_cons]
  congr 1
  · exact (List.map_congr_left fun e he => hother e (List.mem_append_left _ he)).trans
      (List.map_id' l₁)
  · congr 1
    exact (List.map_congr_left fun e he => hother e (List.mem_append_right _ he)).trans
      (List.map_id' l₂)

theorem overwrite_expiration (old a : Entry) : (overwrite old a.ref a).expiration = old.expiration := by
  simp [overwrite]

theorem ordered_overwrite_iff {l₁ l₂ : List Entry} {a : Entry}
    (hnodup : ((l₁ ++ a :: l₂).map Entry.ref).Nodup)
    (ho : Ordered Entry.expiration (l₁ ++ l₂)) (old : Entry) :
    Ordered Entry.expiration ((l₁ ++ a :: l₂).map (overwrite old a.ref)) ↔
      (∀ e ∈ l₁, e.expiration ≤ old.expiration) ∧ ∀ e ∈ l₂, old.expiration ≤ e.expiration := by
  rw [map_overwrite hnodup, ordered_insert_iff ho, overwrite_expiration]

theorem reuse_ordered_iff {c : Cache} (hc : Structured c)
    (ho : Ordered Entry.expiration c.pmksa) {pos : Entry} (hpos : pos ∈ c.pmksa) (old : Entry) :
    Ordered Entry.expiration (c.pmksa.map (overwrite old pos.ref)) ↔
      ReusesInOrder old pos c.pmksa := by
  have hiff : ∀ l₁ l₂, c.pmksa = l₁ ++ pos :: l₂ →
      (Ordered Entry.expiration (c.pmksa.map (overwrite old pos.ref)) ↔
        (∀ e ∈ l₁, e.expiration ≤ old.expiration) ∧ ∀ e ∈ l₂, old.expiration ≤ e.expiration) := by
    intro l₁ l₂ hl
    rw [hl]
    refine ordered_overwrite_iff (hl ▸ hc.pmksa_nodup) (ho.sublist ?_) old
    rw [hl]
    exact (List.Sublist.refl l₁).append (List.sublist_cons_self pos l₂)
  constructor
  · intro h l₁ l₂ hl
    exact (hiff l₁ l₂ hl).mp h
  · intro h
    obtain ⟨l₁, l₂, hl⟩ := List.append_of_mem hpos
    exact (hiff l₁ l₂ hl).mpr (h l₁ l₂ hl)

theorem link_ordered_iff {c : Cache} (hc : Structured c) (ho : Ordered Entry.expiration c.pmksa)
    (old entry : Entry) :
    Ordered Entry.expiration ((linkEntry entry c).1.pmksa.map (overwrite old c.nextRef)) ↔
      LinksInOrder old entry c.pmksa := by
  set new : Entry := { entry with ref := c.nextRef } with hnew
  obtain ⟨l₁, l₂, hl, hins, hle, hgt⟩ := insertBefore_split ho new
  have hlinked : (linkEntry entry c).1.pmksa = l₁ ++ new :: l₂ := hins
  have hnodup : ((l₁ ++ new :: l₂).map Entry.ref).Nodup := by
    have hperm : ((l₁ ++ new :: l₂).map Entry.ref).Perm ((new :: (l₁ ++ l₂)).map Entry.ref) :=
      List.Perm.map _ List.perm_middle
    rw [hperm.nodup_iff, List.map_cons, List.nodup_cons, ← hl]
    refine ⟨fun hmem => ?_, hc.pmksa_nodup⟩
    have hlt := (hc.mem_iff _).mp (.inl hmem)
    exact lt_irrefl _ hlt
  rw [hlinked]
  change Ordered Entry.expiration ((l₁ ++ new :: l₂).map (overwrite old new.ref)) ↔ _
  rw [ordered_overwrite_iff hnodup (hl ▸ ho)]
  unfold LinksInOrder
  rw [hl, List.forall_mem_append]
  constructor
  · rintro ⟨h₁, h₂⟩
    refine ⟨fun e he => ⟨fun _ => h₁ e he, fun hlt => ?_⟩,
      fun e he => ⟨fun hle' => ?_, fun _ => h₂ e he⟩⟩
    · exact absurd hlt (not_lt.mpr (hle e he))
    · exact absurd hle' (not_le.mpr (hgt e he))
  · rintro ⟨h₁, h₂⟩
    exact ⟨fun e he => (h₁ e he).1 (hle e he), fun e he => (h₂ e he).2 (hgt e he)⟩

theorem addEntry_ordered {c : Cache} (hc : Structured c) (ho : Ordered Entry.expiration c.pmksa)
    (entry : Entry) : Ordered Entry.expiration (pmksaCacheAddEntry entry c).1.pmksa := by
  unfold pmksaCacheAddEntry
  split
  · rename_i pos hpos
    split
    · exact ho
    · have hevict := (hc.replace hpos entry.networkCtx).evict.2.2
      have hsub := hevict.trans (replaceEntry_pmksa_subset entry.networkCtx pos c)
      exact (ho.sublist (hsub.trans List.eraseP_sublist)).insertBefore _
  · exact (ho.sublist hc.evict.2.2).insertBefore _

theorem linkClone_ordered_iff {c room : Cache} (hroom : Structured room)
    (hsub : room.pmksa.Sublist c.pmksa) (ho : Ordered Entry.expiration c.pmksa) {old entry : Entry}
    (hstays : room.pmksa = stays entry c) :
    Ordered Entry.expiration
        ((linkEntry entry room).1.pmksa.map (overwrite old (linkEntry entry room).2)) ↔
      LinksInOrder old entry (stays entry c) := by
  rw [← hstays]
  exact link_ordered_iff hroom (ho.sublist hsub) old entry

theorem cloneEntry_pmksa (cr : Crypto) (p : Params) (old : Entry) (aa : Bytes) (c : Cache) :
    (pmksaCacheCloneEntry cr p old aa c).1.pmksa =
      if addAllowed p (cloneArgs p old aa) then
        (pmksaCacheAddEntry (addedEntry cr p (cloneArgs p old aa)) c).1.pmksa.map
          (overwrite old (pmksaCacheAddEntry (addedEntry cr p (cloneArgs p old aa)) c).2)
      else c.pmksa := by
  unfold pmksaCacheCloneEntry pmksaCacheAdd
  by_cases h : addAllowed p (cloneArgs p old aa)
  · simp only [h, if_true]
  · simp only [h, if_false, Bool.false_eq_true]

theorem cloneEntry_ordered_iff {c : Cache} (hc : Structured c)
    (ho : Ordered Entry.expiration c.pmksa) (cr : Crypto) (p : Params) (old : Entry) (aa : Bytes) :
    Ordered Entry.expiration (pmksaCacheCloneEntry cr p old aa c).1.pmksa ↔
      CloneInOrder cr p old aa c := by
  rw [cloneEntry_pmksa]
  unfold CloneInOrder
  set entry := addedEntry cr p (cloneArgs p old aa) with hentry
  have haa : entry.aa = aa := rfl
  obtain ⟨hreplaced, hplain⟩ := room_spec hc entry
  rw [haa] at hreplaced hplain
  split
  · rename_i hallowed
    simp only [hallowed, true_implies]
    unfold pmksaCacheAddEntry
    rw [haa]
    cases hfind : c.pmksa.find? (sameAa aa) with
    | none =>
      simp only [reduceCtorEq, false_implies, implies_true, true_and, true_implies]
      exact linkClone_ordered_iff hc.evict.1 hc.evict.2.2 ho (hplain hfind)
    | some pos =>
      simp only [Option.some.injEq, forall_eq']
      cases hsame : samePmksa entry pos with
      | true =>
        simp only [if_true, true_implies, Bool.true_eq_false, false_implies, and_true]
        exact reuse_ordered_iff hc ho (List.mem_of_find?_eq_some hfind) old
      | false =>
        obtain ⟨hevict, -, hsub⟩ := (hc.replace hfind entry.networkCtx).evict
        have hsub' := (hsub.trans (replaceEntry_pmksa_subset entry.networkCtx pos c)).trans
          List.eraseP_sublist
        simp only [Bool.false_eq_true, if_false, false_implies, true_and, true_implies]
        exact linkClone_ordered_iff hevict hsub' ho (hreplaced pos hfind)
  · rename_i hdenied
    exact iff_of_true ho fun h => absurd h hdenied

theorem getOpportunistic_ordered_iff {c : Cache} (hc : Structured c)
    (ho : Ordered Entry.expiration c.pmksa) (cr : Crypto) (p : Params) (networkCtx : ℕ)
    (aa : Bytes) (akmp : ℕ) :
    Ordered Entry.expiration (pmksaCacheGetOpportunistic cr p networkCtx aa akmp c).1.pmksa ↔
      OpportunisticInOrder cr p networkCtx aa akmp c := by
  unfold OpportunisticInOrder pmksaCacheGetOpportunistic
  cases hsource : opportunisticSource p.now networkCtx akmp c with
  | none =>
    simp only [reduceCtorEq, false_implies, implies_true, iff_true]
    exact ho
  | some old =>
    simp only [Option.some.injEq, forall_eq']
    exact cloneEntry_ordered_iff hc ho cr p old aa

theorem setCurrent_ordered_iff {c : Cache} (hc : Structured c)
    (ho : Ordered Entry.expiration c.pmksa) (cr : Crypto) (p : Params) (a : SelectArgs) :
    Ordered Entry.expiration (pmksaCacheSetCurrent cr p a c).pmksa ↔
      (lookupCurrent a c = none → a.tryOpportunistic = true → ∀ bssid, a.bssid = some bssid →
        OpportunisticInOrder cr p a.networkCtx bssid a.akmp { c with curPmksa := none }) := by
  have hlookup : lookupCurrent a { c with curPmksa := none } = lookupCurrent a c := rfl
  unfold pmksaCacheSetCurrent
  simp only [hlookup]
  cases lookupCurrent a c with
  | some entry => simpa using ho
  | none =>
    cases a.bssid with
    | none => simpa using ho
    | some bssid =>
      simp only [true_implies, Option.some.injEq, forall_eq']
      cases a.tryOpportunistic with
      | false => simpa using ho
      | true =>
        simp only [if_true, true_implies]
        exact getOpportunistic_ordered_iff (hc.setCurPmksa none) ho cr p _ _ _

end Clone

theorem step_good_iff (cr : Crypto) (c : Cache) (i : Call) (hc : Structured c)
    (ho : Ordered Entry.expiration c.pmksa) :
    GoodStep (Runs.event (step cr) c i) ↔ KeepsOrder cr c i := by
  have hplain : ∀ {q : Prop}, i.op ≠ .expire →
      (Ordered Entry.expiration (step cr c i).1.pmksa ↔ q) →
      (GoodStep (Runs.event (step cr) c i) ↔ q) := by
    intro q hop h
    exact ⟨fun hg => h.mp hg.1, fun hq => ⟨h.mpr hq, fun he => absurd he hop⟩⟩
  obtain ⟨p, op⟩ := i
  cases op with
  | add args =>
    refine hplain (by simp) (iff_of_true ?_ trivial)
    simp only [step, pmksaCacheAdd]
    split
    · exact addEntry_ordered hc ho _
    · exact ho
  | addEntry entry => exact hplain (by simp) (iff_of_true (addEntry_ordered hc ho entry) trivial)
  | flush networkCtx pmk externalOnly =>
    exact hplain (by simp) (iff_of_true (ho.sublist List.filter_sublist) trivial)
  | getOpportunistic networkCtx aa akmp =>
    exact hplain (by simp) (getOpportunistic_ordered_iff hc ho cr p networkCtx aa akmp)
  | setCurrent args => exact hplain (by simp) (setCurrent_ordered_iff hc ho cr p args)
  | expire =>
    refine Iff.trans ?_ (expire_good_iff hc ho)
    exact ⟨fun h => ⟨h.1, h.2 rfl⟩, fun h => ⟨h.1, fun _ => h.2⟩⟩
  | assignCurrent ref => exact hplain (by simp) (iff_of_true ho trivial)
  | setPmk pmk => exact hplain (by simp) (iff_of_true ho trivial)
  | keyNegComplete =>
    refine hplain (by simp) (iff_of_true ?_ trivial)
    refine List.Pairwise.map _ (fun a b hab => ?_) ho
    have hexp : ∀ e : Entry, (if isCurrent c e then { e with opportunistic := false }
        else e).expiration = e.expiration := by
      intro e
      split <;> rfl
    rw [hexp, hexp]
    exact hab

/-- Every state of a run is ordered and every expiry is complete exactly if every opportunistic
clone gets an expiration that fits the place it is linked at, and no expiry strands the current
entry. -/
theorem run_ordered_iff (cr : Crypto) (calls : List Call) :
    (∀ t ∈ Runs.trace (step cr) pmksaCacheInit calls, GoodStep t) ↔
      ∀ t ∈ Runs.trace (step cr) pmksaCacheInit calls, KeepsOrder cr t.pre t.input := by
  refine Runs.all_good_iff
    (I := fun c => Structured c ∧ Ordered Entry.expiration c.pmksa) (fun c i h => ?_)
    (fun c i h hgood => ?_) ⟨pmksaCacheInit_structured, List.Pairwise.nil⟩ calls
  · exact step_good_iff cr c i h.1 h.2
  · exact ⟨step_structured cr c i h.1, hgood.1⟩

/-- Entries for two networks, a hundred seconds apart, then a clone of the first entry. Its
expiration is put back to that of the first entry, behind the second one. -/
def cloneRun : List Call :=
  let at_ (now : ℕ) (op : Op) : Call :=
    { params :=
        { now, ownAddr := [2, 0, 0, 0, 0, 9], dot11RSNAConfigPMKLifetime := 43200,
          dot11RSNAConfigPMKReauthThreshold := 70, alloc := true }
      op }
  let add (aa pmk : UInt8) (networkCtx : ℕ) : Op :=
    .add
      { pmk := [pmk], pmkid := some [pmk], kck := none, aa := [2, 0, 0, 0, 0, aa],
        spa := [2, 0, 0, 0, 0, 9], networkCtx, akmp := keyMgmtSae, cacheId := none }
  [at_ 0 (add 1 1 1), at_ 100 (add 2 2 2), at_ 200 (.getOpportunistic 1 [2, 0, 0, 0, 0, 3] 0),
    at_ 43250 .expire]

theorem clone_run_expired :
    ¬∀ cr calls, ∀ t ∈ Runs.trace (step cr) pmksaCacheInit calls, GoodStep t := by
  intro h
  have hrun := h default cloneRun
  simp only [cloneRun, Runs.trace, List.forall_mem_cons] at hrun
  obtain ⟨-, -, -, hexpire, -⟩ := hrun
  have hcur := hexpire.2 rfl
    { ref := 2, pmkid := [1], pmk := [1], expiration := 43200, akmp := keyMgmtSae,
      aa := [2, 0, 0, 0, 0, 3], reauthTime := 30240, networkCtx := 1, opportunistic := true }
    (by decide) (by decide)
  exact absurd hcur.2 (by decide)

end Wpa.PmksaSupp
