import Wpa.Common.Defs
import Wpa.Lib.Expiry
import Wpa.Lib.Runs

/-! The PMKSA cache of the authenticator, `ap/pmksa_cache_auth.c`. Entries are objects that the
source compares by address; `ref` is that address, given out when an entry is linked. -/

namespace Wpa.PmksaAuth
open Lib Lib.Expiry

def pmksaCacheMaxEntries : ℕ := 1024
abbrev pmkidHashSize : ℕ := 128

/-- `PMKID_HASH`: the seven low bits of the first octet. -/
def pmkidHash (pmkid : Bytes) : Fin pmkidHashSize := Fin.ofNat _ ((pmkid.headD 0).toNat &&& 0x7f)

structure Entry where
  ref : ℕ := 0
  pmkid : Bytes
  pmk : Bytes
  expiration : ℕ
  akmp : ℕ
  spa : Bytes
  identity : Option Bytes := none
  cui : Option Bytes := none
  opportunistic : Bool := false
  acctMultiSessionId : ℕ := 0
  deriving DecidableEq

structure Cache where
  pmkid : Fin pmkidHashSize → List Entry
  pmksa : List Entry
  pmksaCount : ℤ
  timer : Option ℕ
  nextRef : ℕ

def pmksaCacheAuthInit : Cache :=
  { pmkid := fun _ => [], pmksa := [], pmksaCount := 0, timer := none, nextRef := 0 }

def isEntry (entry pos : Entry) : Bool := pos.ref == entry.ref

def pmksaCacheFreeEntry (entry : Entry) (c : Cache) : Cache :=
  let hash := pmkidHash entry.pmkid
  { c with
    pmksaCount := c.pmksaCount - 1
    pmkid := Function.update c.pmkid hash ((c.pmkid hash).eraseP (isEntry entry))
    pmksa := c.pmksa.eraseP (isEntry entry) }

/-- The loops that free the first entry for as long as there is one that meets `p`. Each round
makes the list shorter, so its length bounds the number of rounds. -/
def freeWhile (p : Entry → Bool) : ℕ → Cache → Cache
  | 0, c => c
  | n + 1, c =>
    match c.pmksa with
    | [] => c
    | entry :: _ => if p entry then freeWhile p n (pmksaCacheFreeEntry entry c) else c

def pmksaCacheAuthFlush (c : Cache) : Cache := freeWhile (fun _ => true) c.pmksa.length c

def pmksaCacheSetExpiration (now : ℕ) (c : Cache) : Cache :=
  { c with timer := arm Entry.expiration now c.pmksa }

def pmksaCacheExpire (now : ℕ) (c : Cache) : Cache :=
  pmksaCacheSetExpiration now
    (freeWhile (fun entry => decide (entry.expiration ≤ now)) c.pmksa.length c)

/-- The new entry goes in front of the first one that expires later; only a new first entry
arms the timer. -/
def pmksaCacheLinkEntry (now : ℕ) (entry : Entry) (c : Cache) : Cache :=
  let entry := { entry with ref := c.nextRef }
  let hash := pmkidHash entry.pmkid
  let c' : Cache :=
    { c with
      pmksa := insertBefore Entry.expiration entry c.pmksa
      pmkid := Function.update c.pmkid hash (entry :: c.pmkid hash)
      pmksaCount := c.pmksaCount + 1
      nextRef := c.nextRef + 1 }
  if c.pmksa.head?.all fun pos => decide (entry.expiration < pos.expiration) then
    pmksaCacheSetExpiration now c'
  else c'

def matchesSpa (spa : Option Bytes) (entry : Entry) : Bool := spa.all fun a => entry.spa == a

def pmksaCacheAuthGet (spa pmkid : Option Bytes) (c : Cache) : Option Entry :=
  match pmkid with
  | some id =>
    (c.pmkid (pmkidHash id)).find? fun entry => matchesSpa spa entry && entry.pmkid == id
  | none => c.pmksa.find? (matchesSpa spa)

def pmksaCacheAuthAddEntry (now : ℕ) (entry : Option Entry) (c : Cache) : Cache :=
  match entry with
  | none => c
  | some entry =>
    let c :=
      match pmksaCacheAuthGet (some entry.spa) none c with
      | some pos => pmksaCacheFreeEntry pos c
      | none => c
    let c :=
      match c.pmksa with
      | oldest :: _ =>
        if pmksaCacheMaxEntries ≤ c.pmksaCount then pmksaCacheFreeEntry oldest c else c
      | [] => c
    pmksaCacheLinkEntry now entry c

/-- One call of `pmksa_cache_add_okc`, with the outcomes of its allocations. -/
structure OkcArgs where
  oldEntry : Entry
  pmkid : Bytes
  alloc : Bool
  identityAlloc : Bool
  cuiAlloc : Bool
  deriving DecidableEq

def okcEntry (a : OkcArgs) : Entry :=
  { pmkid := a.pmkid
    pmk := a.oldEntry.pmk
    expiration := a.oldEntry.expiration
    akmp := a.oldEntry.akmp
    spa := a.oldEntry.spa
    identity := if a.identityAlloc then a.oldEntry.identity else none
    cui := if a.cuiAlloc then a.oldEntry.cui else none
    opportunistic := true }

def pmksaCacheAddOkc (now : ℕ) (a : OkcArgs) (c : Cache) : Cache :=
  if a.alloc then pmksaCacheLinkEntry now (okcEntry a) c else c

def hexDigit (n : ℕ) : UInt8 := UInt8.ofNat (if n < 10 then 48 + n else 55 + n)

/-- `%016llX`. -/
def hexU64 (n : ℕ) : Bytes := (List.range 16).map fun i => hexDigit (n / 16 ^ (15 - i) % 16)

structure DasAttrs where
  staAddr : Option Bytes := none
  acctSessionId : Option Bytes := none
  acctMultiSessionId : Option Bytes := none
  cui : Option Bytes := none
  userName : Option Bytes := none
  deriving DecidableEq

/-- At least one attribute is given and all that are given match the entry. -/
def dasAttrMatch (entry : Entry) (attr : DasAttrs) : Bool :=
  (attr.staAddr.all fun a => a == entry.spa) &&
  (attr.acctMultiSessionId.all fun id => id.length == 16 && id == hexU64 entry.acctMultiSessionId) &&
  (attr.cui.all fun cui => entry.cui == some cui) &&
  (attr.userName.all fun name => entry.identity == some name) &&
  (attr.staAddr.isSome || attr.acctMultiSessionId.isSome || attr.cui.isSome ||
    attr.userName.isSome)

def pmksaCacheAuthRadiusDasDisconnect (attr : DasAttrs) (c : Cache) : Cache :=
  if attr.acctSessionId.isSome then c
  else
    c.pmksa.foldl
      (fun c entry => if dasAttrMatch entry attr then pmksaCacheFreeEntry entry c else c) c

inductive Op where
  | addEntry (entry : Option Entry)
  | addOkc (args : OkcArgs)
  | freeEntry (ref : ℕ)
  | flush
  | radiusDasDisconnect (attr : DasAttrs)
  | expire
  deriving DecidableEq

structure Call where
  now : ℕ
  op : Op
  deriving DecidableEq

/-- Only cached entries are freed from outside; `freeEntry` names one by its address. -/
def step (c : Cache) (i : Call) : Cache × List Empty :=
  match i.op with
  | .addEntry entry => (pmksaCacheAuthAddEntry i.now entry c, [])
  | .addOkc args => (pmksaCacheAddOkc i.now args c, [])
  | .freeEntry ref =>
    match c.pmksa.find? fun e => e.ref == ref with
    | some entry => (pmksaCacheFreeEntry entry c, [])
    | none => (c, [])
  | .flush => (pmksaCacheAuthFlush c, [])
  | .radiusDasDisconnect attr => (pmksaCacheAuthRadiusDasDisconnect attr c, [])
  | .expire => (pmksaCacheExpire i.now c, [])

/-- The list and the chains hold the same entries, each once and in the chain of its PMKID. -/
structure Linked (c : Cache) : Prop where
  nodup : (c.pmksa.map Entry.ref).Nodup
  fresh : ∀ e ∈ c.pmksa, e.ref < c.nextRef
  chains : ∀ h, (c.pmkid h).Perm (c.pmksa.filter fun e => pmkidHash e.pmkid == h)
  count : c.pmksaCount = c.pmksa.length

structure Sound (c : Cache) : Prop extends Linked c where
  bound : c.pmksa.length ≤ pmksaCacheMaxEntries
  ordered : Ordered Entry.expiration c.pmksa
  timely : Timely Entry.expiration c.pmksa c.timer

theorem eraseP_isEntry {l : List Entry} (hnodup : (l.map Entry.ref).Nodup) (entry : Entry) :
    l.eraseP (isEntry entry) = l.filter fun e => !isEntry entry e := by
  induction l with
  | nil => rfl
  | cons a l ih =>
    rw [List.map_cons, List.nodup_cons] at hnodup
    rw [List.eraseP_cons, List.filter_cons]
    cases ha : isEntry entry a with
    | false => simp [ih hnodup.2]
    | true =>
      have hall : ∀ e ∈ l, (!isEntry entry e) = true := by
        intro e he
        have hne : e.ref ≠ a.ref := fun h => hnodup.1 (List.mem_map.mpr ⟨e, he, h⟩)
        have hent : a.ref = entry.ref := by simpa [isEntry] using ha
        simpa [isEntry, hent] using hent ▸ hne
      simp [List.filter_eq_self.mpr hall]

theorem Linked.eq_of_isEntry {c : Cache} (hc : Linked c) {entry e : Entry}
    (hentry : entry ∈ c.pmksa) (he : e ∈ c.pmksa) (h : isEntry entry e = true) : e = entry :=
  List.inj_on_of_nodup_map hc.nodup he hentry (by simpa [isEntry] using h)

theorem Linked.chain_nodup {c : Cache} (hc : Linked c) (h : Fin pmkidHashSize) :
    ((c.pmkid h).map Entry.ref).Nodup :=
  ((hc.chains h).map _).nodup_iff.mpr (hc.nodup.sublist (List.filter_sublist.map _))

theorem Linked.pmksa_freeEntry {c : Cache} (hc : Linked c) (entry : Entry) :
    (pmksaCacheFreeEntry entry c).pmksa = c.pmksa.filter fun e => !isEntry entry e :=
  eraseP_isEntry hc.nodup entry

theorem Linked.freeEntry {c : Cache} (hc : Linked c) {entry : Entry} (hentry : entry ∈ c.pmksa) :
    Linked (pmksaCacheFreeEntry entry c) := by
  have hpmksa := hc.pmksa_freeEntry entry
  refine ⟨?_, ?_, ?_, ?_⟩
  · rw [hpmksa]
    exact hc.nodup.sublist (List.filter_sublist.map _)
  · intro e he
    rw [hpmksa] at he
    exact hc.fresh e (List.mem_of_mem_filter he)
  · intro h
    rw [hpmksa]
    by_cases hh : h = pmkidHash entry.pmkid
    · subst hh
      have hchain : (pmksaCacheFreeEntry entry c).pmkid (pmkidHash entry.pmkid) =
          (c.pmkid (pmkidHash entry.pmkid)).filter fun e => !isEntry entry e := by
        simp only [pmksaCacheFreeEntry, Function.update_self]
        exact eraseP_isEntry (hc.chain_nodup _) entry
      rw [hchain, List.filter_comm]
      exact (hc.chains _).filter _
    · have hchain : (pmksaCacheFreeEntry entry c).pmkid h = c.pmkid h := by
        simp [pmksaCacheFreeEntry, hh]
      have hsame : (c.pmksa.filter fun e => !isEntry entry e).filter
          (fun e => pmkidHash e.pmkid == h) = c.pmksa.filter fun e => pmkidHash e.pmkid == h := by
        rw [List.filter_filter]
        refine List.filter_congr fun e he => ?_
        cases hent : isEntry entry e with
        | false => simp
        | true =>
          obtain rfl := hc.eq_of_isEntry hentry he hent
          simpa using Ne.symm hh
      rw [hchain, hsame]
      exact hc.chains h
  · have hlen : (c.pmksa.eraseP (isEntry entry)).length = c.pmksa.length - 1 :=
      List.length_eraseP_of_mem hentry (by simp [isEntry])
    have hpos : 0 < c.pmksa.length := List.length_pos_of_mem hentry
    simp only [pmksaCacheFreeEntry, hlen, hc.count]
    omega

/-- Freeing entries leaves a sublist and a timer that is early at worst. -/
theorem Sound.freeEntry {c : Cache} (hc : Sound c) {entry : Entry} (hentry : entry ∈ c.pmksa) :
    Sound (pmksaCacheFreeEntry entry c) := by
  have hsub : (pmksaCacheFreeEntry entry c).pmksa.Sublist c.pmksa := List.eraseP_sublist
  exact
    { hc.toLinked.freeEntry hentry with
      bound := hsub.length_le.trans hc.bound
      ordered := hc.ordered.sublist hsub
      timely := hc.timely.subset hsub.subset }

theorem Sound.freeWhile {c : Cache} (hc : Sound c) (p : Entry → Bool) (n : ℕ) :
    Sound (freeWhile p n c) := by
  induction n generalizing c with
  | zero => exact hc
  | succ n ih =>
    unfold PmksaAuth.freeWhile
    split
    · exact hc
    · rename_i entry l hl
      split
      · exact ih (hc.freeEntry (hl ▸ List.mem_cons_self ..))
      · exact hc

theorem freeWhile_pmksa (p : Entry → Bool) (n : ℕ) (c : Cache) (hn : c.pmksa.length ≤ n) :
    (freeWhile p n c).pmksa = c.pmksa.dropWhile p := by
  induction n generalizing c with
  | zero =>
    have hnil := List.length_eq_zero_iff.mp (Nat.le_zero.mp hn)
    simp [freeWhile, hnil]
  | succ n ih =>
    unfold freeWhile
    split
    · rename_i hnil
      simp [hnil]
    · rename_i entry l hl
      have htail : (pmksaCacheFreeEntry entry c).pmksa = l := by
        simp [pmksaCacheFreeEntry, hl, isEntry]
      split
      · rename_i hp
        rw [ih _ (by rw [htail]; simp only [hl, List.length_cons] at hn; omega), htail, hl,
          List.dropWhile_cons_of_pos hp]
      · rename_i hp
        rw [hl, List.dropWhile_cons_of_neg hp]

theorem Sound.expire {c : Cache} (hc : Sound c) (now : ℕ) : Sound (pmksaCacheExpire now c) := by
  set p : Entry → Bool := fun entry => decide (entry.expiration ≤ now) with hp
  have hfree := hc.freeWhile p c.pmksa.length
  have hlist := freeWhile_pmksa p c.pmksa.length c le_rfl
  refine { hfree.toLinked with bound := hfree.bound, ordered := hfree.ordered, timely := ?_ }
  refine (timely_arm_iff hfree.ordered).mpr ?_
  have hordered := hfree.ordered
  -- the list is ordered, so that its first entry decides for all of them
  rw [hlist] at hordered ⊢
  cases hdrop : c.pmksa.dropWhile p with
  | nil => simp
  | cons first l =>
    have hkept : p first = false := by
      have hhead := List.head?_dropWhile_not p c.pmksa
      simpa [hdrop] using hhead
    have hfirst : now ≤ first.expiration := by
      simp only [hp, decide_eq_false_iff_not] at hkept
      omega
    rw [hdrop] at hordered
    intro e he
    rcases List.mem_cons.mp he with rfl | he
    · exact hfirst
    · exact hfirst.trans ((Ordered.cons_iff.mp hordered).1 e he)

theorem Sound.freeMatching {c : Cache} (hc : Sound c) (p : Entry → Bool) (l : List Entry)
    (hnodup : (l.map Entry.ref).Nodup) (hsub : l ⊆ c.pmksa) :
    Sound (l.foldl (fun c entry => if p entry then pmksaCacheFreeEntry entry c else c) c) := by
  induction l generalizing c with
  | nil => exact hc
  | cons a l ih =>
    rw [List.map_cons, List.nodup_cons] at hnodup
    obtain ⟨ha, hl⟩ := List.cons_subset.mp hsub
    rw [List.foldl_cons]
    split
    · refine ih (hc.freeEntry ha) hnodup.2 fun e he => ?_
      rw [hc.toLinked.pmksa_freeEntry]
      refine List.mem_filter.mpr ⟨hl he, ?_⟩
      have hne : e.ref ≠ a.ref := fun h => hnodup.1 (List.mem_map.mpr ⟨e, he, h⟩)
      simpa [isEntry] using hne
    · exact ih hc hnodup.2 hl

theorem Sound.radiusDasDisconnect {c : Cache} (hc : Sound c) (attr : DasAttrs) :
    Sound (pmksaCacheAuthRadiusDasDisconnect attr c) := by
  unfold pmksaCacheAuthRadiusDasDisconnect
  split
  · exact hc
  · exact hc.freeMatching _ _ hc.nodup (List.Subset.refl _)

/-- The entry as it is linked. -/
def linked (entry : Entry) (c : Cache) : Entry := { entry with ref := c.nextRef }

theorem linkEntry_pmksa (now : ℕ) (entry : Entry) (c : Cache) :
    (pmksaCacheLinkEntry now entry c).pmksa =
      insertBefore Entry.expiration (linked entry c) c.pmksa := by
  unfold pmksaCacheLinkEntry
  simp only
  split <;> rfl

theorem linkEntry_pmkid (now : ℕ) (entry : Entry) (c : Cache) :
    (pmksaCacheLinkEntry now entry c).pmkid =
      Function.update c.pmkid (pmkidHash entry.pmkid)
        (linked entry c :: c.pmkid (pmkidHash entry.pmkid)) := by
  unfold pmksaCacheLinkEntry
  simp only
  split <;> rfl

theorem linkEntry_pmksaCount (now : ℕ) (entry : Entry) (c : Cache) :
    (pmksaCacheLinkEntry now entry c).pmksaCount = c.pmksaCount + 1 := by
  unfold pmksaCacheLinkEntry
  simp only
  split <;> rfl

theorem linkEntry_nextRef (now : ℕ) (entry : Entry) (c : Cache) :
    (pmksaCacheLinkEntry now entry c).nextRef = c.nextRef + 1 := by
  unfold pmksaCacheLinkEntry
  simp only
  split <;> rfl

theorem linkEntry_timer (now : ℕ) (entry : Entry) (c : Cache) :
    (pmksaCacheLinkEntry now entry c).timer =
      if c.pmksa.head?.all fun pos => decide (entry.expiration < pos.expiration) then
        arm Entry.expiration now (insertBefore Entry.expiration (linked entry c) c.pmksa)
      else c.timer := by
  unfold pmksaCacheLinkEntry
  simp only
  split <;> rfl

theorem Linked.linkEntry {c : Cache} (hc : Linked c) (now : ℕ) (entry : Entry) :
    Linked (pmksaCacheLinkEntry now entry c) := by
  have hperm := insertBefore_perm Entry.expiration (linked entry c) c.pmksa
  refine ⟨?_, ?_, ?_, ?_⟩
  · rw [linkEntry_pmksa, (hperm.map Entry.ref).nodup_iff, List.map_cons, List.nodup_cons]
    refine ⟨fun hmem => ?_, hc.nodup⟩
    obtain ⟨e, he, href⟩ := List.mem_map.mp hmem
    exact absurd href (hc.fresh e he).ne
  · intro e he
    rw [linkEntry_pmksa, mem_insertBefore] at he
    rw [linkEntry_nextRef]
    rcases he with rfl | he
    · exact Nat.lt_succ_self _
    · exact (hc.fresh e he).trans (Nat.lt_succ_self _)
  · intro h
    rw [linkEntry_pmksa, linkEntry_pmkid]
    refine List.Perm.trans ?_ (hperm.filter _).symm
    by_cases hh : h = pmkidHash entry.pmkid
    · subst hh
      rw [Function.update_self, List.filter_cons_of_pos (by simp [linked])]
      exact (hc.chains _).cons _
    · rw [Function.update_of_ne hh, List.filter_cons_of_neg (by simpa [linked] using Ne.symm hh)]
      exact hc.chains h
  · rw [linkEntry_pmksa, linkEntry_pmksaCount, hc.count, length_insertBefore]
    push_cast
    rfl

/-- A new first entry must not have expired already, since the timer is armed from it. -/
def LinksOnTime (now : ℕ) (entry : Entry) (l : List Entry) : Prop :=
  now ≤ entry.expiration ∨ ∃ e ∈ l, e.expiration ≤ entry.expiration

theorem linkEntry_timely_iff {c : Cache} (hc : Sound c) (now : ℕ) (entry : Entry) :
    Timely Entry.expiration (pmksaCacheLinkEntry now entry c).pmksa
      (pmksaCacheLinkEntry now entry c).timer ↔ LinksOnTime now entry c.pmksa := by
  rw [linkEntry_pmksa, linkEntry_timer]
  split
  · rename_i hfirst
    have hlater : ∀ e ∈ c.pmksa, entry.expiration < e.expiration := by
      cases hl : c.pmksa with
      | nil => simp
      | cons first l =>
        have hlt : entry.expiration < first.expiration := by simpa [hl] using hfirst
        intro e he
        rcases List.mem_cons.mp he with rfl | he
        · exact hlt
        · exact hlt.trans_le ((Ordered.cons_iff.mp (hl ▸ hc.ordered)).1 e he)
    rw [timely_arm_iff (hc.ordered.insertBefore _)]
    constructor
    · intro h
      exact .inl (h (linked entry c) (mem_insertBefore.mpr (.inl rfl)))
    · rintro (hnow | ⟨e, he, hle⟩)
      · intro e he
        rcases mem_insertBefore.mp he with rfl | he
        · exact hnow
        · exact hnow.trans (hlater e he).le
      · exact absurd hle (not_le.mpr (hlater e he))
  · rename_i hfirst
    obtain ⟨first, hmem, hle⟩ : ∃ e ∈ c.pmksa, e.expiration ≤ entry.expiration := by
      cases hl : c.pmksa with
      | nil => simp [hl] at hfirst
      | cons first l => exact ⟨first, List.mem_cons_self .., by simpa [hl] using hfirst⟩
    refine iff_of_true (fun _ => ?_) (.inr ⟨first, hmem, hle⟩)
    obtain ⟨t, ht, hbound⟩ := hc.timely (List.ne_nil_of_mem hmem)
    refine ⟨t, ht, fun e he => ?_⟩
    rcases mem_insertBefore.mp he with rfl | he
    · exact (hbound first hmem).trans (Nat.succ_le_succ hle)
    · exact hbound e he

theorem linkEntry_sound_iff {c : Cache} (hc : Sound c) (now : ℕ) (entry : Entry) :
    Sound (pmksaCacheLinkEntry now entry c) ↔
      c.pmksa.length < pmksaCacheMaxEntries ∧ LinksOnTime now entry c.pmksa := by
  have hlen : (pmksaCacheLinkEntry now entry c).pmksa.length = c.pmksa.length + 1 := by
    rw [linkEntry_pmksa, length_insertBefore]
  constructor
  · intro h
    exact ⟨by have := h.bound; omega, (linkEntry_timely_iff hc now entry).mp h.timely⟩
  · rintro ⟨hroom, htime⟩
    exact
      { hc.toLinked.linkEntry now entry with
        bound := by omega
        ordered := by
          rw [linkEntry_pmksa]
          exact hc.ordered.insertBefore _
        timely := (linkEntry_timely_iff hc now entry).mpr htime }

/-- The entries that stay when a new one for `spa` is added: the first one of that station goes,
and then, if the cache is full, the one that expires first. -/
def remaining (spa : Bytes) (l : List Entry) : List Entry :=
  let l := l.eraseP (matchesSpa (some spa))
  if pmksaCacheMaxEntries ≤ l.length then l.tail else l

theorem eraseP_of_find? {p : Entry → Bool} {l : List Entry} (hnodup : (l.map Entry.ref).Nodup)
    {pos : Entry} (h : l.find? p = some pos) : l.eraseP (isEntry pos) = l.eraseP p := by
  induction l with
  | nil => cases h
  | cons a l ih =>
    rw [List.map_cons, List.nodup_cons] at hnodup
    cases hp : p a with
    | true =>
      rw [List.find?_cons_of_pos hp] at h
      cases h
      simp [hp, isEntry]
    | false =>
      rw [List.find?_cons_of_neg (by simp [hp])] at h
      have hmem := List.mem_of_find?_eq_some h
      have hne : isEntry pos a = false := by
        have hr : a.ref ≠ pos.ref := fun hr => hnodup.1 (List.mem_map.mpr ⟨pos, hmem, hr.symm⟩)
        simpa [isEntry] using hr
      rw [List.eraseP_cons_of_neg (by simp [hne]), List.eraseP_cons_of_neg (by simp [hp]),
        ih hnodup.2 h]

def replaceSta (spa : Bytes) (c : Cache) : Cache :=
  match pmksaCacheAuthGet (some spa) none c with
  | some pos => pmksaCacheFreeEntry pos c
  | none => c

def evictOldest (c : Cache) : Cache :=
  match c.pmksa with
  | oldest :: _ =>
    if pmksaCacheMaxEntries ≤ c.pmksaCount then pmksaCacheFreeEntry oldest c else c
  | [] => c

theorem addEntry_eq (now : ℕ) (entry : Entry) (c : Cache) :
    pmksaCacheAuthAddEntry now (some entry) c =
      pmksaCacheLinkEntry now entry (evictOldest (replaceSta entry.spa c)) := rfl

theorem replaceSta_spec {c : Cache} (hc : Sound c) (spa : Bytes) :
    Sound (replaceSta spa c) ∧
      (replaceSta spa c).pmksa = c.pmksa.eraseP (matchesSpa (some spa)) := by
  unfold replaceSta pmksaCacheAuthGet
  simp only
  cases hfind : c.pmksa.find? (matchesSpa (some spa)) with
  | some pos =>
    exact ⟨hc.freeEntry (List.mem_of_find?_eq_some hfind), eraseP_of_find? hc.nodup hfind⟩
  | none =>
    refine ⟨hc, (List.eraseP_of_forall_not fun e he => ?_).symm⟩
    exact List.find?_eq_none.mp hfind e he

theorem evictOldest_spec {c : Cache} (hc : Sound c) :
    Sound (evictOldest c) ∧ (evictOldest c).pmksa =
      if pmksaCacheMaxEntries ≤ c.pmksa.length then c.pmksa.tail else c.pmksa := by
  have hcount := hc.count
  unfold evictOldest
  cases hl : c.pmksa with
  | nil => exact ⟨hc, by simp [hl]⟩
  | cons oldest l =>
    have hiff : ((pmksaCacheMaxEntries : ℤ) ≤ c.pmksaCount) ↔
        pmksaCacheMaxEntries ≤ (oldest :: l).length := by
      rw [hcount, hl]
      exact Int.ofNat_le
    simp only [hiff]
    split
    · refine ⟨hc.freeEntry (hl ▸ List.mem_cons_self ..), ?_⟩
      simp [pmksaCacheFreeEntry, hl, isEntry]
    · exact ⟨hc, hl⟩

theorem room_spec {c : Cache} (hc : Sound c) (spa : Bytes) :
    Sound (evictOldest (replaceSta spa c)) ∧
      (evictOldest (replaceSta spa c)).pmksa = remaining spa c.pmksa := by
  obtain ⟨hreplace, hlist⟩ := replaceSta_spec hc spa
  obtain ⟨hevict, hlist'⟩ := evictOldest_spec hreplace
  refine ⟨hevict, ?_⟩
  rw [hlist', hlist]
  rfl

theorem remaining_length_lt {l : List Entry} (hl : l.length ≤ pmksaCacheMaxEntries)
    (spa : Bytes) : (remaining spa l).length < pmksaCacheMaxEntries := by
  have hle : (l.eraseP (matchesSpa (some spa))).length ≤ l.length := List.length_eraseP_le
  have hpos : 0 < pmksaCacheMaxEntries := by decide
  unfold remaining
  simp only
  split
  · rw [List.length_tail]
    omega
  · omega

/-- What keeps the cache sound: room for an opportunistic entry, and no new first entry that has
expired already. -/
def Fits (c : Cache) (i : Call) : Prop :=
  match i.op with
  | .addEntry (some entry) => LinksOnTime i.now entry (remaining entry.spa c.pmksa)
  | .addOkc args => args.alloc = true →
      c.pmksa.length < pmksaCacheMaxEntries ∧ LinksOnTime i.now args.oldEntry c.pmksa
  | _ => True

theorem step_sound_iff (c : Cache) (i : Call) (hc : Sound c) :
    Sound (step c i).1 ↔ Fits c i := by
  obtain ⟨now, op⟩ := i
  cases op with
  | addEntry entry =>
    cases entry with
    | none => exact iff_of_true hc trivial
    | some entry =>
      obtain ⟨hroom, hlist⟩ := room_spec hc entry.spa
      change Sound (pmksaCacheAuthAddEntry now (some entry) c) ↔ _
      rw [addEntry_eq, linkEntry_sound_iff hroom, hlist]
      exact ⟨fun h => h.2, fun h => ⟨remaining_length_lt hc.bound entry.spa, h⟩⟩
  | addOkc args =>
    change Sound (pmksaCacheAddOkc now args c) ↔ _
    unfold pmksaCacheAddOkc
    split
    · rename_i halloc
      rw [linkEntry_sound_iff hc]
      exact ⟨fun h _ => h, fun h => h halloc⟩
    · rename_i halloc
      exact iff_of_true hc fun h => absurd h halloc
  | freeEntry ref =>
    refine iff_of_true ?_ trivial
    simp only [step]
    split
    · rename_i entry hfind
      exact hc.freeEntry (List.mem_of_find?_eq_some hfind)
    · exact hc
  | flush => exact iff_of_true (hc.freeWhile _ _) trivial
  | radiusDasDisconnect attr => exact iff_of_true (hc.radiusDasDisconnect attr) trivial
  | expire => exact iff_of_true (hc.expire now) trivial

/-- A lookup finds an entry exactly if the list holds a match, and what it finds is one. -/
def FindsExactly (c : Cache) (spa pmkid : Option Bytes) : Prop :=
  ((pmksaCacheAuthGet spa pmkid c).isSome ↔
    ∃ e ∈ c.pmksa, matchesSpa spa e = true ∧ ∀ id ∈ pmkid, e.pmkid = id) ∧
  ∀ e ∈ pmksaCacheAuthGet spa pmkid c,
    e ∈ c.pmksa ∧ matchesSpa spa e = true ∧ ∀ id ∈ pmkid, e.pmkid = id

theorem Linked.findsExactly {c : Cache} (hc : Linked c) (spa pmkid : Option Bytes) :
    FindsExactly c spa pmkid := by
  unfold FindsExactly
  cases pmkid with
  | none =>
    simp only [pmksaCacheAuthGet, Option.mem_def, reduceCtorEq, false_implies, implies_true,
      and_true, List.find?_isSome]
    exact ⟨trivial, fun e he => ⟨List.mem_of_find?_eq_some he, List.find?_some he⟩⟩
  | some id =>
    have hchain (e : Entry) : e ∈ c.pmkid (pmkidHash id) ↔
        e ∈ c.pmksa ∧ pmkidHash e.pmkid = pmkidHash id := by
      rw [(hc.chains _).mem_iff, List.mem_filter, beq_iff_eq]
    simp only [pmksaCacheAuthGet, Option.mem_def, Option.some.injEq, forall_eq',
      List.find?_isSome, Bool.and_eq_true, beq_iff_eq]
    constructor
    · constructor
      · rintro ⟨e, he, hspa, hid⟩
        exact ⟨e, ((hchain e).mp he).1, hspa, hid⟩
      · rintro ⟨e, he, hspa, rfl⟩
        exact ⟨e, (hchain e).mpr ⟨he, rfl⟩, hspa, rfl⟩
    · intro e he
      have hfound := List.find?_some he
      simp only [Bool.and_eq_true, beq_iff_eq] at hfound
      exact ⟨((hchain e).mp (List.mem_of_find?_eq_some he)).1, hfound⟩

theorem pmksaCacheAuthInit_sound : Sound pmksaCacheAuthInit :=
  { nodup := List.nodup_nil
    fresh := by simp [pmksaCacheAuthInit]
    chains := fun _ => List.Perm.refl _
    count := rfl
    bound := Nat.zero_le _
    ordered := List.Pairwise.nil
    timely := timely_nil _ }

theorem run_sound_iff (calls : List Call) :
    (∀ t ∈ Runs.trace step pmksaCacheAuthInit calls,
      Sound t.post ∧ ∀ spa pmkid, FindsExactly t.post spa pmkid) ↔
      ∀ t ∈ Runs.trace step pmksaCacheAuthInit calls, Fits t.pre t.input := by
  refine Runs.all_good_iff (fun c i hc => ?_) (fun c i _ hgood => hgood.1)
    pmksaCacheAuthInit_sound calls
  rw [← step_sound_iff c i hc]
  exact ⟨fun h => h.1, fun h => ⟨h, fun spa pmkid => h.toLinked.findsExactly spa pmkid⟩⟩

/-- An opportunistic entry made from one of another interface. -/
def okcCall : Call :=
  { now := 0
    op := .addOkc
      { oldEntry :=
          { pmkid := List.replicate 16 1, pmk := List.replicate 32 2, expiration := 43200,
            akmp := keyMgmtIeee8021x, spa := [2, 0, 0, 0, 0, 1] }
        pmkid := List.replicate 16 3, alloc := true, identityAlloc := true, cuiAlloc := true } }

theorem okc_run_length (n : ℕ) :
    (Runs.final step pmksaCacheAuthInit (List.replicate n okcCall)).pmksa.length = n := by
  induction n with
  | zero => rfl
  | succ n ih =>
    rw [List.replicate_succ', Runs.final_append]
    change (pmksaCacheLinkEntry _ _ _).pmksa.length = _
    rw [linkEntry_pmksa, length_insertBefore, ih]

theorem okc_run_reaches (n : ℕ) :
    ∃ t ∈ Runs.trace step pmksaCacheAuthInit (List.replicate (n + 1) okcCall),
      t.post.pmksa.length = n + 1 := by
  have hlen := okc_run_length (n + 1)
  rw [List.replicate_succ', Runs.final_append] at hlen
  refine ⟨Runs.event step (Runs.final step pmksaCacheAuthInit (List.replicate n okcCall)) okcCall,
    ?_, hlen⟩
  rw [List.replicate_succ', Runs.trace_append]
  exact List.mem_append_right _ (List.mem_cons_self ..)

/-- Nothing is evicted for opportunistic entries, so that 1025 of them exceed the limit. -/
theorem okc_run_unsound :
    ¬∀ calls, ∀ t ∈ Runs.trace step pmksaCacheAuthInit calls,
      Sound t.post ∧ ∀ spa pmkid, FindsExactly t.post spa pmkid := by
  intro h
  obtain ⟨t, ht, hlen⟩ := okc_run_reaches pmksaCacheMaxEntries
  have hbound := (h _ t ht).1.bound
  omega

end Wpa.PmksaAuth
