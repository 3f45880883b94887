import Wpa.Common.Crypto
import Wpa.Lib.Expiry
import Wpa.Lib.Runs

/-! The PTKSA cache of `common/ptksa_cache.c`. Times are the whole seconds of `os_get_reltime`. -/

namespace Wpa.Ptksa
open Lib Lib.Expiry

def ptksaCacheMaxEntries : ℕ := 16

structure Entry where
  ptk : Ptk
  expiration : ℕ
  cipher : ℕ
  addr : Bytes
  deriving DecidableEq

structure Cache where
  ptksa : List Entry
  nPtksa : ℕ
  timer : Option ℕ
  deriving DecidableEq

def ptksaCacheInit : Cache := { ptksa := [], nPtksa := 0, timer := none }

def ptksaCacheSetExpiration (now : ℕ) (c : Cache) : Cache :=
  if c.nPtksa = 0 then { c with timer := none }
  else { c with timer := arm Entry.expiration now c.ptksa }

/-- The loops of the source that free every entry a condition selects. -/
def freeWhere (p : Entry → Bool) (c : Cache) : Cache :=
  { c with
    ptksa := c.ptksa.filter fun e => !p e
    nPtksa := c.nPtksa - c.ptksa.countP p }

def ptksaCacheExpire (now : ℕ) (c : Cache) : Cache :=
  ptksaCacheSetExpiration now (freeWhere (fun e => decide (e.expiration ≤ now)) c)

def matchesEntry (addr : Option Bytes) (cipher : ℕ) (e : Entry) : Bool :=
  (addr.all fun a => e.addr == a) && (cipher == cipherNone || cipher == e.cipher)

def ptksaCacheFlush (now : ℕ) (addr : Option Bytes) (cipher : ℕ) (c : Cache) : Cache :=
  let c' := freeWhere (matchesEntry addr cipher) c
  if c.ptksa.any (matchesEntry addr cipher) then ptksaCacheSetExpiration now c' else c'

/-- `dl_list_add(&tmp2->list, ..)` links the new entry behind `tmp2`, the first entry that
expires later. -/
def linkEntry (entry : Entry) : List Entry → List Entry
  | [] => [entry]
  | tmp :: l =>
    if entry.expiration < tmp.expiration then tmp :: entry :: l else tmp :: linkEntry entry l

/-- One call of `ptksa_cache_add`; `alloc` says whether the entry could be allocated. -/
structure AddArgs where
  addr : Option Bytes
  cipher : ℕ
  lifeTime : ℕ
  ptk : Option Ptk
  alloc : Bool
  deriving DecidableEq

def newEntry (now : ℕ) (addr : Bytes) (ptk : Ptk) (a : AddArgs) : Entry :=
  { ptk, expiration := now + a.lifeTime, cipher := a.cipher, addr }

/-- The cache after the call and the entry that the call returns. -/
def ptksaCacheAdd (now : ℕ) (a : AddArgs) (c : Cache) : Cache × Option Entry :=
  match a.addr, a.ptk with
  | some addr, some ptk =>
    if a.lifeTime = 0 ∨ a.cipher = cipherNone then (c, none)
    else
      let c := ptksaCacheFlush now (some addr) a.cipher c
      if ptksaCacheMaxEntries ≤ c.nPtksa then (c, none)
      else if !a.alloc then (c, none)
      else
        let entry := newEntry now addr ptk a
        ({ c with ptksa := linkEntry entry c.ptksa, nPtksa := c.nPtksa + 1 }, some entry)
  | _, _ => (c, none)

inductive Op where
  | add (args : AddArgs)
  | flush (addr : Option Bytes) (cipher : ℕ)
  | expire
  deriving DecidableEq

/-- An operation and the second in which it runs. -/
structure Call where
  now : ℕ
  op : Op
  deriving DecidableEq

def step (c : Cache) (i : Call) : Cache × List Entry :=
  match i.op with
  | .add args => ((ptksaCacheAdd i.now args c).1, (ptksaCacheAdd i.now args c).2.toList)
  | .flush addr cipher => (ptksaCacheFlush i.now addr cipher c, [])
  | .expire => (ptksaCacheExpire i.now c, [])

/-- What the expiry of entries rests on. -/
structure Scheduled (c : Cache) : Prop where
  unique : c.ptksa.Pairwise fun a b => ¬(a.addr = b.addr ∧ a.cipher = b.cipher)
  count : c.nPtksa = c.ptksa.length
  bound : c.ptksa.length ≤ ptksaCacheMaxEntries
  ordered : Ordered Entry.expiration c.ptksa
  timely : Timely Entry.expiration c.ptksa c.timer

/-- The entries that a call of `ptksa_cache_flush` leaves. -/
def kept (addr : Option Bytes) (cipher : ℕ) (c : Cache) : List Entry :=
  c.ptksa.filter fun e => !matchesEntry addr cipher e

/-- A flush that removes an entry arms the timer from what is left, which must not have expired
already. -/
def FlushOnTime (now : ℕ) (addr : Option Bytes) (cipher : ℕ) (c : Cache) : Prop :=
  c.ptksa.any (matchesEntry addr cipher) = true →
    ∀ e ∈ kept addr cipher c, now ≤ e.expiration

def Stores (a : AddArgs) (c : Cache) : Prop :=
  a.alloc = true ∧ (kept a.addr a.cipher c).length < ptksaCacheMaxEntries

/-- An entry that is stored finds others in the cache, none of which expires later. -/
def KeepsSchedule (c : Cache) (i : Call) : Prop :=
  match i.op with
  | .add a =>
    a.addr.isSome ∧ a.ptk.isSome ∧ a.lifeTime ≠ 0 ∧ a.cipher ≠ cipherNone →
      FlushOnTime i.now a.addr a.cipher c ∧
      (Stores a c → kept a.addr a.cipher c ≠ [] ∧
        ∀ e ∈ kept a.addr a.cipher c, e.expiration ≤ i.now + a.lifeTime)
  | .flush addr cipher => FlushOnTime i.now addr cipher c
  | .expire => True

theorem linkEntry_perm (entry : Entry) (l : List Entry) : (linkEntry entry l).Perm (entry :: l) := by
  induction l with
  | nil => exact List.Perm.refl _
  | cons tmp l ih =>
    unfold linkEntry
    split
    · exact List.Perm.swap entry tmp l
    · exact (ih.cons tmp).trans (List.Perm.swap entry tmp l)

theorem linkEntry_ordered_iff (entry : Entry) {l : List Entry} (ho : Ordered Entry.expiration l) :
    Ordered Entry.expiration (linkEntry entry l) ↔ ∀ e ∈ l, e.expiration ≤ entry.expiration := by
  induction l with
  | nil => simp [linkEntry, Ordered]
  | cons tmp l ih =>
    obtain ⟨htmp, hl⟩ := Ordered.cons_iff.mp ho
    have hmem (e : Entry) : e ∈ linkEntry entry l ↔ e = entry ∨ e ∈ l := by
      rw [(linkEntry_perm entry l).mem_iff, List.mem_cons]
    unfold linkEntry
    split
    · rename_i hlt
      constructor
      · intro h
        have hle := (Ordered.cons_iff.mp h).1 entry (List.mem_cons_self ..)
        exact absurd hlt (not_lt.mpr hle)
      · intro h
        exact absurd hlt (not_lt.mpr (h tmp (List.mem_cons_self ..)))
    · rename_i hnlt
      rw [Ordered.cons_iff, ih hl, List.forall_mem_cons]
      constructor
      · rintro ⟨-, hall⟩
        exact ⟨not_lt.mp hnlt, hall⟩
      · rintro ⟨hle, hall⟩
        refine ⟨fun e he => ?_, hall⟩
        rcases (hmem e).mp he with rfl | he
        · exact hle
        · exact htmp e he

theorem freeWhere_counted {c : Cache} (hcount : c.nPtksa = c.ptksa.length) (p : Entry → Bool) :
    (freeWhere p c).nPtksa = (freeWhere p c).ptksa.length := by
  have hsplit := c.ptksa.length_eq_countP_add_countP p
  simp only [freeWhere, ← List.countP_eq_length_filter, hcount]
  simp only [Bool.not_eq_true] at hsplit ⊢
  have hneg : c.ptksa.countP (fun a => decide (p a = false)) = c.ptksa.countP (fun e => !p e) := by
    congr 1
    funext e
    cases p e <;> rfl
  omega

@[simp] theorem setExpiration_ptksa (now : ℕ) (c : Cache) :
    (ptksaCacheSetExpiration now c).ptksa = c.ptksa := by
  unfold ptksaCacheSetExpiration
  split <;> rfl

@[simp] theorem setExpiration_nPtksa (now : ℕ) (c : Cache) :
    (ptksaCacheSetExpiration now c).nPtksa = c.nPtksa := by
  unfold ptksaCacheSetExpiration
  split <;> rfl

theorem setExpiration_timer {c : Cache} (hcount : c.nPtksa = c.ptksa.length) (now : ℕ) :
    (ptksaCacheSetExpiration now c).timer = arm Entry.expiration now c.ptksa := by
  unfold ptksaCacheSetExpiration
  split
  · rename_i h
    have hnil : c.ptksa = [] := List.length_eq_zero_iff.mp (hcount ▸ h)
    rw [hnil]
    rfl
  · rfl

@[simp] theorem flush_ptksa (now : ℕ) (addr : Option Bytes) (cipher : ℕ) (c : Cache) :
    (ptksaCacheFlush now addr cipher c).ptksa = kept addr cipher c := by
  unfold ptksaCacheFlush
  split
  · exact setExpiration_ptksa _ _
  · rfl

theorem flush_counted {c : Cache} (hcount : c.nPtksa = c.ptksa.length) (now : ℕ)
    (addr : Option Bytes) (cipher : ℕ) :
    (ptksaCacheFlush now addr cipher c).nPtksa = (kept addr cipher c).length := by
  have hfree := freeWhere_counted hcount (matchesEntry addr cipher)
  unfold ptksaCacheFlush
  split
  · rw [setExpiration_nPtksa]
    exact hfree
  · exact hfree

theorem flush_timer {c : Cache} (hcount : c.nPtksa = c.ptksa.length) (now : ℕ)
    (addr : Option Bytes) (cipher : ℕ) :
    (ptksaCacheFlush now addr cipher c).timer =
      if c.ptksa.any (matchesEntry addr cipher) then
        arm Entry.expiration now (kept addr cipher c)
      else c.timer := by
  unfold ptksaCacheFlush
  split
  · exact setExpiration_timer (freeWhere_counted hcount _) now
  · rfl

theorem kept_of_no_match {addr : Option Bytes} {cipher : ℕ} {c : Cache}
    (h : ¬c.ptksa.any (matchesEntry addr cipher) = true) : kept addr cipher c = c.ptksa := by
  refine List.filter_eq_self.mpr fun e he => ?_
  simp only [List.any_eq_true, not_exists, not_and, Bool.not_eq_true] at h
  simp [h e he]

/-- Entries only leave in a flush, so that all but the timer is as good as before. -/
theorem flush_scheduled_iff {c : Cache} (hc : Scheduled c) (now : ℕ) (addr : Option Bytes)
    (cipher : ℕ) :
    Scheduled (ptksaCacheFlush now addr cipher c) ↔ FlushOnTime now addr cipher c := by
  have hsub : (kept addr cipher c).Sublist c.ptksa := List.filter_sublist
  have hordered := hc.ordered.sublist hsub
  have htimer : Timely Entry.expiration (kept addr cipher c)
      (ptksaCacheFlush now addr cipher c).timer ↔ FlushOnTime now addr cipher c := by
    rw [flush_timer hc.count]
    unfold FlushOnTime
    split
    · rename_i hany
      rw [timely_arm_iff hordered]
      exact ⟨fun h _ => h, fun h => h hany⟩
    · rename_i hany
      rw [kept_of_no_match hany]
      exact ⟨fun _ h => absurd h hany, fun _ => hc.timely⟩
  constructor
  · intro h
    exact htimer.mp (flush_ptksa now addr cipher c ▸ h.timely)
  · intro h
    refine ⟨?_, ?_, ?_, ?_, ?_⟩
    · rw [flush_ptksa]
      exact hc.unique.sublist hsub
    · rw [flush_counted hc.count, flush_ptksa]
    · rw [flush_ptksa]
      exact hsub.length_le.trans hc.bound
    · rw [flush_ptksa]
      exact hordered
    · rw [flush_ptksa]
      exact htimer.mpr h

theorem expire_scheduled {c : Cache} (hc : Scheduled c) (now : ℕ) :
    Scheduled (ptksaCacheExpire now c) := by
  have hcount := freeWhere_counted hc.count fun e => decide (e.expiration ≤ now)
  have hsub : (freeWhere (fun e => decide (e.expiration ≤ now)) c).ptksa.Sublist c.ptksa :=
    List.filter_sublist
  have hordered := hc.ordered.sublist hsub
  refine ⟨?_, ?_, ?_, ?_, ?_⟩ <;> unfold ptksaCacheExpire
  · rw [setExpiration_ptksa]
    exact hc.unique.sublist hsub
  · rw [setExpiration_ptksa, setExpiration_nPtksa]
    exact hcount
  · rw [setExpiration_ptksa]
    exact hsub.length_le.trans hc.bound
  · rw [setExpiration_ptksa]
    exact hordered
  · rw [setExpiration_ptksa, setExpiration_timer hcount, timely_arm_iff hordered]
    intro e he
    have hlate := (List.mem_filter.mp he).2
    simp only [Bool.not_eq_true', decide_eq_false_iff_not] at hlate
    omega

theorem add_rejected {a : AddArgs}
    (h : ¬(a.addr.isSome ∧ a.ptk.isSome ∧ a.lifeTime ≠ 0 ∧ a.cipher ≠ cipherNone)) (now : ℕ)
    (c : Cache) : ptksaCacheAdd now a c = (c, none) := by
  unfold ptksaCacheAdd
  split
  · rename_i addr ptk haddr hptk
    rw [if_pos]
    simp only [haddr, hptk, Option.isSome_some, true_and, not_and_or, not_not] at h
    exact h
  · rfl

theorem add_accepted {a : AddArgs} {addr : Bytes} {ptk : Ptk} (haddr : a.addr = some addr)
    (hptk : a.ptk = some ptk) (hlife : a.lifeTime ≠ 0) (hcipher : a.cipher ≠ cipherNone)
    {c : Cache} (hcount : c.nPtksa = c.ptksa.length) (now : ℕ) :
    (¬Stores a c → (ptksaCacheAdd now a c).1 = ptksaCacheFlush now a.addr a.cipher c) ∧
    (Stores a c → (ptksaCacheAdd now a c).1 =
      { ptksaCacheFlush now a.addr a.cipher c with
        ptksa := linkEntry (newEntry now addr ptk a) (kept a.addr a.cipher c)
        nPtksa := (kept a.addr a.cipher c).length + 1 }) := by
  have hn := flush_counted hcount now (some addr) a.cipher
  constructor
  · intro h
    simp only [ptksaCacheAdd, haddr, hptk, hlife, hcipher, or_self, if_false, hn]
    simp only [Stores, haddr, not_and_or, Bool.not_eq_true, not_lt] at h
    rcases h with h | h
    · simp [h]
    · simp [h]
  · rintro ⟨halloc, hroom⟩
    rw [haddr] at hroom ⊢
    simp [ptksaCacheAdd, haddr, hptk, hlife, hcipher, hn, halloc, not_le.mpr hroom]

/-- No timer is left behind when the cache runs empty. -/
def Idle (c : Cache) : Prop := c.ptksa = [] → c.timer = none

theorem flush_idle {c : Cache} (hcount : c.nPtksa = c.ptksa.length) (hidle : Idle c) (now : ℕ)
    (addr : Option Bytes) (cipher : ℕ) : Idle (ptksaCacheFlush now addr cipher c) := by
  intro hnil
  rw [flush_ptksa] at hnil
  rw [flush_timer hcount]
  split
  · rw [hnil]
    rfl
  · rename_i hany
    rw [kept_of_no_match hany] at hnil
    exact hidle hnil

theorem expire_idle {c : Cache} (hcount : c.nPtksa = c.ptksa.length) (now : ℕ) :
    Idle (ptksaCacheExpire now c) := by
  intro hnil
  unfold ptksaCacheExpire at hnil ⊢
  rw [setExpiration_ptksa] at hnil
  rw [setExpiration_timer (freeWhere_counted hcount _), hnil]
  rfl

theorem kept_unmatched {addr : Bytes} {cipher : ℕ} {c : Cache} {e : Entry}
    (he : e ∈ kept (some addr) cipher c) : ¬(e.addr = addr ∧ e.cipher = cipher) := by
  rintro ⟨rfl, rfl⟩
  have hno := (List.mem_filter.mp he).2
  simp [matchesEntry] at hno

/-- The stored entry is scheduled if it comes last and a timer is already pending. -/
theorem store_scheduled_iff {c : Cache} (hc : Scheduled c) (hidle : Idle c) {a : AddArgs}
    {addr : Bytes} (haddr : a.addr = some addr) (ptk : Ptk) (hs : Stores a c) (now : ℕ) :
    Scheduled { ptksaCacheFlush now a.addr a.cipher c with
        ptksa := linkEntry (newEntry now addr ptk a) (kept a.addr a.cipher c)
        nPtksa := (kept a.addr a.cipher c).length + 1 } ↔
      FlushOnTime now a.addr a.cipher c ∧ kept a.addr a.cipher c ≠ [] ∧
        ∀ e ∈ kept a.addr a.cipher c, e.expiration ≤ now + a.lifeTime := by
  set l := kept a.addr a.cipher c with hl
  set entry := newEntry now addr ptk a with hentry
  have hperm := linkEntry_perm entry l
  have hordered : Ordered Entry.expiration l := hc.ordered.sublist List.filter_sublist
  have hflush := flush_scheduled_iff hc now a.addr a.cipher
  constructor
  · intro h
    have hlate := (linkEntry_ordered_iff entry hordered).mp h.ordered
    have hne : linkEntry entry l ≠ [] :=
      List.ne_nil_of_mem (hperm.mem_iff.mpr (List.mem_cons_self ..))
    obtain ⟨t, ht, hle⟩ := h.timely hne
    have hkept : l ≠ [] := by
      intro hnil
      have hnone := flush_idle hc.count hidle now a.addr a.cipher
        ((flush_ptksa now a.addr a.cipher c).trans hnil)
      rw [show (ptksaCacheFlush now a.addr a.cipher c).timer = some t from ht] at hnone
      cases hnone
    refine ⟨hflush.mp ⟨?_, ?_, ?_, ?_, ?_⟩, hkept, hlate⟩
    · exact flush_ptksa now a.addr a.cipher c ▸ hc.unique.sublist List.filter_sublist
    · rw [flush_counted hc.count, flush_ptksa]
    · exact flush_ptksa now a.addr a.cipher c ▸ hs.2.le
    · exact flush_ptksa now a.addr a.cipher c ▸ hordered
    · rw [flush_ptksa]
      exact fun _ => ⟨t, ht, fun e he => hle e (hperm.mem_iff.mpr (List.mem_cons_of_mem _ he))⟩
  · rintro ⟨htime, hkept, hlate⟩
    have hgood := hflush.mpr htime
    refine ⟨?_, ?_, ?_, ?_, ?_⟩
    · refine hperm.symm.pairwise (List.pairwise_cons.mpr ⟨fun e he => ?_, ?_⟩)
        fun h hba => h ⟨hba.1.symm, hba.2.symm⟩
      · intro heq
        rw [hl, haddr] at he
        exact kept_unmatched he ⟨heq.1.symm, heq.2.symm⟩
      · exact hc.unique.sublist List.filter_sublist
    · exact hperm.length_eq.symm
    · exact hperm.length_eq ▸ hs.2
    · exact (linkEntry_ordered_iff entry hordered).mpr hlate
    · intro _
      have htimely := hgood.timely
      rw [flush_ptksa] at htimely
      obtain ⟨t, ht, hle⟩ := htimely hkept
      refine ⟨t, ht, fun e he => ?_⟩
      rcases List.mem_cons.mp (hperm.mem_iff.mp he) with rfl | he
      · obtain ⟨first, hfirst⟩ := List.exists_mem_of_ne_nil _ hkept
        exact (hle first hfirst).trans (Nat.succ_le_succ (hlate first hfirst))
      · exact hle e he

theorem add_scheduled_iff {c : Cache} (hc : Scheduled c) (hidle : Idle c) (now : ℕ)
    (a : AddArgs) :
    Scheduled (ptksaCacheAdd now a c).1 ↔ KeepsSchedule c ⟨now, .add a⟩ := by
  simp only [KeepsSchedule]
  by_cases harg : a.addr.isSome ∧ a.ptk.isSome ∧ a.lifeTime ≠ 0 ∧ a.cipher ≠ cipherNone
  · obtain ⟨addr, haddr⟩ := Option.isSome_iff_exists.mp harg.1
    obtain ⟨ptk, hptk⟩ := Option.isSome_iff_exists.mp harg.2.1
    obtain ⟨hskip, hstore⟩ := add_accepted haddr hptk harg.2.2.1 harg.2.2.2 hc.count now
    by_cases hs : Stores a c
    · rw [hstore hs, store_scheduled_iff hc hidle haddr ptk hs]
      exact ⟨fun h _ => ⟨h.1, fun _ => h.2⟩, fun h => ⟨(h harg).1, (h harg).2 hs⟩⟩
    · rw [hskip hs, flush_scheduled_iff hc]
      exact ⟨fun h _ => ⟨h, fun hs' => absurd hs' hs⟩, fun h => (h harg).1⟩
  · rw [add_rejected harg]
    exact ⟨fun _ h => absurd h harg, fun _ => hc⟩

theorem add_idle {c : Cache} (hc : Scheduled c) (hidle : Idle c) (now : ℕ) (a : AddArgs) :
    Idle (ptksaCacheAdd now a c).1 := by
  by_cases harg : a.addr.isSome ∧ a.ptk.isSome ∧ a.lifeTime ≠ 0 ∧ a.cipher ≠ cipherNone
  · obtain ⟨addr, haddr⟩ := Option.isSome_iff_exists.mp harg.1
    obtain ⟨ptk, hptk⟩ := Option.isSome_iff_exists.mp harg.2.1
    obtain ⟨hskip, hstore⟩ := add_accepted haddr hptk harg.2.2.1 harg.2.2.2 hc.count now
    by_cases hs : Stores a c
    · rw [hstore hs]
      intro hnil
      have hlen := (linkEntry_perm (newEntry now addr ptk a) (kept a.addr a.cipher c)).length_eq
      rw [show linkEntry (newEntry now addr ptk a) (kept a.addr a.cipher c) = [] from hnil] at hlen
      cases hlen
    · rw [hskip hs]
      exact flush_idle hc.count hidle now a.addr a.cipher
  · rw [add_rejected harg]
    exact hidle

theorem step_scheduled_iff (c : Cache) (i : Call) (hc : Scheduled c) (hidle : Idle c) :
    Scheduled (step c i).1 ↔ KeepsSchedule c i := by
  obtain ⟨now, op⟩ := i
  cases op with
  | add a => exact add_scheduled_iff hc hidle now a
  | flush addr cipher => exact flush_scheduled_iff hc now addr cipher
  | expire => exact iff_of_true (expire_scheduled hc now) trivial

theorem step_idle (c : Cache) (i : Call) (hc : Scheduled c) (hidle : Idle c) :
    Idle (step c i).1 := by
  obtain ⟨now, op⟩ := i
  cases op with
  | add a => exact add_idle hc hidle now a
  | flush addr cipher => exact flush_idle hc.count hidle now addr cipher
  | expire => exact expire_idle hc.count now

theorem ptksaCacheInit_scheduled : Scheduled ptksaCacheInit :=
  ⟨List.Pairwise.nil, rfl, Nat.zero_le _, List.Pairwise.nil, timely_nil _⟩

/-- Whatever scheduled cache a run starts from, the cache stays scheduled exactly as long as
every call keeps the schedule. -/
theorem run_scheduled_iff {c : Cache} (hc : Scheduled c) (hidle : Idle c) (calls : List Call) :
    (∀ t ∈ Runs.trace step c calls, Scheduled t.post) ↔
      ∀ t ∈ Runs.trace step c calls, KeepsSchedule t.pre t.input := by
  refine Runs.all_good_iff (I := fun c => Scheduled c ∧ Idle c) (fun c i h => ?_)
    (fun c i h hgood => ?_) ⟨hc, hidle⟩ calls
  · exact step_scheduled_iff c i h.1 h.2
  · exact ⟨hgood, step_idle c i h.1 h.2⟩

/-- One entry in an empty cache: it is stored, and no timer will remove it. -/
def firstAdd : Call :=
  { now := 0
    op := .add
      { addr := some [2, 0, 0, 0, 0, 1], cipher := cipherCcmp, lifeTime := 60,
        ptk := some {}, alloc := true } }

theorem first_add_unscheduled :
    ¬∀ calls : List Call, calls.Pairwise (fun a b => a.now ≤ b.now) →
      ∀ t ∈ Runs.trace step ptksaCacheInit calls, Scheduled t.post := by
  intro h
  have hall := h [firstAdd] (List.pairwise_singleton _ _)
  have hgood := hall _ (List.mem_cons_self ..)
  obtain ⟨t, ht, -⟩ := hgood.timely (by decide)
  cases ht

/-- With the timer pending for one entry, a second one that expires later is in good hands. -/
theorem second_add_scheduled :
    let first : Entry := newEntry 0 [2, 0, 0, 0, 0, 2] {}
      { addr := none, cipher := cipherCcmp, lifeTime := 30, ptk := none, alloc := true }
    let c : Cache := { ptksa := [first], nPtksa := 1, timer := some 31 }
    ∀ t ∈ Runs.trace step c [firstAdd], Scheduled t.post := by
  intro first c
  have hc : Scheduled c := by
    refine ⟨List.pairwise_singleton _ _, rfl, by decide, List.pairwise_singleton _ _, ?_⟩
    intro _
    exact ⟨31, rfl, by decide⟩
  have hidle : Idle c := fun h => absurd h (List.cons_ne_nil _ _)
  refine (run_scheduled_iff hc hidle [firstAdd]).mpr ?_
  intro t ht
  obtain rfl := List.mem_singleton.mp ht
  intro _
  have hkept : kept (some [2, 0, 0, 0, 0, 1]) cipherCcmp c = [first] := by decide
  refine ⟨fun hany => ?_, fun _ => ⟨?_, ?_⟩⟩
  · exact absurd hany (by decide)
  · exact fun h => List.cons_ne_nil _ _ (hkept.symm.trans h)
  · intro e he
    obtain rfl := List.mem_singleton.mp (hkept ▸ he)
    decide

end Wpa.Ptksa
