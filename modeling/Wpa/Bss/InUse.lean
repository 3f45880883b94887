import Mathlib.Data.List.Find
import Wpa.Bss.Structure

/-! The current BSS in the table: the loops that forget entries pass it by, and room is made at its
expense exactly if it is the oldest entry of no known network. -/

namespace Wpa.BssTable
open Lib Bytes Ie

def CurrentLive (s : St) : Prop := ∀ p, s.currentBss = some p → p ∈ s.bss

/-- The current BSS is removed by its owner, or it is the oldest entry of no known network in a
full table that a scan result is added to. -/
def Evicts (attrs : Attrs) (s : St) : Input → Prop
  | .scanRes res fetchTime mem =>
    ∃ ssid, scanSsid s.env res fetchTime = some ssid ∧ bssGet s res.bssid ssid = none ∧
      (mem.alloc s.heap.live).isSome ∧ s.env.bssMaxCount < s.numBss + 1 ∧
      ∃ p, s.currentBss = some p ∧ oldestUnknown attrs s = some p
  | .remove p => s.currentBss = some p
  | _ => False

section Steps
variable (attrs : Attrs) {s : St} {p q : Ptr}

/-- Only what is linked is looked at. -/
theorem oldestUnknown_congr {s' : St} (hbss : s'.bss = s.bss) (henv : s'.env = s.env)
    (hentry : ∀ p ∈ s.bss, s'.entry p = s.entry p) :
    oldestUnknown attrs s' = oldestUnknown attrs s := by
  rw [oldestUnknown, oldestUnknown, hbss, henv]
  apply List.find?_congr
  intro p hp
  rw [hentry p hp]

theorem mem_makeRoom (h : Inv s) (hcur : s.currentBss = some p) (hp : p ∈ s.bss) :
    p ∈ (makeRoom attrs s).bss ↔
      ¬(s.env.bssMaxCount < s.numBss + 1 ∧ oldestUnknown attrs s = some p) := by
  unfold makeRoom
  by_cases hfull : s.numBss + 1 > s.env.bssMaxCount
  · rw [if_pos hfull]
    cases hunknown : oldestUnknown attrs s with
    | some q =>
      have holdest : oldest attrs s = some q := by
        rw [oldest, hunknown]
      rw [holdest]
      dsimp only
      rw [mem_bssRemove h, Option.some_inj]
      constructor
      · rintro ⟨hne, -⟩ ⟨-, heq⟩
        exact hne heq.symm
      · intro hno
        exact ⟨fun heq => hno ⟨hfull, heq.symm⟩, hp⟩
    | none =>
      refine iff_of_true ?_ (by simp)
      cases holdest : oldest attrs s with
      | none => exact hp
      | some q =>
        rw [oldest, hunknown] at holdest
        have huse := List.find?_some holdest
        refine (mem_bssRemove h).mpr ⟨?_, hp⟩
        exact ne_of_not_inUse (by simpa using huse) hcur
  · rw [if_neg hfull]
    simp only [hp, true_iff, not_and]
    intro hlt
    exact absurd hlt hfull

theorem addToLastScanRes_currentLive (mem : Memory) :
    CurrentLive (addToLastScanRes s p mem) ↔ CurrentLive s := Iff.rfl

/-- An update takes the current BSS along. -/
theorem bssUpdate_currentLive (h : Inv s) (hlive : CurrentLive s) {res : ScanRes}
    (fetchTime : Reltime) (mem : Memory) (hp : p ∈ s.bss) (hbssid : (s.entry p).bssid = res.bssid) :
    CurrentLive (bssUpdate s p res fetchTime mem).1 := by
  rcases bssUpdate_eq h res fetchTime mem hp hbssid with hsame | ⟨q, b, hmoved, -⟩
  · rw [hsame]
    exact hlive
  · rw [hmoved]
    intro r hr
    have hr' : (if s.currentBss = some p then some q else s.currentBss) = some r := hr
    split at hr'
    · cases hr'
      exact mem_moved.mpr (.inr rfl)
    · rename_i hother
      have hmem := mem_moved_of_mem (b := b) (p := p) (q := q) (hlive r hr')
      rw [if_neg (by rintro rfl; exact hother hr')] at hmem
      exact hmem

theorem bssAdd_currentLive (h : Inv s) (hlive : CurrentLive s) {ssid : Ssid} {res : ScanRes}
    (fetchTime : Reltime) {mem : Memory} (hnone : bssGet s res.bssid ssid = none)
    (halloc : (mem.alloc s.heap.live).isSome) :
    ∃ p s', bssAdd attrs s ssid res fetchTime mem = (s', some p) ∧
      (CurrentLive s' ↔ ¬(s.env.bssMaxCount < s.numBss + 1 ∧
        ∃ p, s.currentBss = some p ∧ oldestUnknown attrs s = some p)) := by
  rcases bssAdd_eq attrs h fetchTime mem hnone with
    hadd | ⟨p, s₁, hadd, hs₁, hp, -, hsub, -, -, -, -, hcur, -⟩
  · obtain ⟨p, hp⟩ := Option.isSome_iff_exists.mp halloc
    rw [bssAdd, hp] at hadd
    cases (Prod.mk.inj hadd).2
  · refine ⟨p, _, hadd, ?_⟩
    obtain ⟨s₀, hs₀⟩ : ∃ s₀, s₀ = { s.setEntry p (newEntry s ssid res fetchTime) with
        bssNextId := (s.bssNextId + 1) % 2 ^ 32 } := ⟨_, rfl⟩
    have hs₁' : s₁ = makeRoom attrs s₀ := by rw [hs₁, hs₀]
    have h₀ : Inv s₀ := by
      rw [hs₀]
      exact h.setEntry_fresh hp _ _
    have hunknown : oldestUnknown attrs s₀ = oldestUnknown attrs s := by
      apply oldestUnknown_congr attrs (by rw [hs₀]; rfl) (by rw [hs₀]; rfl)
      intro q hq
      rw [hs₀]
      apply entry_setEntry_of_ne
      rintro rfl
      exact hp hq
    -- The new entry is not the current one, so that one is linked if it is left.
    have hkept : ∀ q, s.currentBss = some q →
        (q ∈ (link s₁ p s.bssNextId).bss ↔
          ¬(s.env.bssMaxCount < s.numBss + 1 ∧ oldestUnknown attrs s = some q)) := by
      intro q hq
      have hmem := hlive q hq
      have hne : q ≠ p := by
        rintro rfl
        exact hp hmem
      have hroom := mem_makeRoom attrs h₀ (p := q) (by rw [hs₀]; exact hq) (by rw [hs₀]; exact hmem)
      rw [hunknown, ← hs₁'] at hroom
      have hlink : q ∈ (link s₁ p s.bssNextId).bss ↔ q ∈ s₁.bss := by
        show q ∈ s₁.bss ++ [p] ↔ _
        rw [List.mem_append, List.mem_singleton, or_iff_left hne]
      rw [hlink, hroom, hs₀]
      rfl
    constructor
    · rintro hall ⟨hfull, q, hq, hold⟩
      exact (hkept q hq).mp (hall q (hcur.trans hq)) ⟨hfull, hold⟩
    · intro hno q hq
      have hq' : s.currentBss = some q := hcur.symm.trans hq
      exact (hkept q hq').mpr fun hevict => hno ⟨hevict.1, q, hq', hevict.2⟩

/-- What evicts is a scan result that is added. -/
theorem evicts_iff {res : ScanRes} {fetchTime : Reltime} {mem : Memory} {ssid : Ssid}
    (hssid : scanSsid s.env res fetchTime = some ssid) :
    Evicts attrs s (.scanRes res fetchTime mem) ↔
      bssGet s res.bssid ssid = none ∧ (mem.alloc s.heap.live).isSome ∧
        s.env.bssMaxCount < s.numBss + 1 ∧
          ∃ p, s.currentBss = some p ∧ oldestUnknown attrs s = some p := by
  constructor
  · rintro ⟨ssid', hssid', hevicts⟩
    rw [hssid] at hssid'
    cases hssid'
    exact hevicts
  · exact fun hevicts => ⟨ssid, hssid, hevicts⟩

theorem updateScanRes_currentLive (h : Inv s) (hlive : CurrentLive s) (res : ScanRes)
    (fetchTime : Reltime) (mem : Memory) :
    CurrentLive (updateScanRes attrs s res fetchTime mem) ↔
      ¬Evicts attrs s (.scanRes res fetchTime mem) := by
  unfold updateScanRes
  cases hssid : scanSsid s.env res fetchTime with
  | none =>
    refine iff_of_true hlive ?_
    rintro ⟨ssid, hssid', -⟩
    rw [hssid] at hssid'
    cases hssid'
  | some ssid =>
    rw [evicts_iff attrs hssid]
    dsimp only
    cases hget : bssGet s res.bssid ssid with
    | some p =>
      obtain ⟨hp, hbssid⟩ := bssGet_some hget
      have hupdate := bssUpdate_currentLive h hlive fetchTime mem hp hbssid
      refine iff_of_true ?_ fun hevicts => by cases hevicts.1
      dsimp only
      split
      · exact hupdate
      · exact (addToLastScanRes_currentLive mem).mpr hupdate
    | none =>
      dsimp only
      by_cases halloc : (mem.alloc s.heap.live).isSome
      · obtain ⟨p, s', hadd, hiff⟩ :=
          bssAdd_currentLive attrs h hlive fetchTime hget halloc
        rw [hadd]
        dsimp only
        rw [addToLastScanRes_currentLive, hiff]
        simp only [halloc, true_and]
      · have hnone : mem.alloc s.heap.live = none := by simpa using halloc
        have hadd : bssAdd attrs s ssid res fetchTime mem = (s, none) := by
          rw [bssAdd, hnone]
        rw [hadd]
        exact iff_of_true hlive fun hevicts => halloc hevicts.2.1

/-- A step leaves the current BSS in the table unless it evicts it. -/
theorem handle_currentLive (h : Inv s) (hlive : CurrentLive s) (i : Input) :
    CurrentLive (handle attrs s i) ↔ ¬Evicts attrs s i := by
  cases i with
  | updateStart => exact iff_of_true hlive id
  | scanRes res fetchTime mem => exact updateScanRes_currentLive attrs h hlive res fetchTime mem
  | updateEnd info newScan =>
    refine iff_of_true ?_ id
    show CurrentLive (updateEnd s info newScan)
    unfold updateEnd
    split
    · exact hlive
    · obtain ⟨hshrinks, hkeep⟩ := foldl_shrinks (f := expire info)
        (fun _ _ h hp => expire_shrinks info h hp) s.bss h h.nodup fun _ hp => hp
      intro p hp
      rw [hshrinks.current] at hp
      exact hkeep p (hlive p hp) hp
  | flush =>
    refine iff_of_true ?_ id
    obtain ⟨hshrinks, hkeep⟩ := foldl_shrinks (f := flushOne)
      (fun _ _ h hp => flushOne_shrinks h hp) s.bss h h.nodup fun _ hp => hp
    intro p hp
    have hp' : s.currentBss = some p := hshrinks.current.symm.trans hp
    exact hkeep p (hlive p hp') hp'
  | flushByAge age now =>
    refine iff_of_true ?_ id
    obtain ⟨hshrinks, hkeep⟩ := flushByAgeFrom_shrinks ⟨now.sec - UInt64.ofInt age, now.usec⟩ s.bss h h.nodup
      fun _ hp => hp
    intro p hp
    have hp' : s.currentBss = some p := hshrinks.current.symm.trans hp
    exact hkeep p (hlive p hp') hp'
  | remove p =>
    show CurrentLive (if p ∈ s.bss then bssRemove s p else s) ↔ ¬s.currentBss = some p
    split
    · constructor
      · intro hleft hcur
        exact ((mem_bssRemove h).mp (hleft p hcur)).1 rfl
      · intro hother q hq
        refine (mem_bssRemove h).mpr ⟨?_, hlive q hq⟩
        rintro rfl
        exact hother hq
    · rename_i hnot
      exact iff_of_true hlive fun hcur => hnot (hlive p hcur)
  | setCurrent p =>
    refine iff_of_true ?_ id
    intro q hq
    have hq' : p.filter (fun p => decide (p ∈ s.bss)) = some q := hq
    exact of_decide_eq_true (Option.filter_eq_some_iff.mp hq').2
  | setPending work => exact iff_of_true hlive id
  | setEnv env => exact iff_of_true hlive id

end Steps

/-- In a run the current BSS is always an entry or nothing exactly if no step evicts it. -/
theorem currentLive_iff (attrs : Attrs) (env : Env) (inputs : List Input) :
    (∀ t ∈ Runs.trace (step attrs) (init env) inputs, CurrentLive t.post) ↔
      ∀ t ∈ Runs.trace (step attrs) (init env) inputs, ¬Evicts attrs t.pre t.input := by
  apply Runs.all_good_iff (I := fun s => Inv s ∧ CurrentLive s)
    (p := fun s i => ¬Evicts attrs s i)
  · rintro s i ⟨h, hlive⟩
    have h' : Inv { s with notes := [] } :=
      ⟨h.perm, h.nodup, h.live, h.num, h.unique, h.last_nodup, h.last_mem, h.pending_mem, h.fits⟩
    exact handle_currentLive attrs h' hlive i
  · rintro s i ⟨h, -⟩ hgood
    exact ⟨(step_grows attrs h i).inv, hgood⟩
  · refine ⟨init_inv env, ?_⟩
    intro p hp
    cases hp

/-- A table for one entry, and one network. -/
def smallEnv : Env :=
  { exampleEnv with bssMaxCount := 1, networks := [⟨[97], false, false, false⟩] }

/-- The network is removed while its access point is the current BSS, and another access point is
found: the current BSS is no longer an entry. -/
theorem currentBss_evicted : ¬CurrentLive (Runs.final (step exampleAttrs) (init smallEnv)
    [.updateStart, exampleScan 1, .setCurrent (some 0),
      .setEnv { smallEnv with networks := [], bssid := (exampleRes 1).bssid }, .updateStart,
      exampleScan 2]) := by
  intro hlive
  have hmem := hlive 0 rfl
  exact absurd hmem (by decide)

end Wpa.BssTable
