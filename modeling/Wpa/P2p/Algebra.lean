import Wpa.P2p.Intersect

/-! Union and removal, and the channel sets as an algebra. The arrays list classes, so that a class
without channels takes up a place although it adds nothing to the set. -/

namespace Wpa.P2p
open Lib

/-! ### Union -/

/-- The channels of a class, none if the class is not listed. -/
def channelsOf (l : List RegClass) (c : UInt8) : List UInt8 :=
  ((l.find? fun r => r.regClass == c).map fun r => r.channel.used).getD []

theorem channelsOf_cons (r : RegClass) (l : List RegClass) (c : UInt8) :
    channelsOf (r :: l) c = if r.regClass = c then r.channel.used else channelsOf l c := by
  rw [channelsOf, List.find?_cons]
  by_cases hc : r.regClass = c
  · rw [if_pos hc, beq_iff_eq.mpr hc]
    rfl
  · rw [if_neg hc, beq_eq_false_iff_ne.mpr hc]
    rfl

theorem channelsOf_eq_nil {l : List RegClass} {c : UInt8} (h : c ∉ l.map RegClass.regClass) :
    channelsOf l c = [] := by
  induction l with
  | nil => rfl
  | cons r l ih =>
    rw [List.map_cons, List.mem_cons, not_or] at h
    rw [channelsOf_cons, if_neg (Ne.symm h.1)]
    exact ih h.2

theorem channelsOf_eq {l : List RegClass} (h : (l.map RegClass.regClass).Nodup) {r : RegClass}
    (hr : r ∈ l) : channelsOf l r.regClass = r.channel.used := by
  induction l with
  | nil => cases hr
  | cons r' l ih =>
    rw [List.map_cons, List.nodup_cons] at h
    rw [channelsOf_cons]
    rcases List.mem_cons.mp hr with rfl | hr'
    · exact if_pos rfl
    · have hne : r'.regClass ≠ r.regClass := by
        intro heq
        rw [heq] at h
        exact h.1 (List.mem_map_of_mem hr')
      rw [if_neg hne]
      exact ih h.2 hr'

theorem includes_iff_channelsOf {ch : Channels} (h : Valid ch) {c x : UInt8} :
    Includes ch c x ↔ x ∈ channelsOf ch.used c := by
  constructor
  · rintro ⟨reg, hreg, rfl, hx⟩
    rwa [channelsOf_eq h.nodup hreg]
  · intro hx
    by_cases hc : c ∈ ch.used.map RegClass.regClass
    · obtain ⟨reg, hreg, rfl⟩ := List.mem_map.mp hc
      rw [channelsOf_eq h.nodup hreg] at hx
      exact ⟨reg, hreg, rfl, hx⟩
    · rw [channelsOf_eq_nil hc] at hx
      cases hx

theorem opClassUnion_eq {cl bCl : RegClass} (hcl : cl.channel.count ≤ maxRegClassChannels)
    (hb : bCl.channel.count ≤ maxRegClassChannels) :
    ∃ r, opClassUnion cl bCl = some r ∧ r.regClass = cl.regClass ∧
      r.channel.used = addAll id maxRegClassChannels cl.channel.used bCl.channel.used ∧
      r.channel.count ≤ maxRegClassChannels := by
  obtain ⟨flow, hflow, hused, hcount⟩ :=
    CountedArray.loop_addTurn id bCl.channel.used hcl
  rw [opClassUnion, CountedArray.forEach_eq hb, hflow]
  exact ⟨{ cl with channel := flow.state }, rfl, rfl, hused, hcount⟩

/-- Only the one class of `b` with the same number extends a class. -/
theorem extend_eq {b : Channels} (hb : Valid b) {cl : RegClass}
    (hcl : cl.channel.count ≤ maxRegClassChannels) :
    ∃ r, extend b cl = some r ∧ r.regClass = cl.regClass ∧
      r.channel.used =
        addAll id maxRegClassChannels cl.channel.used (channelsOf b.used cl.regClass) ∧
      r.channel.count ≤ maxRegClassChannels := by
  have key : ∀ (l : List RegClass) (cl : RegClass), (l.map RegClass.regClass).Nodup →
      (∀ r ∈ l, r.Valid) → cl.channel.count ≤ maxRegClassChannels →
      ∃ r, CountedArray.loop extendTurn l cl = some (.next r) ∧ r.regClass = cl.regClass ∧
        r.channel.used = addAll id maxRegClassChannels cl.channel.used (channelsOf l cl.regClass) ∧
        r.channel.count ≤ maxRegClassChannels := by
    intro l
    induction l with
    | nil => exact fun cl _ _ hcl => ⟨cl, rfl, rfl, rfl, hcl⟩
    | cons bCl l ih =>
      intro cl hnodup hvalid hcl
      rw [List.map_cons, List.nodup_cons] at hnodup
      have hvalid' : ∀ r ∈ l, r.Valid := fun r hr => hvalid r (List.mem_cons_of_mem _ hr)
      rw [CountedArray.loop, extendTurn, channelsOf_cons]
      by_cases hc : cl.regClass = bCl.regClass
      · obtain ⟨r, hr, hrc, hused, hcount⟩ :=
          opClassUnion_eq hcl (hvalid bCl (List.mem_cons_self ..)).room
        obtain ⟨r', hr', hrc', hused', hcount'⟩ := ih r hnodup.2 hvalid' hcount
        rw [if_neg (not_not.mpr hc), hr, if_pos hc.symm]
        refine ⟨r', hr', hrc'.trans hrc, ?_, hcount'⟩
        rw [hused', hrc, hc, channelsOf_eq_nil hnodup.1, hused]
        rfl
      · obtain ⟨r', hr'⟩ := ih cl hnodup.2 hvalid' hcl
        rw [if_pos hc, if_neg (Ne.symm hc)]
        exact ⟨r', hr'⟩
  obtain ⟨r, hr, hrest⟩ := key b.used cl hb.nodup hb.classes hcl
  rw [extend, CountedArray.forEach_eq hb.room, hr]
  exact ⟨r, rfl, hrest⟩

/-- The classes of the union: those of `a` extended by the channels of `b`, and then the other
classes of `b`, as far as there is room. -/
theorem channelsUnion_used {a b : Channels} (ha : Valid a) (hb : Valid b) :
    ∃ (r : Channels) (g : RegClass → RegClass), channelsUnion a b = some r ∧
      r.count ≤ maxRegClasses ∧
      r.used = addAll RegClass.regClass maxRegClasses (a.used.map g) b.used ∧
      ∀ cl ∈ a.used, (g cl).regClass = cl.regClass ∧
        (g cl).channel.used =
          addAll id maxRegClassChannels cl.channel.used (channelsOf b.used cl.regClass) ∧
        (g cl).channel.count ≤ maxRegClassChannels := by
  let g : RegClass → RegClass := fun cl => (extend b cl).getD cl
  have hg : ∀ cl ∈ a.used, extend b cl = some (g cl) := by
    intro cl hcl
    obtain ⟨r, hr, -⟩ := extend_eq hb (ha.classes cl hcl).room
    change _ = some ((extend b cl).getD cl)
    rw [hr]
    rfl
  obtain ⟨res, hres, hresused, hrescount⟩ := CountedArray.mapInPlace_eq ha.room hg
  obtain ⟨flow, hflow, hused, hcount⟩ := CountedArray.loop_addTurn RegClass.regClass b.used
    (hrescount.trans_le ha.room)
  refine ⟨flow.state, g, ?_, hcount, ?_, ?_⟩
  · rw [channelsUnion, channelsUnionInplace, hres, Option.bind_eq_bind, Option.bind_some,
      CountedArray.forEach_eq hb.room, hflow]
    rfl
  · rw [hused, hresused]
  · intro cl hcl
    obtain ⟨r, hr, hrest⟩ := extend_eq hb (ha.classes cl hcl).room
    have hgcl : g cl = r := Option.some_inj.mp ((hg cl hcl).symm.trans hr)
    rwa [hgcl]

/-- The classes listed in either set and the channels of each class fit into the arrays. -/
structure Fits (a b : Channels) : Prop where
  classes : (a.used.map RegClass.regClass ++ b.used.map RegClass.regClass).toFinset.card ≤
    maxRegClasses
  channels : ∀ c, (channelsOf a.used c ++ channelsOf b.used c).toFinset.card ≤ maxRegClassChannels

/-- The union stays inside its arrays and keeps classes and channels distinct. It holds nothing
but what is in one of the sets, all of `a`, and all of `b` if that fits. -/
theorem channelsUnion_eq {a b : Channels} (ha : Valid a) (hb : Valid b) :
    ∃ r, channelsUnion a b = some r ∧ Valid r ∧
      (∀ c x, Includes r c x → Includes a c x ∨ Includes b c x) ∧
      (∀ c x, Includes a c x → Includes r c x) ∧
      (Fits a b → ∀ c x, Includes b c x → Includes r c x) := by
  obtain ⟨r, g, hr, hcount, hused, hg⟩ := channelsUnion_used ha hb
  have hkeys : (a.used.map g).map RegClass.regClass = a.used.map RegClass.regClass := by
    rw [List.map_map]
    exact List.map_congr_left fun cl hcl => (hg cl hcl).1
  have hnodup : ((a.used.map g).map RegClass.regClass).Nodup := hkeys ▸ ha.nodup
  have hfirst : ∀ cl ∈ a.used, g cl ∈ r.used := by
    intro cl hcl
    rw [hused]
    exact prefix_addAll.subset (List.mem_map_of_mem hcl)
  refine ⟨r, hr, ⟨hcount, ?_, ?_⟩, ?_, ?_, ?_⟩
  · rw [hused]
    exact addAll_nodup hnodup
  · intro reg hreg
    rw [hused] at hreg
    rcases mem_addAll hreg with hmem | hmem
    · obtain ⟨cl, hcl, rfl⟩ := List.mem_map.mp hmem
      obtain ⟨-, hchannels, hroom⟩ := hg cl hcl
      refine ⟨hroom, ?_⟩
      have hids : (cl.channel.used.map id).Nodup := by
        rw [List.map_id]
        exact (ha.classes cl hcl).nodup
      have hall : ((addAll id maxRegClassChannels cl.channel.used
          (channelsOf b.used cl.regClass)).map id).Nodup := addAll_nodup hids
      rwa [List.map_id, ← hchannels] at hall
    · exact hb.classes reg hmem
  · rintro c x ⟨reg, hreg, rfl, hx⟩
    rw [hused] at hreg
    rcases mem_addAll hreg with hmem | hmem
    · obtain ⟨cl, hcl, rfl⟩ := List.mem_map.mp hmem
      obtain ⟨hc, hchannels, -⟩ := hg cl hcl
      rw [hchannels] at hx
      rw [hc]
      rcases mem_addAll hx with hx | hx
      · exact Or.inl ⟨cl, hcl, rfl, hx⟩
      · exact Or.inr ((includes_iff_channelsOf hb).mpr hx)
    · exact Or.inr ⟨reg, hmem, rfl, hx⟩
  · rintro c x ⟨cl, hcl, rfl, hx⟩
    obtain ⟨hc, hchannels, -⟩ := hg cl hcl
    refine ⟨g cl, hfirst cl hcl, hc, ?_⟩
    rw [hchannels]
    exact prefix_addAll.subset hx
  · rintro hfits c x ⟨bCl, hbCl, rfl, hx⟩
    by_cases hc : bCl.regClass ∈ a.used.map RegClass.regClass
    · -- the class is extended in its place
      obtain ⟨cl, hcl, hclass⟩ := List.mem_map.mp hc
      obtain ⟨hgc, hchannels, -⟩ := hg cl hcl
      refine ⟨g cl, hfirst cl hcl, hgc.trans hclass, ?_⟩
      have hof := channelsOf_eq hb.nodup hbCl
      have hroom := hfits.channels cl.regClass
      rw [channelsOf_eq ha.nodup hcl, hclass, hof] at hroom
      rw [hchannels, hclass, hof]
      by_cases hxa : x ∈ cl.channel.used
      · exact prefix_addAll.subset hxa
      · apply mem_addAll_of_room
        · rw [List.map_id]
          exact (ha.classes cl hcl).nodup
        · rw [List.map_id]
          exact (hb.classes bCl hbCl).nodup
        · rwa [List.map_id, List.map_id]
        · exact hx
        · rwa [List.map_id]
    · -- the class is new, and there is a place for it
      refine ⟨bCl, ?_, rfl, hx⟩
      rw [hused]
      apply mem_addAll_of_room hnodup hb.nodup
      · rw [hkeys]
        exact hfits.classes
      · exact hbCl
      · rwa [hkeys]

/-- Where no class is listed without channels, any value that holds exactly the union shows that
it fits. -/
theorem fits_of_held {a b u : Channels} (ha : Valid a) (hb : Valid b) (hu : Valid u)
    (hsome : ∀ reg ∈ a.used ++ b.used, reg.channel.used ≠ [])
    (heq : ∀ c x, Includes u c x ↔ Includes a c x ∨ Includes b c x) : Fits a b where
  classes := by
    have hsub : (a.used.map RegClass.regClass ++ b.used.map RegClass.regClass).toFinset ⊆
        (u.used.map RegClass.regClass).toFinset := by
      intro c hc
      rw [List.mem_toFinset, ← List.map_append] at hc
      obtain ⟨reg, hreg, rfl⟩ := List.mem_map.mp hc
      obtain ⟨x, hx⟩ := List.exists_mem_of_ne_nil _ (hsome reg hreg)
      have hin : Includes u reg.regClass x := by
        rw [heq]
        rcases List.mem_append.mp hreg with hmem | hmem
        · exact Or.inl ⟨reg, hmem, rfl, hx⟩
        · exact Or.inr ⟨reg, hmem, rfl, hx⟩
      obtain ⟨reg', hreg', hc', -⟩ := hin
      rw [List.mem_toFinset, ← hc']
      exact List.mem_map_of_mem hreg'
    refine (Finset.card_le_card hsub).trans ((List.toFinset_card_le _).trans ?_)
    rw [List.length_map, CountedArray.length_used hu.room]
    exact hu.room
  channels c := by
    have hsub : (channelsOf a.used c ++ channelsOf b.used c).toFinset ⊆
        (channelsOf u.used c).toFinset := by
      intro x hx
      rw [List.mem_toFinset, List.mem_append, ← includes_iff_channelsOf ha,
        ← includes_iff_channelsOf hb] at hx
      rw [List.mem_toFinset, ← includes_iff_channelsOf hu, heq]
      exact hx
    refine (Finset.card_le_card hsub).trans ((List.toFinset_card_le _).trans ?_)
    by_cases hc : c ∈ u.used.map RegClass.regClass
    · obtain ⟨reg, hreg, rfl⟩ := List.mem_map.mp hc
      have hroom := (hu.classes reg hreg).room
      rwa [channelsOf_eq hu.nodup hreg, CountedArray.length_used hroom]
    · rw [channelsOf_eq_nil hc]
      exact Nat.zero_le _

/-! ### Removal of frequencies -/

theorem removeChannels_eq (list : List FreqRange) {op : RegClass} (h : op.Valid) :
    ∃ r, removeChannels list op = some r ∧ r.regClass = op.regClass ∧
      r.channel.used = op.channel.used.filter (fun x => !listed list op.regClass x) ∧ r.Valid ∧
      r.channel.count = r.channel.used.length := by
  obtain ⟨ch, hch, hused, hcount⟩ := CountedArray.sweep_eq (listed list op.regClass)
    (f := some) (g := id) h.room fun x _ => rfl
  rw [List.map_id] at hused
  rw [removeChannels, hch]
  refine ⟨_, rfl, rfl, hused, ⟨hcount.trans h.room, ?_⟩, ?_⟩
  · change ch.used.Nodup
    rw [hused]
    exact h.nodup.filter _
  · exact (CountedArray.length_used (hcount.trans h.room)).symm

/-- A channel stays exactly if its frequency is unknown or outside the list. -/
theorem channelsRemoveFreqs_eq {ch : Channels} (h : Valid ch) (list : Option (List FreqRange)) :
    ∃ r, channelsRemoveFreqs ch list = some r ∧ Valid r ∧
      ∀ c x, Includes r c x ↔ Includes ch c x ∧ listed (list.getD []) c x = false := by
  cases list with
  | none =>
    refine ⟨ch, rfl, h, fun c x => ?_⟩
    have hnone : listed [] c x = false := decide_eq_false (by simp [freqRangeListIncludes])
    simp [hnone]
  | some list =>
    let g : RegClass → RegClass := fun op => (removeChannels list op).getD op
    have hg : ∀ op ∈ ch.used, removeChannels list op = some (g op) := by
      intro op hop
      obtain ⟨r, hr, -⟩ := removeChannels_eq list (h.classes op hop)
      change _ = some ((removeChannels list op).getD op)
      rw [hr]
      rfl
    have hspec : ∀ op ∈ ch.used, (g op).regClass = op.regClass ∧
        (g op).channel.used = op.channel.used.filter (fun x => !listed list op.regClass x) ∧
        (g op).Valid ∧ (g op).channel.count = (g op).channel.used.length := by
      intro op hop
      obtain ⟨r, hr, hrest⟩ := removeChannels_eq list (h.classes op hop)
      have hgop : g op = r := Option.some_inj.mp ((hg op hop).symm.trans hr)
      rwa [hgop]
    obtain ⟨r, hr, hused, hcount⟩ :=
      CountedArray.sweep_eq (fun op : RegClass => op.channel.count == 0) h.room hg
    refine ⟨r, hr, ⟨hcount.trans h.room, ?_, ?_⟩, ?_⟩
    · rw [hused]
      have hkeys : (ch.used.map g).map RegClass.regClass = ch.used.map RegClass.regClass := by
        rw [List.map_map]
        exact List.map_congr_left fun op hop => (hspec op hop).1
      exact (hkeys ▸ h.nodup).sublist (List.filter_sublist.map RegClass.regClass)
    · intro reg hreg
      rw [hused] at hreg
      obtain ⟨op, hop, rfl⟩ := List.mem_map.mp (List.mem_of_mem_filter hreg)
      exact (hspec op hop).2.2.1
    · intro c x
      rw [Includes, hused]
      constructor
      · rintro ⟨reg, hreg, rfl, hx⟩
        obtain ⟨op, hop, rfl⟩ := List.mem_map.mp (List.mem_of_mem_filter hreg)
        obtain ⟨hc, hchannels, -⟩ := hspec op hop
        rw [hchannels, List.mem_filter, Bool.not_eq_true'] at hx
        rw [hc]
        exact ⟨⟨op, hop, rfl, hx.1⟩, hx.2⟩
      · rintro ⟨⟨op, hop, rfl, hx⟩, hkeep⟩
        obtain ⟨hc, hchannels, -, hlength⟩ := hspec op hop
        have hmem : x ∈ (g op).channel.used := by
          rw [hchannels, List.mem_filter, Bool.not_eq_true']
          exact ⟨hx, hkeep⟩
        refine ⟨g op, List.mem_filter.mpr ⟨List.mem_map_of_mem hop, ?_⟩, hc, hmem⟩
        have hne : (g op).channel.count ≠ 0 := by
          rw [hlength]
          exact (List.length_pos_of_mem hmem).ne'
        simpa using hne

/-! ### A class without channels takes the place of another -/

instance (reg : RegClass) : Decidable reg.Valid :=
  decidable_of_iff (reg.channel.count ≤ maxRegClassChannels ∧ reg.channel.used.Nodup)
    ⟨fun h => ⟨h.1, h.2⟩, fun h => ⟨h.room, h.nodup⟩⟩

instance (ch : Channels) : Decidable (Valid ch) :=
  decidable_of_iff (ch.count ≤ maxRegClasses ∧ (ch.used.map RegClass.regClass).Nodup ∧
      ∀ reg ∈ ch.used, reg.Valid)
    ⟨fun h => ⟨h.1, h.2.1, h.2.2⟩, fun h => ⟨h.room, h.nodup, h.classes⟩⟩

def pairs (ch : Channels) : List (UInt8 × UInt8) :=
  ch.used.flatMap fun reg => reg.channel.used.map fun x => (reg.regClass, x)

theorem mem_pairs {ch : Channels} {c x : UInt8} : (c, x) ∈ pairs ch ↔ Includes ch c x := by
  simp only [pairs, List.mem_flatMap, List.mem_map, Prod.mk.injEq, Includes]
  constructor
  · rintro ⟨reg, hreg, y, hy, rfl, rfl⟩
    exact ⟨reg, hreg, rfl, hy⟩
  · rintro ⟨reg, hreg, rfl, hx⟩
    exact ⟨reg, hreg, x, hx, rfl, rfl⟩

/-- The given classes with the given channels. -/
def ofEntries (l : List (UInt8 × List UInt8)) : Channels :=
  .ofList maxRegClasses (l.map fun e => ⟨e.1, .ofList maxRegClassChannels e.2 0⟩) .zero

/-- Fourteen classes with a channel each. -/
def fourteenClasses : List (UInt8 × List UInt8) :=
  [2, 3, 4, 5, 6, 7, 8, 9, 10, 11, 12, 13, 14, 15].map fun c => (c, [1])

theorem union_loses_channel :
    let a := ofEntries ((1, []) :: fourteenClasses)
    let b := ofEntries [(81, [6])]
    Valid a ∧ Valid b ∧
    (∃ u, Valid u ∧ ∀ c x, Includes u c x ↔ Includes a c x ∨ Includes b c x) ∧
    channelsIncludes b 81 6 = some true ∧
    (channelsUnion a b).bind (fun r => channelsIncludes r 81 6) = some false := by
  intro a b
  refine ⟨by decide, by decide, ?_, by decide, by decide⟩
  refine ⟨ofEntries (fourteenClasses ++ [(81, [6])]), by decide, fun c x => ?_⟩
  have hpairs : pairs (ofEntries (fourteenClasses ++ [(81, [6])])) = pairs a ++ pairs b := by
    decide
  rw [← mem_pairs, ← mem_pairs, ← mem_pairs, hpairs, List.mem_append]

/-! ### The algebra -/

/-- The algebra of the channel sets. The union is exact where the classes listed in either set,
with or without channels, and the channels of each class fit into the arrays; where no class is
listed without channels it is enough that some value holds exactly the union. -/
theorem channels_algebra {a b : Channels} (ha : Valid a) (hb : Valid b)
    (list : Option (List FreqRange)) :
    (∃ r, channelsIntersect a b = some r ∧ Valid r ∧
      ∀ c x, channelsIncludes r c x = some true ↔
        channelsIncludes a c x = some true ∧ channelsIncludes b c x = some true) ∧
    (∃ r, channelsUnion a b = some r ∧ Valid r ∧
      (∀ c x, channelsIncludes r c x = some true →
        channelsIncludes a c x = some true ∨ channelsIncludes b c x = some true) ∧
      (∀ c x, channelsIncludes a c x = some true → channelsIncludes r c x = some true) ∧
      (Fits a b ∨ ((∀ reg ∈ a.used ++ b.used, reg.channel.used ≠ []) ∧
          ∃ u, Valid u ∧ ∀ c x, Includes u c x ↔ Includes a c x ∨ Includes b c x) →
        ∀ c x, channelsIncludes r c x = some true ↔
          channelsIncludes a c x = some true ∨ channelsIncludes b c x = some true)) ∧
    (∃ r, channelsRemoveFreqs a list = some r ∧ Valid r ∧
      ∀ c x, channelsIncludes r c x = some true ↔
        channelsIncludes a c x = some true ∧
          (channelToFreq c x ≤ 0 ∨
            freqRangeListIncludes (list.getD []) (channelToFreq c x) = false)) := by
  have hiff : ∀ {ch : Channels}, Valid ch → ∀ c x,
      channelsIncludes ch c x = some true ↔ Includes ch c x := by
    intro ch h c x
    obtain ⟨found, hfound, hincludes⟩ := channelsIncludes_eq h c x
    rw [hfound, Option.some_inj]
    exact hincludes
  refine ⟨?_, ?_, ?_⟩
  · obtain ⟨r, hr, hvalid, hspec⟩ := channelsIntersect_eq ha hb
    refine ⟨r, hr, hvalid, fun c x => ?_⟩
    rw [hiff hvalid, hiff ha, hiff hb]
    exact hspec c x
  · obtain ⟨r, hr, hvalid, hsub, hleft, hright⟩ := channelsUnion_eq ha hb
    refine ⟨r, hr, hvalid, ?_, ?_, ?_⟩
    · intro c x
      rw [hiff hvalid, hiff ha, hiff hb]
      exact hsub c x
    · intro c x
      rw [hiff hvalid, hiff ha]
      exact hleft c x
    · intro hfits c x
      have hfits : Fits a b := by
        rcases hfits with hfits | ⟨hsome, u, hu, heq⟩
        · exact hfits
        · exact fits_of_held ha hb hu hsome heq
      rw [hiff hvalid, hiff ha, hiff hb]
      exact ⟨hsub c x, fun h => h.elim (hleft c x) (hright hfits c x)⟩
  · obtain ⟨r, hr, hvalid, hspec⟩ := channelsRemoveFreqs_eq ha list
    refine ⟨r, hr, hvalid, fun c x => ?_⟩
    rw [hiff hvalid, hiff ha, hspec c x, listed, decide_eq_false_iff_not, not_and_or, not_lt,
      Bool.not_eq_true]

theorem channels_algebra_small :
    let a := ofEntries [(81, [1, 6])]
    let b := ofEntries [(81, [6]), (115, [36])]
    (∃ r, channelsIntersect a b = some r ∧ channelsIncludes r 81 6 = some true) ∧
    ∃ r, channelsUnion a b = some r ∧ channelsIncludes r 115 36 = some true := by
  intro a b
  have ha : Valid a := by decide
  have hb : Valid b := by decide
  obtain ⟨⟨r, hr, -, hboth⟩, ⟨u, hu, -, -, -, hunion⟩, -⟩ := channels_algebra ha hb none
  have hfits : Fits a b :=
    fits_of_held ha hb (u := ofEntries [(81, [1, 6]), (115, [36])]) (by decide)
      (by decide) fun c x => by
        have hpairs : pairs (ofEntries [(81, [1, 6]), (115, [36])]) = [(81, 1), (81, 6), (115, 36)] ∧
            pairs a = [(81, 1), (81, 6)] ∧ pairs b = [(81, 6), (115, 36)] := by decide
        rw [← mem_pairs, ← mem_pairs, ← mem_pairs, hpairs.1, hpairs.2.1, hpairs.2.2]
        simp only [List.mem_cons, List.not_mem_nil, or_false]
        tauto
  refine ⟨⟨r, hr, (hboth 81 6).mpr ⟨?_, ?_⟩⟩, u, hu, (hunion (Or.inl hfits) 115 36).mpr (Or.inr ?_)⟩
  · decide
  · decide
  · decide

end Wpa.P2p
