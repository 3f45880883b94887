import Wpa.P2p.Channels

/-! What the channel sets contain, and the intersection: it includes a channel exactly if both
sets do. -/

namespace Wpa.P2p
open Lib

structure RegClass.Valid (reg : RegClass) : Prop where
  room : reg.channel.count ≤ maxRegClassChannels
  nodup : reg.channel.used.Nodup

/-- Classes and channels are distinct and within the arrays. -/
structure Valid (ch : Channels) : Prop where
  room : ch.count ≤ maxRegClasses
  nodup : (ch.used.map RegClass.regClass).Nodup
  classes : ∀ reg ∈ ch.used, reg.Valid

/-- The set that the arrays stand for. -/
def Includes (ch : Channels) (c x : UInt8) : Prop :=
  ∃ reg ∈ ch.used, reg.regClass = c ∧ x ∈ reg.channel.used

theorem search_eq (l : List UInt8) (x : UInt8) :
    CountedArray.loop (findChannel x) l false =
      some (if x ∈ l then .done true else .next false) := by
  induction l with
  | nil => rfl
  | cons y l ih =>
    rw [CountedArray.loop, findChannel]
    by_cases hy : y = x
    · rw [if_pos hy, hy, if_pos (List.mem_cons_self ..)]
      rfl
    · rw [if_neg hy]
      refine ih.trans ?_
      simp only [List.mem_cons, Ne.symm hy, false_or]

/-- The lookup reads inside the arrays and answers what the set says. -/
theorem channelsIncludes_eq {ch : Channels} (h : Valid ch) (c x : UInt8) :
    ∃ found, channelsIncludes ch c x = some found ∧ (found = true ↔ Includes ch c x) := by
  have key : ∀ l : List RegClass, (∀ reg ∈ l, reg.Valid) →
      ∃ flow, CountedArray.loop (findClass c x) l false = some flow ∧
        (flow.state = true ↔ ∃ reg ∈ l, reg.regClass = c ∧ x ∈ reg.channel.used) := by
    intro l
    induction l with
    | nil => exact fun _ => ⟨.next false, rfl, by simp [Flow.state]⟩
    | cons reg l ih =>
      intro hl
      obtain ⟨flow, hflow, hiff⟩ := ih fun r hr => hl r (List.mem_cons_of_mem _ hr)
      rw [CountedArray.loop, findClass]
      by_cases hc : reg.regClass = c
      · rw [if_neg (not_not.mpr hc),
          CountedArray.forEach_eq (hl reg (List.mem_cons_self ..)).room, search_eq]
        by_cases hx : x ∈ reg.channel.used
        · rw [if_pos hx]
          refine ⟨.done true, rfl, ?_⟩
          exact ⟨fun _ => ⟨reg, List.mem_cons_self .., hc, hx⟩, fun _ => rfl⟩
        · rw [if_neg hx]
          refine ⟨flow, hflow, hiff.trans ?_⟩
          simp [hx]
      · rw [if_pos hc]
        refine ⟨flow, hflow, hiff.trans ?_⟩
        simp [hc]
  obtain ⟨flow, hflow, hiff⟩ := key ch.used h.classes
  rw [channelsIncludes, CountedArray.forEach_eq h.room, hflow]
  exact ⟨flow.state, rfl, hiff⟩

/-! ### Intersection of two classes -/

theorem flatMap_eq_singleton {l : List UInt8} (h : l.Nodup) (x : UInt8) :
    (l.flatMap fun y => if x = y then [x] else []) = if x ∈ l then [x] else [] := by
  induction l with
  | nil => rfl
  | cons y l ih =>
    rw [List.nodup_cons] at h
    rw [List.flatMap_cons, ih h.2]
    by_cases hxy : x = y
    · subst hxy
      simp [h.1]
    · simp [hxy]

/-- The pairs of equal channels are the channels in both lists. -/
theorem flatMap_product {l m : List UInt8} (hm : m.Nodup) :
    ((l ×ˢ m).flatMap fun e => if e.1 = e.2 then [e.1] else []) = l.filter (· ∈ m) := by
  induction l with
  | nil => rfl
  | cons x l ih =>
    have hproduct : (x :: l) ×ˢ m = m.map (Prod.mk x) ++ l ×ˢ m := List.product_cons x l m
    rw [hproduct, List.flatMap_append, ih, List.flatMap_map, flatMap_eq_singleton hm,
      List.filter_cons]
    by_cases hx : x ∈ m <;> simp [hx]

theorem matchChannel_eq (x y : UInt8) {r : RegClass}
    (hr : r.channel.count = r.channel.used.length)
    (hlt : r.channel.used.length < maxRegClassChannels) :
    ∃ flow, matchChannel x y r = some flow ∧
      (flow.state.regClass = r.regClass ∧
        flow.state.channel.count = flow.state.channel.used.length) ∧
      flow.state.channel.used = r.channel.used ++ (if x = y then [x] else []) ∧
      ((∃ r', flow = .next r' ∧ r'.channel.used.length < maxRegClassChannels) ∨
        ∃ r', flow = .done r' ∧ r'.channel.used.length = maxRegClassChannels) := by
  rw [matchChannel]
  by_cases hxy : x = y
  · obtain ⟨ch, hch, hused, hcount⟩ := CountedArray.push_eq (x := x) (hr.trans_lt hlt)
    have hlength : ch.used.length = r.channel.used.length + 1 := by
      rw [hused, List.length_append, List.length_singleton]
    have hchcount : ch.count = ch.used.length := by rw [hcount, hr, hlength]
    rw [if_neg (not_not.mpr hxy), hch, Option.bind_eq_bind, Option.bind_some, if_pos hxy]
    by_cases hfull : ch.count = maxRegClassChannels
    · rw [if_pos hfull]
      refine ⟨_, rfl, ⟨rfl, hchcount⟩, hused, Or.inr ⟨_, rfl, ?_⟩⟩
      exact hchcount.symm.trans hfull
    · rw [if_neg hfull]
      refine ⟨_, rfl, ⟨rfl, hchcount⟩, hused, Or.inl ⟨_, rfl, ?_⟩⟩
      change ch.used.length < maxRegClassChannels
      omega
  · rw [if_pos hxy, if_neg hxy]
    exact ⟨_, rfl, ⟨rfl, hr⟩, (List.append_nil _).symm, Or.inl ⟨r, rfl, hlt⟩⟩

/-- The channels that are in both lists. -/
theorem regClassIntersect_eq {a b slot : RegClass} (ha : a.Valid) (hb : b.Valid)
    (hslot : slot.channel.count = 0) :
    ∃ r, regClassIntersect a b slot = some r ∧ r.regClass = a.regClass ∧
      r.channel.used = a.channel.used.filter (· ∈ b.channel.used) ∧
      r.channel.count = r.channel.used.length ∧ r.Valid := by
  have hempty : slot.channel.used = [] := by rw [CountedArray.used, hslot, List.take_zero]
  have hlength : (a.channel.used.filter (· ∈ b.channel.used)).length ≤ maxRegClassChannels := by
    refine (List.length_filter_le _ _).trans ?_
    rw [CountedArray.length_used ha.room]
    exact ha.room
  have hforEach : (fun x => b.channel.forEach (matchChannel x)) =
      fun x => CountedArray.loop (matchChannel x) b.channel.used := by
    funext x r
    exact CountedArray.forEach_eq hb.room _ r
  rw [regClassIntersect, CountedArray.forEach_eq ha.room, hforEach, CountedArray.loop_nested]
  obtain ⟨flow, hflow, hI, hview⟩ := CountedArray.loop_collect
    (I := fun r : RegClass => r.regClass = a.regClass ∧ r.channel.count = r.channel.used.length)
    (F := fun e : UInt8 × UInt8 => if e.1 = e.2 then [e.1] else [])
    (l := a.channel.used ×ˢ b.channel.used) (s := { slot with regClass := a.regClass })
    (fun e _ r hr hlt => by
      obtain ⟨flow, hflow, ⟨hrc, hcount⟩, hrest⟩ := matchChannel_eq e.1 e.2 hr.2 hlt
      exact ⟨flow, hflow, ⟨hrc.trans hr.1, hcount⟩, hrest⟩)
    ⟨rfl, by rw [hslot, hempty]; rfl⟩
    (by rw [hempty]; exact Nat.succ_pos 59)
    (by rw [flatMap_product hb.nodup, hempty, List.length_nil, Nat.zero_add]; exact hlength)
  have hused : flow.state.channel.used = a.channel.used.filter (· ∈ b.channel.used) := by
    refine hview.trans ?_
    rw [hempty, List.nil_append]
    exact flatMap_product hb.nodup
  rw [hflow]
  refine ⟨flow.state, rfl, hI.1, hused, hI.2, ?_, ?_⟩
  · rw [hI.2, hused]
    exact hlength
  · rw [hused]
    exact ha.nodup.filter _

/-! ### Intersection of two sets -/

def RegClass.entry (r : RegClass) : UInt8 × List UInt8 := (r.regClass, r.channel.used)

/-- What two classes have in common, if they are the same class and anything is. -/
def common (ar br : RegClass) : List (UInt8 × List UInt8) :=
  if ar.regClass = br.regClass ∧ ar.channel.used.filter (· ∈ br.channel.used) ≠ [] then
    [(ar.regClass, ar.channel.used.filter (· ∈ br.channel.used))]
  else []

/-- The invariant of the result while it is built: the slots behind it have no channels yet. -/
structure Building (res : Channels) : Prop where
  count : res.count = res.used.length
  blank : ∀ i r, res.count ≤ i → res.cells[i]? = some r → r.channel.count = 0
  valid : ∀ r ∈ res.used, r.Valid

theorem matchClass_eq {ar br : RegClass} {res : Channels} (ha : ar.Valid) (hb : br.Valid)
    (hres : Building res) (hlt : (res.used.map RegClass.entry).length < maxRegClasses) :
    ∃ flow, matchClass ar br res = some flow ∧ Building flow.state ∧
      flow.state.used.map RegClass.entry = res.used.map RegClass.entry ++ common ar br ∧
      ((∃ s, flow = .next s ∧ (s.used.map RegClass.entry).length < maxRegClasses) ∨
        ∃ s, flow = .done s ∧ (s.used.map RegClass.entry).length = maxRegClasses) := by
  rw [List.length_map] at hlt
  have hroom : res.count < maxRegClasses := hres.count.trans_lt hlt
  rw [matchClass]
  by_cases hc : ar.regClass = br.regClass
  · rw [if_neg (not_not.mpr hc)]
    have hcell : res.count < res.cells.length := hroom.trans_eq res.length_cells.symm
    have hblank := hres.blank res.count _ le_rfl (List.getElem?_eq_getElem hcell)
    obtain ⟨slot, hslot, hrc, hused, hcount, hvalid⟩ := regClassIntersect_eq ha hb hblank
    obtain ⟨b, hwrite, hcells, hbcount, hbused⟩ := CountedArray.write_count_eq (x := slot) hroom
    have hafter : ∀ i r, res.count < i → b.cells[i]? = some r → r.channel.count = 0 := by
      intro i r hi hr
      rw [hcells, List.getElem?_set_ne hi.ne] at hr
      exact hres.blank i r hi.le hr
    rw [CountedArray.read_eq hcell, Option.bind_eq_bind, Option.bind_some, hslot,
      Option.bind_eq_bind, Option.bind_some, hwrite, Option.bind_some]
    by_cases hzero : slot.channel.count = 0
    · -- nothing in common: the slot is used again
      have hnone : ar.channel.used.filter (· ∈ br.channel.used) = [] := by
        rw [← hused, ← List.length_eq_zero_iff, ← hcount, hzero]
      rw [if_neg (not_not.mpr hzero)]
      refine ⟨.next b, rfl, ⟨?_, ?_, ?_⟩, ?_, Or.inl ⟨b, rfl, ?_⟩⟩
      · change b.count = b.used.length
        rw [hbcount, hbused, hres.count]
      · intro i r hi hr
        rcases Nat.eq_or_lt_of_le (hbcount ▸ hi : res.count ≤ i) with rfl | hlt
        · have hself : b.cells[res.count]? = some slot := by
            rw [hcells, List.getElem?_set_self hcell]
          change b.cells[res.count]? = some r at hr
          rw [hself, Option.some_inj] at hr
          rw [← hr, hzero]
        · exact hafter i r hlt hr
      · change ∀ r ∈ b.used, r.Valid
        rw [hbused]
        exact hres.valid
      · change b.used.map RegClass.entry = _
        rw [hbused, common, if_neg (fun h => h.2 hnone), List.append_nil]
      · rwa [List.length_map, hbused]
    · have hsome : ar.channel.used.filter (· ∈ br.channel.used) ≠ [] := by
        rw [← hused]
        intro hnil
        rw [hcount, hnil] at hzero
        exact hzero rfl
      rw [if_pos hzero]
      have hused' : b.cells.take (b.count + 1) = res.used ++ [slot] := by
        rw [hcells, hbcount]
        exact CountedArray.take_set_count hroom
      have hlength : b.count + 1 = (b.cells.take (b.count + 1)).length := by
        rw [hused', List.length_append, List.length_singleton, hbcount, hres.count]
      have hbuilding : Building ⟨b.cells, b.count + 1, b.length_cells⟩ := by
        refine ⟨hlength, ?_, ?_⟩
        · intro i r hi hr
          exact hafter i r (Nat.lt_of_succ_le (hbcount ▸ hi)) hr
        · intro r hr
          change r ∈ b.cells.take (b.count + 1) at hr
          rw [hused'] at hr
          rcases List.mem_append.mp hr with hr | hr
          · exact hres.valid r hr
          · exact List.mem_singleton.mp hr ▸ hvalid
      have hview : (b.cells.take (b.count + 1)).map RegClass.entry =
          res.used.map RegClass.entry ++ common ar br := by
        rw [hused', List.map_append, common, if_pos ⟨hc, hsome⟩, ← hused, ← hrc]
        rfl
      by_cases hfull : b.count + 1 = maxRegClasses
      · rw [if_pos hfull]
        refine ⟨_, rfl, hbuilding, hview, Or.inr ⟨_, rfl, ?_⟩⟩
        rw [List.length_map]
        exact hlength.symm.trans hfull
      · rw [if_neg hfull]
        refine ⟨_, rfl, hbuilding, hview, Or.inl ⟨_, rfl, ?_⟩⟩
        rw [List.length_map]
        refine hlength.symm.trans_lt (lt_of_le_of_ne ?_ hfull)
        rw [hbcount]
        exact hroom
  · rw [if_pos hc]
    refine ⟨_, rfl, hres, ?_, Or.inl ⟨res, rfl, by rwa [List.length_map]⟩⟩
    rw [common, if_neg (fun h => hc h.1), List.append_nil]
    rfl

theorem common_fst {ar br : RegClass} {e : UInt8 × List UInt8} (h : e ∈ common ar br) :
    e.1 = ar.regClass ∧ ar.regClass = br.regClass ∧
      e.2 = ar.channel.used.filter (· ∈ br.channel.used) := by
  rw [common] at h
  split at h
  case isTrue hcond =>
    rw [List.mem_singleton.mp h]
    exact ⟨rfl, hcond.1, rfl⟩
  case isFalse => cases h

/-- A class meets at most one class of the other set. -/
theorem common_sublist {l : List RegClass} (h : (l.map RegClass.regClass).Nodup) (ar : RegClass) :
    ((l.flatMap (common ar)).map Prod.fst).Sublist [ar.regClass] := by
  induction l with
  | nil => exact List.nil_sublist _
  | cons br l ih =>
    rw [List.map_cons, List.nodup_cons] at h
    rw [List.flatMap_cons]
    by_cases hc : ar.regClass = br.regClass
    · have hrest : l.flatMap (common ar) = [] := by
        rw [List.flatMap_eq_nil_iff]
        intro r hr
        rw [common, if_neg]
        rintro ⟨heq, -⟩
        exact h.1 (hc ▸ heq ▸ List.mem_map_of_mem hr)
      rw [hrest, List.append_nil, common]
      split
      · exact List.Sublist.refl _
      · exact List.nil_sublist _
    · rw [common, if_neg (fun hcond => hc hcond.1), List.nil_append]
      exact ih h.2

theorem common_keys {l m : List RegClass} (hm : (m.map RegClass.regClass).Nodup) :
    (((l ×ˢ m).flatMap fun e => common e.1 e.2).map Prod.fst).Sublist
      (l.map RegClass.regClass) := by
  induction l with
  | nil => exact List.nil_sublist _
  | cons ar l ih =>
    have hproduct : (ar :: l) ×ˢ m = m.map (Prod.mk ar) ++ l ×ˢ m := List.product_cons ar l m
    rw [hproduct, List.flatMap_append, List.map_append, List.flatMap_map, List.map_cons]
    exact (common_sublist hm ar).append ih

theorem includes_iff_entry {ch : Channels} {c x : UInt8} :
    Includes ch c x ↔ ∃ e ∈ ch.used.map RegClass.entry, e.1 = c ∧ x ∈ e.2 := by
  constructor
  · rintro ⟨reg, hreg, hc, hx⟩
    exact ⟨reg.entry, List.mem_map_of_mem hreg, hc, hx⟩
  · rintro ⟨e, he, hc, hx⟩
    obtain ⟨reg, hreg, rfl⟩ := List.mem_map.mp he
    exact ⟨reg, hreg, hc, hx⟩

/-- The intersection stays inside its arrays, keeps classes and channels distinct, and includes
what both sets include. -/
theorem channelsIntersect_eq {a b : Channels} (ha : Valid a) (hb : Valid b) :
    ∃ r, channelsIntersect a b = some r ∧ Valid r ∧
      ∀ c x, Includes r c x ↔ Includes a c x ∧ Includes b c x := by
  have hforEach : (fun ar => b.forEach (matchClass ar)) =
      fun ar => CountedArray.loop (matchClass ar) b.used := by
    funext ar r
    exact CountedArray.forEach_eq hb.room _ r
  have hkeys := common_keys (l := a.used) hb.nodup
  have hstart : Building (.filled maxRegClasses .zero) := by
    refine ⟨by rw [CountedArray.used_filled]; rfl, ?_, ?_⟩
    · intro i r _ hr
      have hmem := List.mem_of_getElem? hr
      rw [List.eq_of_mem_replicate hmem]
      rfl
    · intro r hr
      rw [CountedArray.used_filled] at hr
      cases hr
  obtain ⟨flow, hflow, hI, hview⟩ := CountedArray.loop_collect (I := Building)
    (F := fun e : RegClass × RegClass => common e.1 e.2) (l := a.used ×ˢ b.used)
    (fun e he r hr hlt => by
      obtain ⟨hear, hebr⟩ := List.pair_mem_product.mp he
      exact matchClass_eq (ha.classes _ hear) (hb.classes _ hebr) hr hlt)
    hstart
    (by rw [CountedArray.used_filled]; exact Nat.succ_pos 14)
    (by
      have hlength := hkeys.length_le
      rw [List.length_map, List.length_map, CountedArray.length_used ha.room] at hlength
      rw [CountedArray.used_filled, List.map_nil, List.length_nil, Nat.zero_add]
      exact hlength.trans ha.room)
  rw [CountedArray.used_filled, List.map_nil, List.nil_append] at hview
  have hclasses : flow.state.used.map RegClass.regClass =
      (flow.state.used.map RegClass.entry).map Prod.fst := by
    rw [List.map_map]
    rfl
  rw [channelsIntersect, CountedArray.forEach_eq ha.room, hforEach, CountedArray.loop_nested, hflow]
  refine ⟨flow.state, rfl, ⟨?_, ?_, hI.valid⟩, ?_⟩
  · have hlength := hkeys.length_le
    rw [← hview, ← hclasses, List.length_map, List.length_map, CountedArray.length_used ha.room,
      ← hI.count] at hlength
    exact hlength.trans ha.room
  · rw [hclasses, hview]
    exact hkeys.nodup ha.nodup
  · intro c x
    rw [includes_iff_entry, hview]
    constructor
    · rintro ⟨e, he, rfl, hx⟩
      obtain ⟨⟨ar, br⟩, hpair, he⟩ := List.mem_flatMap.mp he
      obtain ⟨har, hbr⟩ := List.pair_mem_product.mp hpair
      obtain ⟨hfst, hc, hsnd⟩ := common_fst he
      rw [hsnd, List.mem_filter, decide_eq_true_eq] at hx
      exact ⟨⟨ar, har, hfst.symm, hx.1⟩, ⟨br, hbr, (hfst.trans hc).symm, hx.2⟩⟩
    · rintro ⟨⟨ar, har, hca, hxa⟩, ⟨br, hbr, hcb, hxb⟩⟩
      have hx : x ∈ ar.channel.used.filter (· ∈ br.channel.used) := by
        rw [List.mem_filter, decide_eq_true_eq]
        exact ⟨hxa, hxb⟩
      refine ⟨(ar.regClass, ar.channel.used.filter (· ∈ br.channel.used)), ?_, hca, hx⟩
      refine List.mem_flatMap.mpr ⟨(ar, br), List.pair_mem_product.mpr ⟨har, hbr⟩, ?_⟩
      rw [common, if_pos ⟨hca.trans hcb.symm, List.ne_nil_of_mem hx⟩]
      exact List.mem_singleton_self _

end Wpa.P2p
