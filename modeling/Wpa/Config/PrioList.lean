import Mathlib.Algebra.Group.Int.Defs
import Mathlib.Algebra.Group.Nat.Defs
import Mathlib.Data.Int.Order.Basic
import Mathlib.Data.List.Nodup
import Wpa.Lib.Chain
import Wpa.Lib.Runs

/-! The configured networks of `config.c` and their priority lists: an array with the first network
of each priority, from which the others follow by their pointers `pnext`. -/

namespace Wpa.PrioList
open Lib

/-- The part of `struct wpa_ssid` that the lists are made of. An `int` has 32 bits. -/
structure Ssid where
  id : ℤ
  priority : ℤ
  pnext : Option Ptr
  deriving DecidableEq

/-- The part of `struct wpa_config`: the networks in the order in which they are linked by `next`,
and the array `pssid` of `num_prio` pointers. `stale` is what a pointer to freed memory reads. -/
structure Config where
  heap : Heap Ssid
  ssid : List Ptr
  pssid : List Ptr
  stale : Ssid

def Config.net (c : Config) (p : Ptr) : Ssid := c.heap.read c.stale p

def Config.setPnext (c : Config) (p : Ptr) (pnext : Option Ptr) : Config :=
  { c with heap := c.heap.set p { c.net p with pnext := pnext } }

/-- `wpa_config_add_prio_network`; `grows` says whether the array can be reallocated. -/
def addPrioNetwork (grows : Bool) (c : Config) (ssid : Ptr) : Config × ℤ :=
  match c.pssid.find? fun prev => (c.net prev).priority = (c.net ssid).priority with
  | some prev =>
    (c.setPnext (chainEnd (fun p => (c.net p).pnext) c.ssid.length prev) (some ssid), 0)
  | none =>
    if grows then
      let prio := c.pssid.findIdx fun p => (c.net p).priority < (c.net ssid).priority
      ({ c with pssid := c.pssid.take prio ++ ssid :: c.pssid.drop prio }, 0)
    else (c, -1)

/-- The loop of `wpa_config_update_prio_list`. -/
def addPrioNetworks (grows : Ptr → Bool) : List Ptr → Config → Config × ℤ
  | [], c => (c, 0)
  | ssid :: rest, c =>
    let added := addPrioNetwork (grows ssid) (c.setPnext ssid none) ssid
    let r := addPrioNetworks grows rest added.1
    (r.1, if added.2 < 0 then -1 else r.2)

def updatePrioList (grows : Ptr → Bool) (c : Config) : Config × ℤ :=
  addPrioNetworks grows c.ssid { c with pssid := [] }

/-- `id++` on an `int`. -/
def succId (id : ℤ) : ℤ := Int.bmod (id + 1) (2 ^ 32)

/-- The loop of `wpa_config_add_network` over the identifiers. -/
def maxId (c : Config) : List Ptr → ℤ → ℤ
  | [], id => id
  | p :: ps, id => maxId c ps (if (c.net p).id > id then (c.net p).id else id)

/-- The identifier of a new network. -/
def nextId (c : Config) : ℤ := succId (maxId c c.ssid (-1))

/-- `wpa_config_add_network`. -/
def addNetwork (mem : Allocator) (grows : Ptr → Bool) (c : Config) : Config × Option Ptr :=
  match mem.alloc c.heap.live with
  | none => (c, none)
  | some p =>
    let c := { c with heap := c.heap.set p ⟨nextId c, 0, none⟩, ssid := c.ssid ++ [p] }
    ((updatePrioList grows c).1, some p)

/-- `wpa_config_remove_network`. -/
def removeNetwork (id : ℤ) (grows : Ptr → Bool) (c : Config) : Config × ℤ :=
  match c.ssid.find? fun p => (c.net p).id = id with
  | none => (c, -1)
  | some p =>
    let c := (updatePrioList grows { c with ssid := c.ssid.erase p }).1
    ({ c with heap := c.heap.free p }, 0)

/-- A network gets another priority, and the lists are made anew. -/
def setPriority (p : Ptr) (priority : ℤ) (grows : Ptr → Bool) (c : Config) : Config :=
  (updatePrioList grows
    { c with heap := c.heap.set p { c.net p with priority := priority } }).1

inductive Input
  | addNetwork (mem : Allocator)
  | removeNetwork (id : ℤ)
  | setPriority (p : Ptr) (priority : ℤ)

/-- One operation, where the array can always be reallocated. -/
def handle (c : Config) : Input → Config
  | .addNetwork mem => (addNetwork mem (fun _ => true) c).1
  | .removeNetwork id => (removeNetwork id (fun _ => true) c).1
  | .setPriority p priority =>
    if p ∈ c.ssid then setPriority p priority (fun _ => true) c else c

def step (c : Config) (i : Input) : Config × List Unit := (handle c i, [])

/-- `wpa_config_alloc_empty`. -/
def init (stale : Ssid) : Config := ⟨fun _ => none, [], [], stale⟩

section Frame
variable (c : Config) (p q : Ptr) (pnext : Option Ptr)

@[simp] theorem net_setPnext_self :
    (c.setPnext p pnext).net p = { c.net p with pnext := pnext } := Heap.read_set_self

theorem net_setPnext_of_ne (h : q ≠ p) : (c.setPnext p pnext).net q = c.net q :=
  Heap.read_set_of_ne h

@[simp] theorem priority_setPnext :
    ((c.setPnext p pnext).net q).priority = (c.net q).priority := by
  by_cases h : q = p
  · rw [h, net_setPnext_self]
  · rw [net_setPnext_of_ne c p q pnext h]

@[simp] theorem id_setPnext : ((c.setPnext p pnext).net q).id = (c.net q).id := by
  by_cases h : q = p
  · rw [h, net_setPnext_self]
  · rw [net_setPnext_of_ne c p q pnext h]

end Frame

/-- The same networks, with other pointers between them. -/
structure SameNets (c c' : Config) : Prop where
  ssid : c'.ssid = c.ssid
  live : ∀ p, c'.heap.live p = c.heap.live p
  priority : ∀ p, (c'.net p).priority = (c.net p).priority
  id : ∀ p, (c'.net p).id = (c.net p).id

theorem SameNets.trans {c₁ c₂ c₃ : Config} (h₁ : SameNets c₁ c₂) (h₂ : SameNets c₂ c₃) :
    SameNets c₁ c₃ :=
  ⟨h₂.ssid.trans h₁.ssid, fun p => (h₂.live p).trans (h₁.live p),
    fun p => (h₂.priority p).trans (h₁.priority p), fun p => (h₂.id p).trans (h₁.id p)⟩

theorem sameNets_setPnext {c : Config} {p : Ptr} (hp : c.heap.live p = true)
    (pnext : Option Ptr) : SameNets c (c.setPnext p pnext) := by
  have hlive : (c.setPnext p pnext).heap.live = c.heap.live := Heap.live_set hp _
  exact ⟨rfl, congrFun hlive, fun q => priority_setPnext c p q pnext,
    fun q => id_setPnext c p q pnext⟩

/-- Those of the networks that have the priority `k`. -/
def withPriority (c : Config) (l : List Ptr) (k : ℤ) : List Ptr :=
  l.filter fun p => (c.net p).priority = k

/-- The lists over the networks `done`, which have the priorities `ks`. -/
structure Built (c : Config) (done : List Ptr) (ks : List ℤ) : Prop where
  sorted : ks.Pairwise (· > ·)
  mem : ∀ k, k ∈ ks ↔ ∃ p ∈ done, (c.net p).priority = k
  heads : c.pssid.map some = ks.map fun k => (withPriority c done k).head?
  linked : ∀ k, Linked (fun p => (c.net p).pnext) (withPriority c done k)

section Chains
variable {c c' : Config} {done : List Ptr} {ks : List ℤ} {k : ℤ} {p q : Ptr}

theorem mem_withPriority : p ∈ withPriority c done k ↔ p ∈ done ∧ (c.net p).priority = k := by
  rw [withPriority, List.mem_filter, decide_eq_true_eq]

theorem SameNets.withPriority (h : SameNets c c') (l : List Ptr) (k : ℤ) :
    withPriority c' l k = withPriority c l k := by
  simp only [PrioList.withPriority, h.priority]

theorem withPriority_concat (c : Config) (done : List Ptr) (q : Ptr) (k : ℤ) :
    withPriority c (done ++ [q]) k =
      withPriority c done k ++ if (c.net q).priority = k then [q] else [] := by
  rw [withPriority, List.filter_append, List.filter_singleton, Bool.cond_decide]
  rfl

theorem head_priority (h : (withPriority c done k).head? = some p) : (c.net p).priority = k :=
  (mem_withPriority.mp (List.mem_of_head? h)).2

/-- The first networks of the lists have the priorities in order. -/
theorem map_priority {pssid : List Ptr}
    (h : pssid.map some = ks.map fun k => (withPriority c done k).head?) :
    pssid.map (fun p => (c.net p).priority) = ks := by
  induction ks generalizing pssid with
  | nil => rw [List.map_eq_nil_iff.mp h, List.map_nil]
  | cons k ks ih =>
    cases pssid with
    | nil => cases h
    | cons p pssid =>
      obtain ⟨hp, hrest⟩ := List.cons.inj h
      rw [List.map_cons, head_priority hp.symm, ih hrest]

/-- The list of a priority is found by the priority of its first network. -/
theorem Built.find_eq (h : Built c done ks) (k : ℤ) :
    (c.pssid.find? fun p => (c.net p).priority = k) = (withPriority c done k).head? := by
  cases hfind : c.pssid.find? fun p => (c.net p).priority = k with
  | none =>
    have hnone : k ∉ ks := by
      rw [← map_priority h.heads, List.mem_map]
      rintro ⟨p, hp, heq⟩
      simpa [heq] using List.find?_eq_none.mp hfind p hp
    have hempty : withPriority c done k = [] := by
      rw [List.eq_nil_iff_forall_not_mem]
      exact fun p hp => hnone ((h.mem k).mpr ⟨p, mem_withPriority.mp hp⟩)
    rw [hempty, List.head?_nil]
  | some p =>
    have hmem : some p ∈ c.pssid.map some := List.mem_map_of_mem (List.mem_of_find?_eq_some hfind)
    have hpriority : (c.net p).priority = k := by simpa using List.find?_some hfind
    rw [h.heads, List.mem_map] at hmem
    obtain ⟨k', -, hk'⟩ := hmem
    rw [← hk', ← hpriority, head_priority hk']

theorem built_nil (c : Config) : Built { c with pssid := [] } [] [] := by
  refine ⟨.nil, fun k => ?_, rfl, fun k => trivial⟩
  simp

/-- A pointer of a network that is in no list yet may change. -/
theorem Built.setPnext (h : Built c done ks) (hlive : c.heap.live q = true) (hq : q ∉ done)
    (pnext : Option Ptr) : Built (c.setPnext q pnext) done ks := by
  have hsame := sameNets_setPnext hlive pnext
  refine ⟨h.sorted, fun k => ?_, ?_, fun k => ?_⟩
  · simp only [hsame.priority, h.mem k]
  · simp only [hsame.withPriority]
    exact h.heads
  · rw [hsame.withPriority]
    refine (h.linked k).congr fun p hp => ?_
    have hne : p ≠ q := ne_of_mem_of_not_mem (mem_withPriority.mp hp).1 hq
    rw [net_setPnext_of_ne c q p pnext hne]

/-- The priorities with a network of the priority `k` more. -/
theorem mem_concat (hks : ∀ m, m ∈ ks ↔ ∃ p ∈ done, (c.net p).priority = m) (m : ℤ) :
    (m = (c.net q).priority ∨ m ∈ ks) ↔ ∃ p ∈ done ++ [q], (c.net p).priority = m := by
  rw [hks, or_comm, eq_comm]
  simp only [List.mem_append, List.mem_singleton, or_and_right, exists_or, exists_eq_left]

/-- A network behind the last one of its priority. -/
theorem Built.append (h : Built c done ks) (hnodup : done.Nodup)
    (hlive : ∀ p ∈ done, c.heap.live p = true) (hq : q ∉ done) (hnull : (c.net q).pnext = none)
    (hlen : done.length ≤ c.ssid.length)
    (hp : (withPriority c done (c.net q).priority).head? = some p) :
    SameNets c (c.setPnext (chainEnd (fun p => (c.net p).pnext) c.ssid.length p) (some q)) ∧
      Built (c.setPnext (chainEnd (fun p => (c.net p).pnext) c.ssid.length p) (some q))
        (done ++ [q]) ks := by
  obtain ⟨rest, hchain⟩ := List.head?_eq_some_iff.mp hp
  have hlinked := h.linked (c.net q).priority
  have hshort : rest.length ≤ c.ssid.length := by
    have hle : (withPriority c done (c.net q).priority).length ≤ done.length :=
      List.length_filter_le ..
    rw [hchain, List.length_cons] at hle
    omega
  obtain ⟨last, hlast⟩ : ∃ last,
      last = chainEnd (fun p => (c.net p).pnext) c.ssid.length p := ⟨_, rfl⟩
  have hend : (withPriority c done (c.net q).priority).getLast? = some last := by
    have hfirst := hlinked
    rw [hchain] at hfirst
    rw [hlast, hchain, hfirst.chainEnd_eq hshort]
  have hmem := mem_withPriority.mp (List.mem_of_getLast? hend)
  have hqne : q ≠ last := fun heq => hq (heq ▸ hmem.1)
  rw [← hlast]
  have hsame := sameNets_setPnext (hlive last hmem.1) (some q)
  have hhas : (c.net q).priority ∈ ks := (h.mem _).mpr ⟨last, hmem⟩
  refine ⟨hsame, h.sorted, fun k => ?_, ?_, fun k => ?_⟩
  · simp only [hsame.priority]
    rw [← mem_concat h.mem, or_iff_right_of_imp]
    rintro rfl
    exact hhas
  · refine h.heads.trans (List.map_congr_left fun k hk => ?_)
    obtain ⟨r, hr⟩ := (h.mem k).mp hk
    have hne : withPriority c done k ≠ [] := List.ne_nil_of_mem (mem_withPriority.mpr hr)
    rw [hsame.withPriority, withPriority_concat, List.head?_append_of_ne_nil _ hne]
  · rw [hsame.withPriority, withPriority_concat]
    split
    · rename_i hk
      subst hk
      refine hlinked.concat ?_ (fun r hr => ?_) (fun r hr hother => ?_) (hnodup.filter _)
      · rw [net_setPnext_of_ne c last q (some q) hqne, hnull]
      · obtain rfl := Option.some.inj (hend.symm.trans hr)
        rw [net_setPnext_self]
      · have hne : r ≠ last := by
          rintro rfl
          exact hother hend
        rw [net_setPnext_of_ne c last r (some q) hne]
    · rename_i hk
      rw [List.append_nil]
      refine (h.linked k).congr fun r hr => ?_
      have hne : r ≠ last := by
        rintro rfl
        exact hk (hmem.2.symm.trans (mem_withPriority.mp hr).2)
      rw [net_setPnext_of_ne c last r (some q) hne]

/-- The first network of its priority. -/
theorem Built.insert (h : Built c done ks) (hnull : (c.net q).pnext = none)
    (hnone : (withPriority c done (c.net q).priority).head? = none) :
    let prio := c.pssid.findIdx fun p => (c.net p).priority < (c.net q).priority
    Built { c with pssid := c.pssid.take prio ++ q :: c.pssid.drop prio } (done ++ [q])
      (insertDecreasing (c.net q).priority ks) := by
  intro prio
  have hempty := List.head?_eq_none_iff.mp hnone
  have hnot : (c.net q).priority ∉ ks := by
    intro hmem
    obtain ⟨p, hp⟩ := (h.mem _).mp hmem
    rw [← mem_withPriority, hempty] at hp
    cases hp
  have hprio : prio = ks.findIdx (· < (c.net q).priority) := by
    rw [← map_priority h.heads, List.findIdx_map]
    rfl
  have hother : ∀ k ∈ ks, withPriority c (done ++ [q]) k = withPriority c done k := by
    intro k hk
    have hne : (c.net q).priority ≠ k := fun heq => hnot (heq ▸ hk)
    rw [withPriority_concat, if_neg hne, List.append_nil]
  have hself : withPriority c (done ++ [q]) (c.net q).priority = [q] := by
    rw [withPriority_concat, hempty, if_pos rfl, List.nil_append]
  refine ⟨insertDecreasing_pairwise h.sorted hnot, fun k => ?_, ?_, fun k => ?_⟩
  · rw [mem_insertDecreasing]
    exact mem_concat h.mem k
  · have hheads : ∀ l ⊆ ks, (l.map fun k => (withPriority c (done ++ [q]) k).head?) =
        l.map fun k => (withPriority c done k).head? :=
      fun l hl => List.map_congr_left fun k hk => by rw [hother k (hl hk)]
    show (c.pssid.take prio ++ q :: c.pssid.drop prio).map some =
      (insertDecreasing _ ks).map fun k => (withPriority c (done ++ [q]) k).head?
    rw [insertDecreasing, List.map_append, List.map_cons, List.map_append, List.map_cons, hself,
      hheads _ (List.take_subset ..), hheads _ (List.drop_subset ..), List.map_take, List.map_drop,
      List.map_take, List.map_drop, h.heads, ← hprio]
    rfl
  · show Linked _ (withPriority c (done ++ [q]) k)
    rw [withPriority_concat]
    split
    · rename_i hk
      rw [← hk, hempty]
      exact hnull
    · rw [List.append_nil]
      exact h.linked k

end Chains

/-- The networks as the chains list them: each chain starts in the array and is linked by `pnext`,
and together they have every network once. -/
structure Chains (c : Config) (chains : List (List Ptr)) : Prop where
  heads : c.pssid.map some = chains.map List.head?
  linked : ∀ l ∈ chains, Linked (fun p => (c.net p).pnext) l
  perm : chains.flatten.Perm c.ssid
  priority : ∀ l ∈ chains, ∀ p ∈ l, ∀ q ∈ l, (c.net p).priority = (c.net q).priority
  decreasing : chains.Pairwise fun l m => ∀ p ∈ l, ∀ q ∈ m, (c.net q).priority < (c.net p).priority
  order : ∀ l ∈ chains, l.Sublist c.ssid

section Update
variable {c : Config} {done todo : List Ptr} {ks : List ℤ}

theorem built_addPrioNetworks (h : Built c done ks) (hnodup : (done ++ todo).Nodup)
    (hlive : ∀ p ∈ done ++ todo, c.heap.live p = true)
    (hlen : (done ++ todo).length ≤ c.ssid.length) :
    ∃ c' ks', addPrioNetworks (fun _ => true) todo c = (c', 0) ∧ SameNets c c' ∧
      Built c' (done ++ todo) ks' := by
  induction todo generalizing c done ks with
  | nil =>
    refine ⟨c, ks, rfl, ⟨rfl, fun _ => rfl, fun _ => rfl, fun _ => rfl⟩, ?_⟩
    rwa [List.append_nil]
  | cons q todo ih =>
    obtain ⟨hdone, -, hdisjoint⟩ := List.nodup_append.mp hnodup
    have hq : q ∉ done := fun hmem => hdisjoint q hmem q (List.mem_cons_self ..) rfl
    have hqlive : c.heap.live q = true := hlive q (by simp)
    have hnull := sameNets_setPnext hqlive none
    have hbuilt := h.setPnext hqlive hq none
    -- one turn of the loop, behind the last network of the priority or as its first one
    obtain ⟨c', ks', hadd, hsame, hnext⟩ : ∃ c' ks',
        addPrioNetwork true (c.setPnext q none) q = (c', 0) ∧ SameNets (c.setPnext q none) c' ∧
          Built c' (done ++ [q]) ks' := by
      rw [addPrioNetwork, hbuilt.find_eq]
      cases hhead : (withPriority (c.setPnext q none) done
          ((c.setPnext q none).net q).priority).head? with
      | none =>
        exact ⟨_, _, if_pos rfl, ⟨rfl, fun _ => rfl, fun _ => rfl, fun _ => rfl⟩,
          hbuilt.insert (by rw [net_setPnext_self]) hhead⟩
      | some p =>
        have hdonelen : done.length ≤ (c.setPnext q none).ssid.length := by
          rw [hnull.ssid]
          rw [List.length_append] at hlen
          omega
        obtain ⟨hsame, hnext⟩ := hbuilt.append hdone
          (fun r hr => (hnull.live r).trans (hlive r (List.mem_append_left _ hr))) hq
          (by rw [net_setPnext_self]) hdonelen hhead
        exact ⟨_, ks, rfl, hsame, hnext⟩
    have hall := hnull.trans hsame
    rw [List.append_cons] at hnodup hlive hlen ⊢
    obtain ⟨c'', ks'', hrest, hsame', hbuilt'⟩ := ih hnext hnodup
      (fun p hp => (hall.live p).trans (hlive p hp)) (by rwa [hall.ssid])
    refine ⟨c'', ks'', ?_, hall.trans hsame', hbuilt'⟩
    rw [addPrioNetworks, hadd]
    simp only [hrest, lt_irrefl, if_false]

theorem chains_of_built (h : Built c c.ssid ks) (hnodup : c.ssid.Nodup) :
    Chains c (ks.map (withPriority c c.ssid)) := by
  have hmem : ∀ l ∈ ks.map (withPriority c c.ssid), ∃ k ∈ ks, withPriority c c.ssid k = l :=
    fun l hl => List.mem_map.mp hl
  have hdecreasing : (ks.map (withPriority c c.ssid)).Pairwise
      fun l m => ∀ p ∈ l, ∀ q ∈ m, (c.net q).priority < (c.net p).priority := by
    refine List.pairwise_map.mpr (h.sorted.imp fun hgt p hp q hq => ?_)
    rw [(mem_withPriority.mp hp).2, (mem_withPriority.mp hq).2]
    exact hgt
  refine ⟨?_, fun l hl => ?_, ?_, fun l hl p hp q hq => ?_, hdecreasing, fun l hl => ?_⟩
  · rw [h.heads, List.map_map]
    rfl
  · obtain ⟨k, -, rfl⟩ := hmem l hl
    exact h.linked k
  · have hflat : (ks.map (withPriority c c.ssid)).flatten.Nodup := by
      refine List.nodup_flatten.mpr ⟨fun l hl => ?_, hdecreasing.imp fun hlt p hp hq => ?_⟩
      · obtain ⟨k, -, rfl⟩ := hmem l hl
        exact hnodup.filter _
      · exact lt_irrefl _ (hlt p hp p hq)
    refine (List.perm_ext_iff_of_nodup hflat hnodup).mpr fun p => ?_
    rw [List.mem_flatten]
    constructor
    · rintro ⟨l, hl, hp⟩
      obtain ⟨k, -, rfl⟩ := hmem l hl
      exact (mem_withPriority.mp hp).1
    · intro hp
      have hk := (h.mem (c.net p).priority).mpr ⟨p, hp, rfl⟩
      exact ⟨_, List.mem_map_of_mem hk, mem_withPriority.mpr ⟨hp, rfl⟩⟩
  · obtain ⟨k, -, rfl⟩ := hmem l hl
    rw [(mem_withPriority.mp hp).2, (mem_withPriority.mp hq).2]
  · obtain ⟨k, -, rfl⟩ := hmem l hl
    exact List.filter_sublist

/-- The lists that are made anew have every network, whatever they were before. -/
theorem updatePrioList_chains (hnodup : c.ssid.Nodup)
    (hlive : ∀ p ∈ c.ssid, c.heap.live p = true) :
    ∃ c', updatePrioList (fun _ => true) c = (c', 0) ∧ SameNets c c' ∧
      ∃ chains, Chains c' chains := by
  have hloop := @built_addPrioNetworks { c with pssid := [] } [] c.ssid [] (built_nil c)
  rw [List.nil_append] at hloop
  obtain ⟨c', ks, hupdate, hsame, hbuilt⟩ := hloop hnodup hlive (Nat.le_refl c.ssid.length)
  refine ⟨c', hupdate, ⟨hsame.ssid, hsame.live, hsame.priority, hsame.id⟩,
    ks.map (withPriority c' c'.ssid), ?_⟩
  rw [← show c'.ssid = c.ssid from hsame.ssid] at hbuilt
  exact chains_of_built hbuilt (hsame.ssid ▸ hnodup)

end Update

/-- The identifiers in the order of the configuration. -/
def Config.ids (c : Config) : List ℤ := c.ssid.map fun p => (c.net p).id

/-- What holds of every configuration: its networks are there once each, they are all that is
allocated, and the chains list them. -/
structure Inv (c : Config) : Prop where
  nodup : c.ssid.Nodup
  live : ∀ p, c.heap.live p = true ↔ p ∈ c.ssid
  range : ∀ id ∈ c.ids, -2 ^ 31 ≤ id ∧ id < 2 ^ 31
  chains : ∃ chains, Chains c chains

section Steps
variable {c c' : Config} {p : Ptr}

theorem SameNets.ids (h : SameNets c c') : c'.ids = c.ids := by
  simp only [Config.ids, h.ssid, h.id]

/-- The loop finds the largest identifier, or its start. -/
theorem maxId_spec (c : Config) (l : List Ptr) (id : ℤ) :
    (id ≤ maxId c l id ∧ ∀ p ∈ l, (c.net p).id ≤ maxId c l id) ∧
      (maxId c l id = id ∨ ∃ p ∈ l, (c.net p).id = maxId c l id) := by
  induction l generalizing id with
  | nil => exact ⟨⟨le_rfl, fun p hp => by cases hp⟩, .inl rfl⟩
  | cons q l ih =>
    obtain ⟨⟨hid, hl⟩, hm⟩ := ih (if (c.net q).id > id then (c.net q).id else id)
    rw [maxId]
    generalize maxId c l (if (c.net q).id > id then (c.net q).id else id) = m at *
    refine ⟨⟨?_, fun p hp => ?_⟩, ?_⟩
    · split at hid <;> omega
    · rcases List.mem_cons.mp hp with rfl | hp
      · split at hid <;> omega
      · exact hl p hp
    · rcases hm with hm | ⟨p, hp, heq⟩
      · split at hm
        · exact .inr ⟨q, List.mem_cons_self .., hm.symm⟩
        · exact .inl hm
      · exact .inr ⟨p, List.mem_cons_of_mem q hp, heq⟩

/-- A new identifier is larger than all others, unless the largest one there is is taken. -/
theorem nextId_spec (h : Inv c) :
    -2 ^ 31 ≤ nextId c ∧ nextId c < 2 ^ 31 ∧
      (nextId c ∈ c.ids ↔ 2 ^ 31 - 1 ∈ c.ids ∧ -2 ^ 31 ∈ c.ids) := by
  obtain ⟨m, hm⟩ : ∃ m, m = maxId c c.ssid (-1) := ⟨_, rfl⟩
  obtain ⟨⟨hlow, hall⟩, hmax⟩ := maxId_spec c c.ssid (-1)
  rw [← hm] at hlow hall hmax
  have hle : ∀ id ∈ c.ids, id ≤ m := by
    intro id hid
    obtain ⟨p, hp, rfl⟩ := List.mem_map.mp hid
    exact hall p hp
  have hin : m = -1 ∨ m ∈ c.ids := by
    rcases hmax with hmax | ⟨p, hp, heq⟩
    · exact .inl hmax
    · exact .inr (heq ▸ List.mem_map_of_mem hp)
  have hhigh : m < 2 ^ 31 := by
    rcases hin with rfl | hin
    · decide
    · exact (h.range m hin).2
  have hnext : nextId c = if m = 2 ^ 31 - 1 then -2 ^ 31 else m + 1 := by
    rw [nextId, ← hm, succId]
    split
    · rename_i htop
      rw [htop]
      rfl
    · rw [Int.bmod_eq_of_le (by omega) (by omega)]
  rw [hnext]
  split
  · rename_i htop
    have hmem : 2 ^ 31 - 1 ∈ c.ids := by
      rcases hin with hin | hin
      · omega
      · exact htop ▸ hin
    exact ⟨le_rfl, by decide, (and_iff_right hmem).symm⟩
  · rename_i hne
    refine ⟨by omega, by omega, iff_of_false (fun hid => ?_) fun hid => ?_⟩
    · have hid' := hle _ hid
      omega
    · have hid' := hle _ hid.1
      omega

/-- Freeing a network that is no longer listed changes nothing of the others. -/
theorem Chains.free {chains : List (List Ptr)} (h : Chains c chains) (hp : p ∉ c.ssid) :
    Chains { c with heap := c.heap.free p } chains := by
  have hnet : ∀ l ∈ chains, ∀ q ∈ l, Config.net { c with heap := c.heap.free p } q = c.net q := by
    intro l hl q hq
    exact Heap.read_free_of_ne fun heq => hp (heq ▸ (h.order l hl).subset hq)
  refine ⟨h.heads, fun l hl => ?_, h.perm, fun l hl q hq r hr => ?_, ?_, h.order⟩
  · exact (h.linked l hl).congr fun q hq => by rw [hnet l hl q hq]
  · rw [hnet l hl q hq, hnet l hl r hr]
    exact h.priority l hl q hq r hr
  · refine List.Pairwise.imp_of_mem (fun hl hm hlt q hq r hr => ?_) h.decreasing
    rw [hnet _ hl q hq, hnet _ hm r hr]
    exact hlt q hq r hr

theorem inv_updatePrioList (hnodup : c.ssid.Nodup) (hlive : ∀ p, c.heap.live p = true ↔ p ∈ c.ssid)
    (hrange : ∀ id ∈ c.ids, -2 ^ 31 ≤ id ∧ id < 2 ^ 31) :
    Inv (updatePrioList (fun _ => true) c).1 ∧
      (updatePrioList (fun _ => true) c).1.ids = c.ids := by
  obtain ⟨c', hupdate, hsame, hchains⟩ := updatePrioList_chains hnodup fun p hp => (hlive p).mpr hp
  rw [hupdate]
  refine ⟨⟨hsame.ssid ▸ hnodup, fun p => ?_, hsame.ids ▸ hrange, hchains⟩, hsame.ids⟩
  rw [hsame.live, hsame.ssid, hlive]

theorem addNetwork_inv (h : Inv c) (mem : Allocator) :
    Inv (addNetwork mem (fun _ => true) c).1 ∧ (addNetwork mem (fun _ => true) c).1.ids =
      if (mem.alloc c.heap.live).isSome then c.ids ++ [nextId c] else c.ids := by
  unfold addNetwork
  cases halloc : mem.alloc c.heap.live with
  | none => exact ⟨h, rfl⟩
  | some p =>
    have hfresh : p ∉ c.ssid := by
      rw [← h.live, mem.alloc_fresh halloc]
      exact Bool.false_ne_true
    obtain ⟨c₀, hc₀⟩ : ∃ c₀ : Config, c₀ =
      { c with heap := c.heap.set p ⟨nextId c, 0, none⟩, ssid := c.ssid ++ [p] } := ⟨_, rfl⟩
    have hids : c₀.ids = c.ids ++ [nextId c] := by
      have hold : ∀ q ∈ c.ssid, (c₀.net q).id = (c.net q).id := by
        intro q hq
        rw [hc₀, Config.net, Heap.read_set_of_ne (ne_of_mem_of_not_mem hq hfresh)]
        rfl
      have hnew : (c₀.net p).id = nextId c := by
        rw [hc₀, Config.net, Heap.read_set_self]
      rw [Config.ids, hc₀, List.map_append, List.map_singleton, ← hc₀, hnew,
        List.map_congr_left hold]
      rfl
    simp only [← hc₀, Option.isSome_some, if_true, ← hids]
    refine inv_updatePrioList ?_ (fun q => ?_) fun id hid => ?_
    · rw [hc₀, ← List.concat_eq_append]
      exact h.nodup.concat hfresh
    · rw [hc₀, List.mem_append, List.mem_singleton, ← h.live]
      by_cases hq : q = p
      · rw [hq]
        simp [Heap.live]
      · simp only [Heap.live, Heap.set_of_ne hq, hq, or_false]
    · rw [hids, List.mem_append, List.mem_singleton] at hid
      rcases hid with hid | rfl
      · exact h.range id hid
      · exact ⟨(nextId_spec h).1, (nextId_spec h).2.1⟩

theorem setPriority_inv (h : Inv c) (hp : p ∈ c.ssid) (priority : ℤ) :
    Inv (setPriority p priority (fun _ => true) c) ∧
      (setPriority p priority (fun _ => true) c).ids = c.ids := by
  have hids : Config.ids { c with heap := c.heap.set p { c.net p with priority := priority } } =
      c.ids := by
    refine List.map_congr_left fun q _ => ?_
    by_cases hq : q = p
    · rw [hq, Config.net, Heap.read_set_self]
    · rw [Config.net, Heap.read_set_of_ne hq]
      rfl
  unfold setPriority
  rw [← hids]
  refine inv_updatePrioList h.nodup (fun q => ?_) (hids ▸ h.range)
  show (c.heap.set p _).live q = true ↔ q ∈ c.ssid
  rw [Heap.live_set ((h.live p).mpr hp), h.live]

/-- Without the first member that is mapped to `b`. -/
theorem map_erase_of_find {f : Ptr → ℤ} {b : ℤ} {l : List Ptr}
    (hfind : (l.find? fun p => f p = b) = some p) : (l.erase p).map f = (l.map f).erase b := by
  induction l with
  | nil => cases hfind
  | cons q l ih =>
    rw [List.find?_cons] at hfind
    by_cases hq : f q = b
    · rw [decide_eq_true hq] at hfind
      obtain rfl := Option.some.inj hfind
      rw [List.erase_cons_head, List.map_cons, hq, List.erase_cons_head]
    · rw [decide_eq_false hq] at hfind
      have hne : q ≠ p := by
        rintro rfl
        exact hq (by simpa using List.find?_some hfind)
      rw [List.erase_cons_tail (by simpa using hne), List.map_cons, List.map_cons, ih hfind,
        List.erase_cons_tail (by simpa using hq)]

theorem removeNetwork_inv (h : Inv c) (id : ℤ) :
    Inv (removeNetwork id (fun _ => true) c).1 ∧
      (removeNetwork id (fun _ => true) c).1.ids = c.ids.erase id := by
  unfold removeNetwork
  cases hfind : c.ssid.find? fun p => (c.net p).id = id with
  | none =>
    refine ⟨h, (List.erase_of_not_mem fun hid => ?_).symm⟩
    obtain ⟨p, hp, heq⟩ := List.mem_map.mp hid
    simpa [heq] using List.find?_eq_none.mp hfind p hp
  | some p =>
    have hmem := List.mem_of_find?_eq_some hfind
    have hgone : p ∉ c.ssid.erase p := h.nodup.not_mem_erase
    obtain ⟨c', hupdate, hsame, chains, hchains⟩ := updatePrioList_chains
      (c := { c with ssid := c.ssid.erase p }) (h.nodup.erase p)
      fun q hq => (h.live q).mpr (List.mem_of_mem_erase hq)
    have hssid : c'.ssid = c.ssid.erase p := hsame.ssid
    have hids : Config.ids { c' with heap := c'.heap.free p } = c.ids.erase id := by
      have hothers : Config.ids { c' with heap := c'.heap.free p } =
          (c.ssid.erase p).map fun q => (c.net q).id := by
        rw [Config.ids]
        refine (List.map_congr_left fun q hq => ?_).trans (by rw [hssid])
        have hne : q ≠ p := ne_of_mem_of_not_mem (hssid ▸ hq) hgone
        rw [Config.net, Heap.read_free_of_ne hne]
        exact hsame.id q
      rw [hothers]
      exact map_erase_of_find hfind
    simp only [hupdate]
    refine ⟨⟨hssid ▸ h.nodup.erase p, fun q => ?_, fun m hm => ?_, chains,
      hchains.free (hssid ▸ hgone)⟩, hids⟩
    · show (c'.heap.free p).live q = true ↔ q ∈ c'.ssid
      rw [hssid, h.nodup.mem_erase_iff, ← h.live, ← show c'.heap.live q = c.heap.live q from
        hsame.live q]
      by_cases hq : q = p
      · simp [hq, Heap.live]
      · simp [hq, Heap.live, Heap.free_of_ne hq]
    · rw [hids] at hm
      exact h.range m (List.mem_of_mem_erase hm)

/-- The identifiers after an operation. -/
def idsAfter (c : Config) : Input → List ℤ
  | .addNetwork mem => if (mem.alloc c.heap.live).isSome then c.ids ++ [nextId c] else c.ids
  | .removeNetwork id => c.ids.erase id
  | .setPriority _ _ => c.ids

theorem handle_inv (h : Inv c) (i : Input) : Inv (handle c i) ∧ (handle c i).ids = idsAfter c i := by
  cases i with
  | addNetwork mem => exact addNetwork_inv h mem
  | removeNetwork id => exact removeNetwork_inv h id
  | setPriority p priority =>
    rw [handle]
    split
    · rename_i hp
      exact setPriority_inv h hp priority
    · exact ⟨h, rfl⟩

end Steps

/-- The chains list every network, and no two networks have one identifier. -/
structure Good (c : Config) : Prop where
  nodup : c.ssid.Nodup
  chains : ∃ chains, Chains c chains
  ids : c.ids.Nodup

/-- A network is added while the largest and the smallest `int` are both in use. -/
def Clashes (c : Config) : Input → Prop
  | .addNetwork mem =>
    (mem.alloc c.heap.live).isSome = true ∧ 2 ^ 31 - 1 ∈ c.ids ∧ -2 ^ 31 ∈ c.ids
  | _ => False

/-- Distinct identifiers stay distinct exactly if the operation does not clash. -/
theorem idsAfter_nodup_iff {c : Config} (h : Inv c) (hids : c.ids.Nodup) (i : Input) :
    (idsAfter c i).Nodup ↔ ¬ Clashes c i := by
  cases i with
  | addNetwork mem =>
    rw [idsAfter, Clashes, ← (nextId_spec h).2.2]
    split
    · rename_i halloc
      rw [and_iff_right halloc, ← List.concat_eq_append, List.concat_eq_append,
        List.nodup_append_comm, List.singleton_append, List.nodup_cons, and_iff_left hids]
    · rename_i halloc
      exact iff_of_true hids fun hclash => halloc hclash.1
  | removeNetwork id => exact iff_of_true (hids.erase id) not_false
  | setPriority p priority => exact iff_of_true hids not_false

theorem init_inv (stale : Ssid) : Inv (init stale) ∧ (init stale).ids.Nodup := by
  refine ⟨⟨.nil, fun p => iff_of_false Bool.false_ne_true List.not_mem_nil, ?_, [], ?_⟩, .nil⟩
  · intro id hid
    cases hid
  · refine ⟨rfl, ?_, .refl _, ?_, .nil, ?_⟩ <;> · intro l hl; cases hl

/-- In a run the chains always list the networks, and the identifiers are distinct all along exactly
if no step clashes. -/
theorem networks_good_iff (stale : Ssid) (inputs : List Input) :
    (∀ t ∈ Runs.trace step (init stale) inputs, Good t.post) ↔
      ∀ t ∈ Runs.trace step (init stale) inputs, ¬ Clashes t.pre t.input := by
  apply Runs.all_good_iff (I := fun c => Inv c ∧ c.ids.Nodup) (p := fun c i => ¬ Clashes c i)
  · rintro c i ⟨h, hids⟩
    obtain ⟨h', hafter⟩ := handle_inv h i
    rw [← idsAfter_nodup_iff h hids i, ← hafter]
    exact ⟨fun hgood => hgood.ids, fun hids' => ⟨h'.nodup, h'.chains, hids'⟩⟩
  · rintro c i ⟨h, hids⟩ hgood
    exact ⟨(handle_inv h i).1, hgood.ids⟩
  · exact init_inv stale

section Wrap

def exampleSsid : Ssid := ⟨0, 0, none⟩

/-- Memory for three networks. -/
def exampleMemory : Allocator := .ofPlaces [0, 1, 2]

theorem alloc_isSome {c : Config} (h : Inv c) (hlen : c.ids.length ≤ 2) :
    (exampleMemory.alloc c.heap.live).isSome = true := by
  by_contra hnone
  have hall : [0, 1, 2] ⊆ c.ssid := by
    intro p hp
    rw [← h.live]
    have hfull := List.find?_eq_none.mp (Option.not_isSome_iff_eq_none.mp hnone) p hp
    simpa using hfull
  have hthree := (List.subperm_of_subset (by decide) hall).length_le
  rw [Config.ids, List.length_map] at hlen
  exact absurd (Nat.le_trans hthree hlen) (by decide)

theorem maxId_eq (c : Config) (l : List Ptr) (id : ℤ) :
    maxId c l id = (l.map fun p => (c.net p).id).foldl (fun id m => if m > id then m else id) id := by
  induction l generalizing id with
  | nil => rfl
  | cons p l ih => exact ih _

theorem ids_addNetwork {c : Config} {ids : List ℤ} (h : Inv c) (hids : c.ids = ids)
    (hlen : ids.length ≤ 2) :
    (handle c (.addNetwork exampleMemory)).ids =
      ids ++ [succId (ids.foldl (fun id m => if m > id then m else id) (-1))] := by
  rw [(handle_inv h _).2, idsAfter, if_pos (alloc_isSome h (hids ▸ hlen)), nextId, maxId_eq, ← hids]
  rfl

/-- One network is added and the older one removed, over and over. -/
theorem reach_id (n : ℕ) (hn : n < 2 ^ 31) :
    ∃ inputs, Inv (Runs.final step (init exampleSsid) inputs) ∧
      (Runs.final step (init exampleSsid) inputs).ids = [(n : ℤ)] := by
  induction n with
  | zero =>
    have hinit := (init_inv exampleSsid).1
    exact ⟨[.addNetwork exampleMemory], (handle_inv hinit (.addNetwork exampleMemory)).1,
      ids_addNetwork hinit rfl (Nat.zero_le _)⟩
  | succ n ih =>
    obtain ⟨inputs, hinv, hids⟩ := ih (Nat.lt_of_succ_lt hn)
    refine ⟨inputs ++ [.addNetwork exampleMemory, .removeNetwork n], ?_⟩
    obtain ⟨c, hc⟩ : ∃ c, c = Runs.final step (init exampleSsid) inputs := ⟨_, rfl⟩
    have hfinal : Runs.final step (init exampleSsid)
        (inputs ++ [.addNetwork exampleMemory, .removeNetwork n]) =
          handle (handle c (.addNetwork exampleMemory)) (.removeNetwork n) := by
      rw [Runs.final_append, ← hc]
      rfl
    rw [← hc] at hinv hids
    have hadded := (handle_inv hinv (.addNetwork exampleMemory)).1
    have hnext : succId n = ((n + 1 : ℕ) : ℤ) := by
      rw [succId, Int.bmod_eq_of_le (by omega) (by omega)]
      rfl
    have htwo := ids_addNetwork hinv hids (by simp)
    rw [hfinal]
    refine ⟨(handle_inv hadded _).1, ?_⟩
    rw [(handle_inv hadded _).2, idsAfter, htwo, List.foldl_cons, List.foldl_nil,
      if_pos (by omega), hnext, List.singleton_append, List.erase_cons_head]

/-- With the largest identifier in use, two networks that are added get the same one. -/
theorem ids_clash : ∃ inputs, ¬ Good (Runs.final step (init exampleSsid) inputs) := by
  obtain ⟨inputs, hinv, hids⟩ := reach_id (2 ^ 31 - 1) (by decide)
  refine ⟨inputs ++ [.addNetwork exampleMemory, .addNetwork exampleMemory], fun hgood => ?_⟩
  obtain ⟨c, hc⟩ : ∃ c, c = Runs.final step (init exampleSsid) inputs := ⟨_, rfl⟩
  rw [← hc] at hinv hids
  rw [Runs.final_append, ← hc] at hgood
  have hfirst := ids_addNetwork hinv hids (by simp)
  have hsecond := ids_addNetwork (handle_inv hinv _).1 hfirst (by decide)
  have hnodup := hgood.ids
  rw [show Runs.final step c [.addNetwork exampleMemory, .addNetwork exampleMemory] =
    handle (handle c (.addNetwork exampleMemory)) (.addNetwork exampleMemory) from rfl,
    hsecond] at hnodup
  exact absurd hnodup (by decide)

end Wrap

end Wpa.PrioList
