import Wpa.P2p.Algebra

/-! `p2p_copy_channels`, which leaves out the 6 GHz classes. Its loop goes over the whole array of
classes, and the entries behind the count may hold what other operations have left there. -/

namespace Wpa.P2p
open Lib

/-- `is_6ghz_op_class`. -/
def is6ghzOpClass (opClass : UInt8) : Bool := 131 ≤ opClass && opClass ≤ 136

/-- The loop of `p2p_copy_channels` over the entries of `src` that are left. -/
def copyFrom : List RegClass → Channels → ℕ → Option (Channels × ℕ)
  | [], dst, j => some (dst, j)
  | reg :: regs, dst, j =>
    if is6ghzOpClass reg.regClass then copyFrom regs dst j
    else (dst.write j reg).bind fun dst => copyFrom regs dst (j + 1)

def copyChannels (dst src : Channels) (allow6ghz : Bool) : Option Channels :=
  if allow6ghz then some src
  else (copyFrom src.cells dst 0).map fun (dst, j) => { dst with count := j }

/-- The sets that the operations make out of sets with distinct classes and channels. -/
inductive Produced : Channels → Prop
  | given {ch : Channels} (h : Valid ch) : Produced ch
  | union {a b r : Channels} (ha : Produced a) (hb : Produced b) (h : channelsUnion a b = some r) :
      Produced r
  | intersect {a b r : Channels} (ha : Produced a) (hb : Produced b)
      (h : channelsIntersect a b = some r) : Produced r
  | removeFreqs {a r : Channels} (list : Option (List FreqRange)) (ha : Produced a)
      (h : channelsRemoveFreqs a list = some r) : Produced r

theorem Produced.valid {ch : Channels} (h : Produced ch) : Valid ch := by
  induction h with
  | given h => exact h
  | union _ _ h iha ihb =>
    obtain ⟨r, hr, hvalid, -⟩ := channelsUnion_eq iha ihb
    rw [h] at hr
    exact Option.some.inj hr ▸ hvalid
  | intersect _ _ h iha ihb =>
    obtain ⟨r, hr, hvalid, -⟩ := channelsIntersect_eq iha ihb
    rw [h] at hr
    exact Option.some.inj hr ▸ hvalid
  | removeFreqs list _ h iha =>
    obtain ⟨r, hr, hvalid, -⟩ := channelsRemoveFreqs_eq iha list
    rw [h] at hr
    exact Option.some.inj hr ▸ hvalid

/-- What a copy is to keep. -/
def kept (reg : RegClass) : Bool := !is6ghzOpClass reg.regClass

/-- The entries that are kept stand in a row in `dst`. -/
theorem copyFrom_eq (regs : List RegClass) (dst : Channels) (j : ℕ)
    (hroom : j + (regs.filter kept).length ≤ maxRegClasses) :
    ∃ r, copyFrom regs dst j = some (r, j + (regs.filter kept).length) ∧
      r.cells.take (j + (regs.filter kept).length) = dst.cells.take j ++ regs.filter kept := by
  induction regs generalizing dst j with
  | nil => exact ⟨dst, rfl, (List.append_nil _).symm⟩
  | cons reg regs ih =>
    rw [copyFrom]
    by_cases h6 : is6ghzOpClass reg.regClass = true
    · have hfilter : (reg :: regs).filter kept = regs.filter kept := by
        rw [List.filter_cons_of_neg]
        rw [kept, h6]
        decide
      rw [hfilter] at hroom ⊢
      rw [if_pos h6]
      exact ih dst j hroom
    · have hfilter : (reg :: regs).filter kept = reg :: regs.filter kept := by
        rw [List.filter_cons_of_pos]
        rw [kept, Bool.eq_false_iff.mpr h6]
        rfl
      rw [hfilter, List.length_cons] at hroom ⊢
      have hj : j < maxRegClasses := by omega
      rw [if_neg h6, CountedArray.write, if_pos hj, Option.bind_some]
      obtain ⟨r, hr, htake⟩ := ih ⟨dst.cells.set j reg, dst.count, by
        rw [List.length_set, dst.length_cells]⟩ (j + 1) (by omega)
      have hsucc : j + ((regs.filter kept).length + 1) = j + 1 + (regs.filter kept).length := by
        omega
      rw [hsucc]
      refine ⟨r, hr, htake.trans ?_⟩
      have hlen : j < dst.cells.length := hj.trans_eq dst.length_cells.symm
      show (dst.cells.set j reg).take (j + 1) ++ _ = _
      rw [List.take_succ_eq_append_getElem (by rw [List.length_set]; exact hlen),
        List.take_set_of_le (Nat.le_refl j), List.getElem_set_self, List.append_assoc]
      rfl

/-- The copy has the classes in use that are kept, and then those behind the count. -/
theorem copyChannels_used (dst src : Channels) :
    ∃ r, copyChannels dst src false = some r ∧
      r.used = src.used.filter kept ++ (src.cells.drop src.count).filter kept ∧
      r.count = (src.used.filter kept).length +
        ((src.cells.drop src.count).filter kept).length := by
  have hsplit : src.cells.filter kept =
      src.used.filter kept ++ (src.cells.drop src.count).filter kept := by
    rw [← List.filter_append, CountedArray.used, List.take_append_drop]
  have hroom : 0 + (src.cells.filter kept).length ≤ maxRegClasses := by
    have hle := List.length_filter_le kept src.cells
    rw [src.length_cells] at hle
    omega
  obtain ⟨r, hr, htake⟩ := copyFrom_eq src.cells dst 0 hroom
  refine ⟨{ r with count := 0 + (src.cells.filter kept).length }, ?_, ?_, ?_⟩
  · rw [copyChannels, if_neg Bool.false_ne_true, hr]
    rfl
  · rw [CountedArray.used, htake, ← hsplit]
    rfl
  · rw [Nat.zero_add, hsplit, List.length_append]

/-- The copy has exactly the channels of `src` that are allowed, and only their classes. -/
def Copies (src : Channels) (allow6ghz : Bool) (r : Channels) : Prop :=
  (∀ c x, channelsIncludes r c x = some true ↔
    channelsIncludes src c x = some true ∧ (allow6ghz = true ∨ is6ghzOpClass c = false)) ∧
  r.count = (src.used.filter fun reg => allow6ghz || kept reg).length

theorem channelsIncludes_iff {ch : Channels} (h : Valid ch) (c x : UInt8) :
    channelsIncludes ch c x = some true ↔ Includes ch c x := by
  obtain ⟨found, hfound, hincludes⟩ := channelsIncludes_eq h c x
  rw [hfound, Option.some_inj]
  exact hincludes

/-- A set that holds the kept classes and nothing else. -/
theorem copies_of_used {src r : Channels} (h : Valid src) (hused : r.used = src.used.filter kept)
    (hcount : r.count = (src.used.filter kept).length) : Copies src false r := by
  have hvalid : Valid r := by
    refine ⟨?_, ?_, fun reg hreg => ?_⟩
    · rw [hcount]
      exact (List.length_filter_le _ _).trans ((CountedArray.length_used h.room).trans_le h.room)
    · rw [hused]
      exact (List.filter_sublist.map _).nodup h.nodup
    · rw [hused] at hreg
      exact h.classes reg (List.mem_of_mem_filter hreg)
  refine ⟨fun c x => ?_, hcount⟩
  rw [channelsIncludes_iff hvalid, channelsIncludes_iff h, Includes, Includes, hused]
  constructor
  · rintro ⟨reg, hreg, rfl, hx⟩
    obtain ⟨hmem, hkept⟩ := List.mem_filter.mp hreg
    exact ⟨⟨reg, hmem, rfl, hx⟩, .inr (by simpa [kept] using hkept)⟩
  · rintro ⟨⟨reg, hmem, rfl, hx⟩, hallowed⟩
    have h6 := hallowed.resolve_left Bool.false_ne_true
    refine ⟨reg, List.mem_filter.mpr ⟨hmem, ?_⟩, rfl, hx⟩
    rw [kept, h6]
    rfl

/-- The copy is right exactly if 6 GHz is allowed, or behind the count there are 6 GHz classes
only. -/
theorem copyChannels_copies_iff {src : Channels} (h : Produced src) (dst : Channels)
    (allow6ghz : Bool) :
    ∃ r, copyChannels dst src allow6ghz = some r ∧
      (Copies src allow6ghz r ↔
        allow6ghz = true ∨ ∀ reg ∈ src.cells.drop src.count, is6ghzOpClass reg.regClass = true) := by
  cases allow6ghz with
  | true =>
    refine ⟨src, rfl, iff_of_true ⟨fun c x => ?_, ?_⟩ (.inl rfl)⟩
    · exact ⟨fun hx => ⟨hx, .inl rfl⟩, fun hx => hx.1⟩
    · have hall : src.used.filter (fun reg => true || kept reg) = src.used :=
        List.filter_eq_self.mpr fun _ _ => rfl
      rw [hall, CountedArray.length_used h.valid.room]
  | false =>
    obtain ⟨r, hr, hused, hcount⟩ := copyChannels_used dst src
    refine ⟨r, hr, ?_⟩
    constructor
    · rintro ⟨-, hnumber⟩
      refine .inr fun reg hreg => ?_
      by_contra h6
      have hmem : reg ∈ (src.cells.drop src.count).filter kept := by
        refine List.mem_filter.mpr ⟨hreg, ?_⟩
        rw [kept, Bool.eq_false_iff.mpr h6]
        rfl
      have hpos := List.length_pos_of_mem hmem
      have hsame : r.count = (src.used.filter kept).length := hnumber
      omega
    · rintro (hfalse | hall)
      · cases hfalse
      · have hnil : (src.cells.drop src.count).filter kept = [] := by
          rw [List.filter_eq_nil_iff]
          intro reg hreg
          rw [kept, hall reg hreg]
          decide
        rw [hnil, List.append_nil] at hused
        rw [hnil, List.length_nil, Nat.add_zero] at hcount
        exact copies_of_used h.valid hused hcount

/-- Fifteen classes, with nothing behind the count. -/
def fifteenClasses : Channels := ofEntries (fourteenClasses ++ [(131, [1])])

theorem fifteenClasses_copied :
    ∃ r, copyChannels (ofEntries []) fifteenClasses false = some r ∧ Copies fifteenClasses false r := by
  have hvalid : Valid fifteenClasses := by decide
  obtain ⟨r, hr, hiff⟩ := copyChannels_copies_iff (.given hvalid) (ofEntries []) false
  refine ⟨r, hr, hiff.mpr (.inr fun reg hreg => ?_)⟩
  have hcount : fifteenClasses.count = maxRegClasses := rfl
  rw [hcount, List.drop_eq_nil_of_le fifteenClasses.length_cells.le] at hreg
  cases hreg

def threeClasses : Channels := ofEntries [(81, [1]), (115, [36]), (118, [52])]

/-- The frequencies of channel 36 and of channel 52. -/
def excludedFreqs : List FreqRange := [⟨5180, 5180⟩, ⟨5260, 5260⟩]

/-- A channel that was just removed comes back with the copy. -/
theorem excluded_channel_back :
    ∃ src r, channelsRemoveFreqs threeClasses (some excludedFreqs) = some src ∧ Produced src ∧
      copyChannels (ofEntries []) src false = some r ∧ ¬ Copies src false r ∧
      channelsIncludes src 118 52 = some false ∧ channelsIncludes r 118 52 = some true := by
  have hvalid : Valid threeClasses := by decide
  have hgone : ((channelsRemoveFreqs threeClasses (some excludedFreqs)).bind fun src =>
      channelsIncludes src 118 52) = some false := by decide
  have hback : ((channelsRemoveFreqs threeClasses (some excludedFreqs)).bind fun src =>
      (copyChannels (ofEntries []) src false).bind fun r => channelsIncludes r 118 52) =
        some true := by decide
  obtain ⟨src, hsrc, hno⟩ := Option.bind_eq_some_iff.mp hgone
  rw [hsrc, Option.bind_some] at hback
  obtain ⟨r, hr, hyes⟩ := Option.bind_eq_some_iff.mp hback
  refine ⟨src, r, hsrc, .removeFreqs _ (.given hvalid) hsrc, hr, fun hcopies => ?_, hno, hyes⟩
  have hin := ((hcopies.1 118 52).mp hyes).1
  rw [hno] at hin
  cases hin

end Wpa.P2p
