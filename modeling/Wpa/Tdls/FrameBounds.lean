import Wpa.Tdls.FrameReads
import Wpa.Tdls.Reinstall

/-! Which TDLS frames are processed inside themselves. A handler with checked accesses is the handler
without them, except where a teardown is too short for its reason code and where the parser comes to
a vendor element that ends the frame before its selector. -/

namespace Wpa.Tdls
open Lib Bytes

theorem sizeSub_le {n k : ℕ} (h : k ≤ n) : sizeSub n k ≤ n - k := by
  unfold sizeSub
  omega

/-! ### The parser of elements over a part of the frame -/

section Stored
variable {mem : Bytes} {len fuel pos q : ℕ} {ie : EapolIeParse}

/-- A stored element, of which the header is inside as well. -/
def ElementIn (n : ℕ) (o : Option Span) : Prop := ∀ s ∈ o, 2 ≤ s.len ∧ s.off + s.len ≤ n

/-- The pointers that the handlers follow lie in the frame. -/
structure ElementsIn (mem : Bytes) (ie : EapolIeParse) : Prop where
  rsnIe : SpanIn mem.length ie.rsnIe
  ftie : SpanIn mem.length ie.ftie
  lnkid : SpanIn mem.length ie.lnkid
  lnkidLen : ∀ s ∈ ie.lnkid, 3 * ethAlen ≤ s.len
  keyLifetime : ∀ off ∈ ie.keyLifetime, off + 2 + mem.byteAt (off + 1) ≤ mem.length
  extCapab : ElementIn mem.length ie.extCapab
  suppRates : ElementIn mem.length ie.suppRates
  extSuppRates : ElementIn mem.length ie.extSuppRates
  htCapabilities : OffIn mem.length htCapabilitiesSize ie.htCapabilities
  vhtCapabilities : OffIn mem.length vhtCapabilitiesSize ie.vhtCapabilities
  heCapabilities : SpanIn mem.length ie.heCapabilities
  he6ghzCapabilities : OffIn mem.length he6ghzBandCapSize ie.he6ghzCapabilities
  suppChannels : SpanIn mem.length ie.suppChannels
  suppOperClasses : SpanIn mem.length ie.suppOperClasses
  wmm : SpanIn mem.length ie.wmm

theorem elementsIn_empty : ElementsIn mem {} := by
  constructor <;> simp [SpanIn, ElementIn, OffIn]

theorem elementsIn_ite {p : Prop} [Decidable p] {a b : EapolIeParse} (ha : p → ElementsIn mem a)
    (hb : ¬ p → ElementsIn mem b) : ElementsIn mem (if p then a else b) :=
  iteInduction ha hb

/-- None of the KDEs is followed by a handler of TDLS frames. -/
theorem elementsIn_generic (h : ElementsIn mem ie) {ie' : EapolIeParse}
    (hparsed : wpaParseGeneric mem pos ie = .parsed ie') : ElementsIn mem ie' := by
  have hite {p : Prop} [Decidable p] {a b : GenericResult}
      (ha : ∀ ie', a = .parsed ie' → ElementsIn mem ie')
      (hb : ∀ ie', b = .parsed ie' → ElementsIn mem ie') (ie' : EapolIeParse)
      (hres : (if p then a else b) = .parsed ie') : ElementsIn mem ie' := by
    by_cases hp : p
    · rw [if_pos hp] at hres
      exact ha ie' hres
    · rw [if_neg hp] at hres
      exact hb ie' hres
  revert ie'
  simp only [wpaParseGeneric]
  repeat' apply hite
  all_goals
    rintro _ ⟨⟩
    try exact { h with }

theorem elementsIn_vendorSpecific (h : ElementsIn mem ie)
    (hroom : pos + 2 + mem.byteAt (pos + 1) ≤ mem.length) :
    ElementsIn mem (wpaParseVendorSpecific mem pos ie) := by
  simp only [wpaParseVendorSpecific]
  refine elementsIn_ite (fun _ => h) fun _ => ?_
  refine elementsIn_ite (fun _ => ?_) fun _ => h
  exact elementsIn_ite (fun _ => { h with wmm := spanIn_some.mpr hroom }) fun _ => h

theorem elementsIn_element (h : ElementsIn mem ie)
    (hroom : pos + 2 + mem.byteAt (pos + 1) ≤ mem.length) :
    ElementsIn mem (wpaParseElement mem pos ie) := by
  have hspan : SpanIn mem.length (some ⟨pos, mem.byteAt (pos + 1) + 2⟩) := by
    rw [spanIn_some]
    omega
  have helement : ElementIn mem.length (some ⟨pos, mem.byteAt (pos + 1) + 2⟩) := by
    rintro _ ⟨⟩
    exact ⟨Nat.le_add_left .., spanIn_some.mp hspan⟩
  have hlifetime : ∀ off ∈ some pos, off + 2 + mem.byteAt (off + 1) ≤ mem.length := by
    rintro _ ⟨⟩
    exact hroom
  have hbody {k : ℕ} (hmin : mem.byteAt (pos + 1) ≥ k) : OffIn mem.length k (some (pos + 2)) := by
    rw [offIn_some]
    omega
  have hext {k : ℕ} (hmin : mem.byteAt (pos + 1) ≥ 1 + k) :
      OffIn mem.length k (some (pos + 3)) := by
    rw [offIn_some]
    omega
  have hhe (hmin : mem.byteAt (pos + 1) ≥ 1 + heCapabMinLen) :
      SpanIn mem.length (some ⟨pos + 3, mem.byteAt (pos + 1) - 1⟩) := by
    rw [spanIn_some]
    omega
  simp only [wpaParseElement]
  refine elementsIn_ite (fun _ => { h with rsnIe := hspan }) fun _ => ?_
  refine elementsIn_ite (fun _ => { h with }) fun _ => ?_
  refine elementsIn_ite (fun _ => { h with }) fun _ => ?_
  refine elementsIn_ite (fun _ => { h with ftie := hspan }) fun _ => ?_
  refine elementsIn_ite (fun _ => ?_) fun _ => ?_
  · refine elementsIn_ite (fun _ => { h with }) fun _ => ?_
    exact elementsIn_ite (fun _ => { h with keyLifetime := hlifetime }) fun _ => h
  refine elementsIn_ite (fun _ => ?_) fun _ => ?_
  · refine elementsIn_ite (fun hlen => { h with lnkid := hspan, lnkidLen := ?_ }) fun _ => h
    rintro _ ⟨⟩
    exact Nat.le_add_right_of_le hlen
  refine elementsIn_ite (fun _ => { h with extCapab := helement }) fun _ => ?_
  refine elementsIn_ite (fun _ => { h with suppRates := helement }) fun _ => ?_
  refine elementsIn_ite (fun _ => { h with extSuppRates := helement }) fun _ => ?_
  refine elementsIn_ite (fun hp => { h with htCapabilities := hbody hp.2 }) fun _ => ?_
  refine elementsIn_ite (fun _ => elementsIn_ite (fun _ => { h with }) fun _ => h) fun _ => ?_
  refine elementsIn_ite (fun hp => { h with vhtCapabilities := hbody hp.2 }) fun _ => ?_
  refine elementsIn_ite (fun hp => { h with heCapabilities := hhe hp.2.1 }) fun _ => ?_
  refine elementsIn_ite (fun hp => { h with he6ghzCapabilities := hext hp.2.1 }) fun _ => ?_
  refine elementsIn_ite (fun _ => { h with }) fun _ => ?_
  refine elementsIn_ite (fun _ => { h with suppChannels := spanIn_some.mpr hroom }) fun _ => ?_
  refine elementsIn_ite (fun _ => ?_) fun _ => h
  exact elementsIn_ite (fun _ => { h with suppOperClasses := spanIn_some.mpr hroom }) fun _ => h

theorem elementsIn_parsed (h : ElementsIn mem ie)
    (hroom : pos + 2 + mem.byteAt (pos + 1) ≤ mem.length) :
    ElementsIn mem (kdeParsed mem pos ie) := by
  unfold kdeParsed
  by_cases hvendor : mem.byteAt pos = eidVendorSpecific
  · rw [if_pos hvendor]
    cases hgeneric : wpaParseGeneric mem pos ie with
    | parsed ie' => exact elementsIn_generic h hgeneric
    | endMark => exact elementsIn_vendorSpecific h hroom
    | unknown => exact elementsIn_vendorSpecific h hroom
  · rw [if_neg hvendor]
    exact elementsIn_element h hroom

/-- A vendor element shorter than a selector has four octets of the frame behind its header. -/
def SelectorFits (mem : Bytes) (len q : ℕ) : Prop :=
  mem.byteAt q = eidVendorSpecific → 0 < mem.byteAt (q + 1) → mem.byteAt (q + 1) < 4 →
    q + 2 + mem.byteAt (q + 1) ≤ len → q + 6 ≤ mem.length

theorem storedIesRead_end (hend : len - pos ≤ 1) :
    storedIesRead mem len (fuel + 1) pos ie = some ie := by
  rw [storedIesRead, if_pos hend]

theorem storedIesRead_stop (hlen : len ≤ mem.length) (hpos : pos + 2 ≤ len)
    (hstop : KdePadding mem pos ∨ len < pos + 2 + mem.byteAt (pos + 1)) :
    storedIesRead mem len (fuel + 1) pos ie = some ie := by
  rw [storedIesRead, if_neg (by omega), read8_eq (by omega), read8_eq (by omega)]
  simp only [Option.bind_eq_bind, Option.bind_some]
  rcases hstop with hpad | hroom
  · exact if_pos ⟨hpad.1, Or.inr hpad.2⟩
  · by_cases hpad : mem.byteAt pos = 0xdd ∧ (pos = len - 1 ∨ mem.byteAt (pos + 1) = 0)
    · exact if_pos hpad
    · rw [if_neg hpad, if_pos (by omega)]

theorem storedIesRead_step (hlen : len ≤ mem.length) (hpad : ¬ KdePadding mem pos)
    (hroom : pos + 2 + mem.byteAt (pos + 1) ≤ len) :
    storedIesRead mem len (fuel + 1) pos ie = (kdeStep mem pos ie).bind fun
      | .stop _ => some ie
      | .next pos ie => storedIesRead mem len fuel pos ie := by
  have hno : ¬ (mem.byteAt pos = 0xdd ∧ (pos = len - 1 ∨ mem.byteAt (pos + 1) = 0)) := by
    rintro ⟨heid, hlast | hzero⟩
    · omega
    · exact hpad ⟨heid, hzero⟩
  rw [storedIesRead, if_neg (by omega), read8_eq (by omega), read8_eq (by omega)]
  simp only [Option.bind_eq_bind, Option.bind_some]
  rw [if_neg hno]
  exact if_neg (by omega)

theorem storedIesRead_next (hlen : len ≤ mem.length) (hpad : ¬ KdePadding mem pos)
    (hroom : pos + 2 + mem.byteAt (pos + 1) ≤ len)
    (hselector : mem.byteAt pos = eidVendorSpecific → pos + 6 ≤ mem.length) :
    storedIesRead mem len (fuel + 1) pos ie =
      storedIesRead mem len fuel (pos + 2 + mem.byteAt (pos + 1)) (kdeParsed mem pos ie) := by
  rw [storedIesRead_step hlen hpad hroom, kdeStep_next hpad (by omega) hselector]
  rfl

theorem byteAt_take {i : ℕ} (h : i < len) : byteAt (mem.take len) i = mem.byteAt i := by
  simp [byteAt, h]

/-- The loop reads inside exactly if no selector that it compares leaves the frame. -/
theorem storedIesRead_isSome_iff (hlen : len ≤ mem.length) (hpos : pos ≤ len)
    (hfuel : len < pos + fuel) :
    (storedIesRead mem len fuel pos ie).isSome = true ↔
      ∀ q, KdeReached (mem.take len) pos q → SelectorFits mem len q := by
  have htake : (mem.take len).length = len := by
    rw [List.length_take]
    omega
  induction fuel generalizing pos ie with
  | zero => omega
  | succ fuel ih =>
    have hsame (hlast : pos + 2 ≤ len) :
        byteAt (mem.take len) pos = mem.byteAt pos ∧
          byteAt (mem.take len) (pos + 1) = mem.byteAt (pos + 1) :=
      ⟨byteAt_take (by omega), byteAt_take (by omega)⟩
    by_cases hleft : len - pos ≤ 1
    · rw [storedIesRead_end hleft]
      refine iff_of_true rfl fun q hreached _ _ _ hroom => ?_
      obtain rfl := hreached.eq_of_stop (Or.inr (by omega))
      omega
    obtain ⟨heid, hn⟩ := hsame (by omega)
    by_cases hpad : KdePadding mem pos
    · rw [storedIesRead_stop hlen (by omega) (Or.inl hpad)]
      refine iff_of_true rfl fun q hreached _ hzero _ _ => ?_
      obtain rfl := hreached.eq_of_stop (Or.inl ⟨heid.trans hpad.1, hn.trans hpad.2⟩)
      exact absurd hpad.2 hzero.ne'
    by_cases hroom : pos + 2 + mem.byteAt (pos + 1) ≤ len
    swap
    · rw [storedIesRead_stop hlen (by omega) (Or.inr (by omega))]
      refine iff_of_true rfl fun q hreached _ _ _ hfits => ?_
      obtain rfl := hreached.eq_of_stop (Or.inr (by omega))
      omega
    have hpad' : ¬ KdePadding (mem.take len) pos := fun h =>
      hpad ⟨heid.symm.trans h.1, hn.symm.trans h.2⟩
    by_cases hfits : SelectorFits mem len pos
    swap
    · refine iff_of_false ?_ fun hall => hfits (hall pos (.here pos))
      simp only [SelectorFits, not_forall] at hfits
      obtain ⟨hvendor, hzero, hshort, -, hend⟩ := hfits
      rw [storedIesRead_step hlen hpad hroom,
        kdeStep_outside hvendor hzero hshort (by omega) (by omega)]
      exact Bool.false_ne_true
    have hselector (hvendor : mem.byteAt pos = eidVendorSpecific) : pos + 6 ≤ mem.length := by
      have hzero : 0 < mem.byteAt (pos + 1) := Nat.pos_of_ne_zero fun h => hpad ⟨hvendor, h⟩
      by_contra hend
      exact hend (hfits hvendor hzero (by omega) hroom)
    have hrest := @ih (pos + 2 + mem.byteAt (pos + 1)) (kdeParsed mem pos ie) hroom (by omega)
    rw [storedIesRead_next hlen hpad hroom hselector]
    refine hrest.trans ⟨fun hall q hreached => ?_, fun hall q hq => ?_⟩
    · cases hreached with
      | here => exact hfits
      | next _ _ hq =>
        rw [hn] at hq
        exact hall q hq
    · apply hall q
      refine .next hpad' (by omega) ?_
      rw [hn]
      exact hq

theorem storedIesRead_elementsIn (hlen : len ≤ mem.length) (hie : ElementsIn mem ie)
    {ie' : EapolIeParse} (hstored : storedIesRead mem len fuel pos ie = some ie') :
    ElementsIn mem ie' := by
  induction fuel generalizing pos ie with
  | zero => cases hstored
  | succ fuel ih =>
    by_cases hleft : len - pos ≤ 1
    · rw [storedIesRead_end hleft] at hstored
      cases hstored
      exact hie
    by_cases hstop : KdePadding mem pos ∨ len < pos + 2 + mem.byteAt (pos + 1)
    · rw [storedIesRead_stop hlen (by omega) hstop] at hstored
      cases hstored
      exact hie
    obtain ⟨hpad, hroom⟩ := not_or.mp hstop
    by_cases hselector : mem.byteAt pos = eidVendorSpecific → pos + 6 ≤ mem.length
    · rw [storedIesRead_next hlen hpad (by omega) hselector] at hstored
      exact ih (elementsIn_parsed hie (by omega)) hstored
    · obtain ⟨hvendor, hend⟩ := Classical.not_imp.mp hselector
      have hzero : 0 < mem.byteAt (pos + 1) := Nat.pos_of_ne_zero fun h => hpad ⟨hvendor, h⟩
      rw [storedIesRead_step hlen hpad (by omega),
        kdeStep_outside hvendor hzero (by omega) (by omega) (by omega)] at hstored
      cases hstored

/-- Over the whole buffer it is the loop without checks. -/
theorem storedIesRead_eq (hfuel : mem.length ≤ pos + fuel) {ie' : EapolIeParse}
    (hstored : storedIesRead mem mem.length (fuel + 1) pos ie = some ie') :
    storedIesFrom mem fuel pos ie = ie' := by
  induction fuel generalizing pos ie with
  | zero =>
    rw [storedIesRead_end (by omega)] at hstored
    exact Option.some.inj hstored
  | succ fuel ih =>
    rw [storedIesFrom]
    by_cases hleft : mem.length - pos ≤ 1
    · rw [storedIesRead_end hleft] at hstored
      exact (if_pos hleft).trans (Option.some.inj hstored)
    rw [if_neg hleft]
    by_cases hpad : KdePadding mem pos
    · rw [storedIesRead_stop le_rfl (by omega) (Or.inl hpad)] at hstored
      exact (if_pos ⟨hpad.1, Or.inr hpad.2⟩).trans (Option.some.inj hstored)
    rw [if_neg (not_kdePadding (by omega) hpad)]
    by_cases hroom : pos + 2 + mem.byteAt (pos + 1) ≤ mem.length
    swap
    · rw [storedIesRead_stop le_rfl (by omega) (Or.inr (by omega))] at hstored
      exact (if_pos (by omega)).trans (Option.some.inj hstored)
    rw [if_neg (by omega)]
    by_cases hselector : mem.byteAt pos = eidVendorSpecific → pos + 6 ≤ mem.length
    · rw [storedIesRead_next le_rfl hpad hroom hselector] at hstored
      have hrest := ih (by omega) hstored
      unfold kdeParsed at hrest
      by_cases hvendor : mem.byteAt pos = eidVendorSpecific
      · have hzero : 0 < mem.byteAt (pos + 1) := Nat.pos_of_ne_zero fun h => hpad ⟨hvendor, h⟩
        rw [if_pos hvendor] at hrest ⊢
        cases hgeneric : wpaParseGeneric mem pos ie with
        | endMark => exact absurd hgeneric (wpaParseGeneric_ne_endMark hzero)
        | parsed ie' =>
          rw [hgeneric] at hrest
          exact hrest
        | unknown =>
          rw [hgeneric] at hrest
          exact hrest
      · rw [if_neg hvendor] at hrest ⊢
        exact hrest
    · obtain ⟨hvendor, hend⟩ := Classical.not_imp.mp hselector
      have hzero : 0 < mem.byteAt (pos + 1) := Nat.pos_of_ne_zero fun h => hpad ⟨hvendor, h⟩
      rw [storedIesRead_step le_rfl hpad hroom,
        kdeStep_outside hvendor hzero (by omega) hroom (by omega)] at hstored
      cases hstored

end Stored

/-! ### What the handlers take from the elements -/

/-- The elements as values. -/
def iesOf (mem : Bytes) (kde : EapolIeParse) : TdlsIes where
  lnkid := (kde.lnkid.filter (·.len ≥ 3 * ethAlen)).map (Span.read mem)
  rsnIe := kde.rsnIe.map (Span.read mem)
  ftie := (kde.ftie.filter (·.len ≥ ftieSize)).map fun ie => Ftie.read (ie.read mem)
  keyLifetime := kde.keyLifetime.map fun off => mem.slice off (2 + mem.byteAt (off + 1))
  suppRates := kde.suppRates.isSome

/-- The copies may fail for the WMM element as well. -/
def TdlsEnv.copies (env : TdlsEnv) (kde : EapolIeParse) : TdlsEnv :=
  { env with copied := env.copied && wmmFits kde }

section Elements
variable {ε : Type} {mem : Bytes} {kde : EapolIeParse} {env : TdlsEnv} {status : ε}

theorem mergePart_fits {res src : Bytes} {len : ℕ} (hlen : len ≤ res.length) :
    ∃ res' len', mergePart res len src = some (res', len') ∧ res'.length = res.length ∧
      len' ≤ res.length := by
  unfold mergePart
  by_cases hfull : len + src.length ≥ res.length
  · have hpart : (src.slice 0 (res.length - len)).length = res.length - len := by
      rw [slice_length]
      omega
    rw [if_pos hfull, readSlice_eq (by omega)]
    refine ⟨res.writeAt len (src.slice 0 (res.length - len)),
      (res.writeAt len (src.slice 0 (res.length - len))).length, ?_, by simp, by simp⟩
    simp only [store, Option.bind_eq_bind, Option.bind_some]
    rw [if_pos (by omega)]
    rfl
  · rw [if_neg hfull]
    refine ⟨res.writeAt len src, len + src.length, ?_, by simp, by omega⟩
    simp only [store]
    rw [if_pos (by omega)]
    rfl

/-- The merged rates fit the array whatever the two elements are. -/
theorem mergeByteArrays_fits (resLen : ℕ) (src1 src2 : Option Bytes) :
    ∃ res len, mergeByteArrays resLen src1 src2 = some (res, len) ∧ res.length = resLen ∧
      len ≤ resLen := by
  have hzeros : (zeros resLen).length = resLen := List.length_replicate
  have hfirst : ∃ res len, src1.elim (some (zeros resLen, 0)) (mergePart (zeros resLen) 0) =
      some (res, len) ∧ res.length = resLen ∧ len ≤ resLen := by
    cases src1 with
    | none => exact ⟨_, _, rfl, hzeros, Nat.zero_le _⟩
    | some src =>
      obtain ⟨res, len, hpart, hres, hlen⟩ := @mergePart_fits (zeros resLen) src 0 (Nat.zero_le _)
      exact ⟨res, len, hpart, hres.trans hzeros, hzeros ▸ hlen⟩
  obtain ⟨res, len, hpart, rfl, hlen⟩ := hfirst
  unfold mergeByteArrays
  rw [hpart]
  cases src2 with
  | none => exact ⟨res, len, rfl, rfl, hlen⟩
  | some src => exact mergePart_fits hlen

theorem readIf_eq {α β : Type} {o : Option α} {read : α → Option β}
    (h : ∀ a ∈ o, ∃ b, read a = some b) : ∃ b, readIf o read = some b := by
  cases o with
  | none => exact ⟨none, rfl⟩
  | some a =>
    obtain ⟨b, hb⟩ := h a rfl
    exact ⟨some b, congrArg (Option.map some) hb⟩

theorem spanRead_eq {o : Option Span} (h : SpanIn mem.length o) :
    ∀ s ∈ o, ∃ b, spanRead mem s = some b :=
  fun s hs => ⟨_, readSlice_eq (h s hs)⟩

theorem bodyRead_eq {o : Option Span} (h : ElementIn mem.length o) :
    ∀ s ∈ o, ∃ b, bodyRead mem s = some b := by
  intro s hs
  obtain ⟨hheader, hend⟩ := h s hs
  have hle := sizeSub_le hheader
  exact ⟨_, readSlice_eq (by omega)⟩

theorem offRead_eq {o : Option ℕ} {n : ℕ} (h : OffIn mem.length n o) :
    ∀ off ∈ o, ∃ b, mem.readSlice off n = some b :=
  fun off hoff => ⟨_, readSlice_eq (h off hoff)⟩

theorem copyPeerCapab_none (h : kde.suppRates = none) :
    Returns (copyPeerCapab env mem kde) (.error statusUnspecifiedFailure) := by
  unfold copyPeerCapab
  rw [h]
  exact .refuse _

/-- The copies stay in the elements; they fail as a whole or not at all. -/
theorem copyPeerCapab_returns (h : ElementsIn mem kde) (hrates : kde.suppRates.isSome = true) :
    if (env.copies kde).copied = true then ∃ capab, Returns (copyPeerCapab env mem kde) (.ok capab)
    else Returns (copyPeerCapab env mem kde) (.error statusUnspecifiedFailure) := by
  obtain ⟨rates, hsome⟩ := Option.isSome_iff_exists.mp hrates
  obtain ⟨body, hbody⟩ := bodyRead_eq h.suppRates rates hsome
  obtain ⟨ext, hext⟩ := readIf_eq (bodyRead_eq h.extSuppRates)
  obtain ⟨res, len, hmerge, -, -⟩ := mergeByteArrays_fits maxSuppRates (some body) ext
  obtain ⟨ht, hht⟩ := readIf_eq (offRead_eq h.htCapabilities)
  obtain ⟨vht, hvht⟩ := readIf_eq (offRead_eq h.vhtCapabilities)
  obtain ⟨he, hhe⟩ := readIf_eq (spanRead_eq h.heCapabilities)
  obtain ⟨he6, hhe6⟩ := readIf_eq (offRead_eq h.he6ghzCapabilities)
  obtain ⟨extCapab, hextCapab⟩ := readIf_eq (bodyRead_eq h.extCapab)
  obtain ⟨channels, hchannels⟩ := readIf_eq (spanRead_eq h.suppChannels)
  obtain ⟨classes, hclasses⟩ := readIf_eq (spanRead_eq h.suppOperClasses)
  have hrun {r : Except ℕ PeerCapab} (hr : Returns (if (!(env.copied && wmmFits kde)) = true then
      throw statusUnspecifiedFailure else do
        let qosInfo ← readIf kde.wmm fun wmm => mem.read8 (wmm.off + 6)
        return {
          suppRates := res, suppRatesLen := len, htCapabilities := ht, vhtCapabilities := vht
          heCapabilities := he, he6ghzBandCapabilities := he6, extCapab
          suppChannels := channels, suppOperClasses := classes
          qosInfo := qosInfo.getD kde.qosinfo, wmmCapable := kde.wmm.isSome
          aid := kde.aid }) r) : Returns (copyPeerCapab env mem kde) r := by
    unfold copyPeerCapab
    rw [hsome]
    exact .bind_read hbody <| .bind_read hext <| .bind_read hmerge <| .bind_read hht <|
      .bind_read hvht <| .bind_read hhe <| .bind_read hhe6 <| .bind_read hextCapab <|
      .bind_read hchannels <| .bind_read hclasses hr
  by_cases hcopied : (env.copies kde).copied = true
  · rw [if_pos hcopied]
    have hwmm : ∀ wmm ∈ kde.wmm, ∃ b, mem.read8 (wmm.off + 6) = some b := by
      intro wmm hmem
      have hin := h.wmm wmm hmem
      have hfits : wmmFits kde = true := ((Bool.and_eq_true _ _).mp hcopied).2
      have hlen : 7 ≤ wmm.len := by
        rw [wmmFits, Option.mem_def.mp hmem] at hfits
        exact of_decide_eq_true hfits
      exact ⟨_, read8_eq (by omega)⟩
    obtain ⟨qosInfo, hqos⟩ := readIf_eq hwmm
    have hno : ¬ (!(env.copied && wmmFits kde)) = true := by
      rw [show (env.copied && wmmFits kde) = true from hcopied]
      decide
    simp only [if_neg hno] at hrun
    exact ⟨_, hrun (.bind_read hqos (.ret _))⟩
  · rw [if_neg hcopied]
    apply hrun
    have hno : (!(env.copied && wmmFits kde)) = true :=
      (Bool.not_eq_true' _).mpr (Bool.eq_false_iff.mpr hcopied)
    rw [if_pos hno]
    exact .refuse _

theorem need_returns {s : Option Span} {minLen : ℕ} (h : SpanIn mem.length s) :
    Returns (need mem s minLen status)
      (((s.filter fun s => decide (s.len ≥ minLen)).map (Span.read mem)).elim (.error status) .ok) := by
  unfold need
  cases s with
  | none => exact .refuse _
  | some s =>
    by_cases hshort : s.len < minLen
    · rw [Option.filter_some, if_neg (by simpa using hshort)]
      simp only
      rw [if_pos hshort]
      exact .refuse _
    · rw [Option.filter_some, if_pos (by simpa using hshort)]
      simp only
      rw [if_neg hshort]
      exact .read (readSlice_eq (h s rfl))

theorem need_any_returns {s : Option Span} (h : SpanIn mem.length s) :
    Returns (need mem s 0 status) ((s.map (Span.read mem)).elim (.error status) .ok) := by
  have hneed : Returns (need mem s 0 status) _ := need_returns h
  cases s with
  | none => exact hneed
  | some s => exact hneed

theorem needTimeoutie_returns (h : ElementsIn mem kde) :
    Returns (needTimeoutie mem kde status) ((iesOf mem kde).keyLifetime.elim (.error status) .ok) := by
  unfold needTimeoutie iesOf
  cases hoff : kde.keyLifetime with
  | none => exact .refuse _
  | some off =>
    have hin := h.keyLifetime off hoff
    apply Returns.read
    simp only [elementRead, Option.bind_eq_bind]
    rw [read8_eq (by omega), Option.bind_some, readSlice_eq (by omega)]

theorem needFtie_returns (h : ElementsIn mem kde) :
    Returns (needFtie mem kde status) ((iesOf mem kde).ftie.elim (.error status) .ok) := by
  have hneed : Returns (need mem kde.ftie ftieSize status) _ := need_returns h.ftie
  unfold needFtie iesOf
  cases hftie : kde.ftie.filter fun s => decide (s.len ≥ ftieSize) with
  | none =>
    rw [hftie] at hneed
    exact hneed.bind_error
  | some s =>
    rw [hftie] at hneed
    exact hneed.bind_ok (.ret _)

end Elements

section Handlers
variable {K : Type} {suite : TpkSuite K} {sm : TdlsSm} {env : TdlsEnv} {peer : Peer K}
  {mem : Bytes} {kde : EapolIeParse}

theorem wpaParseRsn_returns (rsnIe : Bytes) :
    Returns (ExceptT.adapt (fun _ => statusInvalidRsnie) (Rsne.wpaParseWpaIeRsnRead rsnIe))
      ((wpaParseWpaIeRsn rsnIe).mapError fun _ => statusInvalidRsnie) :=
  Returns.adapt (Rsne.wpaParseWpaIeRsnRead_eq rsnIe)

/-- The message that the elements are those of. -/
def msgOf (len status dtoken : ℕ) (mem : Bytes) (kde : EapolIeParse) : TdlsMsg :=
  ⟨len, status, dtoken, iesOf mem kde⟩

theorem copyPeerCapab_bind {α : Type} {f : PeerCapab → ReadProg ℕ α} {r : Except ℕ α}
    (h : ElementsIn mem kde) (hf : ∀ capab, Returns (f capab) r) :
    Returns (copyPeerCapab env mem kde >>= f)
      (if (!(iesOf mem kde).suppRates || !(env.copies kde).copied) = true then
        .error statusUnspecifiedFailure else r) := by
  cases hrates : kde.suppRates with
  | none =>
    rw [show (iesOf mem kde).suppRates = false by rw [iesOf, hrates]; rfl]
    exact (copyPeerCapab_none hrates).bind_error
  | some rates =>
    have hcopy := @copyPeerCapab_returns mem kde env h (by rw [hrates]; rfl)
    rw [show (iesOf mem kde).suppRates = true by rw [iesOf, hrates]; rfl]
    by_cases hcopied : (env.copies kde).copied = true
    · rw [if_pos hcopied] at hcopy
      obtain ⟨capab, hcapab⟩ := hcopy
      rw [hcopied]
      exact hcapab.bind_ok (hf capab)
    · rw [if_neg hcopied] at hcopy
      rw [Bool.eq_false_iff.mpr hcopied]
      exact hcopy.bind_error

theorem needRsnIe_returns (h : ElementsIn mem kde) :
    Returns (needRsnIe mem kde) ((iesOf mem kde).rsnIe.elim (.error statusInvalidParameters)
      fun rsnIe =>
        if rsnIe.length > tdlsMaxIeLen then .error statusInvalidRsnie else .ok rsnIe) := by
  have hneed := @need_any_returns ℕ mem statusInvalidParameters kde.rsnIe h.rsnIe
  unfold needRsnIe iesOf
  cases hs : kde.rsnIe with
  | none =>
    rw [hs] at hneed
    exact hneed.bind_error
  | some s =>
    rw [hs] at hneed
    exact hneed.bind_ok (.ite (fun _ => .refuse _) fun _ => .ret _)

theorem m1IesRead_returns (h : ElementsIn mem kde) (len status dtoken : ℕ) :
    Returns (m1IesRead sm env mem kde)
      (m1Ies sm (env.copies kde) (msgOf len status dtoken mem kde)) := by
  have hlnkid : Returns (needLnkid mem kde statusUnspecifiedFailure)
      ((iesOf mem kde).lnkid.elim (.error statusUnspecifiedFailure) .ok) := need_returns h.lnkid
  have hftie := @needFtie_returns ℕ mem kde statusInvalidParameters h
  have htimeoutie := @needTimeoutie_returns ℕ mem kde statusUnacceptableLifetime h
  have hrsnIe := needRsnIe_returns h
  have hpresent : kde.rsnIe.isSome = (iesOf mem kde).rsnIe.isSome := Option.isSome_map.symm
  simp only [m1Ies, msgOf, bind, Except.bind, pure, Except.pure, throw, throwThe, MonadExceptOf.throw]
  unfold m1IesRead
  cases hl : (iesOf mem kde).lnkid with
  | none =>
    rw [hl] at hlnkid
    exact hlnkid.bind_error
  | some lnkid =>
    rw [hl] at hlnkid
    refine hlnkid.bind_ok (.ite (fun _ => .refuse _) fun _ => copyPeerCapab_bind h fun _ => ?_)
    refine .ite (fun _ => .refuse _) fun _ => .ite (fun _ => ?_) fun _ => ?_
    · rw [hpresent]
      exact .ite (fun _ => .refuse _) fun _ => .ret _
    cases hf : (iesOf mem kde).ftie with
    | none =>
      rw [hf] at hftie
      exact hftie.bind_error
    | some ftie =>
      rw [hf] at hftie
      refine hftie.bind_ok ?_
      cases hr : (iesOf mem kde).rsnIe with
      | none =>
        rw [hr] at hrsnIe
        exact hrsnIe.bind_error
      | some rsnIe =>
        rw [hr] at hrsnIe
        simp only [Option.elim_some] at hrsnIe
        by_cases hlong : rsnIe.length > tdlsMaxIeLen
        · rw [if_pos hlong] at hrsnIe
          simp only [if_pos hlong]
          exact hrsnIe.bind_error
        rw [if_neg hlong] at hrsnIe
        simp only [if_neg hlong]
        have hparse := wpaParseRsn_returns rsnIe
        refine hrsnIe.bind_ok ?_
        cases hie : wpaParseWpaIeRsn rsnIe with
        | error e =>
          rw [hie] at hparse
          exact hparse.bind_error
        | ok ie =>
          rw [hie] at hparse
          refine hparse.bind_ok (.ite (fun _ => .refuse _) fun _ => .ite (fun _ => .refuse _) fun _ => ?_)
          cases ht : (iesOf mem kde).keyLifetime with
          | none =>
            rw [ht] at htimeoutie
            exact htimeoutie.bind_error
          | some timeoutie =>
            rw [ht] at htimeoutie
            exact htimeoutie.bind_ok (.ite (fun _ => .refuse _) fun _ => .ret _)

theorem m2IesRead_returns (h : ElementsIn mem kde) (len status dtoken : ℕ) :
    Returns (m2IesRead sm env peer mem kde)
      (m2Ies sm (env.copies kde) peer (msgOf len status dtoken mem kde)) := by
  have hlnkid : Returns (needLnkid mem kde statusUnspecifiedFailure)
      ((iesOf mem kde).lnkid.elim (.error statusUnspecifiedFailure) .ok) := need_returns h.lnkid
  have hftie := @needFtie_returns ℕ mem kde statusInvalidParameters h
  have hrsnIe := needRsnIe_returns h
  simp only [m2Ies, msgOf, bind, Except.bind, pure, Except.pure, throw, throwThe, MonadExceptOf.throw]
  unfold m2IesRead
  cases hl : (iesOf mem kde).lnkid with
  | none =>
    rw [hl] at hlnkid
    exact hlnkid.bind_error
  | some lnkid =>
    rw [hl] at hlnkid
    refine hlnkid.bind_ok (.ite (fun _ => .refuse _) fun _ => copyPeerCapab_bind h fun _ => ?_)
    refine .ite (fun _ => .ret _) fun _ => ?_
    cases hf : (iesOf mem kde).ftie with
    | none =>
      rw [hf] at hftie
      exact hftie.bind_error
    | some ftie =>
      rw [hf] at hftie
      refine hftie.bind_ok ?_
      cases hr : (iesOf mem kde).rsnIe with
      | none =>
        rw [hr] at hrsnIe
        exact hrsnIe.bind_error
      | some rsnIe =>
        rw [hr] at hrsnIe
        simp only [Option.elim_some] at hrsnIe
        by_cases hlong : rsnIe.length > tdlsMaxIeLen
        · rw [if_pos hlong] at hrsnIe
          simp only [if_pos hlong]
          exact hrsnIe.bind_error
        rw [if_neg hlong] at hrsnIe
        simp only [if_neg hlong]
        have hparse := wpaParseRsn_returns rsnIe
        refine hrsnIe.bind_ok (.ite (fun _ => .refuse _) fun _ => ?_)
        cases hie : wpaParseWpaIeRsn rsnIe with
        | error e =>
          rw [hie] at hparse
          exact hparse.bind_error
        | ok ie =>
          rw [hie] at hparse
          exact hparse.bind_ok (.ite (fun _ => .refuse _) fun _ => .ret _)

/-- M3 has no status of its own to fail with. -/
theorem m3IesRead_returns (h : ElementsIn mem kde) (len status dtoken : ℕ) :
    Returns (m3IesRead sm peer mem kde)
      ((m3Ies sm peer (msgOf len status dtoken mem kde)).elim (.error ()) .ok) := by
  have hlnkid : Returns (needLnkid mem kde ())
      ((iesOf mem kde).lnkid.elim (.error ()) .ok) := need_returns h.lnkid
  have hftie := @needFtie_returns Unit mem kde () h
  have hrsnIe : Returns (need mem kde.rsnIe 0 ()) ((iesOf mem kde).rsnIe.elim (.error ()) .ok) :=
    need_any_returns h.rsnIe
  have htimeoutie := @needTimeoutie_returns Unit mem kde () h
  unfold m3Ies m3IesRead msgOf
  simp only [Option.bind_eq_bind]
  cases hl : (iesOf mem kde).lnkid with
  | none =>
    rw [hl] at hlnkid
    exact hlnkid.bind_error
  | some lnkid =>
    rw [hl] at hlnkid
    refine hlnkid.bind_ok ?_
    rw [Option.bind_some]
    by_cases hbssid : lnkidBssid lnkid ≠ sm.bssid.1
    · rw [if_pos hbssid, if_pos hbssid]
      exact .refuse _
    rw [if_neg hbssid, if_neg hbssid]
    by_cases hprivacy : (!sm.privacy) = true
    · rw [if_pos hprivacy, if_pos hprivacy]
      exact .ret _
    rw [if_neg hprivacy, if_neg hprivacy]
    cases hf : (iesOf mem kde).ftie with
    | none =>
      rw [hf] at hftie
      exact hftie.bind_error
    | some ftie =>
      rw [hf] at hftie
      refine hftie.bind_ok ?_
      rw [Option.bind_some]
      cases hr : (iesOf mem kde).rsnIe with
      | none =>
        rw [hr] at hrsnIe
        exact hrsnIe.bind_error
      | some rsnIe =>
        rw [hr] at hrsnIe
        refine hrsnIe.bind_ok ?_
        rw [Option.bind_some]
        by_cases hrsnieP : rsnIe ≠ peer.rsnieP
        · rw [if_pos hrsnieP, if_pos hrsnieP]
          exact .refuse _
        rw [if_neg hrsnieP, if_neg hrsnieP]
        by_cases hanonce : peer.rnonce ≠ ftie.anonce
        · rw [if_pos hanonce, if_pos hanonce]
          exact .refuse _
        rw [if_neg hanonce, if_neg hanonce]
        by_cases hsnonce : peer.inonce ≠ ftie.snonce
        · rw [if_pos hsnonce, if_pos hsnonce]
          exact .refuse _
        rw [if_neg hsnonce, if_neg hsnonce]
        cases ht : (iesOf mem kde).keyLifetime with
        | none =>
          rw [ht] at htimeoutie
          exact htimeoutie.bind_error
        | some timeoutie =>
          rw [ht] at htimeoutie
          refine htimeoutie.bind_ok ?_
          rw [Option.bind_some]
          by_cases hlifetime : timeoutieValue timeoutie ≠ peer.lifetime
          · rw [if_pos hlifetime, if_pos hlifetime]
            exact .refuse _
          · rw [if_neg hlifetime, if_neg hlifetime]
            exact .ret _

theorem copyIn_eq {cap : ℕ} {src : Bytes} (h : src.length ≤ cap) : copyIn cap src = some src :=
  if_pos h

theorem m1Nonces_rsnieI {peer' : Peer K} {snonce : Bytes} (h : m1Nonces env peer snonce = some peer') :
    peer'.rsnieI = peer.rsnieI := by
  unfold m1Nonces at h
  split at h
  · obtain ⟨random, -, rfl⟩ := Option.map_eq_some_iff.mp h
    rfl
  · obtain rfl := Option.some.inj h
    rfl

theorem m1AcceptRead_eq {dtoken : ℕ} {ies : Option TpkIes}
    (hfits : ∀ found ∈ ies, found.rsnIe.length ≤ tdlsMaxIeLen) :
    m1AcceptRead suite sm env peer dtoken ies = some (m1Accept suite sm env peer dtoken ies) := by
  cases ies with
  | none => rfl
  | some ies =>
    have hlen := hfits ies rfl
    simp only [m1AcceptRead, m1Accept, copyIn_eq hlen, Option.bind_eq_bind, Option.bind_some]
    cases hnonces : m1Nonces env
        { peer with initiator := false, dtoken, rsnieI := ies.rsnIe, cipher := .ccmp }
        ies.ftie.snonce with
    | none => rfl
    | some peer' =>
      have hsame := m1Nonces_rsnieI hnonces
      have hlen' : peer'.rsnieI.length ≤ tdlsMaxIeLen := hsame ▸ hlen
      simp only [copyIn_eq hlen', Option.bind_some]
      rfl

theorem m1RespondRead_eq (h : ElementsIn mem kde) (addr : StaAddr) (len status dtoken : ℕ) :
    m1RespondRead suite sm env addr peer dtoken mem kde =
      some (m1Respond suite sm (env.copies kde) addr peer (msgOf len status dtoken mem kde)) := by
  have hies : (m1IesRead sm env mem kde).run = _ := m1IesRead_returns h len status dtoken
  unfold m1RespondRead m1Respond
  rw [hies]
  simp only [Option.bind_eq_bind, Option.bind_some]
  cases hok : m1Ies sm (env.copies kde) (msgOf len status dtoken mem kde) with
  | error status => rfl
  | ok found =>
    obtain ⟨lnkid, ies⟩ := found
    have hfits : ∀ found ∈ ies, found.rsnIe.length ≤ tdlsMaxIeLen := by
      rintro found rfl
      exact (m1Ies_ok hok).2 found rfl
    simp only
    rw [m1AcceptRead_eq hfits, Option.bind_some]
    have hsame : m1Accept suite sm (env.copies kde) peer (msgOf len status dtoken mem kde).dtoken ies =
        m1Accept suite sm env peer dtoken ies := rfl
    rw [hsame]
    cases m1Accept suite sm env peer dtoken ies with
    | none => rfl
    | some peer' =>
      simp only
      have hadd : (env.copies kde).addset = env.addset := rfl
      rw [hadd]
      by_cases haddset : (!env.addset) = true
      · rw [if_pos haddset, if_pos haddset]
        rfl
      rw [if_neg haddset, if_neg haddset]
      have hsend : sendTpkM2 suite sm (env.copies kde) { peer' with tpkInProgress := true }
          (msgOf len status dtoken mem kde).dtoken lnkid =
          sendTpkM2 suite sm env { peer' with tpkInProgress := true } dtoken lnkid := rfl
      rw [hsend]
      obtain ⟨peer'', ok, sent⟩ := sendTpkM2 suite sm env { peer' with tpkInProgress := true } dtoken lnkid
      cases ok <;> rfl

theorem m2ReplyRead_eq (h : ElementsIn mem kde) (addr : StaAddr) (dtoken : ℕ) {len status : ℕ}
    (hinit : peer.initiator = true) (hdown : peer.tpkSuccess = false) (hlen : 8 ≤ len)
    (hstatus : status = statusSuccess) :
    m2ReplyRead suite sm env addr (peer.retryTimeoutCancel setupRequest) dtoken mem kde =
      some (processTpkM2 suite sm (env.copies kde) addr (msgOf len status dtoken mem kde)
        (some peer)) := by
  have hies : (m2IesRead sm env (peer.retryTimeoutCancel setupRequest) mem kde).run = _ :=
    m2IesRead_returns h len status dtoken
  have htimeoutie : (needTimeoutie mem kde statusUnacceptableLifetime).run = _ :=
    needTimeoutie_returns h
  simp only [m2ReplyRead, processTpkM2, hinit, hdown, Bool.not_true, Bool.false_eq_true, if_false]
  have hlong : ¬ (msgOf len status dtoken mem kde).len < 3 + 2 + 1 := by
    simp only [msgOf]
    omega
  have hcapab : ¬ (msgOf len status dtoken mem kde).len < 3 + 2 + 1 + 2 := by
    simp only [msgOf]
    omega
  have hok : ¬ (msgOf len status dtoken mem kde).status ≠ statusSuccess := not_not.mpr hstatus
  rw [if_neg hlong, if_neg hok, if_neg hcapab, hies]
  simp only [Option.bind_eq_bind, Option.bind_some]
  cases hread : m2Ies sm (env.copies kde) (peer.retryTimeoutCancel setupRequest)
      (msgOf len status dtoken mem kde) with
  | error status => rfl
  | ok found =>
    obtain ⟨lnkid, _ | ⟨rsnIe, ftie⟩⟩ := found
    · rfl
    simp only
    by_cases hnonce : (peer.retryTimeoutCancel setupRequest).inonce ≠ ftie.snonce
    · rw [if_pos hnonce, if_pos hnonce]
      rfl
    have hfits : rsnIe.length ≤ tdlsMaxIeLen := ((m2Ies_ok hread).2.2 (rsnIe, ftie) rfl).2
    rw [if_neg hnonce, if_neg hnonce, copyIn_eq hfits, Option.bind_some, htimeoutie]
    have hsame : (msgOf len status dtoken mem kde).ies.keyLifetime = (iesOf mem kde).keyLifetime := rfl
    rw [hsame]
    cases (iesOf mem kde).keyLifetime with
    | none => rfl
    | some timeoutie =>
      simp only [Option.elim_some, Option.bind_some]
      split_ifs <;> rfl

theorem m3ReplyRead_eq (h : ElementsIn mem kde) (addr : StaAddr) (dtoken : ℕ) {len status : ℕ}
    (hlen : 6 ≤ len) (hstatus : status = statusSuccess) :
    m3ReplyRead suite sm env addr (peer.retryTimeoutCancel setupResponse) mem kde =
      some (processTpkM3 suite sm (env.copies kde) addr (msgOf len status dtoken mem kde)
        (some peer)) := by
  have hies : (m3IesRead sm (peer.retryTimeoutCancel setupResponse) mem kde).run = _ :=
    m3IesRead_returns h len status dtoken
  have hlong : ¬ (msgOf len status dtoken mem kde).len < 3 + 3 := by
    simp only [msgOf]
    omega
  have hok : ¬ (msgOf len status dtoken mem kde).status ≠ statusSuccess := not_not.mpr hstatus
  simp only [m3ReplyRead, processTpkM3]
  rw [if_neg hlong, if_neg hok, hies]
  simp only [Option.bind_eq_bind, Option.bind_some]
  cases m3Ies sm (peer.retryTimeoutCancel setupResponse) (msgOf len status dtoken mem kde) with
  | none => rfl
  | some found =>
    obtain ⟨lnkid, _ | ies⟩ := found
    · rfl
    simp only [Option.elim_some]
    split_ifs <;> rfl

theorem teardownReplyRead_eq (h : ElementsIn mem kde) (msg : TdlsMsg) (hmsg : msg.ies = iesOf mem kde) :
    teardownReplyRead suite sm peer msg.status mem kde =
      some (recvTeardown suite sm msg (some peer)) := by
  have hlnkid : Returns (needLnkid mem kde ())
      ((iesOf mem kde).lnkid.elim (.error ()) .ok) := need_returns h.lnkid
  have hftie := @needFtie_returns Unit mem kde () h
  simp only [teardownReplyRead, recvTeardown, hmsg]
  cases hl : (iesOf mem kde).lnkid with
  | none =>
    rw [hl] at hlnkid
    have hies : (teardownIesRead sm peer mem kde).run = some (.error ()) := hlnkid.bind_error
    rw [hies]
    rfl
  | some lnkid =>
    rw [hl] at hlnkid
    by_cases hplain : (!sm.privacy || !peer.tpkSet || !peer.tpkSuccess) = true
    · have hies : (teardownIesRead sm peer mem kde).run = some (.ok (lnkid, none)) := by
        refine hlnkid.bind_ok ?_
        rw [if_pos hplain]
        exact .ret _
      simp only [hies, if_pos hplain]
      rfl
    simp only [if_neg hplain]
    cases hf : (iesOf mem kde).ftie with
    | none =>
      have hies : (teardownIesRead sm peer mem kde).run = some (.error ()) := by
        rw [hf] at hftie
        refine hlnkid.bind_ok ?_
        rw [if_neg hplain]
        exact hftie.bind_error
      rw [hies]
      rfl
    | some ftie =>
      have hies : (teardownIesRead sm peer mem kde).run = some (.ok (lnkid, some ftie)) := by
        rw [hf] at hftie
        refine hlnkid.bind_ok ?_
        rw [if_neg hplain]
        exact hftie.bind_ok (.ret _)
      simp only [hies, Option.bind_eq_bind, Option.bind_some]
      split_ifs
      · rfl
      · rfl

end Handlers

/-! ### Frames -/

section Frames
variable {K : Type} {suite : TpkSuite K} {sm : TdlsSm} {env : TdlsEnv} {src : StaAddr} {buf : Bytes}
  {slot : Slot K}

/-- M1 goes on for a new entry, and for one that does not keep an own request. -/
def admitsRequest (sm : TdlsSm) (env : TdlsEnv) (slot : Slot K) : Bool :=
  slot.elim env.addPeer fun peer =>
    peer.tpkSuccess || !peer.initiator || !decide (memcmp sm.ownAddr.1 peer.addr.1 < 0)

def awaitsResponse (slot : Slot K) : Bool := slot.any fun peer => peer.initiator && !peer.tpkSuccess

/-- The elements that the handler of the frame gives to the parser, if it gets so far. -/
def elementsOf (sm : TdlsSm) (env : TdlsEnv) (buf : Bytes) (slot : Slot K) : Option Span :=
  let n := buf.length
  if buf.byteAt 2 = setupRequest then
    if 6 ≤ n ∧ admitsRequest sm env slot = true then some ⟨6, sizeSub n 6 % 2 ^ 16⟩ else none
  else if buf.byteAt 2 = setupResponse then
    if 8 ≤ n ∧ buf.le16 3 = statusSuccess ∧ awaitsResponse slot = true then some ⟨8, sizeSub n 8⟩
    else none
  else if buf.byteAt 2 = setupConfirm then
    if 6 ≤ n ∧ buf.le16 3 = statusSuccess ∧ slot.isSome = true then some ⟨6, sizeSub n 6⟩ else none
  else if buf.byteAt 2 = tdlsTeardown then if slot.isSome = true then some ⟨5, sizeSub n 5⟩ else none
  else if buf.byteAt 2 = discoveryRequest then
    if 3 + 1 + lnkidSize ≤ n then some ⟨4, sizeSub n 4⟩ else none
  else none

/-- The frame is one for a handler. -/
def Handled (sm : TdlsSm) (src : StaAddr) (buf : Bytes) : Prop :=
  (sm.tdlsDisabled || !sm.tdlsSupported) = false ∧ src ≠ sm.ownAddr ∧ 3 ≤ buf.length ∧
    buf.byteAt 0 = tdlsRftype ∧ buf.byteAt 1 = actionTdls

/-- A teardown for an entry has room for its reason code, and no selector that the parser compares
leaves the frame. -/
structure FrameFits (sm : TdlsSm) (env : TdlsEnv) (buf : Bytes) (slot : Slot K) : Prop where
  reason : buf.byteAt 2 = tdlsTeardown → slot.isSome = true → 5 ≤ buf.length
  selectors : ∀ s ∈ elementsOf sm env buf slot, ∀ q, KdeReached (s.read buf) 0 q →
    SelectorFits (buf.drop s.off) s.len q

theorem bind_of_some {α β : Type} {o : Option α} {a : α} {f : α → Option β} (h : o = some a) :
    (o >>= f) = f a := by
  rw [h]
  rfl

theorem parseIesRead_isSome_iff {off len : ℕ} (h : off + len ≤ buf.length) :
    (parseIesRead buf off len).isSome = true ↔
      ∀ q, KdeReached (buf.slice off len) 0 q → SelectorFits (buf.drop off) len q := by
  have hlen : len ≤ (buf.drop off).length := by
    rw [List.length_drop]
    omega
  rw [parseIesRead, if_pos h]
  exact storedIesRead_isSome_iff hlen (Nat.zero_le _) (by omega)

theorem parseIesRead_elementsIn {off len : ℕ} {kde : EapolIeParse}
    (h : parseIesRead buf off len = some kde) : ElementsIn (buf.drop off) kde := by
  unfold parseIesRead at h
  split_ifs at h with hroom
  refine storedIesRead_elementsIn ?_ elementsIn_empty h
  rw [List.length_drop]
  omega

theorem addPeer_admits (h : admitsRequest sm env slot = true) :
    ∃ peer admitted out, addPeer suite env src slot = some peer ∧
      m1Admit suite sm peer = some (admitted, out) := by
  cases slot with
  | none =>
    have hadd : env.addPeer = true := h
    exact ⟨newPeer suite src, newPeer suite src, [], by rw [addPeer, hadd]; rfl, rfl⟩
  | some peer =>
    simp only [admitsRequest, Option.elim_some, Bool.or_eq_true, Bool.not_eq_true',
      decide_eq_false_iff_not] at h
    unfold m1Admit
    by_cases hup : peer.tpkSuccess = true
    · exact ⟨peer, _, _, rfl, by rw [if_pos hup]⟩
    by_cases hinit : peer.initiator = true
    · have hlower : ¬ memcmp sm.ownAddr.1 peer.addr.1 < 0 := by
        rcases h with (hup' | hinit') | hlower
        · exact absurd hup' hup
        · exact absurd hinit (Bool.eq_false_iff.mp hinit')
        · exact hlower
      exact ⟨peer, _, _, rfl, by rw [if_neg hup, if_pos hinit, if_neg hlower]⟩
    · exact ⟨peer, _, _, rfl, by rw [if_neg hup, if_neg hinit]⟩

theorem addPeer_not_admits (h : ¬ admitsRequest sm env slot = true) :
    addPeer suite env src slot = none ∨
      ∃ peer, addPeer suite env src slot = some peer ∧ m1Admit suite sm peer = none := by
  cases slot with
  | none =>
    left
    have hadd : env.addPeer = false := Bool.eq_false_iff.mpr h
    rw [addPeer, hadd]
    rfl
  | some peer =>
    right
    simp only [admitsRequest, Option.elim_some, Bool.or_eq_true, Bool.not_eq_true',
      decide_eq_false_iff_not, not_or, Bool.not_eq_false, not_not] at h
    obtain ⟨⟨hup, hinit⟩, hlower⟩ := h
    exact ⟨peer, rfl, by rw [m1Admit, if_neg hup, if_pos hinit, if_pos hlower]⟩

theorem processTpkM1Read_parsed (hlen : 6 ≤ buf.length) (hadmits : admitsRequest sm env slot = true) :
    processTpkM1Read suite sm env src buf slot =
      (parseIesRead buf 6 (sizeSub buf.length 6 % 2 ^ 16)).map fun kde =>
        processTpkM1 suite sm (env.copies kde) src
          (msgOf buf.length 0 (buf.byteAt 3) (buf.drop 6) kde) slot := by
  obtain ⟨peer, admitted, out, hadd, hfound⟩ := @addPeer_admits K suite sm env src slot hadmits
  unfold processTpkM1Read
  rw [if_neg (by omega), bind_of_some (read8_eq (by omega)), hadd]
  dsimp only
  rw [hfound]
  dsimp only
  rw [bind_of_some (readLe16_eq (by omega))]
  cases hparse : parseIesRead buf 6 (sizeSub buf.length 6 % 2 ^ 16) with
  | none => rfl
  | some kde =>
    have hresp := @m1RespondRead_eq K suite sm env admitted _ kde (parseIesRead_elementsIn hparse) src
      buf.length 0 (buf.byteAt 3)
    have hadd' : addPeer suite (env.copies kde) src slot = some peer := hadd
    have hlong : ¬ (msgOf buf.length 0 (buf.byteAt 3) (buf.drop 6) kde).len < 3 + 3 := by
      simp only [msgOf]
      omega
    rw [bind_of_some rfl, bind_of_some hresp, Option.map_some, processTpkM1,
      if_neg hlong, hadd']
    dsimp only
    rw [hfound]
    rfl

theorem processTpkM1Read_unparsed (h : ¬ (6 ≤ buf.length ∧ admitsRequest sm env slot = true)) :
    processTpkM1Read suite sm env src buf slot =
      some (processTpkM1 suite sm env src (readTpkM1 buf) slot) := by
  have hdtoken : (readTpkM1 buf).dtoken = buf.byteAt 3 := rfl
  have hsame : (readTpkM1 buf).len = buf.length := rfl
  unfold processTpkM1Read processTpkM1
  rw [hsame]
  by_cases hshort : buf.length < 3 + 3
  · rw [if_pos hshort, if_pos hshort]
  have hrefused := @addPeer_not_admits K suite sm env src slot fun hadmits => h ⟨by omega, hadmits⟩
  rw [if_neg hshort, if_neg hshort, bind_of_some (read8_eq (by omega))]
  rcases hrefused with hadd | ⟨peer, hadd, hfound⟩
  · rw [hadd]
    rfl
  · rw [hadd]
    dsimp only
    rw [hfound]
    rfl

theorem processTpkM2Read_parsed (hlen : 8 ≤ buf.length) (hstatus : buf.le16 3 = statusSuccess)
    (hawaits : awaitsResponse slot = true) :
    processTpkM2Read suite sm env src buf slot =
      (parseIesRead buf 8 (sizeSub buf.length 8)).map fun kde =>
        processTpkM2 suite sm (env.copies kde) src
          (msgOf buf.length (buf.le16 3) (buf.byteAt 5) (buf.drop 8) kde) slot := by
  cases slot with
  | none => cases hawaits
  | some peer =>
    obtain ⟨hinit, hdown⟩ := (Bool.and_eq_true _ _).mp hawaits
    have hdown' : peer.tpkSuccess = false := by simpa using hdown
    unfold processTpkM2Read
    dsimp only
    rw [if_neg (by rw [hinit]; decide), if_neg (by rw [hdown']; decide), if_neg (by omega),
      bind_of_some (readLe16_eq (by omega)), if_neg (not_not.mpr hstatus),
      bind_of_some (read8_eq (by omega)), if_neg (by omega),
      bind_of_some (readLe16_eq (by omega))]
    cases hparse : parseIesRead buf 8 (sizeSub buf.length 8) with
    | none => rfl
    | some kde =>
      have hreply := @m2ReplyRead_eq K suite sm env peer _ kde (parseIesRead_elementsIn hparse) src
        (buf.byteAt 5) _ _ hinit hdown' hlen hstatus
      rw [bind_of_some rfl, Option.map_some, hreply]

theorem processTpkM2Read_unparsed
    (h : ¬ (8 ≤ buf.length ∧ buf.le16 3 = statusSuccess ∧ awaitsResponse slot = true)) :
    processTpkM2Read suite sm env src buf slot =
      some (processTpkM2 suite sm env src (readTpkM2 buf) slot) := by
  have hlen : (readTpkM2 buf).len = buf.length := rfl
  have hread : (readTpkM2 buf).status = buf.le16 3 := rfl
  cases slot with
  | none => rfl
  | some peer =>
    unfold processTpkM2Read processTpkM2
    rw [hlen, hread]
    dsimp only
    by_cases hinit : (!peer.initiator) = true
    · rw [if_pos hinit, if_pos hinit]
    rw [if_neg hinit, if_neg hinit]
    by_cases hup : peer.tpkSuccess = true
    · rw [if_pos hup, if_pos hup]
    rw [if_neg hup, if_neg hup]
    by_cases hshort : buf.length < 3 + 2 + 1
    · rw [if_pos hshort, if_pos hshort]
    rw [if_neg hshort, if_neg hshort, bind_of_some (readLe16_eq (by omega))]
    by_cases hstatus : buf.le16 3 ≠ statusSuccess
    · rw [if_pos hstatus, if_pos hstatus]
      rfl
    rw [if_neg hstatus, if_neg hstatus, bind_of_some (read8_eq (by omega))]
    by_cases hcapab : buf.length < 3 + 2 + 1 + 2
    · rw [if_pos hcapab, if_pos hcapab]
      rfl
    · have hawaits : awaitsResponse (some peer) = true := by
        simp only [awaitsResponse, Option.any_some, Bool.and_eq_true, Bool.not_eq_true']
        exact ⟨by simpa using hinit, by simpa using hup⟩
      exact absurd ⟨by omega, not_not.mp hstatus, hawaits⟩ h

theorem processTpkM3Read_parsed (hlen : 6 ≤ buf.length) (hstatus : buf.le16 3 = statusSuccess)
    (hslot : slot.isSome = true) :
    processTpkM3Read suite sm env src buf slot =
      (parseIesRead buf 6 (sizeSub buf.length 6)).map fun kde =>
        processTpkM3 suite sm (env.copies kde) src
          (msgOf buf.length (buf.le16 3) (buf.byteAt 5) (buf.drop 6) kde) slot := by
  obtain ⟨peer, rfl⟩ := Option.isSome_iff_exists.mp hslot
  unfold processTpkM3Read
  dsimp only
  rw [if_neg (by omega), bind_of_some (readLe16_eq (by omega)),
    if_neg (not_not.mpr hstatus)]
  cases hparse : parseIesRead buf 6 (sizeSub buf.length 6) with
  | none => rfl
  | some kde =>
    have hreply := @m3ReplyRead_eq K suite sm env peer _ kde (parseIesRead_elementsIn hparse) src
      (buf.byteAt 5) _ _ hlen hstatus
    rw [bind_of_some rfl, Option.map_some, hreply]

theorem processTpkM3Read_unparsed
    (h : ¬ (6 ≤ buf.length ∧ buf.le16 3 = statusSuccess ∧ slot.isSome = true)) :
    processTpkM3Read suite sm env src buf slot =
      some (processTpkM3 suite sm env src (readTpkM3 buf) slot) := by
  have hlen : (readTpkM3 buf).len = buf.length := rfl
  have hread : (readTpkM3 buf).status = buf.le16 3 := rfl
  cases slot with
  | none => rfl
  | some peer =>
    unfold processTpkM3Read processTpkM3
    rw [hlen, hread]
    dsimp only
    by_cases hshort : buf.length < 3 + 3
    · rw [if_pos hshort, if_pos hshort]
    rw [if_neg hshort, if_neg hshort, bind_of_some (readLe16_eq (by omega))]
    have hstatus : buf.le16 3 ≠ statusSuccess := fun hok => h ⟨by omega, hok, rfl⟩
    rw [if_pos hstatus, if_pos hstatus]
    rfl

theorem recvTeardownRead_parsed (hlen : 5 ≤ buf.length) (hslot : slot.isSome = true) :
    recvTeardownRead suite sm buf slot =
      (parseIesRead buf 5 (sizeSub buf.length 5)).map fun kde =>
        recvTeardown suite sm (msgOf buf.length (buf.le16 3) 0 (buf.drop 5) kde) slot := by
  obtain ⟨peer, rfl⟩ := Option.isSome_iff_exists.mp hslot
  unfold recvTeardownRead
  dsimp only
  rw [bind_of_some (readLe16_eq (by omega))]
  cases hparse : parseIesRead buf 5 (sizeSub buf.length 5) with
  | none => rfl
  | some kde =>
    have hreply := @teardownReplyRead_eq K suite sm peer _ kde (parseIesRead_elementsIn hparse)
      (msgOf buf.length (buf.le16 3) 0 (buf.drop 5) kde) rfl
    have hstatus : (msgOf buf.length (buf.le16 3) 0 (buf.drop 5) kde).status = buf.le16 3 := rfl
    rw [hstatus] at hreply
    rw [bind_of_some rfl, Option.map_some, hreply]

/-- The reason code is read behind the end of the frame. -/
theorem recvTeardownRead_short (hlen : buf.length < 5) (hslot : slot.isSome = true) :
    recvTeardownRead suite sm buf slot = none := by
  obtain ⟨peer, rfl⟩ := Option.isSome_iff_exists.mp hslot
  have hlast : buf.read8 (3 + 1) = none := read8_eq_none (by omega)
  have hreason : buf.readLe16 3 = none := by
    unfold readLe16
    rw [hlast]
    cases buf.read8 3 <;> rfl
  unfold recvTeardownRead
  rw [hreason]
  rfl

theorem processDiscoveryRequestRead_parsed (hlen : 3 + 1 + lnkidSize ≤ buf.length) :
    processDiscoveryRequestRead suite sm env src buf slot =
      (parseIesRead buf 4 (sizeSub buf.length 4)).map fun kde =>
        processDiscoveryRequest suite sm env src
          (msgOf buf.length 0 (buf.byteAt 3) (buf.drop 4) kde) slot := by
  have hsize : lnkidSize = 20 := rfl
  unfold processDiscoveryRequestRead
  rw [if_neg (by omega), bind_of_some (read8_eq (by omega))]
  cases hparse : parseIesRead buf 4 (sizeSub buf.length 4) with
  | none => rfl
  | some kde =>
    have hin := parseIesRead_elementsIn hparse
    have hneed : (need (buf.drop 4) kde.lnkid 0 ()).run = _ := need_any_returns hin.lnkid
    have hlnkid : (iesOf (buf.drop 4) kde).lnkid = kde.lnkid.map (Span.read (buf.drop 4)) := by
      unfold iesOf
      cases hl : kde.lnkid with
      | none => rfl
      | some s =>
        have hkeep := hin.lnkidLen s hl
        rw [Option.filter_some, if_pos (by simpa using hkeep)]
    rw [bind_of_some rfl, Option.map_some, bind_of_some hneed]
    unfold processDiscoveryRequest msgOf
    dsimp only
    rw [hlnkid]
    cases kde.lnkid.map (Span.read (buf.drop 4)) with
    | none =>
      dsimp only [Option.elim_none]
      rw [if_neg (by omega)]
      rfl
    | some lnkid => rfl

theorem processDiscoveryRequestRead_unparsed (h : ¬ 3 + 1 + lnkidSize ≤ buf.length) :
    processDiscoveryRequestRead suite sm env src buf slot =
      some (processDiscoveryRequest suite sm env src (readDiscoveryRequest buf) slot) := by
  have hlen : (readDiscoveryRequest buf).len = buf.length := rfl
  unfold processDiscoveryRequestRead processDiscoveryRequest
  rw [hlen, if_pos (by omega), if_pos (by omega)]

/-- The handler of a frame with its message. -/
def actionOf (buf mem : Bytes) (kde : EapolIeParse) : TdlsAction :=
  if buf.byteAt 2 = setupRequest then .tpkM1 (msgOf buf.length 0 (buf.byteAt 3) mem kde)
  else if buf.byteAt 2 = setupResponse then
    .tpkM2 (msgOf buf.length (buf.le16 3) (buf.byteAt 5) mem kde)
  else if buf.byteAt 2 = setupConfirm then
    .tpkM3 (msgOf buf.length (buf.le16 3) (buf.byteAt 5) mem kde)
  else if buf.byteAt 2 = tdlsTeardown then .teardown (msgOf buf.length (buf.le16 3) 0 mem kde)
  else .discovery (msgOf buf.length 0 (buf.byteAt 3) mem kde)

theorem elementsOf_inside {s : Span} (h : s ∈ elementsOf sm env buf slot)
    (hreason : buf.byteAt 2 = tdlsTeardown → slot.isSome = true → 5 ≤ buf.length) :
    s.off + s.len ≤ buf.length := by
  have hsub {k : ℕ} (hk : k ≤ buf.length) : k + sizeSub buf.length k ≤ buf.length := by
    have hle := sizeSub_le hk
    omega
  have hmod := Nat.mod_le (sizeSub buf.length 6) (2 ^ 16)
  have hlnkid : lnkidSize = 20 := rfl
  simp only [elementsOf, Option.mem_def] at h
  split_ifs at h with _ hm1 _ hm2 _ hm3 hteardown hslot _ hdiscovery
  · obtain rfl := Option.some.inj h
    simp only
    exact (Nat.add_le_add_left hmod 6).trans (hsub hm1.1)
  · obtain rfl := Option.some.inj h
    simp only
    exact hsub hm2.1
  · obtain rfl := Option.some.inj h
    simp only
    exact hsub hm3.1
  · obtain rfl := Option.some.inj h
    simp only
    exact hsub (hreason hteardown hslot)
  · obtain rfl := Option.some.inj h
    have hfour : 4 ≤ buf.length := by omega
    simp only
    exact hsub hfour

/-- The switch of `wpa_supplicant_rx_tdls`, reached by the frames that are handled. -/
theorem rxTdlsRead_handled (h : Handled sm src buf) :
    rxTdlsRead suite sm env src buf slot =
      if buf.byteAt 2 = setupRequest then processTpkM1Read suite sm env src buf slot
      else if buf.byteAt 2 = setupResponse then processTpkM2Read suite sm env src buf slot
      else if buf.byteAt 2 = setupConfirm then processTpkM3Read suite sm env src buf slot
      else if buf.byteAt 2 = tdlsTeardown then recvTeardownRead suite sm buf slot
      else if buf.byteAt 2 = discoveryRequest then
        processDiscoveryRequestRead suite sm env src buf slot
      else some (slot, []) := by
  obtain ⟨hon, hother, hlen, htype, hcategory⟩ := h
  unfold rxTdlsRead
  have hvalid : ¬ (buf.byteAt 0 ≠ tdlsRftype ∨ buf.byteAt 1 ≠ actionTdls) := by
    rw [htype, hcategory]
    simp
  rw [if_neg (by rw [hon]; decide), if_neg hother, if_neg (by omega), bind_of_some (read8_eq (by omega)), bind_of_some (read8_eq (by omega)),
    bind_of_some (read8_eq (by omega)), if_neg hvalid]
  rfl

theorem rxAction_handled (h : Handled sm src buf) :
    rxAction sm src buf =
      if buf.byteAt 2 = setupRequest then .tpkM1 (readTpkM1 buf)
      else if buf.byteAt 2 = setupResponse then .tpkM2 (readTpkM2 buf)
      else if buf.byteAt 2 = setupConfirm then .tpkM3 (readTpkM3 buf)
      else if buf.byteAt 2 = tdlsTeardown then .teardown (readTeardown buf)
      else if buf.byteAt 2 = discoveryRequest then .discovery (readDiscoveryRequest buf)
      else .ignored := by
  obtain ⟨hon, hother, hlen, htype, hcategory⟩ := h
  have hvalid : ¬ (buf.byteAt 0 ≠ tdlsRftype ∨ buf.byteAt 1 ≠ actionTdls) := by
    rw [htype, hcategory]
    simp
  unfold rxAction
  rw [if_neg (by rw [hon]; decide), if_neg hother, if_neg (by omega), if_neg hvalid]

theorem rxTdlsRead_ignored (h : ¬ Handled sm src buf) :
    rxTdlsRead suite sm env src buf slot = some (slot, []) ∧ rxAction sm src buf = .ignored := by
  unfold rxTdlsRead rxAction
  by_cases hon : (sm.tdlsDisabled || !sm.tdlsSupported) = true
  · rw [if_pos hon, if_pos hon]
    exact ⟨rfl, rfl⟩
  rw [if_neg hon, if_neg hon]
  by_cases hown : src = sm.ownAddr
  · rw [if_pos hown, if_pos hown]
    exact ⟨rfl, rfl⟩
  rw [if_neg hown, if_neg hown]
  by_cases hshort : buf.length < 3
  · rw [if_pos hshort, if_pos hshort]
    exact ⟨rfl, rfl⟩
  rw [if_neg hshort, if_neg hshort, bind_of_some (read8_eq (by omega)),
    bind_of_some (read8_eq (by omega)), bind_of_some (read8_eq (by omega))]
  have hinvalid : buf.byteAt 0 ≠ tdlsRftype ∨ buf.byteAt 1 ≠ actionTdls := by
    by_contra hvalid
    obtain ⟨htype, hcategory⟩ := not_or.mp hvalid
    exact h ⟨Bool.eq_false_iff.mpr hon, hown, by omega, not_not.mp htype, not_not.mp hcategory⟩
  rw [if_pos hinvalid, if_pos hinvalid]
  exact ⟨rfl, rfl⟩

/-- A frame whose elements are parsed is the message of what the parser has stored. -/
theorem rxTdlsRead_parsed (h : Handled sm src buf) {s : Span} (hs : s ∈ elementsOf sm env buf slot)
    (hreason : buf.byteAt 2 = tdlsTeardown → slot.isSome = true → 5 ≤ buf.length) :
    rxTdlsRead suite sm env src buf slot = (parseIesRead buf s.off s.len).map fun kde =>
      act suite sm (env.copies kde) src slot (actionOf buf (buf.drop s.off) kde) := by
  rw [rxTdlsRead_handled h]
  unfold actionOf
  simp only [elementsOf, Option.mem_def] at hs
  split_ifs at hs ⊢ with _ hm1 _ hm2 _ hm3 hteardown hslot _ hdiscovery
  · obtain rfl := Option.some.inj hs
    exact processTpkM1Read_parsed hm1.1 hm1.2
  · obtain rfl := Option.some.inj hs
    exact processTpkM2Read_parsed hm2.1 hm2.2.1 hm2.2.2
  · obtain rfl := Option.some.inj hs
    exact processTpkM3Read_parsed hm3.1 hm3.2.1 hm3.2.2
  · obtain rfl := Option.some.inj hs
    exact recvTeardownRead_parsed (hreason hteardown hslot) hslot
  · obtain rfl := Option.some.inj hs
    exact processDiscoveryRequestRead_parsed hdiscovery

theorem rxTdlsRead_unparsed (h : Handled sm src buf) (hnone : elementsOf sm env buf slot = none) :
    rxTdlsRead suite sm env src buf slot =
      some (act suite sm env src slot (rxAction sm src buf)) := by
  rw [rxTdlsRead_handled h, rxAction_handled h]
  simp only [elementsOf] at hnone
  split_ifs at hnone ⊢ with _ hm1 _ hm2 _ hm3 _ hslot _ hdiscovery
  · exact processTpkM1Read_unparsed hm1
  · exact processTpkM2Read_unparsed hm2
  · exact processTpkM3Read_unparsed hm3
  · rw [Option.not_isSome_iff_eq_none.mp hslot]
    rfl
  · exact processDiscoveryRequestRead_unparsed hdiscovery
  · rfl

/-- A frame is processed inside itself exactly if it fits what its handler takes for granted. -/
theorem rxTdlsRead_isSome_iff :
    (rxTdlsRead suite sm env src buf slot).isSome = true ↔
      (Handled sm src buf → FrameFits sm env buf slot) := by
  by_cases h : Handled sm src buf
  swap
  · rw [(rxTdlsRead_ignored h).1]
    exact iff_of_true rfl fun hhandled => absurd hhandled h
  by_cases hreason : buf.byteAt 2 = tdlsTeardown → slot.isSome = true → 5 ≤ buf.length
  swap
  · refine iff_of_false ?_ fun hfits => hreason (hfits h).reason
    obtain ⟨hteardown, hslot⟩ := Classical.not_imp.mp hreason
    obtain ⟨hslot, hshort⟩ := Classical.not_imp.mp hslot
    rw [rxTdlsRead_handled h, if_neg (by rw [hteardown]; decide), if_neg (by rw [hteardown]; decide),
      if_neg (by rw [hteardown]; decide), if_pos hteardown, recvTeardownRead_short (by omega) hslot]
    exact Bool.false_ne_true
  cases hs : elementsOf sm env buf slot with
  | none =>
    rw [rxTdlsRead_unparsed h hs]
    refine iff_of_true rfl fun _ => ⟨hreason, fun s hmem => ?_⟩
    rw [hs] at hmem
    cases hmem
  | some s =>
    have hinside := elementsOf_inside (Option.mem_def.mpr hs) hreason
    rw [rxTdlsRead_parsed h hs hreason, Option.isSome_map, parseIesRead_isSome_iff hinside]
    constructor
    · intro hall _
      refine ⟨hreason, fun s' hs' => ?_⟩
      obtain rfl := Option.some.inj (hs.symm.trans hs')
      exact hall
    · intro hfits
      exact (hfits h).selectors s hs

/-- Where the length of the elements fits its variable, checking the accesses changes nothing but
that a WMM element can be too short to be copied. -/
theorem rxTdlsRead_act (hlen : buf.length < 6 + 2 ^ 16) {result : Slot K × List (TdlsOut K)}
    (hread : rxTdlsRead suite sm env src buf slot = some result) :
    ∃ env', (env' = env ∨ ∃ kde, env' = env.copies kde) ∧
      result = act suite sm env' src slot (rxAction sm src buf) := by
  by_cases h : Handled sm src buf
  swap
  · obtain ⟨hignored, haction⟩ := @rxTdlsRead_ignored K suite sm env src buf slot h
    rw [hignored] at hread
    obtain rfl := Option.some.inj hread
    exact ⟨env, Or.inl rfl, by rw [haction]; rfl⟩
  have hfits := rxTdlsRead_isSome_iff.mp (Option.isSome_iff_exists.mpr ⟨result, hread⟩) h
  cases hs : elementsOf sm env buf slot with
  | none =>
    rw [rxTdlsRead_unparsed h hs] at hread
    exact ⟨env, Or.inl rfl, (Option.some.inj hread).symm⟩
  | some s =>
    rw [rxTdlsRead_parsed h hs hfits.reason] at hread
    obtain ⟨kde, hkde, rfl⟩ := Option.map_eq_some_iff.mp hread
    refine ⟨env.copies kde, Or.inr ⟨kde, rfl⟩, congrArg _ ?_⟩
    have hwhole {off len : ℕ} (hrest : len = buf.length - off)
        (hparse : parseIesRead buf off len = some kde) :
        iesOf (buf.drop off) kde = readIes (buf.drop off) := by
      unfold parseIesRead at hparse
      split_ifs at hparse
      have hdrop : (buf.drop off).length = len := by
        rw [List.length_drop, hrest]
      rw [← hdrop] at hparse
      have hstored := storedIesRead_eq (Nat.le_add_left _ _) hparse
      unfold readIes
      rw [storedIes, hstored]
      rfl
    have hsub {k : ℕ} (hk : k ≤ buf.length) : sizeSub buf.length k = buf.length - k := by
      unfold sizeSub
      omega
    have hlnkid : lnkidSize = 20 := rfl
    rw [rxAction_handled h]
    unfold actionOf
    simp only [elementsOf] at hs
    split_ifs at hs ⊢ with _ hm1 _ hm2 _ hm3 hteardown hslot _ hdiscovery
    · obtain rfl := Option.some.inj hs
      rw [msgOf, hwhole (by simp only; rw [hsub hm1.1]; omega) hkde, readTpkM1]
    · obtain rfl := Option.some.inj hs
      rw [msgOf, hwhole (hsub hm2.1) hkde, readTpkM2]
    · obtain rfl := Option.some.inj hs
      rw [msgOf, hwhole (hsub hm3.1) hkde, readTpkM3]
    · obtain rfl := Option.some.inj hs
      rw [msgOf, hwhole (hsub (hfits.reason hteardown hslot)) hkde, readTeardown]
    · obtain rfl := Option.some.inj hs
      have hfour : 4 ≤ buf.length := by omega
      rw [msgOf, hwhole (hsub hfour) hkde, readDiscoveryRequest]

end Frames

/-! ### Runs -/

section Runs
variable {K : Type} (suite : TpkSuite K) (sm : TdlsSm)

/-- Every frame among the inputs fits when it arrives, up to the first that does not. -/
def FramesFit (peers : Peers K) (inputs : List TdlsInput) : Prop :=
  ∀ past env src buf future, inputs = past ++ .rx env src buf :: future →
    ∀ reached, runRead suite sm peers past = some reached → Handled sm src buf →
      FrameFits sm env buf (reached src)

variable {suite sm}

theorem stationStepRead_isSome_iff {peers : Peers K} {input : TdlsInput} :
    (stationStepRead suite sm peers input).isSome = true ↔
      ∀ env src buf, input = .rx env src buf → Handled sm src buf →
        FrameFits sm env buf (peers src) := by
  cases input with
  | rx env src buf =>
    rw [stationStepRead, Option.isSome_map, rxTdlsRead_isSome_iff]
    refine ⟨fun hfits => ?_, fun hall => hall env src buf rfl⟩
    rintro _ _ _ ⟨⟩
    exact hfits
  | start =>
    refine iff_of_true rfl ?_
    rintro _ _ _ ⟨⟩
  | remove =>
    refine iff_of_true rfl ?_
    rintro _ _ _ ⟨⟩
  | tpkRetryTimeout =>
    refine iff_of_true rfl ?_
    rintro _ _ _ ⟨⟩
  | tpkTimeout =>
    refine iff_of_true rfl ?_
    rintro _ _ _ ⟨⟩

theorem runRead_isSome_iff (peers : Peers K) (inputs : List TdlsInput) :
    (runRead suite sm peers inputs).isSome = true ↔ FramesFit suite sm peers inputs := by
  induction inputs generalizing peers with
  | nil =>
    refine iff_of_true rfl fun past env src buf future hinputs => ?_
    cases past <;> cases hinputs
  | cons input inputs ih =>
    have hstep := @stationStepRead_isSome_iff K suite sm peers input
    rw [runRead]
    cases hnext : stationStepRead suite sm peers input with
    | none =>
      rw [hnext] at hstep
      refine iff_of_false Bool.false_ne_true fun hall => Bool.false_ne_true (hstep.mpr ?_)
      rintro env src buf rfl
      exact hall [] env src buf inputs rfl peers rfl
    | some next =>
      obtain ⟨peers', out⟩ := next
      rw [hnext] at hstep
      refine (ih peers').trans ⟨fun hall => ?_, fun hall => ?_⟩
      · intro past env src buf future hinputs reached hreached
        cases past with
        | nil =>
          obtain ⟨rfl, -⟩ := List.cons.inj hinputs
          obtain rfl := Option.some.inj hreached
          exact hstep.mp rfl env src buf rfl
        | cons first past =>
          obtain ⟨rfl, hrest⟩ := List.cons.inj hinputs
          refine hall past env src buf future hrest reached ?_
          rw [runRead, hnext] at hreached
          exact hreached
      · intro past env src buf future hinputs reached hreached
        refine hall (input :: past) env src buf future (congrArg _ hinputs) reached ?_
        rw [runRead, hnext]
        exact hreached

/-- From the empty peer list on, all frames are processed inside themselves exactly as long as each
fits the peer list that it finds. -/
theorem rxTdls_inside_iff (suite : TpkSuite K) (sm : TdlsSm) (inputs : List TdlsInput) :
    (runRead suite sm noPeers inputs).isSome = true ↔ FramesFit suite sm noPeers inputs :=
  runRead_isSome_iff noPeers inputs

/-- A request to a station, and a frame from it. -/
def askedThen (buf : Bytes) : List TdlsInput :=
  [.start (plainEnv (some (nonceOf 1))) plainPeer, .rx (plainEnv none) plainPeer buf]

theorem runRead_askedThen {buf : Bytes} (hframe : Handled plainSm plainPeer buf)
    (hrun : (runRead plainSuite plainSm noPeers (askedThen buf)).isSome = true) :
    ∃ peer, FrameFits plainSm (plainEnv none) buf (some peer : Slot (Bytes × Bytes × Bytes)) := by
  have hfits := (runRead_isSome_iff noPeers _).mp hrun [.start (plainEnv (some (nonceOf 1))) plainPeer]
    (plainEnv none) plainPeer buf [] rfl _ rfl hframe
  simp only [TdlsInput.addr, Function.update_self] at hfits
  exact ⟨_, hfits⟩

/-- A teardown that ends before its reason code, and one with a vendor element of one octet at its
end, each from a station that has been asked for a link. -/
theorem rxTdls_leaves_frame :
    (runRead plainSuite plainSm noPeers (askedThen [2, 12, 3])).isSome = false ∧
      (runRead plainSuite plainSm noPeers (askedThen [2, 12, 3, 26, 0, 0xdd, 1, 0])).isSome = false := by
  constructor
  · refine Bool.eq_false_iff.mpr fun hrun => ?_
    obtain ⟨peer, hfits⟩ := runRead_askedThen ⟨rfl, by decide, by decide, rfl, rfl⟩ hrun
    exact absurd (hfits.reason rfl rfl) (by decide)
  · refine Bool.eq_false_iff.mpr fun hrun => ?_
    obtain ⟨peer, hfits⟩ := runRead_askedThen ⟨rfl, by decide, by decide, rfl, rfl⟩ hrun
    have hs : elementsOf plainSm (plainEnv none) [2, 12, 3, 26, 0, 0xdd, 1, 0] (some peer) =
        some ⟨5, 3⟩ := by
      unfold elementsOf sizeSub
      rfl
    exact absurd (hfits.selectors _ hs 0 (.here 0) rfl (by decide) (by decide) (by decide)) (by decide)

end Runs

end Wpa.Tdls
