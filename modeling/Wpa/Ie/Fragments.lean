import Wpa.Ie.Elements

/-! Which element a recorded fragment belongs to. `last_eid` and `last_eid_ext` are sticky: they
survive shorter elements, and `last_eid_ext` survives full-length elements without an extension
identifier. Where neither happens in front of a recorded fragment, the fragments are those of the
elements they follow. -/

namespace Wpa.Ie
open Lib Bytes

/-- The Fragment elements that continue an element, from the elements behind it; `full` tells
whether the element (and then each fragment) has length 255. -/
def ownFragments : Bool → List Element → List Element
  | _, [] => []
  | full, f :: rest =>
    if full ∧ f.id = eidFragment then f :: ownFragments f.full rest else []

def Element.tag (b : Bytes) (e f : Element) : FragIe := ⟨e.id, e.ext b, f.data⟩

/-- Every fragment under the element it continues, in the order of the string. -/
def attributed (b : Bytes) : List Element → List FragIe
  | [] => []
  | e :: rest =>
    (if e.Opens b then (ownFragments e.full rest).map (e.tag b) else []) ++ attributed b rest

/-- A fragment that is about to be recorded directly follows a full-length element or fragment, and
`last_eid_ext` is not left over from another element than the one `last_eid` is from. -/
def Attributable (b : Bytes) : Bool → Elems → List Element → Prop
  | _, _, [] => True
  | full, elems, e :: rest =>
    (e.id = eidFragment → elems.fragIes.lastEid ≠ 0 →
      elems.fragIes.frags.length < maxNumFragIesSupported →
      full ∧ (elems.fragIes.lastEid = eidExtension ∨ elems.fragIes.lastEidExt = 0)) ∧
    Attributable b e.full (parseElem b elems e) rest

instance decidableAttributable (b : Bytes) :
    ∀ full elems es, Decidable (Attributable b full elems es)
  | _, _, [] => isTrue trivial
  | _, elems, e :: rest =>
    have := decidableAttributable b e.full (parseElem b elems e) rest
    inferInstanceAs (Decidable ((_ → _ → _ → _ ∧ (_ ∨ _)) ∧ _))

def fragmented : List ℕ := [eidExtFilsHlpContainer, eidExtWrappedData]

/-- When the element that `ieee802_11_defrag` selects is reached, no fragment is recorded for an
earlier element of its kind. -/
def SoleOfItsKind (b : Bytes) (es : List Element) : Prop :=
  ∀ k ∈ fragmented, ∀ pre e post, es = pre ++ e :: post → e.Selects b k →
    (∀ x ∈ post, ¬ x.Selects b k) → e.body.len ≠ 0 →
    (parseList b {} pre).fragsOf eidExtension k = []

/-- Every recorded fragment carries the identifiers of an element that it follows through
full-length fragments only. -/
def RecordedFollow (b : Bytes) (es : List Element) : Prop :=
  ∀ frag ∈ (parseList b {} es).fragIes.frags, ∃ pre e post f, es = pre ++ e :: post ∧
    e.id ≠ eidFragment ∧ f ∈ ownFragments e.full post ∧ frag = e.tag b f

/-- Defragmentation appends to the selected element exactly its own fragments, as far as there was
room to record them. -/
def DefragOwn (b : Bytes) (es : List Element) : Prop :=
  ∀ k ∈ fragmented, ∀ pre e post, es = pre ++ e :: post → e.Selects b k →
    (parseList b {} es).selected k = some e.body → e.body.len ≠ 0 →
    let own := (ownFragments e.full post).take
      (maxNumFragIesSupported - (parseList b {} pre).fragIes.frags.length)
    ((parseList b {} es).fragsOf eidExtension k).map FragIe.ie = own.map Element.data ∧
    defrag b (parseList b {} es) eidExtension k =
      some (e.body.read b ++ own.flatMap fun f => f.data.read b)

section Attribution
variable {b : Bytes} {es : List Element} {elems : Elems} {e f : Element}

theorem ownFragments_false (es : List Element) : ownFragments false es = [] := by
  cases es <;> simp [ownFragments]

theorem ownFragments_append {full : Bool} {post : List Element} (he : e.id ≠ eidFragment) :
    ownFragments full (es ++ e :: post) = ownFragments full es := by
  induction es generalizing full with
  | nil => simp [ownFragments, he]
  | cons x es ih => simp only [List.cons_append, ownFragments, ih]

theorem attributed_append {post : List Element} (he : e.id ≠ eidFragment) :
    attributed b (es ++ e :: post) = attributed b es ++ attributed b (e :: post) := by
  induction es with
  | nil => rfl
  | cons x es ih =>
    rw [List.cons_append, attributed, attributed, ih, ownFragments_append he, List.append_assoc]

theorem mem_attributed {frag : FragIe} (h : frag ∈ attributed b es) :
    ∃ pre e post f, es = pre ++ e :: post ∧ e.Opens b ∧ f ∈ ownFragments e.full post ∧
      frag = e.tag b f := by
  induction es with
  | nil => simp [attributed] at h
  | cons x es ih =>
    rw [attributed, List.mem_append] at h
    rcases h with h | h
    · split at h
      · rename_i ho
        obtain ⟨f, hf, rfl⟩ := List.mem_map.mp h
        exact ⟨[], x, es, f, rfl, ho, hf, rfl⟩
      · simp at h
    · obtain ⟨pre, e, post, f, rfl, ho, hf, hfrag⟩ := ih h
      exact ⟨x :: pre, e, post, f, rfl, ho, hf, hfrag⟩

/-- The place of an own fragment in the string: it stands behind a full-length element. -/
theorem mem_ownFragments {full : Bool} (h : f ∈ ownFragments full es) :
    ∃ chain rest, es = chain ++ f :: rest ∧ f.id = eidFragment ∧
      (chain.getLast?.map Element.full).getD full = true := by
  induction es generalizing full with
  | nil => simp [ownFragments] at h
  | cons x es ih =>
    rw [ownFragments] at h
    split at h
    · rename_i hx
      rcases List.mem_cons.mp h with rfl | h
      · exact ⟨[], es, rfl, hx.2, hx.1⟩
      · obtain ⟨chain, rest, rfl, hf, hfull⟩ := ih h
        refine ⟨x :: chain, rest, rfl, hf, ?_⟩
        rcases List.eq_nil_or_concat chain with rfl | ⟨ys, y, rfl⟩
        · simpa using hfull
        · rw [List.concat_eq_append] at hfull ⊢
          rw [← List.cons_append, List.getLast?_concat]
          simpa using hfull
    · simp at h

/-- What the fields `last_eid` and `last_eid_ext` say about the element `owner`, the one that the
next Fragment element continues if `full` is set. -/
def Marks (b : Bytes) (full : Bool) (elems : Elems) : Option Element → Prop
  | some o => o.Opens b ∧ elems.fragIes.lastEid = o.id ∧
      (o.id = eidExtension → elems.fragIes.lastEidExt = o.ext b)
  | none => full → elems.fragIes.lastEid = 0 ∨
      maxNumFragIesSupported ≤ elems.fragIes.frags.length

theorem parseElem_frags (h : e.id ≠ eidFragment) :
    (parseElem b elems e).fragIes.frags = elems.fragIes.frags := by
  by_cases hx : e.id = eidExtension
  · rcases Nat.eq_zero_or_pos e.data.len with hl | hl
    · rw [parseElem_emptyExtension hx hl]
      split <;> rfl
    · rw [parseElem_extension hx hl]
      split <;> rfl
  · rw [parseElem_plain h hx]
    split <;> rfl

/-- An element that is not a fragment hands over to itself, if it opens a series, or to nobody. -/
theorem parseElem_marks (h : e.id ≠ eidFragment) :
    Marks b e.full (parseElem b elems e) (if e.Opens b then some e else none) := by
  split
  · rename_i ho
    by_cases hx : e.id = eidExtension
    · have hl : 0 < e.data.len := by
        have : e.data.len = 255 := by simpa [Element.full] using ho.2.2.1
        omega
      simp [Marks, ho, parseElem_extension hx hl]
    · refine ⟨ho, ?_, fun hx' => absurd hx' hx⟩
      rw [parseElem_plain h hx, if_pos ho.2.2.1]
  · rename_i ho
    intro hfull
    left
    by_cases hx : e.id = eidExtension
    · have hl : 0 < e.data.len := by
        have : e.data.len = 255 := by simpa [Element.full] using hfull
        omega
      rw [parseElem_extension hx hl, if_neg ho]
    · rw [parseElem_plain h hx, if_pos hfull]
      by_contra hid
      exact ho ⟨hid, h, hfull, fun hx' => absurd hx' hx⟩

theorem parseFragment_recorded {s : FragIesInfo} {d : Span}
    (h : s.lastEid ≠ 0 ∧ s.frags.length < maxNumFragIesSupported) :
    parseFragment s d = { s with frags := s.frags ++ [⟨s.lastEid, s.lastEidExt, d⟩] } := by
  rw [parseFragment, if_neg (by omega), if_neg h.1]

theorem parseFragment_skipped {s : FragIesInfo} {d : Span}
    (h : ¬ (s.lastEid ≠ 0 ∧ s.frags.length < maxNumFragIesSupported)) :
    parseFragment s d = s := by
  unfold parseFragment
  split_ifs with h₁ h₂
  · rfl
  · rfl
  · exact absurd ⟨h₂, by omega⟩ h

theorem Marks.tag_eq {full : Bool} {o : Element} (h : Marks b full elems (some o))
    (hext : elems.fragIes.lastEid = eidExtension ∨ elems.fragIes.lastEidExt = 0) :
    (⟨elems.fragIes.lastEid, elems.fragIes.lastEidExt, e.data⟩ : FragIe) = o.tag b e := by
  obtain ⟨-, hid, hx⟩ := h
  rw [Element.tag, hid]
  rw [hid] at hext
  by_cases ho : o.id = eidExtension
  · rw [hx ho]
  · have hzero : o.ext b = 0 := if_neg fun h => ho h.1
    rw [hext.resolve_left ho, hzero]

/-- The recorded fragments are the attributed ones, up to the limit. The induction carries the
fragments `owner` still has coming. -/
theorem parseList_frags {full : Bool} {owner : Option Element}
    (hmic : ∀ e ∈ es, e.id ≠ eidMic) (hattr : Attributable b full elems es)
    (hmarks : Marks b full elems owner) :
    (parseList b elems es).fragIes.frags =
      elems.fragIes.frags ++
        ((owner.elim [] fun o => (ownFragments full es).map (o.tag b)) ++ attributed b es).take
          (maxNumFragIesSupported - elems.fragIes.frags.length) := by
  induction es generalizing full elems owner with
  | nil => cases owner <;> simp [parseList, ownFragments, attributed]
  | cons e es ih =>
    rw [List.forall_mem_cons] at hmic
    rw [parseList, if_neg hmic.1]
    obtain ⟨hhead, htail⟩ := hattr
    by_cases hf : e.id = eidFragment
    · have hplain : attributed b (e :: es) = attributed b es := by
        rw [attributed, if_neg fun ho => ho.2.1 hf, List.nil_append]
      by_cases hrec : elems.fragIes.lastEid ≠ 0 ∧
          elems.fragIes.frags.length < maxNumFragIesSupported
      · -- the fragment is recorded, and what precedes it is the element it continues
        obtain ⟨hfull, hext⟩ := hhead hf hrec.1 hrec.2
        obtain _ | o := owner
        · rcases hmarks hfull with h | h
          · exact absurd h hrec.1
          · exact absurd hrec.2 (not_lt.mpr h)
        · have hstep : (parseElem b elems e).fragIes =
              { elems.fragIes with frags := elems.fragIes.frags ++ [o.tag b e] } := by
            rw [parseElem_fragment hf, parseFragment_recorded hrec, hmarks.tag_eq hext]
          have hmarks' : Marks b e.full (parseElem b elems e) (some o) := by
            refine ⟨hmarks.1, ?_, ?_⟩
            · rw [hstep]
              exact hmarks.2.1
            · rw [hstep]
              exact hmarks.2.2
          have hroom : maxNumFragIesSupported - elems.fragIes.frags.length =
              maxNumFragIesSupported - (elems.fragIes.frags.length + 1) + 1 := by omega
          rw [ih hmic.2 htail hmarks', hstep, hplain]
          simp [ownFragments, hfull, hf, hroom]
      · have hstep : (parseElem b elems e).fragIes = elems.fragIes := by
          rw [parseElem_fragment hf, parseFragment_skipped hrec]
        have hmarks' : Marks b e.full (parseElem b elems e) none := by
          intro _
          rw [hstep]
          by_contra h
          rw [not_or] at h
          exact hrec ⟨h.1, by omega⟩
        rw [ih hmic.2 htail hmarks', hstep, hplain]
        rcases Nat.lt_or_ge elems.fragIes.frags.length maxNumFragIesSupported with hn | hn
        · obtain _ | o := owner
          · rfl
          · exact absurd ⟨hmarks.2.1 ▸ hmarks.1.1, hn⟩ hrec
        · rw [Nat.sub_eq_zero_of_le hn]
          simp
    · rw [ih hmic.2 htail (parseElem_marks hf), parseElem_frags hf]
      congr 2
      have hnone : (owner.elim [] fun o => (ownFragments full (e :: es)).map (o.tag b)) = [] := by
        cases owner <;> simp [ownFragments, hf]
      rw [hnone, List.nil_append, attributed]
      split <;> simp

end Attribution

section Own
variable {b : Bytes} {es : List Element} {elems : Elems}

theorem parseList_prefix_frags (hmic : ∀ e ∈ es, e.id ≠ eidMic) :
    elems.fragIes.frags <+: (parseList b elems es).fragIes.frags := by
  induction es generalizing elems with
  | nil => exact List.prefix_rfl
  | cons e es ih =>
    rw [List.forall_mem_cons] at hmic
    rw [parseList, if_neg hmic.1]
    refine List.IsPrefix.trans ?_ (ih hmic.2)
    by_cases hf : e.id = eidFragment
    · rw [parseElem_fragment hf]
      by_cases hrec : elems.fragIes.lastEid ≠ 0 ∧
          elems.fragIes.frags.length < maxNumFragIesSupported
      · rw [parseFragment_recorded hrec]
        exact List.prefix_append _ _
      · rw [parseFragment_skipped hrec]
    · rw [parseElem_frags hf]

theorem attributable_of_append {full : Bool} {pre post : List Element}
    (h : Attributable b full elems (pre ++ post)) : Attributable b full elems pre := by
  induction pre generalizing full elems with
  | nil => trivial
  | cons e pre ih => exact ⟨h.1, ih h.2⟩

theorem parseList_frags_eq (hmic : ∀ e ∈ es, e.id ≠ eidMic)
    (hattr : Attributable b false {} es) :
    (parseList b {} es).fragIes.frags = (attributed b es).take maxNumFragIesSupported := by
  have hmarks : Marks b false {} none := fun h => absurd h (by decide)
  rw [parseList_frags hmic hattr hmarks]
  rfl

theorem recordedFollow_of_attributable (hmic : ∀ e ∈ es, e.id ≠ eidMic)
    (hattr : Attributable b false {} es) : RecordedFollow b es := by
  intro frag hfrag
  rw [parseList_frags_eq hmic hattr] at hfrag
  obtain ⟨pre, e, post, f, hes, ho, hf, htag⟩ := mem_attributed (List.mem_of_mem_take hfrag)
  exact ⟨pre, e, post, f, hes, ho.2.1, hf, htag⟩

theorem Element.Selects.opens_iff {k : ℕ} {e : Element} (hk : k ∈ fragmented)
    (h : e.Selects b k) : e.Opens b ↔ e.full := by
  obtain ⟨hid, -, hext, -⟩ := h
  have hknown : ∀ k ∈ fragmented, k ∈ knownExtensions := by decide
  simp [Element.Opens, hid, hext, hknown k hk, show ¬ eidExtension = eidSsid by decide,
    show ¬ eidExtension = eidFragment by decide]

/-- A full-length element with the identifiers of a kind is one that is selected for it. -/
theorem Element.Opens.selects {k : ℕ} {e : Element} (h : e.Opens b)
    (hid : e.id = eidExtension) (hext : e.ext b = k) : e.Selects b k := by
  have hlen : e.data.len = 255 := by simpa [Element.full] using h.2.2.1
  refine ⟨hid, by omega, hext, fun _ => ?_⟩
  rw [hlen]
  decide

def FragIe.isOf (k : ℕ) (f : FragIe) : Bool := f.eid = eidExtension ∧ f.eidExt = k

theorem filter_attributed_eq_nil {k : ℕ} (h : ∀ x ∈ es, ¬ x.Selects b k) : (attributed b es).filter (FragIe.isOf k) = [] := by
  rw [List.filter_eq_nil_iff]
  intro frag hfrag hof
  obtain ⟨pre, e, post, f, rfl, ho, -, rfl⟩ := mem_attributed hfrag
  have hof' : e.id = eidExtension ∧ e.ext b = k := of_decide_eq_true hof
  exact h e (by simp) (ho.selects hof'.1 hof'.2)

theorem fragsOf_selected {k : ℕ} {pre post : List Element} {e : Element} (hk : k ∈ fragmented)
    (hmic : ∀ x ∈ pre ++ e :: post, x.id ≠ eidMic)
    (hattr : Attributable b false {} (pre ++ e :: post)) (hsel : e.Selects b k)
    (hlast : ∀ x ∈ post, ¬ x.Selects b k)
    (hsole : (parseList b {} pre).fragsOf eidExtension k = []) :
    (parseList b {} (pre ++ e :: post)).fragsOf eidExtension k =
      ((ownFragments e.full post).take
        (maxNumFragIesSupported - (parseList b {} pre).fragIes.frags.length)).map (e.tag b) := by
  have hne : e.id ≠ eidFragment := by
    rw [hsel.1]
    decide
  have hpre := parseList_frags_eq (fun x hx => hmic x (by simp [hx])) (attributable_of_append hattr)
  have hown : (if e.Opens b then (ownFragments e.full post).map (e.tag b) else []) =
      (ownFragments e.full post).map (e.tag b) := by
    split
    · rfl
    · rename_i ho
      rw [hsel.opens_iff hk, Bool.not_eq_true] at ho
      rw [ho, ownFragments_false]
      rfl
  have hof : ∀ f, FragIe.isOf k (e.tag b f) = true := by
    intro f
    simp [FragIe.isOf, Element.tag, hsel.1, hsel.2.2.1]
  have hlater : ∀ n, ((attributed b post).take n).filter (FragIe.isOf k) = [] := by
    intro n
    have := filter_attributed_eq_nil hlast
    rw [List.filter_eq_nil_iff] at this ⊢
    exact fun f hf => this f (List.mem_of_mem_take hf)
  have hearlier : ((attributed b pre).take maxNumFragIesSupported).filter (FragIe.isOf k) = [] := by
    rw [← hpre]
    exact hsole
  have hroom : maxNumFragIesSupported - (parseList b {} pre).fragIes.frags.length =
      maxNumFragIesSupported - (attributed b pre).length := by
    rw [hpre, List.length_take]
    omega
  show (parseList b {} (pre ++ e :: post)).fragIes.frags.filter (FragIe.isOf k) = _
  rw [parseList_frags_eq hmic hattr, attributed_append hne, attributed, hown, List.take_append,
    List.filter_append, hearlier, List.take_append, List.filter_append, hlater, hroom,
    List.nil_append, List.append_nil, ← List.map_take]
  exact List.filter_eq_self.mpr fun f hf => by
    obtain ⟨x, -, rfl⟩ := List.mem_map.mp hf
    exact hof x

theorem parseExtension_selected {k : ℕ} {data : Span} (hk : k ∈ fragmented) :
    (parseExtension b data elems).selected k =
      if 0 < data.len ∧ b.byteAt data.off = k ∧
          (k = eidExtFilsHlpContainer → 2 * ethAlen ≤ data.len - 1) then
        some ⟨data.off + 1, data.len - 1⟩
      else elems.selected k := by
  have hhlp : eidExtFilsHlpContainer ∈ knownExtensions := by decide
  have hwd : eidExtWrappedData ∈ knownExtensions := by decide
  have hne : eidExtWrappedData ≠ eidExtFilsHlpContainer := by decide
  have hkind : k = eidExtFilsHlpContainer ∨ k = eidExtWrappedData := by simpa [fragmented] using hk
  by_cases hl : data.len < 1
  · rw [parseExtension, if_pos hl, if_neg fun h => by omega]
  · have hpos : 0 < data.len := by omega
    simp only [parseExtension, hl, if_false, hpos, true_and]
    by_cases hext : b.byteAt data.off = k
    · rw [hext]
      rcases hkind with rfl | rfl
      · by_cases hshort : data.len - 1 < 2 * ethAlen
        · have hge : ¬ 2 * ethAlen ≤ data.len - 1 := by omega
          simp only [hhlp, hshort, hge, not_true_eq_false, if_true, if_false, true_and,
            forall_const, Elems.selected]
          split_ifs <;> rfl
        · have hge : 2 * ethAlen ≤ data.len - 1 := by omega
          simp only [hhlp, hshort, hge, not_true_eq_false, if_true, if_false, true_and,
            forall_const, Elems.selected]
          split_ifs <;> rfl
      · simp only [hwd, hne, not_true_eq_false, if_true, if_false, true_and, false_implies,
          Elems.selected]
        split_ifs <;> rfl
    · -- an element of another kind leaves the pointer alone
      rcases hkind with rfl | rfl
      · simp only [hext, if_false, Elems.selected, if_true, false_and]
        split_ifs <;> rfl
      · simp only [hext, if_false, Elems.selected, if_true, hne, false_and]
        split_ifs <;> rfl

theorem parseElem_selected {k : ℕ} {e : Element} (hk : k ∈ fragmented) :
    (parseElem b elems e).selected k =
      if e.Selects b k then some e.body else elems.selected k := by
  have hstep : (parseElem b elems e).selected k =
      if e.id = eidExtension then (parseExtension b e.data elems).selected k
      else elems.selected k := by
    unfold parseElem
    by_cases hf : e.id = eidFragment
    · simp [hf, Elems.selected, show ¬ eidFragment = eidExtension by decide]
    · simp only [hf, if_false]
      split_ifs <;> rfl
  rw [hstep]
  by_cases hx : e.id = eidExtension
  · rw [if_pos hx, parseExtension_selected hk]
    by_cases hl : 0 < e.data.len
    · have hext : e.ext b = b.byteAt e.data.off := if_pos ⟨hx, hl⟩
      simp only [Element.Selects, hx, hl, hext, true_and, Element.body]
    · simp [Element.Selects, hl]
  · rw [if_neg hx, if_neg fun h => hx h.1]

theorem parseList_selected {k : ℕ} (hk : k ∈ fragmented) (hmic : ∀ e ∈ es, e.id ≠ eidMic) :
    (parseList b elems es).selected k =
      ((es.filter fun e => e.Selects b k).getLast?.map Element.body).or (elems.selected k) := by
  induction es generalizing elems with
  | nil => rfl
  | cons e es ih =>
    rw [List.forall_mem_cons] at hmic
    rw [parseList, if_neg hmic.1, ih hmic.2, parseElem_selected hk]
    by_cases hs : e.Selects b k
    · simp only [hs, if_true, List.filter_cons_of_pos, decide_true, List.getLast?_cons,
        Option.map_some, Option.some_or]
      cases (es.filter fun e => e.Selects b k).getLast? <;> rfl
    · simp [hs]

theorem selected_iff_last {k : ℕ} {pre post : List Element} {e : Element} (hk : k ∈ fragmented)
    (hmic : ∀ x ∈ pre ++ e :: post, x.id ≠ eidMic)
    (hp : (pre ++ e :: post).Pairwise fun x y => x.data.off < y.data.off)
    (hsel : e.Selects b k) :
    (parseList b {} (pre ++ e :: post)).selected k = some e.body ↔
      ∀ x ∈ post, ¬ x.Selects b k := by
  rw [parseList_selected hk hmic, List.filter_append, List.filter_cons_of_pos (by simpa using hsel)]
  constructor
  · intro h x hx hxs
    have hmem : x ∈ post.filter fun e => e.Selects b k := by simp [hx, hxs]
    obtain ⟨y, hy⟩ := Option.ne_none_iff_exists'.mp
      (mt List.getLast?_eq_none_iff.mp (List.ne_nil_of_mem hmem))
    have hpost : y ∈ post := List.mem_of_mem_filter (List.mem_of_getLast? hy)
    have hlt := List.rel_of_pairwise_cons (List.pairwise_append.mp hp).2.1 hpost
    rw [List.getLast?_append, List.getLast?_cons, hy] at h
    have hoff : y.data.off = e.data.off := by simpa [Element.body] using congrArg (·.map Span.off) h
    omega
  · intro h
    have hnil : (post.filter fun e => e.Selects b k) = [] := by
      rw [List.filter_eq_nil_iff]
      intro x hx
      simpa using h x hx
    rw [hnil]
    simp

theorem parseList_snoc {pre : List Element} {e : Element} (hmic : ∀ x ∈ pre, x.id ≠ eidMic)
    (he : e.id ≠ eidMic) :
    parseList b elems (pre ++ [e]) = parseElem b (parseList b elems pre) e := by
  rw [parseList_append hmic, parseList, if_neg he, parseList]

theorem frags_mem_elements {frag : FragIe} (hmic : ∀ e ∈ es, e.id ≠ eidMic)
    (h : frag ∈ (parseList b elems es).fragIes.frags) :
    frag ∈ elems.fragIes.frags ∨ ∃ x ∈ es, x.data = frag.ie := by
  induction es generalizing elems with
  | nil => exact Or.inl h
  | cons e es ih =>
    rw [List.forall_mem_cons] at hmic
    rw [parseList, if_neg hmic.1] at h
    rcases ih hmic.2 h with h | ⟨x, hx, hd⟩
    · by_cases hf : e.id = eidFragment
      · rw [parseElem_fragment hf] at h
        by_cases hrec : elems.fragIes.lastEid ≠ 0 ∧
            elems.fragIes.frags.length < maxNumFragIesSupported
        · rw [parseFragment_recorded hrec, List.mem_append, List.mem_singleton] at h
          rcases h with h | rfl
          · exact Or.inl h
          · exact Or.inr ⟨e, List.mem_cons_self, rfl⟩
        · rw [parseFragment_skipped hrec] at h
          exact Or.inl h
      · rw [parseElem_frags hf] at h
        exact Or.inl h
    · exact Or.inr ⟨x, List.mem_cons_of_mem _ hx, hd⟩

theorem attributable_of_recordedFollow (hp : es.Pairwise fun x y => x.data.off < y.data.off)
    (hmic : ∀ e ∈ es, e.id ≠ eidMic) (h : RecordedFollow b es) : Attributable b false {} es := by
  suffices hsuffix : ∀ rest pre, es = pre ++ rest →
      Attributable b ((pre.getLast?.map Element.full).getD false) (parseList b {} pre) rest from
    hsuffix es [] rfl
  intro rest
  induction rest with
  | nil => exact fun _ _ => trivial
  | cons e rest ih =>
    intro pre hes
    have hmic' : (∀ x ∈ pre, x.id ≠ eidMic) ∧ e.id ≠ eidMic ∧ ∀ x ∈ rest, x.id ≠ eidMic := by
      rw [hes] at hmic
      exact ⟨fun x hx => hmic x (by simp [hx]), hmic e (by simp), fun x hx => hmic x (by simp [hx])⟩
    have hsnoc : parseList b {} (pre ++ [e]) = parseElem b (parseList b {} pre) e :=
      parseList_snoc hmic'.1 hmic'.2.1
    refine ⟨fun hf hlast hroom => ?_, ?_⟩
    · -- the fragment is recorded here and stays recorded, so it follows its element
      have hrecorded : (⟨(parseList b {} pre).fragIes.lastEid,
          (parseList b {} pre).fragIes.lastEidExt, e.data⟩ : FragIe) ∈
            (parseList b {} es).fragIes.frags := by
        have hes' : es = (pre ++ [e]) ++ rest := by simp [hes]
        rw [hes', parseList_append (by simpa [or_imp, forall_and] using ⟨hmic'.1, hmic'.2.1⟩)]
        apply (parseList_prefix_frags hmic'.2.2).subset
        rw [hsnoc, parseElem_fragment hf, parseFragment_recorded ⟨hlast, hroom⟩]
        simp
      obtain ⟨pre', o, post, f, hes', -, hown, htag⟩ := h _ hrecorded
      obtain ⟨chain, rest', rfl, -, hfull⟩ := mem_ownFragments hown
      rw [Element.tag, FragIe.mk.injEq] at htag
      obtain ⟨hid, hext, hdata⟩ := htag
      have hsplit : pre ++ e :: rest = (pre' ++ o :: chain) ++ f :: rest' := by
        rw [← hes, hes']
        simp
      have hpre := (split_unique (hes ▸ hp) hsplit (by rw [hdata])).1
      constructor
      · rw [hpre, List.getLast?_append, List.getLast?_cons]
        cases hchain : chain.getLast? with
        | none => simpa [hchain] using hfull
        | some y => simpa [hchain] using hfull
      · rw [hid, hext]
        by_cases ho : o.id = eidExtension
        · exact Or.inl ho
        · exact Or.inr (if_neg fun h => ho h.1)
    · have htail := ih (pre ++ [e]) (by simp [hes])
      rw [hsnoc, List.getLast?_concat] at htail
      exact htail

theorem soleOfItsKind_of_defragOwn (hp : es.Pairwise fun x y => x.data.off < y.data.off)
    (hmic : ∀ e ∈ es, e.id ≠ eidMic) (h : DefragOwn b es) : SoleOfItsKind b es := by
  intro k hk pre e post hes hsel hlast hbody
  subst hes
  have hpre : ∀ x ∈ pre, x.id ≠ eidMic := fun x hx => hmic x (by simp [hx])
  have hpost : ∀ x ∈ e :: post, x.id ≠ eidMic := fun x hx => hmic x (List.mem_append_right _ hx)
  obtain ⟨hown, -⟩ := h k hk pre e post rfl hsel ((selected_iff_last hk hmic hp hsel).mpr hlast) hbody
  rw [List.eq_nil_iff_forall_not_mem]
  intro frag hfrag
  obtain ⟨hmem, hof⟩ := List.mem_filter.mp hfrag
  -- the fragment stands in front of the selected element, and an own fragment behind it
  obtain ⟨x, hx, hxd⟩ := (frags_mem_elements hpre hmem).resolve_left (by simp)
  have hused : frag ∈ (parseList b {} (pre ++ e :: post)).fragsOf eidExtension k := by
    refine List.mem_filter.mpr ⟨?_, hof⟩
    rw [parseList_append hpre]
    exact (parseList_prefix_frags hpost).subset hmem
  have hie := List.mem_map_of_mem (f := FragIe.ie) hused
  rw [hown] at hie
  obtain ⟨f, hf, hfd⟩ := List.mem_map.mp hie
  obtain ⟨chain, rest, rfl, -, -⟩ := mem_ownFragments (List.mem_of_mem_take hf)
  have hlt := (List.pairwise_append.mp hp).2.2 x hx f (by simp)
  rw [hxd, hfd] at hlt
  exact lt_irrefl _ hlt

theorem defragOwn_of_attributable (hp : es.Pairwise fun x y => x.data.off < y.data.off)
    (hmic : ∀ e ∈ es, e.id ≠ eidMic) (hattr : Attributable b false {} es)
    (hsole : SoleOfItsKind b es) : DefragOwn b es := by
  intro k hk pre e post hes hsel hselected hbody
  subst hes
  have hlast := (selected_iff_last hk hmic hp hsel).mp hselected
  have hfrags := fragsOf_selected hk hmic hattr hsel hlast
    (hsole k hk pre e post rfl hsel hlast hbody)
  constructor
  · rw [hfrags, List.map_map]
    rfl
  · rw [defrag, if_pos rfl, hselected, defragData, if_neg hbody, hfrags, List.flatMap_map]
    rfl

end Own

theorem fragments_belong_iff (b : Bytes) (hmic : ∀ e ∈ elements b, e.id ≠ eidMic) :
    RecordedFollow b (elements b) ∧ DefragOwn b (elements b) ↔
      Attributable b false {} (elements b) ∧ SoleOfItsKind b (elements b) := by
  have hp := elements_pairwise b
  constructor
  · rintro ⟨hfollow, hown⟩
    exact ⟨attributable_of_recordedFollow hp hmic hfollow, soleOfItsKind_of_defragOwn hp hmic hown⟩
  · rintro ⟨hattr, hsole⟩
    exact ⟨recordedFollow_of_attributable hmic hattr,
      defragOwn_of_attributable hp hmic hattr hsole⟩

/-- A Wrapped Data element of full length, an empty SSID element, and a Fragment element that
belongs to neither. -/
def strayFragment : Bytes := [255, 255, 8] ++ zeros 254 ++ [0, 0, 242, 1, 7]

theorem fragments_belong_iff_stray :
    (∀ e ∈ elements strayFragment, e.id ≠ eidMic) ∧
      (RecordedFollow strayFragment (elements strayFragment) ∧
          DefragOwn strayFragment (elements strayFragment) ↔
        Attributable strayFragment false {} (elements strayFragment) ∧
          SoleOfItsKind strayFragment (elements strayFragment)) :=
  have h : ∀ e ∈ elements strayFragment, e.id ≠ eidMic := by decide +kernel
  ⟨h, fragments_belong_iff strayFragment h⟩

theorem strayFragment_recorded :
    (∀ e ∈ elements strayFragment, e.id ≠ eidMic) ∧
      (parseElems strayFragment).fragIes.frags = [⟨255, 8, ⟨261, 1⟩⟩] ∧
      ¬ (RecordedFollow strayFragment (elements strayFragment) ∧
        DefragOwn strayFragment (elements strayFragment)) := by
  have hmic : ∀ e ∈ elements strayFragment, e.id ≠ eidMic := by decide +kernel
  have hfrags : (parseElems strayFragment).fragIes.frags = [⟨255, 8, ⟨261, 1⟩⟩] := by
    decide +kernel
  have hattr : ¬ Attributable strayFragment false {} (elements strayFragment) := by
    decide +kernel
  refine ⟨hmic, hfrags, fun h => ?_⟩
  generalize strayFragment = b at h hmic hattr
  exact hattr (attributable_of_recordedFollow (elements_pairwise b) hmic h.1)

end Wpa.Ie
