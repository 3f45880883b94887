import Wpa.Common.Kde

/-! `ieee802_11_parse_elems` as far as element fragments are concerned: the walk over the elements
of a management frame, the fragment bookkeeping in `struct frag_ies_info`, and
`ieee802_11_defrag`. Pointers into the frame are offsets; of the other fields of
`struct ieee802_11_elems` the bookkeeping reads none. -/

namespace Wpa.Ie
open Lib Bytes

structure Element where
  id : ℕ
  data : Span
  deriving DecidableEq

def eidSsid : ℕ := 0
def eidMic : ℕ := 140
def eidFragment : ℕ := 242
def eidExtFilsHlpContainer : ℕ := 5
def eidExtWrappedData : ℕ := 8

def maxNumFragIesSupported : ℕ := 3

/-- `for_each_element` from offset `off` on. Every element takes at least two octets, so the length
of the buffer is enough fuel. -/
def elementsFrom (b : Bytes) : ℕ → ℕ → List Element
  | 0, _ => []
  | fuel + 1, off =>
    if off + 2 ≤ b.length ∧ off + 2 + b.byteAt (off + 1) ≤ b.length then
      ⟨b.byteAt off, ⟨off + 2, b.byteAt (off + 1)⟩⟩ ::
        elementsFrom b fuel (off + 2 + b.byteAt (off + 1))
    else []

def elements (b : Bytes) : List Element := elementsFrom b b.length 0

structure FragIe where
  eid : ℕ
  eidExt : ℕ
  ie : Span
  deriving DecidableEq

/-- `struct frag_ies_info`; `n_frags` is the length of the list. -/
structure FragIesInfo where
  frags : List FragIe := []
  lastEid : ℕ := 0
  lastEidExt : ℕ := 0
  deriving DecidableEq

structure Elems where
  filsHlp : Option Span := none
  wrappedData : Option Span := none
  fragIes : FragIesInfo := {}
  deriving DecidableEq

/-- The extension identifiers with a case of their own in `ieee802_11_parse_extension`. -/
def knownExtensions : List ℕ :=
  [1, 2, 3, 4, 5, 6, 7, 8, 12, 13, 32, 33, 35, 36, 54, 58, 59, 100]

def parseExtension (b : Bytes) (data : Span) (elems : Elems) : Elems :=
  if data.len < 1 then elems
  else
    let extId := b.byteAt data.off
    let body : Span := ⟨data.off + 1, data.len - 1⟩
    let elems := { elems with fragIes.lastEidExt := 0 }
    if extId ∉ knownExtensions then elems
    else
      let elems :=
        if extId = eidExtFilsHlpContainer then
          if body.len < 2 * ethAlen then elems else { elems with filsHlp := some body }
        else if extId = eidExtWrappedData then { elems with wrappedData := some body }
        else elems
      if body.len = 254 then { elems with fragIes.lastEidExt := extId } else elems

def parseFragment (fragIes : FragIesInfo) (data : Span) : FragIesInfo :=
  if fragIes.frags.length ≥ maxNumFragIesSupported then fragIes
  else if fragIes.lastEid = 0 then fragIes
  else
    { fragIes with frags := fragIes.frags ++ [⟨fragIes.lastEid, fragIes.lastEidExt, data⟩] }

/-- One turn of the loop for an element that is not the MIC element. -/
def parseElem (b : Bytes) (elems : Elems) (e : Element) : Elems :=
  let elems :=
    if e.id = eidFragment then { elems with fragIes := parseFragment elems.fragIes e.data }
    else if e.id = eidExtension then parseExtension b e.data elems
    else elems
  let elems :=
    if e.id ≠ eidFragment ∧ e.data.len = 255 then { elems with fragIes.lastEid := e.id } else elems
  if e.id = eidExtension ∧ elems.fragIes.lastEidExt = 0 then { elems with fragIes.lastEid := 0 }
  else elems

def parseList (b : Bytes) (elems : Elems) : List Element → Elems
  | [] => elems
  | e :: rest => if e.id = eidMic then elems else parseList b (parseElem b elems e) rest

def parseElems (b : Bytes) : Elems := parseList b {} (elements b)

/-- The fragments whose data `ieee802_11_defrag_data` appends. -/
def Elems.fragsOf (elems : Elems) (eid eidExt : ℕ) : List FragIe :=
  elems.fragIes.frags.filter fun f => f.eid = eid ∧ f.eidExt = eidExt

def defragData (b : Bytes) (elems : Elems) (eid eidExt : ℕ) (data : Option Span) : Option Bytes :=
  match data with
  | none => none
  | some d =>
    if d.len = 0 then none
    else some (d.read b ++ (elems.fragsOf eid eidExt).flatMap fun f => f.ie.read b)

/-- The pointer and the length that `ieee802_11_defrag` takes for an extension element. -/
def Elems.selected (elems : Elems) (eidExt : ℕ) : Option Span :=
  if eidExt = eidExtFilsHlpContainer then elems.filsHlp
  else if eidExt = eidExtWrappedData then elems.wrappedData
  else none

def defrag (b : Bytes) (elems : Elems) (eid eidExt : ℕ) : Option Bytes :=
  if eid = eidExtension then defragData b elems eid eidExt (elems.selected eidExt) else none

/-- The element extension identifier, zero for an element without one. -/
def Element.ext (b : Bytes) (e : Element) : ℕ :=
  if e.id = eidExtension ∧ 0 < e.data.len then b.byteAt e.data.off else 0

def Element.full (e : Element) : Bool := e.data.len = 255

/-- A full-length element whose Fragment elements the parser records. -/
def Element.Opens (b : Bytes) (e : Element) : Prop :=
  e.id ≠ eidSsid ∧ e.id ≠ eidFragment ∧ e.full ∧ (e.id = eidExtension → e.ext b ∈ knownExtensions)

instance (b : Bytes) (e : Element) : Decidable (e.Opens b) :=
  inferInstanceAs (Decidable (_ ∧ _ ∧ _ ∧ (_ → _)))

/-- The element is one that `elems.selected eidExt` is set to. -/
def Element.Selects (b : Bytes) (eidExt : ℕ) (e : Element) : Prop :=
  e.id = eidExtension ∧ 0 < e.data.len ∧ e.ext b = eidExt ∧
    (eidExt = eidExtFilsHlpContainer → 2 * ethAlen ≤ e.data.len - 1)

instance (b : Bytes) (eidExt : ℕ) (e : Element) : Decidable (e.Selects b eidExt) :=
  inferInstanceAs (Decidable (_ ∧ _ ∧ _ ∧ (_ → _)))

/-- What `ieee802_11_defrag` is meant to return first: the element without its extension octet. -/
def Element.body (e : Element) : Span := ⟨e.data.off + 1, e.data.len - 1⟩

section Walk
variable {b : Bytes}

theorem elementsFrom_off {fuel off : ℕ} {e : Element} (he : e ∈ elementsFrom b fuel off) :
    off < e.data.off := by
  induction fuel generalizing off with
  | zero => simp [elementsFrom] at he
  | succ fuel ih =>
    rw [elementsFrom] at he
    split at he
    · rcases List.mem_cons.mp he with rfl | he
      · show off < off + 2
        omega
      · have := ih he
        omega
    · simp at he

theorem elementsFrom_pairwise (fuel off : ℕ) :
    (elementsFrom b fuel off).Pairwise fun x y => x.data.off < y.data.off := by
  induction fuel generalizing off with
  | zero => exact List.Pairwise.nil
  | succ fuel ih =>
    rw [elementsFrom]
    split
    · apply List.Pairwise.cons _ (ih _)
      intro e he
      have h := elementsFrom_off he
      show off + 2 < e.data.off
      omega
    · exact List.Pairwise.nil

theorem elements_pairwise (b : Bytes) :
    (elements b).Pairwise fun x y => x.data.off < y.data.off :=
  elementsFrom_pairwise _ _

/-- Two elements of one walk with the same data are the same element. -/
theorem split_unique {pre pre' post post' : List Element} {e e' : Element}
    (hp : (pre ++ e :: post).Pairwise fun x y => x.data.off < y.data.off)
    (h : pre ++ e :: post = pre' ++ e' :: post') (hd : e.data.off = e'.data.off) :
    pre = pre' ∧ e = e' ∧ post = post' := by
  induction pre generalizing pre' with
  | nil =>
    obtain _ | ⟨x, xs⟩ := pre'
    · simpa using h
    · -- the second occurrence would stand strictly behind the first
      rw [List.nil_append, List.cons_append, List.cons.injEq] at h
      obtain ⟨rfl, rfl⟩ := h
      have := List.rel_of_pairwise_cons hp (show e' ∈ xs ++ e' :: post' by simp)
      omega
  | cons x xs ih =>
    obtain _ | ⟨y, ys⟩ := pre'
    · rw [List.nil_append, List.cons_append, List.cons.injEq] at h
      obtain ⟨rfl, rfl⟩ := h
      have := List.rel_of_pairwise_cons hp (show e ∈ xs ++ e :: post by simp)
      omega
    · rw [List.cons_append, List.cons_append, List.cons.injEq] at h
      obtain ⟨rfl, h⟩ := h
      obtain ⟨rfl, rest⟩ := ih (List.Pairwise.of_cons hp) h
      exact ⟨rfl, rest⟩

end Walk

section Step
variable {b : Bytes} {elems : Elems} {e : Element}

theorem parseElem_fragment (h : e.id = eidFragment) :
    (parseElem b elems e).fragIes = parseFragment elems.fragIes e.data := by
  simp [parseElem, h, show ¬ eidFragment = eidExtension by decide]

theorem parseElem_plain (h : e.id ≠ eidFragment) (hx : e.id ≠ eidExtension) :
    (parseElem b elems e).fragIes =
      if e.full then { elems.fragIes with lastEid := e.id } else elems.fragIes := by
  simp only [parseElem, h, hx, if_false, ne_eq, not_false_eq_true, true_and, false_and,
    Element.full, decide_eq_true_eq]
  split <;> rfl

theorem parseExtension_fragIes (b : Bytes) (elems : Elems) (h : 0 < e.data.len) :
    (parseExtension b e.data elems).fragIes =
      { elems.fragIes with
        lastEidExt :=
          if b.byteAt e.data.off ∈ knownExtensions ∧ e.data.len = 255 then b.byteAt e.data.off
          else 0 } := by
  have hlen : ¬ e.data.len < 1 := by omega
  simp only [parseExtension, hlen, if_false]
  by_cases hk : b.byteAt e.data.off ∈ knownExtensions
  · have h254 : e.data.len - 1 = 254 ↔ e.data.len = 255 := by omega
    simp only [hk, not_true_eq_false, if_false, h254, true_and]
    split_ifs <;> rfl
  · simp [hk]

/-- A nonempty extension element either is full and known, and then becomes the element that
fragments are recorded for, or ends the recording. -/
theorem parseElem_extension (hx : e.id = eidExtension) (hlen : 0 < e.data.len) :
    (parseElem b elems e).fragIes =
      if e.Opens b then { elems.fragIes with lastEid := e.id, lastEidExt := e.ext b }
      else { elems.fragIes with lastEid := 0, lastEidExt := 0 } := by
  have hext : e.ext b = b.byteAt e.data.off := if_pos ⟨hx, hlen⟩
  have hopens : e.Opens b ↔ b.byteAt e.data.off ∈ knownExtensions ∧ e.data.len = 255 := by
    simp [Element.Opens, hx, hext, Element.full, and_comm, show ¬ eidExtension = eidSsid by decide,
      show ¬ eidExtension = eidFragment by decide]
  have hne : ∀ k ∈ knownExtensions, k ≠ 0 := by decide
  have hfrag := parseExtension_fragIes b elems hlen
  simp only [parseElem, hx, show ¬ eidExtension = eidFragment by decide, if_false, if_true, ne_eq,
    not_false_eq_true, true_and]
  by_cases ho : b.byteAt e.data.off ∈ knownExtensions ∧ e.data.len = 255
  · rw [if_pos (hopens.mpr ho), if_pos ho.2]
    rw [if_pos ho] at hfrag
    simp [hfrag, hne _ ho.1, hext]
  · rw [if_neg (mt hopens.mp ho)]
    rw [if_neg ho] at hfrag
    split_ifs with h₁ h₂ h₂ <;> simp_all

theorem parseElem_emptyExtension (hx : e.id = eidExtension) (hlen : e.data.len = 0) :
    (parseElem b elems e).fragIes =
      if elems.fragIes.lastEidExt = 0 then { elems.fragIes with lastEid := 0 }
      else elems.fragIes := by
  simp only [parseElem, hx, show ¬ eidExtension = eidFragment by decide, if_false, if_true,
    parseExtension, hlen, zero_lt_one]
  norm_num
  split <;> rfl

theorem parseList_append {es fs : List Element} (h : ∀ e ∈ es, e.id ≠ eidMic) :
    parseList b elems (es ++ fs) = parseList b (parseList b elems es) fs := by
  induction es generalizing elems with
  | nil => rfl
  | cons e es ih =>
    rw [List.forall_mem_cons] at h
    rw [List.cons_append, parseList, parseList, if_neg h.1, if_neg h.1, ih h.2]

end Step

end Wpa.Ie
