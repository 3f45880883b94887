import Wpa.Ie.Fragments
import Wpa.Lib.Wpabuf

/-! `wpa_pasn_add_wrapped_data` splits wrapped data over a Wrapped Data element and Fragment
elements. The room it asks for in front of a fragment is one octet short of the fragment. -/

namespace Wpa.Ie
open Lib Bytes

/-- The fragment loop; every turn takes at least one octet of the data. -/
def addFragments : ℕ → Wpabuf → Bytes → Option (ℤ × Wpabuf)
  | 0, buf, _ => some (0, buf)
  | fuel + 1, buf, data =>
    if data.length = 0 then some (0, buf)
    else if buf.tailroom < 1 + data.length then some (-1, buf)
    else
      let len := if data.length > 255 then 255 else data.length
      (buf.putU8 eidFragment).bind fun buf =>
      (buf.putU8 len).bind fun buf =>
      (buf.put (data.take len)).bind fun buf =>
      addFragments fuel buf (data.drop len)

def wpaPasnAddWrappedData (buf : Wpabuf) (wrappedDataBuf : Option Bytes) :
    Option (ℤ × Wpabuf) :=
  match wrappedDataBuf with
  | none => some (0, buf)
  | some data =>
    if data.length = 0 then some (0, buf)
    else
      let len := if data.length ≤ 254 then 1 + data.length else 255
      if buf.tailroom < 3 + data.length then some (-1, buf)
      else
        (buf.putU8 eidExtension).bind fun buf =>
        (buf.putU8 len).bind fun buf =>
        (buf.putU8 eidExtWrappedData).bind fun buf =>
        (buf.put (data.take (len - 1))).bind fun buf =>
        addFragments data.length buf (data.drop (len - 1))

/-- The data of the Fragment elements: all but the last are full. -/
def chunks : ℕ → Bytes → List Bytes
  | 0, _ => []
  | fuel + 1, data =>
    if data.length = 0 then [] else data.take 255 :: chunks fuel (data.drop 255)

/-- The elements of the given identifiers and contents, one after the other. -/
def encode (xs : List (ℕ × Bytes)) : Bytes :=
  xs.flatMap fun x => [UInt8.ofNat x.1, UInt8.ofNat x.2.length] ++ x.2

/-- Where the walk finds them in a buffer in which they start at `off`. -/
def layout : ℕ → List (ℕ × Bytes) → List Element
  | _, [] => []
  | off, x :: xs => ⟨x.1, ⟨off + 2, x.2.length⟩⟩ :: layout (off + 2 + x.2.length) xs

def fragmentElements (cs : List Bytes) : List (ℕ × Bytes) := cs.map fun c => (eidFragment, c)

def wrappedElements (data : Bytes) : List (ℕ × Bytes) :=
  (eidExtension, UInt8.ofNat eidExtWrappedData :: data.take 254) ::
    fragmentElements (chunks data.length (data.drop 254))

section Walk

theorem length_encode_cons (x : ℕ × Bytes) (xs : List (ℕ × Bytes)) :
    (encode (x :: xs)).length = 2 + x.2.length + (encode xs).length := by
  simp [encode]
  omega

theorem encode_cons (x : ℕ × Bytes) (xs : List (ℕ × Bytes)) :
    encode (x :: xs) = [UInt8.ofNat x.1, UInt8.ofNat x.2.length] ++ x.2 ++ encode xs := by
  simp [encode]

/-- The walk over encoded elements finds them where they were written. -/
theorem elementsFrom_encode (pre : Bytes) {xs : List (ℕ × Bytes)} {fuel : ℕ}
    (hx : ∀ x ∈ xs, x.1 < 256 ∧ x.2.length < 256) (hfuel : xs.length ≤ fuel) :
    elementsFrom (pre ++ encode xs) fuel pre.length = layout pre.length xs := by
  induction xs generalizing pre fuel with
  | nil =>
    cases fuel with
    | zero => rfl
    | succ fuel => simp [elementsFrom, encode, layout]
  | cons x xs ih =>
    obtain ⟨hhead, htail⟩ := List.forall_mem_cons.mp hx
    obtain _ | fuel := fuel
    · simp at hfuel
    · have hid : (pre ++ encode (x :: xs)).byteAt pre.length = x.1 := by
        rw [byteAt_append_right _ _ le_rfl]
        simp [encode_cons, byteAt, Nat.mod_eq_of_lt hhead.1]
      have hlen : (pre ++ encode (x :: xs)).byteAt (pre.length + 1) = x.2.length := by
        rw [byteAt_append_right _ _ (Nat.le_add_right _ _)]
        simp [encode_cons, byteAt, Nat.mod_eq_of_lt hhead.2]
      have hsize : (pre ++ encode (x :: xs)).length =
          pre.length + 2 + x.2.length + (encode xs).length := by
        rw [List.length_append, length_encode_cons]
        omega
      have hsplit : pre ++ encode (x :: xs) =
          (pre ++ [UInt8.ofNat x.1, UInt8.ofNat x.2.length] ++ x.2) ++ encode xs := by
        simp [encode_cons]
      have hstart : (pre ++ [UInt8.ofNat x.1, UInt8.ofNat x.2.length] ++ x.2).length =
          pre.length + 2 + x.2.length := by
        simp
        omega
      rw [elementsFrom, hid, hlen, if_pos ⟨by omega, by omega⟩, layout, ← hstart]
      congr 1
      conv_lhs => rw [hsplit]
      exact ih _ htail (by simpa using hfuel)

theorem length_le_length_encode (xs : List (ℕ × Bytes)) : xs.length ≤ (encode xs).length := by
  induction xs with
  | nil => simp
  | cons x xs ih =>
    rw [length_encode_cons, List.length_cons]
    omega

theorem elements_encode {xs : List (ℕ × Bytes)} (hx : ∀ x ∈ xs, x.1 < 256 ∧ x.2.length < 256) :
    elements (encode xs) = layout 0 xs :=
  elementsFrom_encode [] hx (length_le_length_encode xs)

/-- Reading the elements at their places gives their contents back. -/
theorem read_layout (pre : Bytes) (xs : List (ℕ × Bytes)) :
    (layout pre.length xs).map (fun e => e.data.read (pre ++ encode xs)) = xs.map Prod.snd := by
  induction xs generalizing pre with
  | nil => rfl
  | cons x xs ih =>
    have hsplit : pre ++ encode (x :: xs) =
        (pre ++ [UInt8.ofNat x.1, UInt8.ofNat x.2.length] ++ x.2) ++ encode xs := by
      simp [encode_cons]
    have hstart : (pre ++ [UInt8.ofNat x.1, UInt8.ofNat x.2.length] ++ x.2).length =
        pre.length + 2 + x.2.length := by
      simp
      omega
    have hread : Span.read (pre ++ encode (x :: xs)) ⟨pre.length + 2, x.2.length⟩ = x.2 := by
      rw [hsplit, Span.read, slice_append_left _ _ (by rw [hstart]),
        slice_append_right _ _ (by simp)]
      simp [slice]
    rw [layout, List.map_cons, List.map_cons, hread, ← hstart, hsplit, ih]

end Walk

section Chunks
variable {fuel : ℕ} {data : Bytes}

theorem flatten_chunks (h : data.length ≤ fuel) : (chunks fuel data).flatten = data := by
  induction fuel generalizing data with
  | zero =>
    rw [List.length_eq_zero_iff.mp (Nat.le_zero.mp h)]
    rfl
  | succ fuel ih =>
    rw [chunks]
    split
    · rename_i h0
      rw [List.length_eq_zero_iff.mp h0]
      rfl
    · rw [List.flatten_cons, ih (by rw [List.length_drop]; omega), List.take_append_drop]

theorem length_chunks (h : data.length ≤ fuel) :
    (chunks fuel data).length = (data.length + 254) / 255 := by
  induction fuel generalizing data with
  | zero =>
    rw [Nat.le_zero.mp h]
    rfl
  | succ fuel ih =>
    rw [chunks]
    split
    · rename_i h0
      rw [h0]
      rfl
    · rw [List.length_cons, ih (by rw [List.length_drop]; omega), List.length_drop]
      omega

theorem length_le_of_mem_chunks {c : Bytes} (h : c ∈ chunks fuel data) : c.length ≤ 255 := by
  induction fuel generalizing data with
  | zero => simp [chunks] at h
  | succ fuel ih =>
    rw [chunks] at h
    split at h
    · simp at h
    · rcases List.mem_cons.mp h with rfl | h
      · rw [List.length_take]
        exact min_le_left _ _
      · exact ih h

theorem length_encode_chunks (h : data.length ≤ fuel) :
    (encode (fragmentElements (chunks fuel data))).length =
      data.length + 2 * ((data.length + 254) / 255) := by
  have hcount : ∀ cs : List Bytes, (encode (fragmentElements cs)).length =
      cs.flatten.length + 2 * cs.length := by
    intro cs
    induction cs with
    | nil => rfl
    | cons c cs ih =>
      have hc : (encode (fragmentElements (c :: cs))).length =
          2 + c.length + (encode (fragmentElements cs)).length := length_encode_cons _ _
      rw [hc, ih, List.flatten_cons, List.length_append, List.length_cons]
      omega
  rw [hcount, flatten_chunks h, length_chunks h]

end Chunks

section Writing
variable {fuel : ℕ} {data : Bytes} {buf : Wpabuf}

def fragment (c : Bytes) : Bytes := [UInt8.ofNat eidFragment, UInt8.ofNat c.length] ++ c

theorem length_fragment (c : Bytes) : (fragment c).length = 2 + c.length := by
  simp [fragment]
  omega

theorem addFragments_write (h0 : data.length ≠ 0) (hroom : ¬ buf.tailroom < 1 + data.length) :
    addFragments (fuel + 1) buf data =
      (buf.put (fragment (data.take 255))).bind fun buf =>
        addFragments fuel buf (data.drop 255) := by
  have hlen : (if data.length > 255 then 255 else data.length) = (data.take 255).length := by
    rw [List.length_take]
    split <;> omega
  have htake : data.take (data.take 255).length = data.take 255 := by
    rw [List.length_take, ← List.take_take, List.take_length]
  have hdrop : data.drop (data.take 255).length = data.drop 255 := by
    rw [List.length_take]
    rcases Nat.le_total 255 data.length with h | h
    · rw [min_eq_left h]
    · rw [min_eq_right h, List.drop_length, List.drop_eq_nil_of_le h]
  rw [addFragments, if_neg h0, if_neg hroom, hlen]
  simp only [htake, hdrop, Wpabuf.putU8, Wpabuf.put_bind_put]
  rfl

/-- What the loop does, by the room left: it writes all fragments; it overflows if the room is one
octet short of them; it gives up if the room is shorter. -/
theorem addFragments_spec (buf : Wpabuf) (h : data.length ≤ fuel) :
    let need := (encode (fragmentElements (chunks fuel data))).length
    (need ≤ buf.tailroom → ∃ buf', addFragments fuel buf data = some (0, buf') ∧
      buf.Extends buf' (encode (fragmentElements (chunks fuel data)))) ∧
    (buf.tailroom + 1 = need → addFragments fuel buf data = none) ∧
    (buf.tailroom + 1 < need → ∃ buf', addFragments fuel buf data = some (-1, buf')) := by
  intro need
  have hneed : need = data.length + 2 * ((data.length + 254) / 255) := length_encode_chunks h
  induction fuel generalizing data buf with
  | zero =>
    have h0 : data.length = 0 := Nat.le_zero.mp h
    refine ⟨fun _ => ⟨buf, rfl, buf.extends_nil⟩, fun hr => ?_, fun hr => ?_⟩
    · omega
    · omega
  | succ fuel ih =>
    by_cases h0 : data.length = 0
    · rw [addFragments, if_pos h0]
      rw [h0] at hneed
      have hnil : chunks (fuel + 1) data = [] := by rw [chunks, if_pos h0]
      refine ⟨fun _ => ⟨buf, rfl, ?_⟩, fun hr => ?_, fun hr => ?_⟩
      · rw [hnil]
        exact buf.extends_nil
      · omega
      · omega
    · by_cases hroom : buf.tailroom < 1 + data.length
      · rw [addFragments, if_neg h0, if_pos hroom]
        exact ⟨fun hr => by omega, fun hr => by omega, fun _ => ⟨buf, rfl⟩⟩
      · rw [addFragments_write h0 hroom]
        have hchunks : chunks (fuel + 1) data = data.take 255 :: chunks fuel (data.drop 255) := by
          rw [chunks, if_neg h0]
        have hlen : (data.take 255).length = min 255 data.length := List.length_take
        have hrest : (data.drop 255).length ≤ fuel := by
          rw [List.length_drop]
          omega
        have hneed' := length_encode_chunks hrest
        rw [List.length_drop] at hneed'
        rcases Nat.lt_or_ge buf.tailroom (2 + (data.take 255).length) with hover | hfit
        · have hnone : buf.put (fragment (data.take 255)) = none := by
            rw [Wpabuf.put_eq_none_iff, length_fragment]
            exact hover
          rw [hnone]
          exact ⟨fun hr => by omega, fun _ => rfl, fun hr => by omega⟩
        · obtain ⟨buf₁, hput, hext⟩ := buf.put_extends (fragment (data.take 255))
            (by rwa [length_fragment])
          have ht := hext.tailroom_eq
          rw [length_fragment] at ht
          obtain ⟨hall, hone, hless⟩ := ih buf₁ hrest (length_encode_chunks hrest)
          rw [hput, Option.bind_some]
          refine ⟨fun hr => ?_, fun hr => hone (by omega), fun hr => hless (by omega)⟩
          obtain ⟨buf', hloop, hext'⟩ := hall (by omega)
          refine ⟨buf', hloop, ?_⟩
          rw [hchunks, fragmentElements, List.map_cons, encode_cons]
          exact hext.trans hext'

theorem wpaPasnAddWrappedData_write (h0 : data.length ≠ 0)
    (hroom : ¬ buf.tailroom < 3 + data.length) :
    wpaPasnAddWrappedData buf (some data) =
      (buf.put (encode [(eidExtension, UInt8.ofNat eidExtWrappedData :: data.take 254)])).bind
        fun buf => addFragments data.length buf (data.drop 254) := by
  have hlen : (if data.length ≤ 254 then 1 + data.length else 255) =
      (data.take 254).length + 1 := by
    rw [List.length_take]
    split <;> omega
  have htake : data.take (data.take 254).length = data.take 254 := by
    rw [List.length_take, ← List.take_take, List.take_length]
  have hdrop : data.drop (data.take 254).length = data.drop 254 := by
    rw [List.length_take]
    rcases Nat.le_total 254 data.length with h | h
    · rw [min_eq_left h]
    · rw [min_eq_right h, List.drop_length, List.drop_eq_nil_of_le h]
  simp only [wpaPasnAddWrappedData, if_neg h0, if_neg hroom, hlen, Nat.add_sub_cancel, htake, hdrop,
    Wpabuf.putU8, Wpabuf.put_bind_put]
  simp [encode]

/-- The condition that the room for the fragments is one octet short of what they take. -/
def OneShort (buf : Wpabuf) (data : Bytes) : Prop :=
  254 < data.length ∧ buf.tailroom = data.length + 2 + 2 * (data.length / 255)

theorem wpaPasnAddWrappedData_spec (buf : Wpabuf) (data : Bytes) :
    (OneShort buf data → wpaPasnAddWrappedData buf (some data) = none) ∧
    (¬ OneShort buf data → ∃ ret buf', wpaPasnAddWrappedData buf (some data) = some (ret, buf') ∧
      (ret = 0 → data ≠ [] → buf.Extends buf' (encode (wrappedElements data)))) := by
  by_cases h0 : data.length = 0
  · refine ⟨fun h => absurd h.1 (by omega), fun _ => ⟨0, buf, ?_, fun _ h => ?_⟩⟩
    · simp [wpaPasnAddWrappedData, h0]
    · exact absurd (List.length_eq_zero_iff.mp h0) h
  · by_cases hroom : buf.tailroom < 3 + data.length
    · refine ⟨fun h => ?_, fun _ => ⟨-1, buf, ?_, fun h => absurd h (by decide)⟩⟩
      · obtain ⟨hlong, hshort⟩ := h
        omega
      · simp [wpaPasnAddWrappedData, h0, hroom]
    · have hfirst : (encode [(eidExtension,
          UInt8.ofNat eidExtWrappedData :: data.take 254)]).length = 3 + min 254 data.length := by
        rw [length_encode_cons, List.length_cons, List.length_take]
        simp [encode]
        omega
      obtain ⟨buf₁, hput, hext⟩ := buf.put_extends
        (encode [(eidExtension, UInt8.ofNat eidExtWrappedData :: data.take 254)]) (by omega)
      have ht := hext.tailroom_eq
      rw [hfirst] at ht
      have hrest : (data.drop 254).length ≤ data.length := by
        rw [List.length_drop]
        omega
      have hneed := length_encode_chunks hrest
      rw [List.length_drop] at hneed
      obtain ⟨hall, hone, hless⟩ := addFragments_spec buf₁ hrest
      rw [wpaPasnAddWrappedData_write h0 hroom, hput, Option.bind_some]
      refine ⟨fun h => hone ?_, fun h => ?_⟩
      · obtain ⟨hlong, hshort⟩ := h
        omega
      · unfold OneShort at h
        rcases Nat.lt_or_ge buf₁.tailroom (encode (fragmentElements
          (chunks data.length (data.drop 254)))).length with hlt | hge
        · obtain ⟨buf', hloop⟩ := hless (by omega)
          exact ⟨-1, buf', hloop, fun h => absurd h (by decide)⟩
        · obtain ⟨buf', hloop, hext'⟩ := hall hge
          refine ⟨0, buf', hloop, fun _ _ => ?_⟩
          have hsplit : encode (wrappedElements data) =
              encode [(eidExtension, UInt8.ofNat eidExtWrappedData :: data.take 254)] ++
                encode (fragmentElements (chunks data.length (data.drop 254))) := by
            simp [encode, wrappedElements]
          rw [hsplit]
          exact hext.trans hext'

end Writing

section RoundTrip
variable {b : Bytes} {fuel off : ℕ} {data : Bytes}

theorem id_of_mem_layout {cs : List Bytes} {e : Element}
    (h : e ∈ layout off (fragmentElements cs)) : e.id = eidFragment := by
  induction cs generalizing off with
  | nil => simp [fragmentElements, layout] at h
  | cons c cs ih =>
    rcases List.mem_cons.mp h with rfl | h
    · rfl
    · exact ih h

/-- All but the last of the fragments are full, so the fragments continue one another. -/
theorem full_or_drop_eq_nil (off : ℕ) (data : Bytes) :
    (⟨eidFragment, ⟨off, (data.take 255).length⟩⟩ : Element).full = true ∨
      data.drop 255 = [] := by
  rw [List.drop_eq_nil_iff, Element.full, decide_eq_true_eq, List.length_take]
  show min 255 data.length = 255 ∨ data.length ≤ 255
  omega

theorem ownFragments_layout {full : Bool} (h : full = true ∨ data = []) :
    ownFragments full (layout off (fragmentElements (chunks fuel data))) =
      layout off (fragmentElements (chunks fuel data)) := by
  induction fuel generalizing off data full with
  | zero => rfl
  | succ fuel ih =>
    rw [chunks]
    split
    · rfl
    · rename_i h0
      have hfull : full = true := h.resolve_right fun hnil => h0 (by rw [hnil]; rfl)
      rw [fragmentElements, List.map_cons, layout, ownFragments, if_pos ⟨hfull, rfl⟩]
      congr 1
      exact ih (full_or_drop_eq_nil _ _)

theorem attributable_layout {full : Bool} {elems : Elems} (h : full = true ∨ data = [])
    (hlast : elems.fragIes.lastEid = eidExtension) :
    Attributable b full elems (layout off (fragmentElements (chunks fuel data))) := by
  induction fuel generalizing off data full elems with
  | zero => trivial
  | succ fuel ih =>
    rw [chunks]
    split
    · trivial
    · rename_i h0
      have hfull : full = true := h.resolve_right fun hnil => h0 (by rw [hnil]; rfl)
      refine ⟨fun _ _ _ => ⟨hfull, Or.inl hlast⟩, ih (full_or_drop_eq_nil _ _) ?_⟩
      rw [parseElem_fragment rfl]
      by_cases hrec : elems.fragIes.lastEid ≠ 0 ∧
          elems.fragIes.frags.length < maxNumFragIesSupported
      · rw [parseFragment_recorded hrec]
        exact hlast
      · rw [parseFragment_skipped hrec]
        exact hlast

/-- The first of the elements written. -/
def wrappedElement (data : Bytes) : Element := ⟨eidExtension, ⟨2, (data.take 254).length + 1⟩⟩

theorem elements_wrapped (data : Bytes) :
    elements (encode (wrappedElements data)) = wrappedElement data ::
      layout (3 + (data.take 254).length)
        (fragmentElements (chunks data.length (data.drop 254))) := by
  rw [elements_encode]
  · simp only [wrappedElements, layout, wrappedElement, List.length_cons, List.cons.injEq, true_and]
    congr 1
    omega
  · intro x hx
    rcases List.mem_cons.mp hx with rfl | hx
    · constructor
      · exact (by decide : eidExtension < 256)
      · rw [List.length_cons, List.length_take]
        omega
    · obtain ⟨c, hc, rfl⟩ := List.mem_map.mp hx
      have := length_le_of_mem_chunks hc
      exact ⟨(by decide : eidFragment < 256), by show c.length < 256; omega⟩

theorem wrappedElement_selects (data : Bytes) :
    (wrappedElement data).Selects (encode (wrappedElements data)) eidExtWrappedData := by
  refine ⟨rfl, Nat.succ_pos _, ?_, fun h => absurd h (by decide)⟩
  rw [Element.ext, if_pos ⟨rfl, Nat.succ_pos _⟩]
  simp [wrappedElement, wrappedElements, encode, byteAt, eidExtWrappedData]

theorem read_wrappedElement (data : Bytes) :
    (wrappedElement data).body.read (encode (wrappedElements data)) = data.take 254 := by
  simp [wrappedElement, Element.body, Span.read, wrappedElements, encode, slice, -List.length_take]

theorem read_fragments (data : Bytes) :
    ((layout (3 + (data.take 254).length)
        (fragmentElements (chunks data.length (data.drop 254)))).flatMap
      fun f => f.data.read (encode (wrappedElements data))) = data.drop 254 := by
  have hsplit : encode (wrappedElements data) =
      encode [(eidExtension, UInt8.ofNat eidExtWrappedData :: data.take 254)] ++
        encode (fragmentElements (chunks data.length (data.drop 254))) := by
    simp [encode, wrappedElements]
  have hstart : (encode [(eidExtension, UInt8.ofNat eidExtWrappedData :: data.take 254)]).length =
      3 + (data.take 254).length := by
    rw [length_encode_cons, List.length_cons]
    simp [encode]
    omega
  have hread := read_layout
    (encode [(eidExtension, UInt8.ofNat eidExtWrappedData :: data.take 254)])
    (fragmentElements (chunks data.length (data.drop 254)))
  rw [hstart, ← hsplit] at hread
  have hsnd : (fragmentElements (chunks data.length (data.drop 254))).map Prod.snd =
      chunks data.length (data.drop 254) := by
    simp [fragmentElements]
  rw [List.flatMap_def, hread, hsnd, flatten_chunks]
  rw [List.length_drop]
  omega

theorem length_layout (off : ℕ) (xs : List (ℕ × Bytes)) : (layout off xs).length = xs.length := by
  induction xs generalizing off with
  | nil => rfl
  | cons x xs ih => rw [layout, List.length_cons, List.length_cons, ih]

theorem defrag_wrapped (h0 : data ≠ []) (hlen : data.length ≤ 254 + 3 * 255) :
    defrag (encode (wrappedElements data)) (parseElems (encode (wrappedElements data)))
      eidExtension eidExtWrappedData = some data := by
  set b := encode (wrappedElements data) with hb
  set frags := layout (3 + (data.take 254).length)
    (fragmentElements (chunks data.length (data.drop 254))) with hfrags
  have hes : elements b = wrappedElement data :: frags := elements_wrapped data
  have hid : ∀ f ∈ frags, f.id = eidFragment := fun f hf => id_of_mem_layout hf
  have hsel : (wrappedElement data).Selects b eidExtWrappedData := wrappedElement_selects data
  have hmic : ∀ e ∈ elements b, e.id ≠ eidMic := by
    rw [hes]
    intro e he
    rcases List.mem_cons.mp he with rfl | he
    · exact (by decide : eidExtension ≠ eidMic)
    · rw [hid e he]
      decide
  have hfull : (wrappedElement data).full = true ∨ data.drop 254 = [] := by
    rw [List.drop_eq_nil_iff, Element.full, decide_eq_true_eq, wrappedElement, List.length_take]
    show min 254 data.length + 1 = 255 ∨ data.length ≤ 254
    omega
  have hattr : Attributable b false {} (elements b) := by
    rw [hes]
    refine ⟨fun h => absurd h (by decide : eidExtension ≠ eidFragment), ?_⟩
    rcases hfull with hf | hnil
    · apply attributable_layout (Or.inl hf)
      rw [parseElem_extension rfl (Nat.succ_pos _),
        if_pos ((hsel.opens_iff (by decide)).mpr hf)]
      rfl
    · rw [hfrags, hnil]
      cases data.length <;> trivial
  have hsole : SoleOfItsKind b (elements b) := by
    intro k _ pre e post hsplit hes' _ _
    rw [hes] at hsplit
    obtain _ | ⟨x, pre⟩ := pre
    · rfl
    · rw [List.cons_append, List.cons.injEq] at hsplit
      have he := hid e (by rw [hsplit.2]; simp)
      exact absurd (he.symm.trans hes'.1) (by decide)
  have hselected : (parseList b {} ([] ++ wrappedElement data :: frags)).selected
      eidExtWrappedData = some (wrappedElement data).body := by
    refine (selected_iff_last (by decide) (hes ▸ hmic) (hes ▸ elements_pairwise b) hsel).mpr ?_
    intro x hx hxs
    exact absurd ((hid x hx).symm.trans hxs.1) (by decide)
  have hbody : (wrappedElement data).body.len ≠ 0 := by
    have := List.length_pos_iff.mpr h0
    simp only [wrappedElement, Element.body, List.length_take]
    omega
  obtain ⟨-, hdefrag⟩ := defragOwn_of_attributable (elements_pairwise b) hmic hattr hsole
    eidExtWrappedData (by decide) [] (wrappedElement data) frags hes hsel (hes ▸ hselected) hbody
  have hown : ownFragments (wrappedElement data).full frags = frags := by
    rcases hfull with hf | hnil
    · exact ownFragments_layout (Or.inl hf)
    · rw [hfrags, hnil]
      cases data.length <;> rfl
  have hcount : frags.length ≤ maxNumFragIesSupported := by
    have hdrop : (data.drop 254).length = data.length - 254 := List.length_drop
    rw [hfrags, length_layout, fragmentElements, List.length_map, length_chunks (by omega), hdrop]
    unfold maxNumFragIesSupported
    omega
  rw [parseElems, hdefrag, hown, List.take_of_length_le (by exact hcount), hb, hfrags,
    read_wrappedElement, read_fragments, List.take_append_drop]

end RoundTrip

/-- Adding wrapped data does not overflow the buffer, and what it wrote parses back to the data as
far as the parser records fragments. -/
def WrappedDataSound (buf : Wpabuf) (data : Bytes) : Prop :=
  wpaPasnAddWrappedData buf (some data) ≠ none ∧
    ∀ buf', wpaPasnAddWrappedData buf (some data) = some (0, buf') →
      1 ≤ data.length → data.length ≤ 254 + 3 * 255 →
      ∃ written, buf'.data = buf.data ++ written ∧
        defrag written (parseElems written) eidExtension eidExtWrappedData = some data

theorem wrappedDataSound_iff (buf : Wpabuf) (data : Bytes) :
    WrappedDataSound buf data ↔ ¬ OneShort buf data := by
  obtain ⟨hover, hok⟩ := wpaPasnAddWrappedData_spec buf data
  constructor
  · intro h hshort
    exact h.1 (hover hshort)
  · intro h
    obtain ⟨ret, buf₁, hret, hwritten⟩ := hok h
    rw [WrappedDataSound, hret]
    refine ⟨Option.some_ne_none _, fun buf' hbuf hpos hlen => ?_⟩
    rw [Option.some.injEq, Prod.mk.injEq] at hbuf
    obtain ⟨hzero, rfl⟩ := hbuf
    have h0 : data ≠ [] := List.length_pos_iff.mp hpos
    exact ⟨_, (hwritten hzero h0).data_eq, defrag_wrapped h0 hlen⟩

theorem wrappedDataSound_not_zeros :
    ¬ WrappedDataSound ⟨259, [], Nat.zero_le _⟩ (zeros 255) := by
  intro h
  apply h.1
  apply (wpaPasnAddWrappedData_spec _ _).1
  rw [OneShort, zeros_length]
  exact ⟨by decide, rfl⟩

end Wpa.Ie
