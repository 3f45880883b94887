import Mathlib.Data.Nat.Log
import Wpa.Tls.Asn1RoundTrip

/-! Object identifiers: the reader takes components of any length and a first octet group for the
first two, the writer has one octet for these, one for the length, and eight for each of the other
components. -/

namespace Wpa.Asn1
open Lib Bytes

/-! ### The reader -/

/-- One octet more of a component. -/
def shiftSeptet (w val : ℕ) (x : UInt8) : ℕ := (val * 128 + x.toNat % 128) % 2 ^ w

/-- The octets that end a component. -/
def ends (bs : Bytes) : ℕ := bs.countP fun x => x.toNat < 128

theorem ends_append (a b : Bytes) : ends (a ++ b) = ends a + ends b := List.countP_append

theorem ends_cons (x : UInt8) (bs : Bytes) :
    ends (x :: bs) = ends bs + if x.toNat < 128 then 1 else 0 := by
  rw [ends, List.countP_cons]
  simp only [decide_eq_true_eq]
  rfl

theorem ends_suffix {a b : Bytes} (h : a <:+ b) : ends a ≤ ends b :=
  h.sublist.countP_le

section
variable {w : ℕ} {bs tail : Bytes} {val : ℕ} {inside : Bool} {oid res : List ℕ} {x : UInt8}

/-- A component is read up to the octet that ends it. -/
theorem parseOid_component (hbs : ∀ y ∈ bs, 128 ≤ y.toNat) (hx : x.toNat < 128) :
    parseOid w (bs ++ x :: tail) val inside oid =
      (addComponent ((bs ++ [x]).foldl (shiftSeptet w) val) oid).bind
        (parseOid w tail 0 false) := by
  induction bs generalizing val inside with
  | nil =>
    rw [List.nil_append, parseOid, if_neg (not_le.mpr hx)]
    rfl
  | cons y bs ih =>
    rw [List.cons_append, parseOid, if_pos (hbs y (List.mem_cons_self ..)),
      ih fun z hz => hbs z (List.mem_cons_of_mem _ hz)]
    rfl

theorem addComponent_cons (hoid : oid ≠ []) (hres : addComponent val oid = some res) :
    res = oid ++ [val] ∧ oid.length < 20 := by
  rw [addComponent] at hres
  split at hres
  · cases hres
  · rename_i hroom
    rw [Option.some_inj] at hres
    exact ⟨hres.symm, not_le.mp hroom⟩

/-- Behind the first group every component takes one octet that ends it. -/
theorem parseOid_cons (hoid : oid ≠ []) (h : parseOid w bs val inside oid = some res) :
    oid <+: res ∧ res.length = oid.length + ends bs := by
  induction bs generalizing val inside oid with
  | nil =>
    rw [parseOid] at h
    split at h
    · cases h
    · rw [Option.some_inj] at h
      subst h
      exact ⟨List.prefix_rfl, rfl⟩
  | cons x bs ih =>
    rw [parseOid] at h
    rw [ends_cons]
    split at h
    · obtain ⟨hpre, hlength⟩ := ih hoid h
      rw [if_neg (by omega)]
      exact ⟨hpre, hlength⟩
    · obtain ⟨oid', hadd, hrest⟩ := Option.bind_eq_some_iff.mp h
      obtain ⟨rfl, -⟩ := addComponent_cons hoid hadd
      obtain ⟨hpre, hlength⟩ := ih (List.append_ne_nil_of_left_ne_nil hoid _) hrest
      rw [if_pos (by omega)]
      refine ⟨(List.prefix_append oid _).trans hpre, ?_⟩
      rw [hlength, List.length_append, List.length_singleton]
      omega

/-- The first group yields two components. -/
theorem parseOid_nil (h : parseOid w bs val inside [] = some res) :
    (res = [] ∧ ends bs = 0) ∨ res.length = ends bs + 1 := by
  induction bs generalizing val inside with
  | nil =>
    rw [parseOid] at h
    split at h
    · cases h
    · rw [Option.some_inj] at h
      exact Or.inl ⟨h.symm, rfl⟩
  | cons x bs ih =>
    rw [parseOid] at h
    rw [ends_cons]
    split at h
    · rw [if_neg (by omega)]
      exact ih h
    · obtain ⟨oid', hadd, hrest⟩ := Option.bind_eq_some_iff.mp h
      rw [if_pos (by omega)]
      simp only [addComponent, List.length_nil, maxOidLen, if_true] at hadd
      rw [if_neg (by decide), Option.some_inj] at hadd
      subst hadd
      obtain ⟨-, hlength⟩ := parseOid_cons (by simp) hrest
      rw [List.length_cons, List.length_singleton] at hlength
      exact Or.inr (by omega)

/-- An identifier as the reader leaves it: the first two components are those of one group, every
number is an `unsigned long`, and there are at most twenty. -/
structure Readable (w : ℕ) (first second : ℕ) (rest : List ℕ) : Prop where
  group : addComponent (40 * first + second) [] = some [first, second]
  groupFits : 40 * first + second < 2 ^ w
  fits : ∀ v ∈ rest, v < 2 ^ w
  room : rest.length ≤ 18

theorem shiftSeptet_lt (w val : ℕ) (x : UInt8) : shiftSeptet w val x < 2 ^ w :=
  Nat.mod_lt _ (by positivity)

theorem addComponent_group (val : ℕ) : ∃ first second,
    addComponent val [] = some [first, second] ∧ 40 * first + second = val := by
  refine ⟨min (val / 40) 2, val - min (val / 40) 2 * 40, rfl, ?_⟩
  have hle : min (val / 40) 2 * 40 ≤ val := by
    have hdiv := Nat.div_mul_le_self val 40
    exact (Nat.mul_le_mul_right 40 (min_le_left ..)).trans hdiv
  omega

theorem parseOid_readable {first second : ℕ} {rest : List ℕ} (hoid : Readable w first second rest)
    (h : parseOid w bs val inside (first :: second :: rest) = some res) :
    ∃ more, res = first :: second :: more ∧ Readable w first second more := by
  induction bs generalizing val inside rest with
  | nil =>
    rw [parseOid] at h
    split at h
    · cases h
    · exact ⟨rest, (Option.some_inj.mp h).symm, hoid⟩
  | cons x bs ih =>
    rw [parseOid] at h
    split at h
    · exact ih hoid h
    · obtain ⟨oid', hadd, hrest⟩ := Option.bind_eq_some_iff.mp h
      obtain ⟨rfl, hroom⟩ := addComponent_cons (List.cons_ne_nil _ _) hadd
      refine ih ⟨hoid.group, hoid.groupFits, ?_, ?_⟩ hrest
      · intro v hv
        rcases List.mem_append.mp hv with hv | hv
        · exact hoid.fits v hv
        · rw [List.mem_singleton.mp hv]
          exact shiftSeptet_lt w val x
      · rw [List.length_cons, List.length_cons] at hroom
        change (rest ++ [_]).length ≤ 18
        rw [List.length_append, List.length_singleton]
        omega

theorem parseOid_readable_nil (h : parseOid w bs val inside [] = some res) :
    bs = [] ∨ ∃ first second rest, res = first :: second :: rest ∧ Readable w first second rest := by
  induction bs generalizing val inside with
  | nil => exact Or.inl rfl
  | cons x bs ih =>
    right
    rw [parseOid] at h
    split at h
    · rcases ih h with rfl | hres
      · cases h
      · exact hres
    · obtain ⟨oid', hadd, hrest⟩ := Option.bind_eq_some_iff.mp h
      obtain ⟨first, second, hgroup, hval⟩ := addComponent_group (shiftSeptet w val x)
      obtain rfl : [first, second] = oid' := Option.some_inj.mp (hgroup.symm.trans hadd)
      have hstart : Readable w first second [] := by
        refine ⟨hval.symm ▸ hgroup, hval.symm ▸ shiftSeptet_lt w val x, ?_, Nat.zero_le _⟩
        exact fun v hv => by cases hv
      obtain ⟨more, hres, hmore⟩ := parseOid_readable hstart hrest
      exact ⟨first, second, more, hres, hmore⟩

theorem getOid_cases {buf : Bytes} {next : ℕ} (h : getOid w buf = some (oid, next)) :
    ∃ hdr, getNext buf = some hdr ∧ hdr.length ≠ 0 ∧
      parseOid w (buf.slice hdr.payload hdr.length) 0 false [] = some oid ∧
      next = hdr.payload + hdr.length := by
  rw [getOid] at h
  obtain ⟨hdr, hnext, h⟩ := Option.bind_eq_some_iff.mp h
  split at h
  · cases h
  · rename_i hok
    obtain ⟨oid', hparse, h⟩ := Option.bind_eq_some_iff.mp h
    simp only [Option.some.injEq, Prod.mk.injEq] at h
    obtain ⟨rfl, rfl⟩ := h
    exact ⟨hdr, hnext, fun hzero => hok (Or.inl hzero), hparse, rfl⟩

/-- What `asn1_get_oid` can return. -/
theorem getOid_readable {buf : Bytes} {next : ℕ} (h : getOid w buf = some (oid, next)) :
    ∃ first second rest, oid = first :: second :: rest ∧ Readable w first second rest := by
  obtain ⟨hdr, hnext, hlen, hparse, -⟩ := getOid_cases h
  rcases parseOid_readable_nil hparse with hempty | hread
  · have hinside := getNext_inside hnext
    have hlength := congrArg List.length hempty
    rw [slice_length, List.length_nil] at hlength
    omega
  · exact hread

end

/-! ### The writer -/

/-- The scratch array is large enough exactly for the numbers of that many septets. -/
theorem fillScratch_isSome (room : ℕ) (first : Bool) (val : ℕ) :
    (fillScratch room first val).isSome ↔ val < 128 ^ room := by
  induction room generalizing first val with
  | zero =>
    rw [fillScratch, pow_zero, Nat.lt_one_iff]
    split <;> simp [*]
  | succ room ih =>
    rw [fillScratch]
    split
    · rename_i hzero
      rw [hzero]
      exact ⟨fun _ => by positivity, fun _ => rfl⟩
    · rw [Option.isSome_map, ih, Nat.div_lt_iff_lt_mul (by decide), ← pow_succ]

/-- The number of septets, one for zero. -/
def septets (val : ℕ) : ℕ := Nat.log 128 val + 1

theorem septets_of_le {val : ℕ} (h : 128 ≤ val) : septets val = septets (val / 128) + 1 := by
  rw [septets, septets, Nat.log_of_one_lt_of_le (by decide) h]

section
variable {w : ℕ}

theorem shiftSeptet_eq {val : ℕ} (h : val < 2 ^ w) {x : UInt8} (hx : x.toNat % 128 = val % 128) :
    shiftSeptet w (val / 128) x = val := by
  rw [shiftSeptet, hx, Nat.div_add_mod', Nat.mod_eq_of_lt h]

/-- The octets behind the first cell all say that another one follows. -/
theorem fillScratch_more {room val : ℕ} {s : Bytes} (h : fillScratch room false val = some s) :
    (∀ y ∈ s, 128 ≤ y.toNat) ∧ (val ≠ 0 → s.length = septets val) ∧ (val = 0 → s = []) ∧
      (val < 2 ^ w → s.reverse.foldl (shiftSeptet w) 0 = val) := by
  induction room generalizing val s with
  | zero =>
    rw [fillScratch] at h
    split at h
    · rename_i hzero
      rw [Option.some_inj] at h
      subst h
      exact ⟨List.forall_mem_nil _, fun hne => absurd hzero hne, fun _ => rfl,
        fun _ => hzero.symm⟩
    · cases h
  | succ room ih =>
    rw [fillScratch] at h
    split at h
    · rename_i hzero
      rw [Option.some_inj] at h
      subst h
      exact ⟨List.forall_mem_nil _, fun hne => absurd hzero hne, fun _ => rfl,
        fun _ => hzero.symm⟩
    · rename_i hne
      obtain ⟨more, hmore, rfl⟩ := Option.map_eq_some_iff.mp h
      obtain ⟨hcont, hlength, hnone, hvalue⟩ := ih hmore
      have hbyte : (UInt8.ofNat (0x80 + val % 128)).toNat = 128 + val % 128 := by
        rw [UInt8.toNat_ofNat']
        omega
      refine ⟨?_, ?_, fun hzero => absurd hzero hne, ?_⟩
      · intro y hy
        rcases List.mem_cons.mp hy with rfl | hy
        · simp only [Bool.false_eq_true, if_false, hbyte]
          omega
        · exact hcont y hy
      · intro _
        rw [List.length_cons]
        by_cases hsmall : val < 128
        · rw [hnone (Nat.div_eq_of_lt hsmall), septets, Nat.log_of_lt hsmall]
          rfl
        · rw [hlength (Nat.div_pos (not_lt.mp hsmall) (by decide)).ne',
            septets_of_le (not_lt.mp hsmall)]
      · intro hval
        have hprevious := hvalue ((Nat.div_le_self val 128).trans_lt hval)
        rw [List.reverse_cons, List.foldl_append, hprevious]
        apply shiftSeptet_eq hval
        simp only [Bool.false_eq_true, if_false, hbyte]
        omega

/-- A component as it is written: the octets that continue it and the one that ends it. -/
theorem putComponent_cases {val : ℕ} {enc : Bytes} (h : putComponent val = some enc) :
    ∃ bs x, enc = bs ++ [x] ∧ (∀ y ∈ bs, 128 ≤ y.toNat) ∧ x.toNat < 128 ∧
      enc.length = septets val ∧ (val < 2 ^ w → enc.foldl (shiftSeptet w) 0 = val) := by
  obtain ⟨s, hs, rfl⟩ := Option.map_eq_some_iff.mp h
  rw [fillScratch] at hs
  split at hs
  · rename_i hzero
    rw [Option.some_inj] at hs
    subst hs hzero
    refine ⟨[], 0, rfl, List.forall_mem_nil _, by decide, by simp [septets], fun _ => ?_⟩
    simp [shiftSeptet]
  · rename_i hne
    obtain ⟨more, hmore, rfl⟩ := Option.map_eq_some_iff.mp hs
    obtain ⟨hcont, hlength, hnone, hvalue⟩ := fillScratch_more (w := w) hmore
    have hbyte : (UInt8.ofNat (0x00 + val % 128)).toNat = val % 128 := by
      rw [UInt8.toNat_ofNat']
      omega
    simp only [if_true, if_neg (List.cons_ne_nil _ _), List.reverse_cons]
    refine ⟨more.reverse, _, rfl, ?_, ?_, ?_, ?_⟩
    · intro y hy
      exact hcont y (List.mem_reverse.mp hy)
    · rw [hbyte]
      exact Nat.mod_lt _ (by decide)
    · rw [List.length_append, List.length_reverse, List.length_singleton]
      by_cases hsmall : val < 128
      · rw [hnone (Nat.div_eq_of_lt hsmall), septets, Nat.log_of_lt hsmall]
        rfl
      · rw [hlength (Nat.div_pos (not_lt.mp hsmall) (by decide)).ne',
          septets_of_le (not_lt.mp hsmall)]
    · intro hval
      have hprevious := hvalue ((Nat.div_le_self val 128).trans_lt hval)
      rw [List.foldl_append, hprevious]
      apply shiftSeptet_eq hval
      rw [hbyte, Nat.mod_mod]

theorem putComponents_isSome (rest : List ℕ) :
    (putComponents rest).isSome ↔ ∀ v ∈ rest, v < 2 ^ 56 := by
  induction rest with
  | nil => simp [putComponents]
  | cons val rest ih =>
    have hone : (putComponent val).isSome ↔ val < 2 ^ 56 := by
      rw [putComponent, Option.isSome_map, fillScratch_isSome]
      rfl
    rw [List.forall_mem_cons, ← hone, ← ih, putComponents]
    cases putComponent val with
    | none => simp
    | some first => cases putComponents rest <;> simp

/-- The components come back one by one. -/
theorem putComponents_eq {rest : List ℕ} {bytes : Bytes} (h : putComponents rest = some bytes) :
    bytes.length = (rest.map septets).sum ∧ ends bytes = rest.length ∧
      ∀ oid, oid ≠ [] → oid.length + rest.length ≤ 20 → (∀ v ∈ rest, v < 2 ^ w) →
        parseOid w bytes 0 false oid = some (oid ++ rest) := by
  induction rest generalizing bytes with
  | nil =>
    obtain rfl : [] = bytes := Option.some_inj.mp h
    exact ⟨rfl, rfl, fun oid _ _ _ => by rw [List.append_nil]; rfl⟩
  | cons val rest ih =>
    obtain ⟨first, hfirst, h⟩ := Option.bind_eq_some_iff.mp h
    obtain ⟨more, hmore, h⟩ := Option.bind_eq_some_iff.mp h
    obtain rfl : first ++ more = bytes := Option.some_inj.mp h
    obtain ⟨hlength, hends, hparse⟩ := ih hmore
    obtain ⟨bs, x, rfl, hcont, hx, hseptets, hvalue⟩ := putComponent_cases (w := w) hfirst
    have hnone : ends bs = 0 := by
      rw [ends, List.countP_eq_zero]
      intro y hy
      have hy := hcont y hy
      simp only [decide_eq_true_eq]
      omega
    refine ⟨?_, ?_, ?_⟩
    · rw [List.length_append, hseptets, hlength]
      rfl
    · rw [ends_append, ends_append, hnone, hends, ends_cons, if_pos hx, List.length_cons]
      simp [ends]
      omega
    · intro oid hoid hroom hfits
      rw [List.length_cons] at hroom
      have hadd : addComponent val oid = some (oid ++ [val]) := by
        rw [addComponent, if_neg (by unfold maxOidLen; omega), if_neg hoid]
      rw [List.append_assoc, List.singleton_append, parseOid_component hcont hx,
        hvalue (hfits val (List.mem_cons_self ..)), hadd, Option.bind_some,
        hparse _ (by simp) (by rw [List.length_append, List.length_singleton]; omega)
          fun v hv => hfits v (List.mem_cons_of_mem _ hv), List.append_assoc]
      rfl

end

/-! ### When an identifier comes back -/

/-- The writer stays inside its scratch array, and the reader returns the same identifier and the
end of what was written. -/
def RoundTrips (w : ℕ) (oid : List ℕ) : Prop :=
  ∃ bytes, putOid oid = some bytes ∧ getOid w bytes = some (oid, bytes.length)

/-- The identifier fits the fields of its encoding: one septet for the first two components, eight
for each other one, and a short form for the length. -/
def FitsFields : List ℕ → Prop
  | first :: second :: rest =>
    40 * first + second < 128 ∧ (∀ v ∈ rest, v < 2 ^ 56) ∧ 1 + (rest.map septets).sum < 128
  | _ => False

instance : DecidablePred FitsFields
  | first :: second :: rest =>
    inferInstanceAs (Decidable (40 * first + second < 128 ∧ (∀ v ∈ rest, v < 2 ^ 56) ∧
      1 + (rest.map septets).sum < 128))
  | [] => isFalse id
  | [_] => isFalse id

section
variable {w first second : ℕ} {rest : List ℕ}

theorem getOid_eq {buf : Bytes} {hdr : Hdr} {oid : List ℕ} (h : getNext buf = some hdr)
    (hlen : 0 < hdr.length) (hcls : hdr.cls = classUniversal) (htag : hdr.tag = tagOid)
    (hparse : parseOid w (buf.slice hdr.payload hdr.length) 0 false [] = some oid) :
    getOid w buf = some (oid, hdr.payload + hdr.length) := by
  have hbad : ¬(hdr.length = 0 ∨ ¬(hdr.cls = classUniversal ∧ hdr.tag = tagOid)) := by
    rintro (hzero | htype)
    · omega
    · exact htype ⟨hcls, htag⟩
  rw [getOid, h, Option.bind_eq_bind, Option.bind_some, if_neg hbad, hparse]
  rfl

theorem roundTrips_of_fits (hread : Readable w first second rest)
    (hfits : FitsFields (first :: second :: rest)) : RoundTrips w (first :: second :: rest) := by
  obtain ⟨hfirst, hscratch, hlen⟩ := hfits
  obtain ⟨more, hmore⟩ := Option.isSome_iff_exists.mp ((putComponents_isSome rest).mpr hscratch)
  obtain ⟨hlength, -, hparse⟩ := putComponents_eq (w := w) hmore
  set content := UInt8.ofNat (40 * first + second) :: more with hcontent
  have hshort : content.length < 128 := by
    rw [hcontent, List.length_cons, hlength]
    omega
  have hbyte : (UInt8.ofNat (40 * first + second)).toNat = 40 * first + second := by
    rw [UInt8.toNat_ofNat']
    omega
  have hgroup : shiftSeptet w 0 (UInt8.ofNat (40 * first + second)) = 40 * first + second := by
    rw [shiftSeptet, hbyte, Nat.zero_mul, Nat.zero_add, Nat.mod_eq_of_lt hfirst,
      Nat.mod_eq_of_lt hread.groupFits]
  have hall : parseOid w content 0 false [] = some (first :: second :: rest) := by
    have hcomponent : parseOid w ([] ++ UInt8.ofNat (40 * first + second) :: more) 0 false [] = _ :=
      parseOid_component (List.forall_mem_nil _) (hbyte.trans_lt hfirst)
    rw [List.nil_append, List.nil_append, List.foldl_cons, List.foldl_nil, hgroup, hread.group,
      Option.bind_some] at hcomponent
    have hroom := hread.room
    exact hcomponent.trans (hparse _ (List.cons_ne_nil _ _)
      (by rw [List.length_cons, List.length_singleton]; omega) hread.fits)
  have hslice : slice (UInt8.ofNat tagOid :: UInt8.ofNat content.length :: content) 2
      content.length = content := List.take_length
  refine ⟨UInt8.ofNat tagOid :: UInt8.ofNat content.length :: content, ?_, ?_⟩
  · rw [putOid, hmore]
    rfl
  · rw [getOid_eq (getNext_small (Or.inr rfl) hshort) (Nat.succ_pos _) rfl rfl (by rwa [hslice])]
    exact congrArg (fun n => some (first :: second :: rest, n)) (Nat.add_comm 2 content.length)

/-- If the identifier comes back, the reader has found every octet that ends a component where the
writer put it, so that the length was in its short form and the first group in one septet. -/
theorem fits_of_roundTrips (h : RoundTrips w (first :: second :: rest)) :
    FitsFields (first :: second :: rest) := by
  obtain ⟨bytes, hput, hget⟩ := h
  obtain ⟨more, hmore, hput⟩ := Option.bind_eq_some_iff.mp hput
  obtain ⟨hlength, hends, -⟩ := putComponents_eq (w := w) hmore
  set content := UInt8.ofNat (40 * first + second) :: more with hcontent
  obtain rfl : UInt8.ofNat tagOid :: UInt8.ofNat content.length :: content = bytes :=
    Option.some_inj.mp hput
  obtain ⟨hdr, hnext, hne, hparse, hend⟩ := getOid_cases hget
  obtain ⟨x, after, rest', payload, hbuf, htag, hlen, hsuffix, hroom, hpayload, -⟩ :=
    getNext_cases hnext
  obtain ⟨rfl, rfl⟩ := List.cons.inj hbuf
  obtain rfl : UInt8.ofNat content.length :: content = rest' :=
    (Prod.ext_iff.mp (Option.some_inj.mp htag)).2
  have hwhole : payload <:+ UInt8.ofNat tagOid :: UInt8.ofNat content.length :: content :=
    hsuffix.trans (List.suffix_cons _ _)
  have hexact : payload.length = hdr.length := by
    have hle := hwhole.length_le
    omega
  have hslice : slice (UInt8.ofNat tagOid :: UInt8.ofNat content.length :: content) hdr.payload
      hdr.length = payload := by
    rw [slice, hpayload, ← List.suffix_iff_eq_drop.mp hwhole, ← hexact, List.take_length]
  rw [hslice] at hparse
  -- one octet ends the first group, and one each of the other components
  have hcount : ends payload = rest.length + 1 := by
    rcases parseOid_nil hparse with ⟨hnil, -⟩ | hres
    · cases hnil
    · rw [List.length_cons, List.length_cons] at hres
      omega
  obtain ⟨y, tail, htail, hform⟩ := getLength_cases hlen
  obtain ⟨rfl, rfl⟩ := List.cons.inj htail
  rcases hform with ⟨hy, hval, rfl⟩ | ⟨n, hn, -, -, -, -, hread⟩
  · -- the short form: the first octet of the content ends the first group
    have hlen128 : content.length < 128 := by omega
    rw [hcontent, ends_cons, hends] at hcount
    have hfirst : (UInt8.ofNat (40 * first + second)).toNat < 128 := by
      by_contra hge
      rw [if_neg hge] at hcount
      omega
    have hcomponent : parseOid w ([] ++ UInt8.ofNat (40 * first + second) :: more) 0 false [] = _ :=
      parseOid_component (List.forall_mem_nil _) hfirst
    rw [List.nil_append, List.nil_append, ← hcontent, hparse] at hcomponent
    obtain ⟨oid', hadd, hrest⟩ := Option.bind_eq_some_iff.mp hcomponent.symm
    obtain ⟨f, g, hgroup, hsum⟩ :=
      addComponent_group ([UInt8.ofNat (40 * first + second)].foldl (shiftSeptet w) 0)
    obtain rfl : [f, g] = oid' := Option.some_inj.mp (hgroup.symm.trans hadd)
    obtain ⟨hpre, -⟩ := parseOid_cons (List.cons_ne_nil _ _) hrest
    have hsame : f = first ∧ g = second := by
      obtain ⟨t, ht⟩ := hpre
      simp only [List.cons_append, List.cons.injEq] at ht
      exact ⟨ht.1, ht.2.1⟩
    refine ⟨?_, (putComponents_isSome rest).mp (Option.isSome_of_eq_some hmore), ?_⟩
    · rw [← hsame.1, ← hsame.2, hsum]
      refine (Nat.mod_le _ _).trans_lt ?_
      rw [Nat.zero_mul, Nat.zero_add]
      exact Nat.mod_lt _ (by decide)
    · rw [hcontent, List.length_cons, hlength] at hlen128
      omega
  · -- a long form takes away the octet of the first group
    exfalso
    obtain ⟨hless, hsuffix'⟩ := readLength_suffix hread
    rw [hcontent, List.suffix_cons_iff] at hsuffix'
    rcases hsuffix' with heq | hmoresuffix
    · rw [heq, ← hcontent] at hless
      omega
    · have hle := ends_suffix hmoresuffix
      omega

end

/-- The second component 999 makes the first group two septets long; the writer cuts it to an
octet. A component of nine septets is written outside the scratch array. -/
theorem oid_not_returned :
    (getOid 64 [0x06, 0x02, 0x88, 0x37] = some ([2, 999], 4) ∧
      putOid [2, 999] = some [0x06, 0x01, 0x37] ∧
      getOid 64 [0x06, 0x01, 0x37] = some ([1, 15], 3) ∧ ¬ RoundTrips 64 [2, 999]) ∧
    getOid 64 ([0x06, 0x0a, 0x2a, 0x81] ++ List.replicate 7 0x80 ++ [0x00]) =
      some ([1, 2, 2 ^ 56], 12) ∧
    putOid [1, 2, 2 ^ 56] = none := by
  have hput : putOid [2, 999] = some [0x06, 0x01, 0x37] := by decide
  have hget : getOid 64 [0x06, 0x01, 0x37] = some ([1, 15], 3) := by decide
  refine ⟨⟨by decide, hput, hget, ?_⟩, by decide, by decide⟩
  rintro ⟨bytes, hbytes, hback⟩
  obtain rfl := Option.some_inj.mp (hput.symm.trans hbytes)
  rw [hget] at hback
  exact absurd hback (by decide)

/-- An identifier that the reader can return comes back exactly if it fits the fields of its
encoding; every integer and every header with its payload comes back, and whatever is read, the
payload lies inside the buffer. -/
theorem der_codec (w : ℕ) :
    (∀ buf oid next, getOid w buf = some (oid, next) → (RoundTrips w oid ↔ FitsFields oid)) ∧
    (∀ val : ℤ, -2 ^ 31 ≤ val ∧ val < 2 ^ 31 →
      getInteger (putInteger val) = some (val, (putInteger val).length)) ∧
    (∀ (cls tag : ℕ) (constructed : Bool) (payload : Bytes), cls < 4 → tag < 31 →
      payload.length < 2 ^ 32 → validDer cls constructed tag payload.length payload = true →
      ∃ hdr, getNext (putHdr cls constructed tag payload.length ++ payload) = some hdr ∧
        hdr.cls = cls ∧ hdr.constructed = constructed ∧ hdr.tag = tag ∧
        hdr.length = payload.length ∧
        hdr.payload = (putHdr cls constructed tag payload.length).length) ∧
    ∀ buf hdr, getNext buf = some hdr → hdr.payload + hdr.length ≤ buf.length := by
  refine ⟨?_, fun val hval => getInteger_putInteger hval, ?_, fun buf hdr => getNext_inside⟩
  · intro buf oid next h
    obtain ⟨first, second, rest, rfl, hread⟩ := getOid_readable h
    exact ⟨fits_of_roundTrips, roundTrips_of_fits hread⟩
  · intro cls tag constructed payload hcls htag hlen hder
    exact getNext_putHdr hcls htag hlen hder

theorem der_codec_small :
    RoundTrips 64 [1, 2, 840] ∧ getInteger (putInteger (-5)) = some (-5, 6) := by
  have hget : getOid 64 [0x06, 0x03, 0x2a, 0x86, 0x48] = some ([1, 2, 840], 5) := by decide
  obtain ⟨hoid, hint, -, -⟩ := der_codec 64
  exact ⟨(hoid _ _ _ hget).mpr (by decide), hint (-5) (by decide)⟩

end Wpa.Asn1
