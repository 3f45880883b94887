import Wpa.Ie.CandidateList

/-! What the entries of a candidate list are, and when `ieee802_11_parse_candidate_list` makes the
elements of them that it should. -/

namespace Wpa.CandidateList
open Lib Bytes Text Json Numerals

/-- An entry of a list in text, from the BSSID on. -/
structure Entry where
  bssid : Bytes
  info : Bytes
  opClass : Bytes
  channel : Bytes
  phyType : Bytes
  subelements : Option Bytes

namespace Entry

/-- The hexdump with the comma in front of it, if there is one. -/
def dump (e : Entry) : Bytes :=
  match e.subelements with
  | none => []
  | some hex => comma :: hex

def tail (e : Entry) : Bytes := e.phyType ++ e.dump

def text (e : Entry) : Bytes :=
  e.bssid ++ comma :: (e.info ++ comma :: (e.opClass ++ comma :: (e.channel ++ comma :: e.tail)))

/-- The octets of the subelements. -/
def octets (e : Entry) : Bytes :=
  match e.subelements with
  | none => []
  | some hex => hexStored hex (hex.length / 2)

/-- What an element holds in front of the PHY type. -/
def front (w : ℕ) (e : Entry) : Bytes :=
  (hwaddrAton e.bssid).1 ++ (putLe32 (strtol w 0 e.info).1 ++ [atoi w e.opClass, atoi w e.channel])

/-- What an element holds behind its length octet. -/
def body (w : ℕ) (e : Entry) (phy : UInt8) : Bytes := e.front w ++ phy :: e.octets

/-- The fields are what they should be, except that some may have spaces in them. -/
structure Valid (w : ℕ) (e : Entry) : Prop where
  bssid : (hwaddrParse Numerals.ethAlen e.bssid).2 = some []
  info : (strtol w 0 e.info).2 = []
  info_comma : comma ∉ e.info
  opClass_comma : comma ∉ e.opClass
  channel_comma : comma ∉ e.channel
  phyType_comma : comma ∉ e.phyType
  phyType_blank : blank ∉ e.phyType
  dump : ∀ hex, e.subelements = some hex → blank ∉ hex ∧
    ∃ bin, hexstr2bin hex bin.length = some bin ∧ hex.length = 2 * bin.length

end Entry

/-- The element with this body. -/
def element (body : Bytes) : Bytes := [eidNeighborReport, UInt8.ofNat body.length] ++ body

/-- The report carries what the token says, and its length octet is right. -/
def Carries (w : ℕ) (token report : Bytes) : Prop :=
  ∃ e : Entry, e.Valid w ∧ token = e.text ∧ (e.body w (atoi w e.phyType)).length ≤ 255 ∧
    report = element (e.body w (atoi w e.phyType))

/-- What stands behind each `" neighbor="` up to the next space. -/
def tokens (s : Bytes) : List Bytes :=
  match _hmark : strstr neighborMark s with
  | none => []
  | some mark =>
    (mark.drop 10).takeWhile (· ≠ blank) :: tokens ((mark.drop 10).dropWhile (· ≠ blank))
termination_by s.length
decreasing_by
  obtain ⟨hpre, hsuf⟩ := strstr_some _hmark
  have hlow : 10 ≤ mark.length := hpre.length_le
  have hhigh := hsuf.length_le
  have hdrop := (List.dropWhile_suffix (· ≠ blank) (l := mark.drop 10)).length_le
  rw [List.length_drop] at hdrop
  omega

/-- Nothing is written beyond the buffer, and a list that is not refused gives one whole element for
each token, in order. -/
def Meets (w : ℕ) (cmd neiRep : Bytes) : Prop :=
  ∃ out n, parseCandidateList w cmd neiRep = some (out, n) ∧ out.length = neiRep.length ∧
    (0 ≤ n → ∃ reports, List.Forall₂ (Carries w) (tokens cmd) reports ∧ n.toNat ≤ out.length ∧
      out.take n.toNat = reports.flatten)

/-- Where an entry may end. -/
def Ends (behind : Bytes) : Prop := behind = [] ∨ ∃ t, behind = blank :: t

/-- How a list is read: its entries, each with what stands behind it. -/
inductive Listing (w : ℕ) : Bytes → List (Entry × Bytes) → Prop
  | done {s : Bytes} (hmark : strstr neighborMark s = none) : Listing w s []
  | entry {s behind : Bytes} {e : Entry} {rs : List (Entry × Bytes)}
      (hmark : strstr neighborMark s = some (neighborMark ++ (e.text ++ behind))) (he : e.Valid w)
      (hend : Ends behind) (hrest : Listing w behind rs) : Listing w s ((e, behind) :: rs)

/-- The length of the elements of a list. -/
def size (rs : List (Entry × Bytes)) : ℕ := (rs.map fun r => 15 + r.1.octets.length).sum

/-- The fields stand in front of the space that ends the token, the PHY type is not the number
behind that space, and the length octet has room for the subelements. -/
structure Complete (w : ℕ) (e : Entry) (behind : Bytes) : Prop where
  info : blank ∉ e.info
  opClass : blank ∉ e.opClass
  channel : blank ∉ e.channel
  phyType : atoi w (e.tail ++ behind) = atoi w e.phyType
  short : e.octets.length ≤ 242

/-- However the list reads, if it fits the buffer and the result, its entries are complete. -/
def Clean (w : ℕ) (cmd : Bytes) (room : ℕ) : Prop :=
  ∀ rs, Listing w cmd rs → size rs ≤ room → 0 ≤ toInt (size rs) →
    size rs < 2 ^ 32 ∧ ∀ r ∈ rs, Complete w r.1 r.2

section Text
variable {w : ℕ} {e e' : Entry} {behind behind' : Bytes}

theorem comma_ne_blank : comma ≠ blank := by decide

theorem Entry.Valid.address (he : e.Valid w) : e.bssid.length = 17 ∧ blank ∉ e.bssid ∧
    (hwaddrAton e.bssid).1.length = 6 ∧
      ∀ rest, hwaddrAton (e.bssid ++ rest) = ((hwaddrAton e.bssid).1, true) := by
  have hparse : hwaddrParse (5 + 1) e.bssid = ((hwaddrAton e.bssid).1, some []) :=
    Prod.ext rfl he.bssid
  obtain ⟨t, ht, hlen, hblank, haddr, hrest⟩ := hwaddrParse_some hparse
  rw [List.append_nil] at ht
  subst ht
  refine ⟨hlen, hblank, haddr, ?_⟩
  intro rest
  have hread : hwaddrParse Numerals.ethAlen (e.bssid ++ rest) = ((hwaddrAton e.bssid).1, some rest) :=
    hrest rest
  rw [hwaddrAton, hread]
  rfl

theorem Entry.Valid.length_front (he : e.Valid w) : (e.front w).length = 12 := by
  rw [Entry.front, List.length_append, List.length_append, he.address.2.2.1, putLe32,
    List.length_reverse, ofBeNat_length]
  rfl

theorem Entry.Valid.length_body (he : e.Valid w) (phy : UInt8) :
    (e.body w phy).length = 13 + e.octets.length := by
  rw [Entry.body, List.length_append, he.length_front, List.length_cons]
  omega

theorem Entry.Valid.length_element (he : e.Valid w) (phy : UInt8) :
    (element (e.body w phy)).length = 15 + e.octets.length := by
  rw [element, List.length_append, he.length_body]
  simp only [List.length_cons, List.length_nil]
  omega

theorem Entry.Valid.dump_blank (he : e.Valid w) : blank ∉ e.tail := by
  rw [Entry.tail, Entry.dump]
  cases hsub : e.subelements with
  | none => simpa using he.phyType_blank
  | some hex =>
    have hhex := (he.dump hex hsub).1
    simp [he.phyType_blank, hhex, comma_ne_blank.symm]

/-- The first four fields are told by the commas. -/
theorem text_fields (he : e.Valid w) (he' : e'.Valid w)
    (h : e.text ++ behind = e'.text ++ behind') :
    e.bssid = e'.bssid ∧ e.info = e'.info ∧ e.opClass = e'.opClass ∧ e.channel = e'.channel ∧
      e.tail ++ behind = e'.tail ++ behind' := by
  simp only [Entry.text, List.append_assoc, List.cons_append] at h
  obtain ⟨hbssid, h⟩ := List.append_inj h (by rw [he.address.1, he'.address.1])
  obtain ⟨hinfo, h⟩ := cut_inj he.info_comma he'.info_comma (List.cons.inj h).2
  obtain ⟨hop, h⟩ := cut_inj he.opClass_comma he'.opClass_comma h
  obtain ⟨hchannel, h⟩ := cut_inj he.channel_comma he'.channel_comma h
  exact ⟨hbssid, hinfo, hop, hchannel, h⟩

theorem text_inj (he : e.Valid w) (he' : e'.Valid w) (h : e.text = e'.text) : e = e' := by
  have happ : e.text ++ [] = e'.text ++ [] := by rw [h]
  obtain ⟨hbssid, hinfo, hop, hchannel, htail⟩ := text_fields he he' happ
  rw [List.append_nil, List.append_nil, Entry.tail, Entry.tail, Entry.dump, Entry.dump] at htail
  have hphy := he.phyType_comma
  have hphy' := he'.phyType_comma
  obtain ⟨bssid, info, opClass, channel, phyType, subelements⟩ := e
  obtain ⟨bssid', info', opClass', channel', phyType', subelements'⟩ := e'
  cases hbssid
  cases hinfo
  cases hop
  cases hchannel
  cases subelements with
  | none =>
    cases subelements' with
    | none =>
      simp only [List.append_nil] at htail
      rw [htail]
    | some hex' =>
      simp only [List.append_nil] at htail
      exact absurd (htail ▸ List.mem_append_right _ List.mem_cons_self) hphy
  | some hex =>
    cases subelements' with
    | none =>
      simp only [List.append_nil] at htail
      exact absurd (htail ▸ List.mem_append_right _ List.mem_cons_self) hphy'
    | some hex' =>
      obtain ⟨rfl, rfl⟩ := cut_inj hphy hphy' htail
      rfl

/-- No field has a space in it. -/
def Entry.Inside (e : Entry) : Prop := blank ∉ e.info ∧ blank ∉ e.opClass ∧ blank ∉ e.channel

theorem Entry.Valid.blank_text (he : e.Valid w) : blank ∉ e.text ↔ e.Inside := by
  have hbssid := he.address.2.1
  have htail := he.dump_blank
  simp [Entry.text, Entry.Inside, hbssid, htail, comma_ne_blank.symm]

theorem Ends.takeWhile {t : Bytes} (h : Ends behind) (ht : blank ∉ t) :
    (t ++ behind).takeWhile (· ≠ blank) = t ∧ (t ++ behind).dropWhile (· ≠ blank) = behind := by
  obtain rfl | ⟨u, rfl⟩ := h
  · have hall : ∀ x ∈ t, decide (x ≠ blank) = true := by
      intro x hx
      have hne : x ≠ blank := fun heq => ht (heq ▸ hx)
      exact decide_eq_true hne
    rw [List.append_nil, List.takeWhile_eq_self_iff, List.dropWhile_eq_nil_iff]
    exact ⟨hall, hall⟩
  · exact ⟨takeWhile_ne ht, dropWhile_ne ht⟩

/-- A report carries the token of an entry if the entry stands in it and is short enough. -/
theorem carries_iff (he : e.Valid w) (hend : Ends behind) {report : Bytes} :
    Carries w ((e.text ++ behind).takeWhile (· ≠ blank)) report ↔
      (e.Inside ∧ e.octets.length ≤ 242) ∧ report = element (e.body w (atoi w e.phyType)) := by
  constructor
  · rintro ⟨e', he', htoken, hlen, hreport⟩
    have hsplit : e.text ++ behind = e'.text ++ (e.text ++ behind).dropWhile (· ≠ blank) := by
      rw [← htoken, List.takeWhile_append_dropWhile]
    have hblank : blank ∉ e'.text := by
      rw [← htoken]
      intro hmem
      have hne := List.mem_takeWhile_imp hmem
      simp at hne
    obtain ⟨-, hinfo, hop, hchannel, -⟩ := text_fields he he' hsplit
    have hinside : e.Inside := by
      obtain ⟨hinfo', hop', hchannel'⟩ := he'.blank_text.mp hblank
      exact ⟨hinfo ▸ hinfo', hop ▸ hop', hchannel ▸ hchannel'⟩
    rw [(hend.takeWhile (he.blank_text.mpr hinside)).1] at htoken
    cases text_inj he he' htoken
    rw [he.length_body] at hlen
    exact ⟨⟨hinside, by omega⟩, hreport⟩
  · rintro ⟨⟨hinside, hshort⟩, hreport⟩
    refine ⟨e, he, (hend.takeWhile (he.blank_text.mpr hinside)).1, ?_, hreport⟩
    rw [he.length_body]
    omega

end Text

end Wpa.CandidateList
