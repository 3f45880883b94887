import Wpa.Ie.CandidateTokens

/-! Each turn of `ieee802_11_parse_candidate_list` refuses the list or makes an element of an entry,
and the list reads as the entries of all turns. -/

namespace Wpa.CandidateList
open Lib Bytes Text Json Numerals

section Buffer
variable {a z src : Bytes} {off : ℕ}

/-- A store behind what has been written. -/
theorem store_grow (hoff : a.length = off) (hlen : src.length ≤ z.length) :
    (a ++ z).store off src = some (a ++ src ++ z.drop src.length) := by
  rw [store_front rfl hoff hlen, List.append_assoc]

theorem store_keeps {b src : Bytes} {off : ℕ} (h : off + src.length ≤ b.length) :
    ∃ b', b.store off src = some b' ∧ b'.length = b.length :=
  ⟨_, if_pos h, writeAt_length ..⟩

end Buffer

section Turn
variable {w n : ℕ} {e : Entry} {a behind z buf pos : Bytes} {next : Option Bytes} {x : UInt8}

theorem fillLength_eq {body : Bytes} {k : ℕ} (ha : a.length = n) (hbody : body.length = 13 + k) :
    fillLength n (n + 15 + k) next (a ++ ([eidNeighborReport, x] ++ body) ++ z) =
      some (a ++ element body ++ z, some (n + 15 + k, next)) := by
  have hoctet : n + 15 + k - n - 2 = body.length := by omega
  have hsplit : a ++ ([eidNeighborReport, x] ++ body) ++ z =
      (a ++ [eidNeighborReport]) ++ ([x] ++ (body ++ z)) := by
    simp only [List.append_assoc, List.cons_append, List.nil_append]
  have hstore : (a ++ ([eidNeighborReport, x] ++ body) ++ z).store (n + 1)
      [UInt8.ofNat body.length] = some (a ++ element body ++ z) := by
    have hoff : (a ++ [eidNeighborReport]).length = n + 1 := by
      rw [List.length_append, ha]
      rfl
    rw [store_part hsplit hoff (show _ = [UInt8.ofNat body.length].length from rfl), element]
    simp only [List.append_assoc, List.cons_append, List.nil_append]
  rw [fillLength, hoctet, hstore]
  rfl

theorem strchr_blank (hend : Ends behind) : strchr blank behind = if behind = [] then none
    else some behind := by
  obtain rfl | ⟨t, rfl⟩ := hend
  · rfl
  · have hcut : strchr blank ([] ++ blank :: t) = some (blank :: t) := strchr_cut List.not_mem_nil
    rw [if_neg (List.cons_ne_nil blank t)]
    exact hcut

/-- The subelements of an entry follow its fixed part. -/
theorem parseSubelements_eq {hex bin body : Bytes} (ha : a.length = n) (hend : Ends behind)
    (hhex : blank ∉ hex) (hbin : hexstr2bin hex bin.length = some bin)
    (hlen : hex.length = 2 * bin.length) (hbody : body.length = 13) (hz : bin.length ≤ z.length) :
    parseSubelements n (n + 15) (hex ++ behind) (a ++ ([eidNeighborReport, x] ++ body) ++ z) =
      some (a ++ element (body ++ bin) ++ z.drop bin.length,
        some (n + 15 + bin.length, if behind = [] then none else some behind)) := by
  have hstop : (if behind = [] then none else some behind).getD [] = behind := by
    by_cases hnil : behind = []
    · rw [if_pos hnil, hnil]
      rfl
    · rw [if_neg hnil]
      rfl
  have hhalf : (hex ++ behind).length - behind.length = 2 * bin.length := by
    rw [List.length_append, Nat.add_sub_cancel, hlen]
  have hdiv : 2 * bin.length / 2 = bin.length := Nat.mul_div_cancel_left _ (by decide)
  have heven : ¬ 2 * bin.length % 2 = 1 := by omega
  have hread := (hexstr2bin_append (Nat.le_of_eq hlen.symm) behind).trans hbin
  have hdone : (a ++ ([eidNeighborReport, x] ++ body)).length = n + 15 := by
    simp only [List.length_append, List.length_cons, List.length_nil, ha, hbody]
  have hroom : ¬ n + 15 + bin.length >
      (a ++ ([eidNeighborReport, x] ++ body) ++ z).length := by
    rw [List.length_append, hdone]
    omega
  have hwhole : a ++ ([eidNeighborReport, x] ++ body) ++ bin ++ z.drop bin.length =
      a ++ ([eidNeighborReport, x] ++ (body ++ bin)) ++ z.drop bin.length := by
    simp only [List.append_assoc]
  unfold parseSubelements
  rw [strchr_skip hhex, strchr_blank hend]
  simp only [hstop, hhalf, hdiv, if_neg hroom, if_neg heven, (hexStored_eq hread).1,
    store_grow hdone hz, Option.bind_eq_bind, Option.bind_some, hread, hwhole]
  exact fillLength_eq ha (by rw [List.length_append, hbody])

/-- From the PHY type on, an element is made of the entry, and the search goes on behind it. -/
theorem parsePhyType_eq {p : Bytes} (ha : a.length = n) (hp : p.length = 12) (he : e.Valid w)
    (hend : Ends behind) (hz : 1 + e.octets.length ≤ z.length) :
    ∃ next, parsePhyType w n (e.tail ++ behind) (a ++ ([eidNeighborReport, x] ++ p) ++ z) =
        some (a ++ element (p ++ atoi w (e.tail ++ behind) :: e.octets) ++
          z.drop (1 + e.octets.length), some (n + 15 + e.octets.length, next)) ∧
      strstr neighborMark (next.getD []) = strstr neighborMark behind := by
  obtain ⟨phy, hphy⟩ : ∃ phy, phy = atoi w (e.tail ++ behind) := ⟨_, rfl⟩
  have hdone : (a ++ ([eidNeighborReport, x] ++ p)).length = n + 14 := by
    simp only [List.length_append, List.length_cons, List.length_nil, ha, hp]
  have hstore : (a ++ ([eidNeighborReport, x] ++ p) ++ z).store (n + 14) [phy] =
      some (a ++ ([eidNeighborReport, x] ++ (p ++ [phy])) ++ z.drop 1) := by
    rw [store_grow hdone (show [phy].length ≤ z.length by rw [List.length_singleton]; omega)]
    simp only [List.append_assoc, List.length_singleton]
  have hbody : (p ++ [phy]).length = 13 := by
    rw [List.length_append, hp, List.length_singleton]
  unfold parsePhyType
  rw [← hphy, hstore]
  simp only [Option.bind_eq_bind, Option.bind_some]
  cases hsub : e.subelements with
  | none =>
    have htail : e.tail = e.phyType := by rw [Entry.tail, Entry.dump, hsub, List.append_nil]
    have hoctets : e.octets = [] := by rw [Entry.octets, hsub]
    have hskip : strchr comma (e.phyType ++ behind) = strchr comma behind :=
      strchr_skip he.phyType_comma
    have hblank : strchr blank (e.phyType ++ behind) = strchr blank behind :=
      strchr_skip he.phyType_blank
    have hfill := @fillLength_eq n a (z.drop 1) (some (e.phyType ++ behind)) x (p ++ [phy]) 0 ha hbody
    rw [Nat.add_zero] at hfill
    refine ⟨some (e.phyType ++ behind), ?_, strstr_skip he.phyType_blank⟩
    rw [htail, hoctets, List.length_nil, Nat.add_zero, Nat.add_zero, hskip, hblank,
      strchr_blank hend]
    obtain rfl | ⟨t, rfl⟩ := hend
    · exact hfill
    · split
      · exact hfill
      · rename_i tmp htmp
        have hlen := strchr_length htmp
        have hlate : ¬ ((if blank :: t = [] then none else some (blank :: t)).all
            fun stop => stop.length < tmp.length) = true := by
          rw [if_neg (List.cons_ne_nil blank t), Option.all_some, decide_eq_true_iff, not_lt]
          exact hlen
        rw [if_neg hlate]
        exact hfill
  | some hex =>
    obtain ⟨hblank, bin, hbin, hlen⟩ := he.dump hex hsub
    have htail : e.tail = e.phyType ++ comma :: hex := by rw [Entry.tail, Entry.dump, hsub]
    have hoctets : e.octets = bin := by
      rw [Entry.octets, hsub]
      simp only [hlen, Nat.mul_div_cancel_left _ (show 0 < 2 by decide)]
      exact (hexStored_eq hbin).1
    have hcut : strchr comma (e.phyType ++ comma :: (hex ++ behind)) =
        some (comma :: (hex ++ behind)) := strchr_cut he.phyType_comma
    have hnotail : blank ∉ e.phyType ++ comma :: hex := htail ▸ he.dump_blank
    have hstop : strchr blank (e.phyType ++ comma :: (hex ++ behind)) =
        if behind = [] then none else some behind := by
      have hskip := strchr_skip (s := behind) hnotail
      rw [List.append_assoc, List.cons_append, strchr_blank hend] at hskip
      exact hskip
    have hbefore : (strchr blank (e.phyType ++ comma :: (hex ++ behind))).all
        fun stop => stop.length < (comma :: (hex ++ behind)).length := by
      rw [hstop]
      split
      · rfl
      · rw [Option.all_some, decide_eq_true_iff, List.length_cons, List.length_append]
        omega
    rw [hoctets] at hz
    refine ⟨if behind = [] then none else some behind, ?_, ?_⟩
    · rw [htail, hoctets, List.append_assoc, List.cons_append]
      simp only [hcut, hbefore, if_true, List.tail_cons]
      rw [parseSubelements_eq ha hend hblank hbin hlen hbody (by rw [List.length_drop]; omega),
        List.drop_drop, List.append_assoc p]
      rfl
    · by_cases hnil : behind = []
      · rw [if_pos hnil, hnil]
        rfl
      · rw [if_neg hnil]
        rfl

/-- A turn on a valid entry makes an element of it. -/
theorem parseNeighbor_eq (ha : a.length = n) (he : e.Valid w) (hend : Ends behind)
    (hz : 15 + e.octets.length ≤ z.length) :
    ∃ next, parseNeighbor w n (e.text ++ behind) (a ++ z) =
        some (a ++ element (e.body w (atoi w (e.tail ++ behind))) ++ z.drop (15 + e.octets.length),
          some (n + 15 + e.octets.length, next)) ∧
      strstr neighborMark (next.getD []) = strstr neighborMark behind := by
  obtain ⟨hlen, -, haddr, hread⟩ := he.address
  obtain ⟨y, x, z', rfl⟩ : ∃ y x z', z = y :: x :: z' := by
    obtain _ | ⟨y, _ | ⟨x, z'⟩⟩ := z
    · rw [List.length_nil] at hz
      omega
    · rw [List.length_singleton] at hz
      omega
    · exact ⟨y, x, z', rfl⟩
  simp only [List.length_cons] at hz
  obtain ⟨addr, hA⟩ : ∃ addr, addr = (hwaddrAton e.bssid).1 := ⟨_, rfl⟩
  obtain ⟨val, hval⟩ : ∃ val, val = putLe32 (strtol w 0 e.info).1 := ⟨_, rfl⟩
  have hvallen : val.length = 4 := by rw [hval, putLe32, List.length_reverse, ofBeNat_length]
  have hfront : e.front w = addr ++ (val ++ [atoi w e.opClass, atoi w e.channel]) := by
    rw [Entry.front, hA, hval]
  rw [← hA] at haddr hread
  -- the texts that the searches come to
  have haddress : hwaddrAton (e.text ++ behind) = (addr, true) := by
    rw [Entry.text, List.append_assoc, hread]
  have hdrop : (e.text ++ behind).drop 17 = comma :: (e.info ++ comma :: (e.opClass ++ comma ::
      (e.channel ++ comma :: (e.tail ++ behind)))) := by
    simp only [Entry.text, List.append_assoc, List.cons_append]
    rw [← hlen, List.drop_left]
  have hinfo : strtol w 0 (e.info ++ comma :: (e.opClass ++ comma ::
      (e.channel ++ comma :: (e.tail ++ behind)))) = ((strtol w 0 e.info).1,
        comma :: (e.opClass ++ comma :: (e.channel ++ comma :: (e.tail ++ behind)))) := by
    rw [strtol_cut (by decide), he.info]
    rfl
  have hop : strchr comma (e.opClass ++ comma :: (e.channel ++ comma :: (e.tail ++ behind))) =
      some (comma :: (e.channel ++ comma :: (e.tail ++ behind))) := strchr_cut he.opClass_comma
  have hchannel : strchr comma (e.channel ++ comma :: (e.tail ++ behind)) =
      some (comma :: (e.tail ++ behind)) := strchr_cut he.channel_comma
  -- the stores, one behind the other
  have hid : (a ++ y :: x :: z').store n [eidNeighborReport] =
      some (a ++ [eidNeighborReport, x] ++ z') := by
    rw [List.append_assoc]
    exact store_part (show _ = a ++ ([y] ++ (x :: z')) from rfl) ha rfl
  have hstart : (a ++ [eidNeighborReport, x]).length = n + 2 := by
    rw [List.length_append, ha]
    rfl
  have hstoreAddr : (a ++ [eidNeighborReport, x] ++ z').store (n + 2) addr =
      some (a ++ ([eidNeighborReport, x] ++ addr) ++ z'.drop 6) := by
    rw [store_grow hstart (by omega), haddr, List.append_assoc a]
  have hstartVal : (a ++ ([eidNeighborReport, x] ++ addr)).length = n + 8 := by
    rw [List.length_append, List.length_append, ha, haddr]
    rfl
  have hstoreVal : (a ++ ([eidNeighborReport, x] ++ addr) ++ z'.drop 6).store (n + 8) val =
      some (a ++ ([eidNeighborReport, x] ++ (addr ++ val)) ++ z'.drop 10) := by
    rw [store_grow hstartVal (by rw [List.length_drop]; omega), hvallen, List.drop_drop]
    simp only [List.append_assoc]
  have hstartOp : (a ++ ([eidNeighborReport, x] ++ (addr ++ val))).length = n + 12 := by
    simp only [List.length_append, ha, haddr, hvallen]
    rfl
  have hstoreOp : (a ++ ([eidNeighborReport, x] ++ (addr ++ val)) ++ z'.drop 10).store (n + 12)
      [atoi w e.opClass] =
        some (a ++ ([eidNeighborReport, x] ++ (addr ++ (val ++ [atoi w e.opClass]))) ++
          z'.drop 11) := by
    rw [store_grow hstartOp (by rw [List.length_drop, List.length_singleton]; omega),
      List.length_singleton, List.drop_drop]
    simp only [List.append_assoc]
  have hstartChannel : (a ++ ([eidNeighborReport, x] ++
      (addr ++ (val ++ [atoi w e.opClass])))).length = n + 13 := by
    simp only [List.length_append, ha, haddr, hvallen]
    rfl
  have hstoreChannel : (a ++ ([eidNeighborReport, x] ++ (addr ++ (val ++ [atoi w e.opClass]))) ++
      z'.drop 11).store (n + 13) [atoi w e.channel] =
        some (a ++ ([eidNeighborReport, x] ++ e.front w) ++ z'.drop 12) := by
    rw [store_grow hstartChannel (by rw [List.length_drop, List.length_singleton]; omega),
      List.length_singleton, List.drop_drop, hfront]
    simp only [List.append_assoc, List.cons_append, List.nil_append]
  obtain ⟨next, hphy, hnext⟩ := @parsePhyType_eq w n e a behind (z'.drop 12) x (e.front w) ha
    he.length_front he hend (by rw [List.length_drop]; omega)
  refine ⟨next, ?_, hnext⟩
  have hdropped : (z'.drop 12).drop (1 + e.octets.length) =
      (y :: x :: z').drop (15 + e.octets.length) := by
    have hsucc : 15 + e.octets.length = 12 + (1 + e.octets.length) + 1 + 1 := by omega
    rw [List.drop_drop, hsucc, List.drop_succ_cons, List.drop_succ_cons]
  rw [hdropped] at hphy
  unfold parseNeighbor parseChannels
  simp only [hid, Option.bind_eq_bind, Option.bind_some, haddress, hstoreAddr, hdrop,
    List.head?_cons, List.tail_cons, hinfo, ← hval, hstoreVal, atoi_cut, hstoreOp, hop,
    hstoreChannel, hchannel, hphy, not_true_eq_false, ne_eq, if_false]
  rfl

end Turn

/-- The list is refused, with nothing written beyond the buffer. -/
def Refused (r : Option (Bytes × EntryEnd)) (len : ℕ) : Prop :=
  ∃ buf, r = some (buf, none) ∧ buf.length = len

section Cases
variable {w n : ℕ} {pos buf tmp : Bytes}

/-- A text up to the first space, or all of it. -/
theorem upToBlank (pos : Bytes) : ∃ t behind, blank ∉ t ∧ Ends behind ∧ pos = t ++ behind ∧
    (strchr blank pos).getD [] = behind := by
  obtain ⟨hnone, hblank⟩ | ⟨t, u, ht, hpos, hsome⟩ := strchr_cases blank pos
  · exact ⟨pos, [], hblank, .inl rfl, (List.append_nil pos).symm, by rw [hnone]; rfl⟩
  · exact ⟨t, blank :: u, ht, .inr ⟨u, rfl⟩, hpos, by rw [hsome]; rfl⟩

theorem strchr_suffix {c : UInt8} (h : strchr c pos = some tmp) :
    tmp <:+ pos ∧ tmp.head? = some c := by
  obtain ⟨hnone, -⟩ | ⟨a, b, -, hpos, hsome⟩ := strchr_cases c pos
  · rw [hnone] at h
    cases h
  · rw [hsome] at h
    cases h
    exact ⟨⟨a, hpos.symm⟩, rfl⟩

/-- A space that is not behind the first comma is in front of it. -/
theorem blank_first (htmp : strchr comma pos = some tmp)
    (hlate : ¬ (strchr blank pos).all (fun stop => stop.length < tmp.length) = true) :
    ∃ t behind, comma ∉ t ∧ blank ∉ t ∧ Ends behind ∧ pos = t ++ behind := by
  cases hstop : strchr blank pos with
  | none => exact absurd (by rw [hstop]; rfl) hlate
  | some stop =>
    rw [hstop, Option.all_some, decide_eq_true_iff, not_lt] at hlate
    have hne : tmp.length ≠ stop.length := by
      intro hlen
      have hsuf := List.suffix_of_suffix_length_le (strchr_suffix htmp).1 (strchr_suffix hstop).1
        hlate
      have heq := hsuf.eq_of_length hlen
      have hhead := (strchr_suffix htmp).2
      rw [heq, (strchr_suffix hstop).2] at hhead
      exact comma_ne_blank (Option.some.inj hhead).symm
    obtain ⟨t, u, hblank, hcomma, hpos, -⟩ := strchr_before hstop fun u hu => by
      rw [htmp] at hu
      cases hu
      omega
    exact ⟨t, blank :: u, hcomma, hblank, .inr ⟨u, rfl⟩, hpos⟩

theorem parseSubelements_cases :
    Refused (parseSubelements n (n + 15) pos buf) buf.length ∨
      ∃ hex bin behind, blank ∉ hex ∧ Ends behind ∧ pos = hex ++ behind ∧
        hexstr2bin hex bin.length = some bin ∧ hex.length = 2 * bin.length ∧
        n + 15 + bin.length ≤ buf.length := by
  obtain ⟨hex, behind, hblank, hend, hpos, hstop⟩ := upToBlank pos
  have hlen : pos.length - ((strchr blank pos).getD []).length = hex.length := by
    rw [hstop, hpos, List.length_append, Nat.add_sub_cancel]
  have hhalf : 2 * (hex.length / 2) ≤ hex.length := Nat.mul_div_le hex.length 2
  have hread := hexstr2bin_append hhalf behind
  rw [← hpos] at hread
  unfold parseSubelements
  simp only [hlen]
  split
  · exact .inl ⟨buf, rfl, rfl⟩
  · rename_i hfits
    split
    · exact .inl ⟨buf, rfl, rfl⟩
    · rename_i heven
      have hstored := hexStored_length pos (hex.length / 2)
      obtain ⟨buf', hstore, hlen'⟩ := @store_keeps buf (hexStored pos (hex.length / 2)) (n + 15)
        (by omega)
      rw [hstore]
      simp only [Option.bind_eq_bind, Option.bind_some]
      cases hbin : hexstr2bin pos (hex.length / 2) with
      | none => exact .inl ⟨buf', rfl, hlen'⟩
      | some bin =>
        have hbinlen := (hexStored_eq hbin).2
        rw [hread] at hbin
        rw [← hbinlen] at hbin
        exact .inr ⟨hex, bin, behind, hblank, hend, hpos, hbin, by omega, by omega⟩

section Fields
variable {bssid info opClass channel : Bytes}

theorem parsePhyType_cases (hbssid : (hwaddrParse Numerals.ethAlen bssid).2 = some [])
    (hinfo : (strtol w 0 info).2 = []) (hinfo' : comma ∉ info) (hop : comma ∉ opClass)
    (hchannel : comma ∉ channel) (hroom : n + 15 ≤ buf.length) :
    Refused (parsePhyType w n pos buf) buf.length ∨ ∃ e : Entry, ∃ behind, e.Valid w ∧
      e.bssid = bssid ∧ e.info = info ∧ e.opClass = opClass ∧ e.channel = channel ∧
      pos = e.tail ++ behind ∧ Ends behind ∧ n + 15 + e.octets.length ≤ buf.length := by
  -- an entry without subelements
  have hplain : ∀ t behind, comma ∉ t → blank ∉ t → Ends behind → pos = t ++ behind →
      ∃ e : Entry, ∃ behind, e.Valid w ∧ e.bssid = bssid ∧ e.info = info ∧ e.opClass = opClass ∧
        e.channel = channel ∧ pos = e.tail ++ behind ∧ Ends behind ∧
        n + 15 + e.octets.length ≤ buf.length := by
    intro t behind hcomma hblank hend hpos
    refine ⟨⟨bssid, info, opClass, channel, t, none⟩, behind, ⟨hbssid, hinfo, hinfo', hop, hchannel,
      hcomma, hblank, fun hex hhex => by cases hhex⟩, rfl, rfl, rfl, rfl, ?_, hend, hroom⟩
    rw [hpos, Entry.tail, Entry.dump, List.append_nil]
  obtain ⟨buf', hstore, hlen⟩ := @store_keeps buf [atoi w pos] (n + 14) hroom
  unfold parsePhyType
  rw [hstore]
  simp only [Option.bind_eq_bind, Option.bind_some]
  cases htmp : strchr comma pos with
  | none =>
    obtain ⟨-, hcomma⟩ := (strchr_cases comma pos).resolve_right fun h => by
      obtain ⟨a, b, -, -, hsome⟩ := h
      rw [htmp] at hsome
      cases hsome
    obtain ⟨t, behind, hblank, hend, hpos, -⟩ := upToBlank pos
    have hcomma' : comma ∉ t := fun hmem => hcomma (hpos ▸ List.mem_append_left behind hmem)
    exact .inr (hplain t behind hcomma' hblank hend hpos)
  | some tmp =>
    simp only
    by_cases hall : (strchr blank pos).all (fun stop => stop.length < tmp.length) = true
    · rw [if_pos hall]
      obtain ⟨t, dump, hcomma, hblank, hpos, rfl⟩ := strchr_before htmp fun u hu => by
        rw [hu, Option.all_some, decide_eq_true_iff] at hall
        exact hall
      obtain hrefused | ⟨hex, bin, behind, hhex, hend, hdump, hbin, hhexlen, hfits⟩ :=
        @parseSubelements_cases n dump buf'
      · exact .inl (hlen ▸ hrefused)
      · refine .inr ⟨⟨bssid, info, opClass, channel, t, some hex⟩, behind, ⟨hbssid, hinfo, hinfo',
          hop, hchannel, hcomma, hblank, ?_⟩, rfl, rfl, rfl, rfl, ?_, hend, ?_⟩
        · intro hex' hhex'
          cases hhex'
          exact ⟨hhex, bin, hbin, hhexlen⟩
        · rw [hpos, hdump, Entry.tail, Entry.dump, List.append_assoc, List.cons_append]
        · have hhalf : hex.length / 2 = bin.length := by omega
          rw [Entry.octets]
          simp only [hhalf, (hexStored_eq hbin).1]
          rw [← hlen]
          exact hfits
    · obtain ⟨t, behind, hcomma, hblank, hend, hpos⟩ := blank_first htmp hall
      exact .inr (hplain t behind hcomma hblank hend hpos)

theorem parseChannels_cases (hbssid : (hwaddrParse Numerals.ethAlen bssid).2 = some [])
    (hinfo : (strtol w 0 info).2 = []) (hinfo' : comma ∉ info) (hroom : n + 15 ≤ buf.length) :
    Refused (parseChannels w n pos buf) buf.length ∨ ∃ e : Entry, ∃ behind, e.Valid w ∧
      e.bssid = bssid ∧ e.info = info ∧
      pos = e.opClass ++ comma :: (e.channel ++ comma :: (e.tail ++ behind)) ∧ Ends behind ∧
      n + 15 + e.octets.length ≤ buf.length := by
  obtain ⟨buf₁, hstore₁, hlen₁⟩ := @store_keeps buf [atoi w pos] (n + 12)
    (by rw [List.length_singleton]; omega)
  unfold parseChannels
  rw [hstore₁]
  simp only [Option.bind_eq_bind, Option.bind_some]
  obtain ⟨hnone, -⟩ | ⟨opClass, t, hop, hpos, hsome⟩ := strchr_cases comma pos
  · rw [hnone]
    exact .inl ⟨buf₁, rfl, hlen₁⟩
  · obtain ⟨buf₂, hstore₂, hlen₂⟩ := @store_keeps buf₁ [atoi w t] (n + 13)
      (by rw [List.length_singleton]; omega)
    rw [hsome]
    simp only [List.tail_cons, hstore₂, Option.bind_some]
    obtain ⟨hnone', -⟩ | ⟨channel, u, hchannel, ht, hsome'⟩ := strchr_cases comma t
    · rw [hnone']
      exact .inl ⟨buf₂, rfl, hlen₂.trans hlen₁⟩
    · rw [hsome']
      simp only [List.tail_cons]
      obtain ⟨buf₃, hrefused, hlen₃⟩ | ⟨e, behind, he, rfl, rfl, rfl, rfl, rfl, hend, hfits⟩ :=
        @parsePhyType_cases w n u buf₂ bssid info opClass channel hbssid hinfo hinfo' hop hchannel
          (by omega)
      · exact .inl ⟨buf₃, hrefused, by omega⟩
      · exact .inr ⟨e, behind, he, rfl, rfl, by rw [hpos, ht], hend, by omega⟩

end Fields

/-- A turn refuses the list, or there is a valid entry that fits the buffer. -/
theorem parseNeighbor_cases (hroom : n + 15 ≤ buf.length) :
    Refused (parseNeighbor w n pos buf) buf.length ∨ ∃ e : Entry, ∃ behind, e.Valid w ∧
      pos = e.text ++ behind ∧ Ends behind ∧ n + 15 + e.octets.length ≤ buf.length := by
  obtain ⟨buf₁, hstore₁, hlen₁⟩ := @store_keeps buf [eidNeighborReport] n
    (by rw [List.length_singleton]; omega)
  have haddr : (hwaddrAton pos).1.length ≤ 6 := hwaddrParse_length 6 pos
  obtain ⟨buf₂, hstore₂, hlen₂⟩ := @store_keeps buf₁ (hwaddrAton pos).1 (n + 2) (by omega)
  unfold parseNeighbor
  simp only [hstore₁, Option.bind_eq_bind, Option.bind_some, hstore₂]
  split
  · exact .inl ⟨buf₂, rfl, hlen₂.trans hlen₁⟩
  · rename_i haddress
    split
    · exact .inl ⟨buf₂, rfl, hlen₂.trans hlen₁⟩
    · rename_i hcomma
      obtain ⟨rest, hparse⟩ : ∃ rest, hwaddrParse (5 + 1) pos = ((hwaddrAton pos).1, some rest) := by
        obtain ⟨rest, hrest⟩ := Option.isSome_iff_exists.mp (not_not.mp haddress)
        exact ⟨rest, Prod.ext rfl hrest⟩
      obtain ⟨bssid, hpos, hbssid, -, -, hlocal⟩ := hwaddrParse_some hparse
      have hread : (hwaddrParse Numerals.ethAlen bssid).2 = some [] := by
        have hnil := hlocal []
        rw [List.append_nil] at hnil
        exact congrArg Prod.snd hnil
      have hdrop : pos.drop 17 = rest := by
        rw [hpos]
        exact List.drop_left' hbssid
      rw [hdrop, not_not] at hcomma
      rw [hdrop]
      obtain ⟨val, hval⟩ : ∃ val, val = putLe32 (strtol w 0 rest.tail).1 := ⟨_, rfl⟩
      have hvallen : val.length = 4 := by rw [hval, putLe32, List.length_reverse, ofBeNat_length]
      obtain ⟨buf₃, hstore₃, hlen₃⟩ := @store_keeps buf₂ val (n + 8) (by omega)
      rw [← hval]
      simp only [hstore₃, Option.bind_some]
      split
      · exact .inl ⟨buf₃, rfl, hlen₃.trans (hlen₂.trans hlen₁)⟩
      · rename_i hnumber
        obtain ⟨info, t, hinfo, htail, hwhole⟩ := strtol_comma (by decide) (not_not.mp hnumber)
        have hend : (strtol w 0 rest.tail).2 = comma :: t := by
          rw [htail, strtol_cut (by decide), hwhole]
          rfl
        rw [hend, List.tail_cons]
        obtain ⟨buf₄, hrefused, hlen₄⟩ | ⟨e, behind, he, rfl, rfl, ht, hends, hfits⟩ :=
          @parseChannels_cases w n t buf₃ bssid info hread hwhole hinfo (by omega)
        · exact .inl ⟨buf₄, hrefused, by omega⟩
        · refine .inr ⟨e, behind, he, ?_, hends, by omega⟩
          have hrest : rest = comma :: rest.tail := (List.cons_head?_tail hcomma).symm
          rw [hpos, hrest, htail, ht, Entry.text]
          simp only [List.append_assoc, List.cons_append]

end Cases

section Run
variable {w n : ℕ} {s a room pos buf : Bytes} {rs : List (Entry × Bytes)} {reports : List Bytes}

theorem parseFrom_done (hmark : strstr neighborMark pos = none) :
    parseFrom w n pos buf = some (buf, some n) := by
  rw [parseFrom]
  split
  · rfl
  · rename_i mark hfound
    rw [hmark] at hfound
    cases hfound

/-- What the loop does after a turn. -/
def afterTurn (w : ℕ) : Option (Bytes × EntryEnd) → Option (Bytes × Option ℕ)
  | none => none
  | some (buf, none) => some (buf, none)
  | some (buf, some (n, none)) => some (buf, some n)
  | some (buf, some (n, some pos)) => parseFrom w n pos buf

theorem parseFrom_entry {mark : Bytes} (hmark : strstr neighborMark pos = some mark) :
    parseFrom w n pos buf = if n + 15 > buf.length then some (buf, none)
      else afterTurn w (parseNeighbor w n (mark.drop 10) buf) := by
  rw [parseFrom]
  split
  · rename_i hnone
    rw [hmark] at hnone
    cases hnone
  · rename_i mark' hfound
    rw [hmark] at hfound
    cases hfound
    split
    · rfl
    · split <;> rename_i hturn <;> rw [hturn, afterTurn]

/-- The search for the next entry does not depend on what it starts with. -/
theorem afterTurn_next {next : Option Bytes} (h : strstr neighborMark (next.getD []) =
    strstr neighborMark pos) : afterTurn w (some (buf, some (n, next))) = parseFrom w n pos buf := by
  cases next with
  | none => exact (parseFrom_done (h ▸ rfl)).symm
  | some t =>
    rw [Option.getD_some] at h
    rw [afterTurn]
    cases hmark : strstr neighborMark pos with
    | none => rw [parseFrom_done hmark, parseFrom_done (h.trans hmark)]
    | some mark => rw [parseFrom_entry hmark, parseFrom_entry (h.trans hmark)]

/-- What the loop makes of a list. -/
def reportsOf (w : ℕ) (rs : List (Entry × Bytes)) : Bytes :=
  rs.flatMap fun r => element (r.1.body w (atoi w (r.1.tail ++ r.2)))

theorem drop_neighborMark (t : Bytes) : (neighborMark ++ t).drop 10 = t :=
  List.drop_left' (show neighborMark.length = 10 from rfl)

/-- An entry that fits goes into the buffer, and the loop goes on behind it. -/
theorem parseFrom_turn {e : Entry} {behind : Bytes} (ha : a.length = n)
    (hmark : strstr neighborMark pos = some (neighborMark ++ (e.text ++ behind))) (he : e.Valid w)
    (hend : Ends behind) (hroom : 15 + e.octets.length ≤ room.length) :
    parseFrom w n pos (a ++ room) = parseFrom w (n + (15 + e.octets.length)) behind
      (a ++ element (e.body w (atoi w (e.tail ++ behind))) ++ room.drop (15 + e.octets.length)) := by
  obtain ⟨next, hturn, hnext⟩ := parseNeighbor_eq ha he hend hroom
  have hfits : ¬ n + 15 > (a ++ room).length := by
    rw [List.length_append]
    omega
  rw [parseFrom_entry hmark, if_neg hfits, drop_neighborMark, hturn, ← Nat.add_assoc,
    afterTurn_next hnext]

/-- The run on a list that reads as entries and fits. -/
theorem parseFrom_listing (h : Listing w pos rs) (ha : a.length = n) (hsize : size rs ≤ room.length) :
    parseFrom w n pos (a ++ room) =
      some (a ++ reportsOf w rs ++ room.drop (size rs), some (n + size rs)) := by
  induction h generalizing a n room with
  | done hmark => exact (parseFrom_done hmark).trans (by simp [reportsOf, size])
  | @entry s behind e rs hmark he hend _ ih =>
    have hcons : size ((e, behind) :: rs) = 15 + e.octets.length + size rs := rfl
    rw [hcons] at hsize
    have hlen : (a ++ element (e.body w (atoi w (e.tail ++ behind)))).length =
        n + (15 + e.octets.length) := by
      rw [List.length_append, ha, he.length_element]
    rw [parseFrom_turn ha hmark he hend (by omega), ih hlen (by rw [List.length_drop]; omega),
      List.drop_drop, hcons, reportsOf, reportsOf, List.flatMap_cons, List.append_assoc a,
      Nat.add_assoc n]

/-- Every list is refused, or it reads as entries that fit. -/
theorem parseFrom_cases (hn : n ≤ buf.length) :
    (∃ out, parseFrom w n pos buf = some (out, none) ∧ out.length = buf.length) ∨
      ∃ rs, Listing w pos rs ∧ n + size rs ≤ buf.length := by
  obtain ⟨k, hk⟩ : ∃ k, k = pos.length := ⟨_, rfl⟩
  induction k using Nat.strong_induction_on generalizing n pos buf with
  | _ k ih =>
    cases hmark : strstr neighborMark pos with
    | none => exact .inr ⟨[], .done hmark, hn⟩
    | some mark =>
      by_cases hroom : n + 15 > buf.length
      · rw [parseFrom_entry hmark, if_pos hroom]
        exact .inl ⟨buf, rfl, rfl⟩
      · obtain ⟨hpre, hsuf⟩ := strstr_some hmark
        obtain ⟨t, rfl⟩ := hpre
        obtain ⟨out, hrefused, hlen⟩ | ⟨e, behind, he, rfl, hend, hfits⟩ :=
          @parseNeighbor_cases w n t buf (by omega)
        · rw [parseFrom_entry hmark, if_neg hroom, drop_neighborMark, hrefused]
          exact .inl ⟨out, rfl, hlen⟩
        · obtain ⟨a, room, rfl, ha⟩ : ∃ a room, buf = a ++ room ∧ a.length = n :=
            ⟨buf.take n, buf.drop n, (List.take_append_drop n buf).symm, by
              rw [List.length_take]; omega⟩
          rw [List.length_append, ha] at hfits
          have hshorter : behind.length < k := by
            have hle := hsuf.length_le
            have hlow : neighborMark.length = 10 := rfl
            rw [List.length_append, List.length_append, hlow] at hle
            omega
          have hlength : (a ++ element (e.body w (atoi w (e.tail ++ behind))) ++
              room.drop (15 + e.octets.length)).length = (a ++ room).length := by
            simp only [List.length_append, he.length_element, List.length_drop]
            omega
          rw [parseFrom_turn ha hmark he hend (by omega), ← hlength]
          obtain hrefused | ⟨rs, hrs, hsize⟩ := @ih behind.length hshorter
            (n + (15 + e.octets.length)) behind (a ++ element (e.body w (atoi w (e.tail ++ behind))) ++
              room.drop (15 + e.octets.length)) (by rw [hlength, List.length_append]; omega) rfl
          · exact .inl hrefused
          · refine .inr ⟨(e, behind) :: rs, .entry hmark he hend hrs, ?_⟩
            have hcons : size ((e, behind) :: rs) = 15 + e.octets.length + size rs := rfl
            rw [hcons]
            omega

theorem tokens_done (hmark : strstr neighborMark s = none) : tokens s = [] := by
  rw [tokens]
  split
  · rfl
  · rename_i mark hfound
    rw [hmark] at hfound
    cases hfound

theorem tokens_entry {t : Bytes} (hmark : strstr neighborMark s = some (neighborMark ++ t)) :
    tokens s = t.takeWhile (· ≠ blank) :: tokens (t.dropWhile (· ≠ blank)) := by
  conv_lhs => rw [tokens]
  split
  · rename_i hnone
    rw [hmark] at hnone
    cases hnone
  · rename_i mark hfound
    rw [hmark] at hfound
    cases hfound
    rw [drop_neighborMark]

/-- The element that carries a token. -/
def properReport (w : ℕ) (r : Entry × Bytes) : Bytes := element (r.1.body w (atoi w r.1.phyType))

/-- Reports carry the tokens of a list if its entries are the tokens and short enough. -/
theorem carries_listing (h : Listing w s rs) : List.Forall₂ (Carries w) (tokens s) reports ↔
    (∀ r ∈ rs, r.1.Inside ∧ r.1.octets.length ≤ 242) ∧ reports = rs.map (properReport w) := by
  induction h generalizing reports with
  | done hmark => simp [tokens_done hmark]
  | @entry s behind e rs hmark he hend _ ih =>
    rw [tokens_entry hmark, List.forall₂_cons_left_iff]
    constructor
    · rintro ⟨report, reports', hreport, hreports, rfl⟩
      obtain ⟨⟨hinside, hshort⟩, rfl⟩ := (carries_iff he hend).mp hreport
      rw [(hend.takeWhile (he.blank_text.mpr hinside)).2] at hreports
      obtain ⟨hall, rfl⟩ := ih.mp hreports
      refine ⟨?_, rfl⟩
      intro r hr
      obtain rfl | hr := List.mem_cons.mp hr
      · exact ⟨hinside, hshort⟩
      · exact hall r hr
    · rintro ⟨hall, rfl⟩
      have hfirst := hall (e, behind) List.mem_cons_self
      refine ⟨_, _, (carries_iff he hend).mpr ⟨hfirst, rfl⟩, ?_, rfl⟩
      rw [(hend.takeWhile (he.blank_text.mpr hfirst.1)).2]
      exact ih.mpr ⟨fun r hr => hall r (List.mem_cons_of_mem _ hr), rfl⟩

theorem Listing.valid (h : Listing w s rs) : ∀ r ∈ rs, r.1.Valid w := by
  induction h with
  | done _ =>
    intro r hr
    cases hr
  | entry _ he _ _ ih =>
    intro r hr
    obtain rfl | hr := List.mem_cons.mp hr
    · exact he
    · exact ih r hr

/-- Elements of valid entries are alike if their PHY types are. -/
theorem reportsOf_eq_iff (h : ∀ r ∈ rs, r.1.Valid w) :
    reportsOf w rs = (rs.map (properReport w)).flatten ↔
      ∀ r ∈ rs, atoi w (r.1.tail ++ r.2) = atoi w r.1.phyType := by
  induction rs with
  | nil => simp [reportsOf]
  | cons r rs ih =>
    obtain ⟨hr, hrs⟩ := List.forall_mem_cons.mp h
    have hlen : (element (r.1.body w (atoi w (r.1.tail ++ r.2)))).length =
        (properReport w r).length := by
      rw [properReport, hr.length_element, hr.length_element]
    have hone : element (r.1.body w (atoi w (r.1.tail ++ r.2))) = properReport w r ↔
        atoi w (r.1.tail ++ r.2) = atoi w r.1.phyType := by
      constructor
      · intro heq
        rw [properReport, element, element, hr.length_body, hr.length_body, Entry.body,
          Entry.body] at heq
        have hbody := List.append_cancel_left heq
        exact (List.cons.inj (List.append_cancel_left hbody)).1
      · intro heq
        rw [properReport, heq]
    rw [List.forall_mem_cons, ← hone, ← ih hrs, reportsOf, List.flatMap_cons, List.map_cons,
      List.flatten_cons]
    constructor
    · intro heq
      exact List.append_inj heq hlen
    · rintro ⟨heq, hrest⟩
      rw [heq]
      exact congrArg _ hrest

theorem length_reportsOf (h : ∀ r ∈ rs, r.1.Valid w) : (reportsOf w rs).length = size rs := by
  induction rs with
  | nil => rfl
  | cons r rs ih =>
    obtain ⟨hr, hrs⟩ := List.forall_mem_cons.mp h
    have hcons : size (r :: rs) = 15 + r.1.octets.length + size rs := rfl
    rw [reportsOf, List.flatMap_cons, List.length_append, hr.length_element, hcons]
    exact congrArg _ (ih hrs)

theorem length_properReports (h : ∀ r ∈ rs, r.1.Valid w) :
    (rs.map (properReport w)).flatten.length = size rs := by
  induction rs with
  | nil => rfl
  | cons r rs ih =>
    obtain ⟨hr, hrs⟩ := List.forall_mem_cons.mp h
    have hcons : size (r :: rs) = 15 + r.1.octets.length + size rs := rfl
    rw [List.map_cons, List.flatten_cons, List.length_append, properReport, hr.length_element,
      ih hrs, hcons]

end Run

section Candidates
variable {w : ℕ} {cmd neiRep : Bytes} {rs : List (Entry × Bytes)}

theorem toInt_eq {k : ℕ} (h : 0 ≤ toInt k) (hk : k < 2 ^ 32) : toInt k = k := by
  unfold toInt at *
  rw [Int.bmod_def] at *
  split at h
  · rename_i hlow
    rw [if_pos hlow]
    omega
  · omega

theorem toInt_lt (k : ℕ) : toInt k < 2 ^ 31 := by
  have hlt := @Int.bmod_lt k (2 ^ 32) (by decide)
  unfold toInt
  omega

/-- The result for a list that reads as entries and fits. -/
theorem parseCandidateList_eq (h : Listing w cmd rs) (hsize : size rs ≤ neiRep.length) :
    parseCandidateList w cmd neiRep =
      some (reportsOf w rs ++ neiRep.drop (size rs), toInt (size rs)) := by
  have hrun := @parseFrom_listing w 0 [] neiRep cmd rs h rfl hsize
  rw [List.nil_append, List.nil_append, Nat.zero_add] at hrun
  rw [parseCandidateList, hrun]
  rfl

theorem meets_of_clean (h : Clean w cmd neiRep.length) : Meets w cmd neiRep := by
  obtain ⟨out, hrefused, hlen⟩ | ⟨rs, hrs, hsize⟩ :=
    @parseFrom_cases w 0 cmd neiRep (Nat.zero_le _)
  · refine ⟨out, -1, ?_, hlen, fun hn => absurd hn (by decide)⟩
    rw [parseCandidateList, hrefused]
    rfl
  · rw [Nat.zero_add] at hsize
    have hvalid := hrs.valid
    have hlen := length_reportsOf hvalid
    refine ⟨_, _, parseCandidateList_eq hrs hsize, ?_, ?_⟩
    · rw [List.length_append, hlen, List.length_drop]
      omega
    · intro hn
      obtain ⟨hsmall, hcomplete⟩ := h rs hrs hsize hn
      rw [toInt_eq hn hsmall, Int.toNat_natCast]
      refine ⟨rs.map (properReport w), (carries_listing hrs).mpr ⟨?_, rfl⟩, ?_, ?_⟩
      · intro r hr
        have hr' := hcomplete r hr
        exact ⟨⟨hr'.info, hr'.opClass, hr'.channel⟩, hr'.short⟩
      · rw [List.length_append, hlen]
        exact Nat.le_add_right _ _
      · rw [List.take_left' hlen]
        exact (reportsOf_eq_iff hvalid).mpr fun r hr => (hcomplete r hr).phyType

theorem clean_of_meets (h : Meets w cmd neiRep) : Clean w cmd neiRep.length := by
  intro rs hrs hsize hn
  have hvalid := hrs.valid
  obtain ⟨out, n, hrun, -, hreports⟩ := h
  rw [parseCandidateList_eq hrs hsize] at hrun
  cases hrun
  obtain ⟨reports, hcarries, hle, htake⟩ := hreports hn
  obtain ⟨hall, rfl⟩ := (carries_listing hrs).mp hcarries
  have hwhole : (toInt (size rs)).toNat = size rs := by
    have hlen := congrArg List.length htake
    rw [List.length_take_of_le hle, length_properReports hvalid] at hlen
    exact hlen
  have hlt := toInt_lt (size rs)
  rw [hwhole, List.take_left' (length_reportsOf hvalid)] at htake
  have hphy := (reportsOf_eq_iff hvalid).mp htake
  refine ⟨by omega, ?_⟩
  intro r hr
  obtain ⟨⟨hinfo, hop, hchannel⟩, hshort⟩ := hall r hr
  exact ⟨hinfo, hop, hchannel, hphy r hr, hshort⟩

/-- A list becomes whole elements, one for each token with its own fields, if no entry that is read
from it misses a field in its token or has more subelements than its length octet can tell. -/
theorem parseCandidateList_meets_iff (w : ℕ) (cmd neiRep : Bytes) :
    Meets w cmd neiRep ↔ Clean w cmd neiRep.length :=
  ⟨clean_of_meets, meets_of_clean⟩

end Candidates

section Failing

/-- `00:00:00:00:00:00`. -/
def zeroAddress : Bytes :=
  [48, 48, 58, 48, 48, 58, 48, 48, 58, 48, 48, 58, 48, 48, 58, 48, 48]

/-- An entry whose operating class runs up to the first comma of the entry behind it. -/
def mixedEntry : Entry := ⟨zeroAddress, [49], [50] ++ neighborMark ++ zeroAddress, [51], [52], none⟩

/-- ` neighbor=00:00:00:00:00:00,1,2 neighbor=00:00:00:00:00:00,3,4`. -/
def mixedList : Bytes := neighborMark ++ mixedEntry.text

/-- An entry with `n` octets of subelements. -/
def longEntry (n : ℕ) : Entry :=
  ⟨zeroAddress, [49], [50], [51], [52], some (List.replicate (2 * n) 48)⟩

theorem hexstr2bin_zeros (n : ℕ) : hexstr2bin (List.replicate (2 * n) 48) n = some (zeros n) := by
  induction n with
  | zero =>
    rw [hexstr2bin]
    rfl
  | succ n ih =>
    have hzero : hex2byte 48 48 = some 0 := by decide
    rw [Nat.mul_succ, List.replicate_succ, List.replicate_succ, hexstr2bin]
    simp only [hzero, ih]
    rfl

theorem mixedEntry_valid : mixedEntry.Valid 64 where
  bssid := by decide
  info := by decide
  info_comma := by decide
  opClass_comma := by decide
  channel_comma := by decide
  phyType_comma := by decide
  phyType_blank := by decide
  dump := fun hex hhex => by cases hhex

theorem longEntry_valid (n : ℕ) : (longEntry n).Valid 64 where
  bssid := by
    show (hwaddrParse Numerals.ethAlen zeroAddress).2 = some []
    decide
  info := by
    show (strtol 64 0 [49]).2 = []
    decide
  info_comma := by
    show comma ∉ [49]
    decide
  opClass_comma := by
    show comma ∉ [50]
    decide
  channel_comma := by
    show comma ∉ [51]
    decide
  phyType_comma := by
    show comma ∉ [52]
    decide
  phyType_blank := by
    show blank ∉ [52]
    decide
  dump := by
    intro hex hhex
    cases hhex
    refine ⟨?_, zeros n, by rw [zeros_length]; exact hexstr2bin_zeros n, ?_⟩
    · intro hmem
      exact absurd (List.eq_of_mem_replicate hmem) (by decide)
    · rw [List.length_replicate, zeros_length]

/-- A list of one entry. -/
theorem listing_one {e : Entry} (he : e.Valid 64) : Listing 64 (neighborMark ++ e.text) [(e, [])] := by
  refine .entry ?_ he (.inl rfl) (.done rfl)
  rw [List.append_nil]
  exact strstr_of_isPrefixOf (List.prefix_append _ _)

/-- A token without its last fields takes those of the next one, and the length octet of an element
with 243 octets of subelements is zero. -/
theorem candidateLists_fail : ¬ Meets 64 mixedList (zeros 1000) ∧
    ¬ Meets 64 (neighborMark ++ (longEntry 243).text) (zeros 1000) := by
  constructor
  · intro h
    have hclean := clean_of_meets h _ (listing_one mixedEntry_valid)
      (by rw [zeros_length]; decide) (by decide)
    have hcomplete := hclean.2 (mixedEntry, []) List.mem_cons_self
    exact absurd hcomplete.opClass (by decide)
  · intro h
    have hoctets : (longEntry 243).octets.length = 243 := by
      have hhalf : (List.replicate (2 * 243) (48 : UInt8)).length / 2 = 243 := by
        rw [List.length_replicate]
      rw [Entry.octets, longEntry]
      simp only [hhalf, (hexStored_eq (hexstr2bin_zeros 243)).1, zeros_length]
    have hsize : size [(longEntry 243, [])] = 258 := by
      simp only [size, List.map_cons, List.map_nil, List.sum_cons, List.sum_nil, hoctets,
        Nat.reduceAdd]
    have hclean := clean_of_meets h _ (listing_one (longEntry_valid 243))
      (by rw [hsize, zeros_length]; decide) (by rw [hsize]; decide)
    have hshort := (hclean.2 (longEntry 243, []) List.mem_cons_self).short
    rw [hoctets] at hshort
    omega

end Failing

end Wpa.CandidateList
