import Wpa.Ie.Walk
import Wpa.Rsne.Exact

/-! `wpa_ft_parse_ies`: what it finds in a Fast BSS Transition frame, and the count of protected
elements that it compares with the frame. Pointers into the frame are offsets. -/

namespace Wpa.Ft
open Lib Bytes Ie

def eidRicData : ℕ := 57
def ftieSubelemR1khId : ℕ := 1
def ftieSubelemGtk : ℕ := 2
def ftieSubelemR0khId : ℕ := 3
def ftieSubelemIgtk : ℕ := 4
def ftieSubelemOci : ℕ := 5
def ftieSubelemBigtk : ℕ := 6
def ftR1khIdLen : ℕ := 6
def ftR0khIdMaxLen : ℕ := 48
def fteNonceLen : ℕ := 32

/-- The size of `struct rsn_mdie`. -/
def rsnMdieLen : ℕ := 3

def fteMicLen (useSha384 : Bool) : ℕ := if useSha384 then 24 else 16

/-- The size of `struct rsn_ftie` or `struct rsn_ftie_sha384`. -/
def rsnFtieLen (useSha384 : Bool) : ℕ := 2 + fteMicLen useSha384 + fteNonceLen + fteNonceLen

/-- `struct wpa_ft_ies`. A pointer without a length has a field of fixed size behind it. -/
structure WpaFtIes where
  mdie : Option Span := none
  ftie : Option Span := none
  r1khId : Option ℕ := none
  gtk : Option Span := none
  r0khId : Option Span := none
  fteAnonce : Option ℕ := none
  fteSnonce : Option ℕ := none
  rsn : Option Span := none
  rsnCapab : ℕ := 0
  rsnPmkid : Option ℕ := none
  tie : Option Span := none
  igtk : Option Span := none
  bigtk : Option Span := none
  oci : Option Span := none
  ric : Option ℕ := none
  ricLen : ℕ := 0
  keyMgmt : ℕ := 0
  pairwiseCipher : ℕ := 0
  rsnxe : Option Span := none
  deriving DecidableEq

def parseFtieSubelement (e : Element) (parse : WpaFtIes) : ReadProg ℤ WpaFtIes :=
  if e.id = ftieSubelemR1khId then
    if e.data.len ≠ ftR1khIdLen then throw (-1)
    else return { parse with r1khId := some e.data.off }
  else if e.id = ftieSubelemGtk then return { parse with gtk := some e.data }
  else if e.id = ftieSubelemR0khId then
    if e.data.len < 1 ∨ e.data.len > ftR0khIdMaxLen then throw (-1)
    else return { parse with r0khId := some e.data }
  else if e.id = ftieSubelemIgtk then return { parse with igtk := some e.data }
  else if e.id = ftieSubelemOci then return { parse with oci := some e.data }
  else if e.id = ftieSubelemBigtk then return { parse with bigtk := some e.data }
  else return parse

/-- The subelements are looked for in the element `ie` only. -/
def wpaFtParseFtie (ies : Bytes) (ie : Span) (parse : WpaFtIes) (useSha384 : Bool) :
    ReadProg ℤ WpaFtIes :=
  walk (ies.take (ie.off + ie.len)) parseFtieSubelement (ie.len + 1)
    (ie.off + rsnFtieLen useSha384) { parse with ftie := some ie }

/-- The variables of the first loop. -/
structure FtParser where
  parse : WpaFtIes := {}
  useSha384 : Bool
  updateUseSha384 : Bool
  protIeCount : ℕ := 0

def WpaFtIes.setRsne (parse : WpaFtIes) (rsn : Span) (data : WpaIeData) : WpaFtIes :=
  { parse with
    rsn := some rsn
    rsnCapab := data.capabilities
    rsnPmkid :=
      if data.numPmkid = 1 ∧ data.pmkid.isSome then data.pmkid.map (rsn.off - 2 + ·)
      else parse.rsnPmkid
    keyMgmt := data.keyMgmt
    pairwiseCipher := data.pairwiseCipher }

def parseRsne (ies : Bytes) (e : Element) (p : FtParser) : ReadProg ℤ FtParser := do
  let data ← ExceptT.adapt (fun _ => -1)
    (Rsne.wpaParseWpaIeRsnRead (ies.slice (e.data.off - 2) (e.data.len + 2)))
  let parse := p.parse.setRsne e.data data
  if p.updateUseSha384 then
    return { p with
      parse := parse
      useSha384 := wpaKeyMgmtSha384 parse.keyMgmt
      updateUseSha384 := false }
  else return { p with parse := parse }

def parseFte (ies : Bytes) (e : Element) (p : FtParser) : ReadProg ℤ FtParser :=
  if e.data.len < rsnFtieLen p.useSha384 then throw (-1)
  else do
    let anonce := e.data.off + 2 + fteMicLen p.useSha384
    let count ← ies.read8 (e.data.off + 1)
    let parse ← wpaFtParseFtie ies e.data
      { p.parse with fteAnonce := some anonce, fteSnonce := some (anonce + fteNonceLen) }
      p.useSha384
    return { p with parse := parse, protIeCount := count }

/-- The `switch` of the first loop. -/
def parseFtElement (ies : Bytes) (e : Element) (p : FtParser) : ReadProg ℤ FtParser :=
  if e.id = eidRsn then parseRsne ies e p
  else if e.id = eidRsnx then
    return if e.data.len < 1 then p else { p with parse.rsnxe := some e.data }
  else if e.id = eidMobilityDomain then
    if e.data.len < rsnMdieLen then throw (-1)
    else return { p with parse.mdie := some e.data }
  else if e.id = eidFastBssTransition then parseFte ies e p
  else if e.id = eidTimeoutInterval then
    return if e.data.len ≠ 5 then p else { p with parse.tie := some e.data }
  else if e.id = eidRicData then
    return if p.parse.ric = none then { p with parse.ric := some (e.data.off - 2) } else p
  else return p

/-- The loop over the protected elements of the RIC: where it stops, and what is left of the
count. -/
def ricEnd (ies : Bytes) : ℕ → ℕ → ℕ → ReadProg ℤ (ℕ × ℕ)
  | 0, _, _ => ExceptT.mk none
  | fuel + 1, pos, count =>
    if pos + 2 ≤ ies.length then do
      let len ← ies.read8 (pos + 1)
      if 2 + len ≤ ies.length - pos ∧ count ≠ 0 then
        ricEnd ies fuel (pos + (2 + len)) (count - 1)
      else return (pos, count)
    else return (pos, count)

def checkProtectedCount (ies : Bytes) (parse : WpaFtIes) (protIeCount : ℕ) :
    ReadProg ℤ WpaFtIes :=
  if protIeCount = 0 then return parse
  else
    let left : ℤ := (protIeCount : ℤ) - parse.rsn.isSome.toNat - parse.mdie.isSome.toNat -
      parse.ftie.isSome.toNat - parse.rsnxe.isSome.toNat
    if left < 0 then throw (-1)
    else if left = 0 ∧ parse.ric.isSome then throw (-1)
    else
      match parse.ric with
      | none => if left ≠ 0 then throw (-1) else return parse
      | some ric => do
        let (pos, left) ← ricEnd ies (ies.length + 1) ric left.toNat
        if left ≠ 0 then throw (-1) else return { parse with ricLen := pos - ric }

/-- A missing frame is like an empty one. -/
def wpaFtParseIes (ies : Bytes) (useSha384 : ℤ) : ReadProg ℤ WpaFtIes := do
  let p ← walk ies (parseFtElement ies) (ies.length + 1) 0
    { useSha384 := decide (useSha384 > 0), updateUseSha384 := decide (useSha384 < 0) }
  checkProtectedCount ies p.parse p.protIeCount

section Inside

def Fits (n : ℕ) (o : Option Span) : Prop := ∀ s, o = some s → s.off + s.len ≤ n

theorem fits_some {n : ℕ} {s : Span} (h : s.off + s.len ≤ n) : Fits n (some s) := by
  rintro _ ⟨⟩
  exact h

/-- Every pointer is null or has its octets inside the `n` octets of the frame. -/
structure WpaFtIes.Inside (n : ℕ) (parse : WpaFtIes) : Prop where
  mdie : Fits n parse.mdie
  ftie : Fits n parse.ftie
  r1khId : Fits n (parse.r1khId.map (⟨·, ftR1khIdLen⟩))
  gtk : Fits n parse.gtk
  r0khId : Fits n parse.r0khId
  fteAnonce : Fits n (parse.fteAnonce.map (⟨·, fteNonceLen⟩))
  fteSnonce : Fits n (parse.fteSnonce.map (⟨·, fteNonceLen⟩))
  rsn : Fits n parse.rsn
  rsnPmkid : Fits n (parse.rsnPmkid.map (⟨·, pmkidLen⟩))
  tie : Fits n parse.tie
  igtk : Fits n parse.igtk
  bigtk : Fits n parse.bigtk
  oci : Fits n parse.oci
  ric : Fits n (parse.ric.map (⟨·, parse.ricLen⟩))
  rsnxe : Fits n parse.rsnxe

theorem inside_nothing (n : ℕ) : WpaFtIes.Inside n {} := by
  constructor <;> rintro _ ⟨⟩

end Inside

section Records

def hasId (id : ℕ) (e : Element) : Bool := e.id = id

theorem hasId_of_id {e : Element} {k : ℕ} (h : e.id = k) (id : ℕ) : hasId id e = decide (k = id) := by
  rw [hasId, h]

def isRsnxe (e : Element) : Bool := hasId eidRsnx e && 1 ≤ e.data.len

/-- The contents of the last element with the property. -/
def lastOf (q : Element → Bool) (es : List Element) : Option Span :=
  (es.filter q).getLast?.map Element.data

theorem lastOf_append (q : Element → Bool) (es : List Element) (e : Element) :
    lastOf q (es ++ [e]) = if q e then some e.data else lastOf q es := by
  unfold lastOf
  rw [List.filter_append]
  cases hq : q e with
  | false => simp [hq]
  | true => simp [hq]

/-- The whole elements `es` of the frame, as far as the count is about them. -/
structure Records (es : List Element) (parse : WpaFtIes) : Prop where
  rsn : parse.rsn = lastOf (hasId eidRsn) es
  rsnxe : parse.rsnxe = lastOf isRsnxe es
  mdie : parse.mdie = lastOf (hasId eidMobilityDomain) es
  ftie : parse.ftie = lastOf (hasId eidFastBssTransition) es
  ric : parse.ric = (es.find? (hasId eidRicData)).map fun e => e.data.off - 2

theorem Records.append {es : List Element} {e : Element} {parse parse' : WpaFtIes}
    (h : Records es parse)
    (hrsn : parse'.rsn = if hasId eidRsn e then some e.data else parse.rsn)
    (hrsnxe : parse'.rsnxe = if isRsnxe e then some e.data else parse.rsnxe)
    (hmdie : parse'.mdie = if hasId eidMobilityDomain e then some e.data else parse.mdie)
    (hftie : parse'.ftie = if hasId eidFastBssTransition e then some e.data else parse.ftie)
    (hric : parse'.ric =
      if hasId eidRicData e ∧ parse.ric = none then some (e.data.off - 2) else parse.ric) :
    Records (es ++ [e]) parse' := by
  refine ⟨?_, ?_, ?_, ?_, ?_⟩
  · rw [lastOf_append, hrsn, h.rsn]
  · rw [lastOf_append, hrsnxe, h.rsnxe]
  · rw [lastOf_append, hmdie, h.mdie]
  · rw [lastOf_append, hftie, h.ftie]
  · rw [hric, h.ric, List.find?_append]
    cases es.find? (hasId eidRicData) with
    | some first => simp
    | none => cases hid : hasId eidRicData e <;> simp [hid]

/-- An element whose id is known. -/
theorem Records.append_id {es : List Element} {e : Element} {parse parse' : WpaFtIes} {k : ℕ}
    (h : Records es parse) (hid : e.id = k)
    (hrsn : parse'.rsn = if k = eidRsn then some e.data else parse.rsn)
    (hrsnxe : parse'.rsnxe = if k = eidRsnx ∧ 1 ≤ e.data.len then some e.data else parse.rsnxe)
    (hmdie : parse'.mdie = if k = eidMobilityDomain then some e.data else parse.mdie)
    (hftie : parse'.ftie = if k = eidFastBssTransition then some e.data else parse.ftie)
    (hric : parse'.ric =
      if k = eidRicData ∧ parse.ric = none then some (e.data.off - 2) else parse.ric) :
    Records (es ++ [e]) parse' := by
  have hkind : ∀ id, hasId id e = true ↔ k = id := by
    intro id
    rw [hasId_of_id hid, decide_eq_true_eq]
  have hlong : isRsnxe e = true ↔ k = eidRsnx ∧ 1 ≤ e.data.len := by
    rw [isRsnxe, Bool.and_eq_true, hkind, decide_eq_true_eq]
  apply h.append
  · simp only [hkind, hrsn]
  · simp only [hlong, hrsnxe]
  · simp only [hkind, hmdie]
  · simp only [hkind, hftie]
  · simp only [hkind, hric]

end Records

section FirstLoop
variable {ies : Bytes} {past : List Element} {e : Element} {n : ℕ}

/-- What the subelements of an FTE leave alone. -/
def WpaFtIes.frame (parse : WpaFtIes) :
    Option Span × Option Span × Option Span × Option Span × Option ℕ × ℕ :=
  (parse.rsn, parse.rsnxe, parse.mdie, parse.ftie, parse.ric, parse.ricLen)

theorem parseFtieSubelement_yields {parse : WpaFtIes} (hin : e.data.off + e.data.len ≤ n)
    (h : parse.Inside n) :
    Yields (parseFtieSubelement e parse) fun parse' =>
      parse'.Inside n ∧ parse'.frame = parse.frame := by
  unfold parseFtieSubelement
  split
  · split
    · exact .refuse
    · rename_i hlen
      refine .ret ⟨{ h with r1khId := ?_ }, rfl⟩
      rw [not_not] at hlen
      exact fits_some (hlen ▸ hin)
  split
  · exact .ret ⟨{ h with gtk := fits_some hin }, rfl⟩
  split
  · split
    · exact .refuse
    · exact .ret ⟨{ h with r0khId := fits_some hin }, rfl⟩
  split
  · exact .ret ⟨{ h with igtk := fits_some hin }, rfl⟩
  split
  · exact .ret ⟨{ h with oci := fits_some hin }, rfl⟩
  split
  · exact .ret ⟨{ h with bigtk := fits_some hin }, rfl⟩
  · exact .ret ⟨h, rfl⟩

theorem wpaFtParseFtie_yields {ie : Span} {parse : WpaFtIes} {useSha384 : Bool}
    (hin : ie.off + ie.len ≤ ies.length) (h : parse.Inside ies.length) :
    Yields (wpaFtParseFtie ies ie parse useSha384) fun parse' =>
      parse'.Inside ies.length ∧ parse'.frame = { parse with ftie := some ie : WpaFtIes }.frame := by
  have hlen : (ies.take (ie.off + ie.len)).length = ie.off + ie.len := List.length_take_of_le hin
  refine walk_yields [] (I := fun _ (parse' : WpaFtIes) => parse'.Inside ies.length ∧
    parse'.frame = { parse with ftie := some ie : WpaFtIes }.frame) ?_ ?_ ⟨?_, rfl⟩
  · intro past e parse' _ hinside hI
    have hsub := parseFtieSubelement_yields (n := ies.length) (e := e) (by omega) hI.1
    exact hsub.mono fun parse'' hp => ⟨hp.1, hp.2.trans hI.2⟩
  · omega
  · exact { h with ftie := fits_some hin }

/-- The loop after the elements `past`. -/
structure Parsed (ies : Bytes) (past : List Element) (p : FtParser) : Prop where
  inside : p.parse.Inside ies.length
  records : Records past p.parse
  ricLen : p.parse.ricLen = 0
  count : p.protIeCount = p.parse.ftie.elim 0 fun ftie => ies.byteAt (ftie.off + 1)

theorem setRsne_inside {parse : WpaFtIes} {rsn : Span} {data : WpaIeData} (h : parse.Inside n)
    (htwo : 2 ≤ rsn.off) (hin : rsn.off + rsn.len ≤ n)
    (hpmkid : ∀ p, data.pmkid = some p → p + data.numPmkid * pmkidLen ≤ rsn.len + 2) :
    (parse.setRsne rsn data).Inside n := by
  refine { h with rsn := fits_some hin, rsnPmkid := ?_ }
  simp only [WpaFtIes.setRsne]
  split
  · rename_i hone
    obtain ⟨p, hp⟩ := Option.isSome_iff_exists.mp hone.2
    have hend := hpmkid p hp
    rw [hone.1, Nat.one_mul] at hend
    rw [hp]
    apply fits_some
    show rsn.off - 2 + p + pmkidLen ≤ n
    omega
  · exact h.rsnPmkid

theorem Parsed.parseRsne {p : FtParser} (h : Parsed ies past p) (hid : e.id = eidRsn)
    (htwo : 2 ≤ e.data.off) (hin : e.data.off + e.data.len ≤ ies.length) :
    Yields (Ft.parseRsne ies e p) (Parsed ies (past ++ [e])) := by
  have hlen : (ies.slice (e.data.off - 2) (e.data.len + 2)).length = e.data.len + 2 := by
    rw [slice_length]
    omega
  refine .bind (Q := fun data =>
    wpaParseWpaIeRsn (ies.slice (e.data.off - 2) (e.data.len + 2)) = .ok data) ?_ ?_
  · exact .adapt ⟨_, Rsne.wpaParseWpaIeRsnRead_eq _, fun data hok => hok⟩
  intro data hok
  have hpmkid := Rsne.pmkid_inside_element hok
  rw [hlen] at hpmkid
  have hset : Parsed ies (past ++ [e]) { p with parse := p.parse.setRsne e.data data } := by
    refine ⟨setRsne_inside h.inside htwo hin hpmkid, ?_, h.ricLen, h.count⟩
    exact h.records.append_id hid rfl rfl rfl rfl rfl
  simp only
  split
  · exact .ret ⟨hset.inside, hset.records, hset.ricLen, hset.count⟩
  · exact .ret hset

theorem Parsed.parseFte {p : FtParser} (h : Parsed ies past p) (hid : e.id = eidFastBssTransition)
    (hin : e.data.off + e.data.len ≤ ies.length) :
    Yields (Ft.parseFte ies e p) (Parsed ies (past ++ [e])) := by
  unfold Ft.parseFte
  split
  · exact .refuse
  rename_i hlong
  have hsize : rsnFtieLen p.useSha384 ≤ e.data.len := not_lt.mp hlong
  unfold rsnFtieLen at hsize
  refine .bind (Q := (· = ies.byteAt (e.data.off + 1))) (.read (read8_eq ?_) rfl) ?_
  · omega
  rintro _ rfl
  have hnonces : WpaFtIes.Inside ies.length { p.parse with
      fteAnonce := some (e.data.off + 2 + fteMicLen p.useSha384)
      fteSnonce := some (e.data.off + 2 + fteMicLen p.useSha384 + fteNonceLen) } := by
    refine { h.inside with fteAnonce := fits_some ?_, fteSnonce := fits_some ?_ }
    · show e.data.off + 2 + fteMicLen p.useSha384 + fteNonceLen ≤ ies.length
      omega
    · show e.data.off + 2 + fteMicLen p.useSha384 + fteNonceLen + fteNonceLen ≤ ies.length
      omega
  refine .bind (wpaFtParseFtie_yields hin hnonces) fun parse hparse => .ret ?_
  obtain ⟨hinside, hframe⟩ := hparse
  simp only [WpaFtIes.frame, Prod.mk.injEq] at hframe
  obtain ⟨hrsn, hrsnxe, hmdie, hftie, hric, hricLen⟩ := hframe
  refine ⟨hinside, ?_, hricLen.trans h.ricLen, ?_⟩
  · exact h.records.append_id hid hrsn hrsnxe hmdie hftie hric
  · rw [hftie]
    rfl

/-- One element of the frame. -/
theorem Parsed.step {p : FtParser} (h : Parsed ies past p) (htwo : 2 ≤ e.data.off)
    (hin : e.data.off + e.data.len ≤ ies.length) :
    Yields (parseFtElement ies e p) (Parsed ies (past ++ [e])) := by
  unfold parseFtElement
  split
  · rename_i hid
    exact h.parseRsne hid htwo hin
  split
  · rename_i hid
    split
    · rename_i hempty
      have hshort : ¬ 1 ≤ e.data.len := not_le.mpr hempty
      refine .ret ⟨h.inside, h.records.append_id hid rfl ?_ rfl rfl rfl, h.ricLen, h.count⟩
      rw [if_neg fun hboth => hshort hboth.2]
    · rename_i hlong
      have hlen : 1 ≤ e.data.len := not_lt.mp hlong
      refine .ret ⟨{ h.inside with rsnxe := fits_some hin },
        h.records.append_id hid rfl ?_ rfl rfl rfl, h.ricLen, h.count⟩
      rw [if_pos ⟨rfl, hlen⟩]
  split
  · rename_i hid
    split
    · exact .refuse
    · refine .ret ⟨{ h.inside with mdie := fits_some hin }, ?_, h.ricLen, h.count⟩
      exact h.records.append_id hid rfl rfl rfl rfl rfl
  split
  · rename_i hid
    exact h.parseFte hid hin
  split
  · rename_i hid
    have hrecords : ∀ tie, Records (past ++ [e]) { p.parse with tie := tie } := by
      intro tie
      exact h.records.append_id hid rfl rfl rfl rfl rfl
    split
    · exact .ret ⟨h.inside, hrecords p.parse.tie, h.ricLen, h.count⟩
    · exact .ret ⟨{ h.inside with tie := fits_some hin }, hrecords _, h.ricLen, h.count⟩
  split
  · rename_i hid
    split
    · rename_i hnone
      refine .ret ⟨{ h.inside with ric := fits_some ?_ }, ?_, h.ricLen, h.count⟩
      · show e.data.off - 2 + p.parse.ricLen ≤ ies.length
        rw [h.ricLen]
        omega
      · refine h.records.append_id hid rfl rfl rfl rfl ?_
        rw [if_pos ⟨rfl, hnone⟩]
    · rename_i hsome
      refine .ret ⟨h.inside, h.records.append_id hid rfl rfl rfl rfl ?_, h.ricLen, h.count⟩
      rw [if_neg fun hboth => hsome hboth.2]
  · rename_i hrsn hrsnx hmdie hfte _ hric
    refine .ret ⟨h.inside, h.records.append_id rfl ?_ ?_ ?_ ?_ ?_, h.ricLen, h.count⟩
    · rw [if_neg hrsn]
    · rw [if_neg fun hboth => hrsnx hboth.1]
    · rw [if_neg hmdie]
    · rw [if_neg hfte]
    · rw [if_neg fun hboth => hric hboth.1]

end FirstLoop

section Count
variable {ies : Bytes} {parse : WpaFtIes}

/-- The whole elements in the octets of the RIC. -/
def ricElements (ies : Bytes) (parse : WpaFtIes) : List Element :=
  parse.ric.elim [] fun ric => elementsBetween ies ric (ric + parse.ricLen)

/-- The count `c` is that of the elements found, and no RIC is left out. -/
structure Protects (ies : Bytes) (c : ℕ) (parse : WpaFtIes) : Prop where
  count : c = parse.rsn.isSome.toNat + parse.mdie.isSome.toNat + parse.ftie.isSome.toNat +
    parse.rsnxe.isSome.toNat + (ricElements ies parse).length
  ric_covered : ∀ e, (elements ies).find? (hasId eidRicData) = some e → e ∈ ricElements ies parse

/-- The second loop takes whole elements off the count. -/
theorem ricEnd_yields {fuel pos count : ℕ} (hpos : pos ≤ ies.length)
    (hfuel : ies.length - pos < fuel) :
    Yields (ricEnd ies fuel pos count) fun r =>
      pos ≤ r.1 ∧ r.1 ≤ ies.length ∧ (elementsBetween ies pos r.1).length + r.2 = count := by
  induction fuel generalizing pos count with
  | zero => exact absurd hfuel (Nat.not_lt_zero _)
  | succ fuel ih =>
    have hstop : pos ≤ pos ∧ pos ≤ ies.length ∧
        (elementsBetween ies pos pos).length + count = count := by
      rw [elementsBetween_self]
      exact ⟨Nat.le_refl _, hpos, Nat.zero_add _⟩
    rw [ricEnd]
    split
    · rename_i htwo
      refine .bind (Q := (· = ies.byteAt (pos + 1))) (.read (read8_eq (by omega)) rfl) ?_
      rintro _ rfl
      split
      · rename_i hwhole
        refine (@ih _ (count - 1) (by omega) (by omega)).mono ?_
        rintro ⟨stop, left⟩ ⟨hle, hlen, hcount⟩
        simp only at hle hlen hcount ⊢
        refine ⟨by omega, hlen, ?_⟩
        rw [elementsBetween_cons (by omega) hlen, List.length_cons, Nat.add_assoc pos 2]
        omega
      · exact .ret hstop
    · exact .ret hstop

/-- Octets of the RIC that hold an element hold the first RIC Data element of the frame. -/
theorem first_ric_mem {e : Element} {ric stop : ℕ}
    (hfirst : (elements ies).find? (hasId eidRicData) = some e) (hric : ric = e.data.off - 2)
    (hsome : elementsBetween ies ric stop ≠ []) (hstop : stop ≤ ies.length) :
    e ∈ elementsBetween ies ric stop := by
  obtain ⟨htwo, hid, hlen⟩ := mem_elementsFrom (List.mem_of_find?_eq_some hfirst)
  have hwhole := whole_of_elementsBetween hsome hstop
  have he : e = ⟨ies.byteAt ric, ⟨ric + 2, ies.byteAt (ric + 1)⟩⟩ := by
    have hoff : ric + 2 = e.data.off := by omega
    have hoff' : ric + 1 = e.data.off - 1 := by omega
    rw [hoff, hoff', hric, ← hid, ← hlen]
  rw [elementsBetween_cons hwhole hstop, ← he]
  exact List.mem_cons_self ..

/-- What the parser promises of the result. -/
def Checked (ies : Bytes) (parse : WpaFtIes) : Prop :=
  parse.Inside ies.length ∧ Records (elements ies) parse ∧
    ∀ fte, lastOf (hasId eidFastBssTransition) (elements ies) = some fte →
      ies.byteAt (fte.off + 1) ≠ 0 → Protects ies (ies.byteAt (fte.off + 1)) parse

theorem checkProtectedCount_yields {p : FtParser} (h : Parsed ies (elements ies) p) :
    Yields (checkProtectedCount ies p.parse p.protIeCount) (Checked ies) := by
  have hcount : ∀ fte, lastOf (hasId eidFastBssTransition) (elements ies) = some fte →
      ies.byteAt (fte.off + 1) = p.protIeCount := by
    intro fte hfte
    rw [h.count, h.records.ftie, hfte]
    rfl
  unfold checkProtectedCount
  split
  · rename_i hzero
    refine .ret ⟨h.inside, h.records, fun fte hfte hne => ?_⟩
    exact absurd ((hcount fte hfte).trans hzero) hne
  simp only
  generalize hleft : (p.protIeCount : ℤ) - p.parse.rsn.isSome.toNat - p.parse.mdie.isSome.toNat -
    p.parse.ftie.isSome.toNat - p.parse.rsnxe.isSome.toNat = left
  by_cases hneg : left < 0
  · rw [if_pos hneg]
    exact .refuse
  rw [if_neg hneg]
  by_cases huncovered : left = 0 ∧ p.parse.ric.isSome = true
  · rw [if_pos huncovered]
    exact .refuse
  rw [if_neg huncovered]
  cases hric : p.parse.ric with
  | none =>
    simp only
    by_cases hrest : left = 0
    · rw [if_neg (not_not.mpr hrest)]
      refine .ret ⟨h.inside, h.records, fun fte hfte _ => ⟨?_, fun e he => ?_⟩⟩
      · rw [hcount fte hfte, ricElements, hric, Option.elim_none, List.length_nil]
        omega
      · have hnone := h.records.ric
        rw [hric, he] at hnone
        cases hnone
    · rw [if_pos hrest]
      exact .refuse
  | some ric =>
    simp only
    have hinside := h.inside.ric ⟨ric, p.parse.ricLen⟩ (by rw [hric]; rfl)
    rw [h.ricLen] at hinside
    refine .bind (ricEnd_yields hinside (by omega)) fun r hr => ?_
    obtain ⟨hle, hlen, hnumber⟩ := hr
    by_cases hrest : r.2 = 0
    · rw [if_neg (not_not.mpr hrest)]
      have hstop : ric + (r.1 - ric) = r.1 := by omega
      have helements : ricElements ies { p.parse with ric := some ric, ricLen := r.1 - ric } =
          elementsBetween ies ric r.1 := by
        simp only [ricElements, Option.elim_some, hstop]
      have hrecords : Records (elements ies)
          { p.parse with ric := some ric, ricLen := r.1 - ric } :=
        { h.records with ric := hric.symm.trans h.records.ric }
      refine .ret ⟨{ h.inside with ric := ?_ }, hrecords, fun fte hfte _ => ⟨?_, fun e he => ?_⟩⟩
      · apply fits_some
        show ric + (r.1 - ric) ≤ ies.length
        omega
      · rw [hcount fte hfte, helements]
        show p.protIeCount = p.parse.rsn.isSome.toNat + p.parse.mdie.isSome.toNat +
          p.parse.ftie.isSome.toNat + p.parse.rsnxe.isSome.toNat +
          (elementsBetween ies ric r.1).length
        omega
      · have hfirst := h.records.ric
        rw [hric, he] at hfirst
        rw [helements]
        apply first_ric_mem he (Option.some.inj hfirst) _ hlen
        -- a count that is used up was not zero before the second loop
        intro hnone
        rw [hnone, List.length_nil] at hnumber
        apply huncovered
        rw [hric]
        exact ⟨by omega, rfl⟩
    · rw [if_pos hrest]
      exact .refuse

/-- For every frame the parser ends and reads nothing outside. What it stores is inside, it is what
the last whole element of each kind has, and it is counted if there is a count. -/
theorem wpaFtParseIes_checked (ies : Bytes) (useSha384 : ℤ) :
    ∃ r, (wpaFtParseIes ies useSha384).run = some r ∧ ∀ parse, r = .ok parse →
      parse.Inside ies.length ∧ Records (elements ies) parse ∧
      ∀ fte, lastOf (hasId eidFastBssTransition) (elements ies) = some fte →
        ies.byteAt (fte.off + 1) ≠ 0 → Protects ies (ies.byteAt (fte.off + 1)) parse := by
  have hstart : Parsed ies []
      { useSha384 := decide (useSha384 > 0), updateUseSha384 := decide (useSha384 < 0) } :=
    ⟨inside_nothing _, ⟨rfl, rfl, rfl, rfl, rfl⟩, rfl, rfl⟩
  have hloop := walk_yields [] (fun _ _ _ htwo hin h => Parsed.step h htwo hin)
    (by omega : ies.length - 0 < ies.length + 1) hstart
  rw [List.nil_append, elementsFrom_fuel (by omega) (Nat.le_add_left ies.length 0)] at hloop
  exact hloop.bind fun p hp => checkProtectedCount_yields hp

/-- RSNE, MDE, FTE with the element count 6, RSNXE and a RIC of two elements with one behind it. -/
def protectedFrame : Bytes :=
  [48, 20, 1, 0, 0, 0x0f, 0xac, 4, 1, 0, 0, 0x0f, 0xac, 4, 1, 0, 0, 0x0f, 0xac, 4, 0, 0] ++
    [54, 3, 1, 2, 0] ++ [55, 82, 0, 6] ++ zeros 80 ++ [244, 1, 5] ++
    [57, 4, 1, 1, 0, 0, 221, 2, 9, 9] ++ [57, 0]

example : ((wpaFtParseIes protectedFrame (-1)).run.bind Except.toOption).map WpaFtIes.ricLen =
    some 10 := by
  decide +kernel

end Count
end Wpa.Ft
