import Wpa.Sim.Message

/-! What is read out of an EAP-SIM message is what was added to it, as long as the length octets can
hold the lengths. -/

namespace Wpa.Sim
open Lib Bytes

/-- The values a message carries: those of the last attribute of a kind, and of the first ten
`AT_KDF`. -/
structure SimValues where
  rand : Option Bytes := none
  autn : Option Bytes := none
  mac : Option Bytes := none
  iv : Option Bytes := none
  encrData : Option Bytes := none
  versionList : Option Bytes := none
  nonceS : Option Bytes := none
  nextPseudonym : Option Bytes := none
  nextReauthId : Option Bytes := none
  nonceMt : Option Bytes := none
  identity : Option Bytes := none
  res : Option Bytes := none
  auts : Option Bytes := none
  checkcode : Option Bytes := none
  kdfInput : Option Bytes := none
  bidding : Option Bytes := none
  resLenBits : ℕ := 0
  idReq : IdReq := .noIdReq
  notification : ℤ := -1
  counter : ℤ := -1
  selectedVersion : ℤ := -1
  clientErrorCode : ℤ := -1
  counterTooSmall : Bool := false
  resultInd : Bool := false
  kdf : List ℕ := []
  deriving DecidableEq

/-- The octets behind the pointers. `res` has the number of bits that `res_len_bits` says. -/
def SimAttrs.values (data : Bytes) (attr : SimAttrs) : SimValues where
  rand := attr.rand.map (data.slice · (attr.numChal * gsmRandLen))
  autn := attr.autn.map (data.slice · akaAutnLen)
  mac := attr.mac.map (data.slice · macLen)
  iv := attr.iv.map (data.slice · ivLen)
  encrData := attr.encrData.map (data.slice · attr.encrDataLen)
  versionList := attr.versionList.map (data.slice · attr.versionListLen)
  nonceS := attr.nonceS.map (data.slice · nonceSLen)
  nextPseudonym := attr.nextPseudonym.map (data.slice · attr.nextPseudonymLen)
  nextReauthId := attr.nextReauthId.map (data.slice · attr.nextReauthIdLen)
  nonceMt := attr.nonceMt.map (data.slice · nonceMtLen)
  identity := attr.identity.map (data.slice · attr.identityLen)
  res := attr.res.map fun off => (data.slice off attr.resLen).take ((attr.resLenBits + 7) / 8)
  auts := attr.auts.map (data.slice · akaAutsLen)
  checkcode := attr.checkcode.map (data.slice · attr.checkcodeLen)
  kdfInput := attr.kdfInput.map (data.slice · attr.kdfInputLen)
  bidding := attr.bidding.map (data.slice · 2)
  resLenBits := attr.resLenBits
  idReq := attr.idReq
  notification := attr.notification
  counter := attr.counter
  selectedVersion := attr.selectedVersion
  clientErrorCode := attr.clientErrorCode
  counterTooSmall := attr.counterTooSmall
  resultInd := attr.resultInd
  kdf := attr.kdf

/-- The values with those of one more attribute, whose octets behind type and length are `content`:
sixteen bits and what follows them. -/
def SimValues.add (v : SimValues) (kind : SimAt) (content : Bytes) : SimValues :=
  match kind with
  | .rand => { v with rand := some (content.drop 2) }
  | .autn => { v with autn := some (content.drop 2) }
  | .res => { v with res := some (content.drop 2), resLenBits := content.be16 0 }
  | .auts => { v with auts := some content }
  | .nonceMt => { v with nonceMt := some (content.drop 2) }
  | .permanentIdReq => { v with idReq := .permanentId }
  | .mac => { v with mac := some (content.drop 2) }
  | .notification => { v with notification := content.be16 0 }
  | .anyIdReq => { v with idReq := .anyId }
  | .identity => { v with identity := some (content.drop 2) }
  | .versionList => { v with versionList := some (content.drop 2) }
  | .selectedVersion => { v with selectedVersion := content.be16 0 }
  | .fullauthIdReq => { v with idReq := .fullauthId }
  | .counter => { v with counter := content.be16 0 }
  | .counterTooSmall => { v with counterTooSmall := true }
  | .nonceS => { v with nonceS := some (content.drop 2) }
  | .clientErrorCode => { v with clientErrorCode := content.be16 0 }
  | .kdfInput => { v with kdfInput := some (content.drop 2) }
  | .kdf => { v with kdf := (v.kdf ++ [content.be16 0]).take akaPrimeKdfMax }
  | .iv => { v with iv := some (content.drop 2) }
  | .encrData => { v with encrData := some (content.drop 2) }
  | .nextPseudonym => { v with nextPseudonym := some (content.drop 2) }
  | .nextReauthId => { v with nextReauthId := some (content.drop 2) }
  | .checkcode => { v with checkcode := some (content.drop 2) }
  | .resultInd => { v with resultInd := true }
  | .bidding => { v with bidding := some content }
  | .padding | .nonSkippable | .skippable => v

def SimValues.addCall (v : SimValues) (call : SimCall) : SimValues := v.add call.kind call.content

/-- What was added by a sequence of calls. -/
def addedValues (calls : List SimCall) : SimValues := calls.foldl SimValues.addCall {}

/-- The types and the lengths of data that the parser takes, for attributes outside (`encr` false)
and inside of the encrypted block. -/
def SimAt.Takes (aka : ℕ) (encr : Bool) (content : Bytes) : SimAt → Prop
  | .rand =>
    2 ≤ content.length ∧ (aka = 0 → gsmRandLen ∣ content.length - 2) ∧
      (aka ≠ 0 → content.length - 2 = akaRandLen)
  | .autn => aka ≠ 0 ∧ content.length = 2 + akaAutnLen
  | .res =>
    aka ≠ 0 ∧ 2 < content.length ∧ content.length ≤ 2 + akaMaxResLen ∧
      (content.be16 0 + 7) / 8 = content.length - 2
  | .auts => aka ≠ 0 ∧ content.length = akaAutsLen
  | .padding => encr ∧ ∀ x ∈ content.drop 2, x = 0
  | .nonceMt => content.length = 2 + nonceMtLen
  | .mac => content.length = 2 + macLen
  | .notification | .selectedVersion | .clientErrorCode | .bidding => content.length = 2
  | .identity => 2 ≤ content.length ∧ content.be16 0 = content.length - 2
  | .versionList => aka = 0 ∧ 4 ≤ content.length ∧ content.be16 0 = content.length - 2
  | .counter | .counterTooSmall => encr ∧ content.length = 2
  | .nonceS => encr ∧ content.length = 2 + nonceSLen
  | .kdfInput => aka = 2 ∧ 2 ≤ content.length ∧ content.be16 0 = content.length - 2
  | .kdf => aka = 2 ∧ content.length = 2
  | .iv => content.length = 2 + ivLen
  | .encrData => 2 ≤ content.length ∧ 16 ∣ content.length - 2
  | .nextPseudonym | .nextReauthId =>
    encr ∧ 2 ≤ content.length ∧ content.be16 0 = content.length - 2
  | .checkcode =>
    aka ≠ 0 ∧ 2 ≤ content.length ∧
      (content.length - 2 = 0 ∨ content.length - 2 = akaCheckcodeLen ∨
        content.length - 2 = akaPrimeCheckcodeLen)
  | .resultInd => encr = false ∧ content.length = 2
  | .permanentIdReq | .anyIdReq | .fullauthIdReq | .skippable => True
  | .nonSkippable => False

/-- The attribute starts at `pos` with `alen` octets behind type and length: its content, padded with
zero octets to whole words. -/
structure Stands (data : Bytes) (pos alen : ℕ) (content : Bytes) : Prop where
  inside : pos + 2 + alen ≤ data.length
  slice_eq : data.slice (pos + 2) alen = content ++ zeros (alen - content.length)
  le_alen : content.length ≤ alen
  alen_lt : alen < content.length + 4
  words : 4 ∣ alen + 2

namespace Stands
variable {data content : Bytes} {pos alen : ℕ}

theorem slice_drop (h : Stands data pos alen content) (i : ℕ) :
    data.slice (pos + 2 + i) (alen - i) = (content ++ zeros (alen - content.length)).drop i := by
  rw [← h.slice_eq, slice, slice, List.drop_take, List.drop_drop]

/-- What follows the first sixteen bits. -/
theorem slice_content (h : Stands data pos alen content) {n : ℕ} (hn : 2 + n = content.length) :
    data.slice (pos + 2 + 2) n = content.drop 2 := by
  have hle := h.le_alen
  have hdrop := h.slice_drop 2
  rw [List.drop_append_of_le_length (by omega)] at hdrop
  have htake : data.slice (pos + 2 + 2) n = (data.slice (pos + 2 + 2) (alen - 2)).take n := by
    rw [slice, slice, List.take_take, min_eq_left (by omega)]
  rw [htake, hdrop, List.take_left' (by rw [List.length_drop]; omega)]

theorem slice_whole (h : Stands data pos alen content) :
    data.slice (pos + 2) content.length = content := by
  have hle := h.le_alen
  have htake : data.slice (pos + 2) content.length = (data.slice (pos + 2) alen).take content.length := by
    rw [slice, slice, List.take_take, min_eq_left hle]
  rw [htake, h.slice_eq, List.take_left]

theorem be16_eq (h : Stands data pos alen content) (hlen : 2 ≤ content.length) :
    data.be16 (pos + 2) = content.be16 0 := by
  have hle := h.le_alen
  have hread (i : ℕ) (hi : i < content.length) : data.byteAt (pos + 2 + i) = content.byteAt i := by
    rw [← byteAt_slice data hi, h.slice_whole]
  rw [be16, be16]
  exact congrArg₂ (fun x y => x * 256 + y) (hread 0 (by omega)) (hread 1 (by omega))

/-- Whole words need no padding. -/
theorem alen_eq (h : Stands data pos alen content) (hwords : 4 ∣ content.length + 2) :
    alen = content.length := by
  have hle := h.le_alen
  have hlt := h.alen_lt
  have hattr := h.words
  omega

end Stands

/-- The values are read where they were written, at the end of the parse as at once. -/
theorem parseOne_stands {data content : Bytes} {pos alen aka : ℕ} {encr : Bool} (attr : SimAttrs)
    (h : Stands data pos alen content)
    (htakes : (simAt (data.byteAt pos)).Takes aka encr content) :
    ∃ attr', parseOne data aka encr pos alen attr = (true, attr') ∧
      attr'.values data = (attr.values data).add (simAt (data.byteAt pos)) content := by
  have hle := h.le_alen
  have hlt := h.alen_lt
  unfold parseOne
  generalize simAt (data.byteAt pos) = kind at htakes ⊢
  cases kind with
  | rand =>
    obtain ⟨htwo, hsim, haka⟩ := htakes
    have hblocks : gsmRandLen ∣ content.length - 2 := by
      by_cases hzero : aka = 0
      · exact hsim hzero
      · rw [haka hzero]
        exact dvd_refl _
    have halen : alen = content.length := by
      apply h.alen_eq
      simp only [gsmRandLen] at hblocks
      omega
    rw [← halen] at hblocks haka
    have hok : ¬((aka = 0 ∧ (alen - 2) % gsmRandLen ≠ 0) ∨ (aka ≠ 0 ∧ alen - 2 ≠ akaRandLen)) := by
      rintro (⟨-, hmod⟩ | ⟨hne, hlen⟩)
      · exact hmod (Nat.mod_eq_zero_of_dvd hblocks)
      · exact hlen (haka hne)
    refine ⟨_, if_neg hok, ?_⟩
    simp only [SimAttrs.values, SimValues.add, Option.map_some, Nat.div_mul_cancel hblocks]
    rw [h.slice_content (by omega)]
  | autn =>
    obtain ⟨haka, hlen⟩ := htakes
    have halen : alen - 2 = akaAutnLen := by
      rw [h.alen_eq (by rw [hlen]; decide), hlen, Nat.add_sub_cancel_left]
    refine ⟨{ attr with autn := some (pos + 2 + 2) }, by simp [haka, halen], ?_⟩
    simp only [SimAttrs.values, SimValues.add, Option.map_some]
    rw [h.slice_content hlen.symm]
  | nonceMt =>
    have hlen : content.length = 2 + nonceMtLen := htakes
    have halen : alen = 2 + nonceMtLen := by
      rw [h.alen_eq (by rw [hlen]; decide), hlen]
    refine ⟨{ attr with nonceMt := some (pos + 2 + 2) }, by simp [halen], ?_⟩
    simp only [SimAttrs.values, SimValues.add, Option.map_some]
    rw [h.slice_content hlen.symm]
  | mac =>
    have hlen : content.length = 2 + macLen := htakes
    have halen : alen = 2 + macLen := by
      rw [h.alen_eq (by rw [hlen]; decide), hlen]
    refine ⟨{ attr with mac := some (pos + 2 + 2) }, by simp [halen], ?_⟩
    simp only [SimAttrs.values, SimValues.add, Option.map_some]
    rw [h.slice_content hlen.symm]
  | nonceS =>
    obtain ⟨rfl, hlen⟩ := htakes
    have halen : alen = 2 + nonceSLen := by
      rw [h.alen_eq (by rw [hlen]; decide), hlen]
    refine ⟨{ attr with nonceS := some (pos + 2 + 2) }, by simp [halen], ?_⟩
    simp only [SimAttrs.values, SimValues.add, Option.map_some]
    rw [h.slice_content hlen.symm]
  | iv =>
    have hlen : content.length = 2 + ivLen := htakes
    have halen : alen = 2 + ivLen := by
      rw [h.alen_eq (by rw [hlen]; decide), hlen]
    refine ⟨{ attr with iv := some (pos + 2 + 2) }, by simp [halen, ivLen, macLen], ?_⟩
    simp only [SimAttrs.values, SimValues.add, Option.map_some]
    rw [h.slice_content hlen.symm]
  | notification =>
    have hlen : content.length = 2 := htakes
    have halen : alen = 2 := by rw [h.alen_eq (by rw [hlen]), hlen]
    refine ⟨{ attr with notification := data.be16 (pos + 2) }, by simp [halen], ?_⟩
    simp only [SimAttrs.values, SimValues.add, h.be16_eq hlen.ge]
  | selectedVersion =>
    have hlen : content.length = 2 := htakes
    have halen : alen = 2 := by rw [h.alen_eq (by rw [hlen]), hlen]
    refine ⟨{ attr with selectedVersion := data.be16 (pos + 2) }, by simp [halen], ?_⟩
    simp only [SimAttrs.values, SimValues.add, h.be16_eq hlen.ge]
  | clientErrorCode =>
    have hlen : content.length = 2 := htakes
    have halen : alen = 2 := by rw [h.alen_eq (by rw [hlen]), hlen]
    refine ⟨{ attr with clientErrorCode := data.be16 (pos + 2) }, by simp [halen], ?_⟩
    simp only [SimAttrs.values, SimValues.add, h.be16_eq hlen.ge]
  | counter =>
    obtain ⟨rfl, hlen⟩ := htakes
    have halen : alen = 2 := by rw [h.alen_eq (by rw [hlen]), hlen]
    refine ⟨{ attr with counter := data.be16 (pos + 2) }, by simp [halen], ?_⟩
    simp only [SimAttrs.values, SimValues.add, h.be16_eq hlen.ge]
  | counterTooSmall =>
    obtain ⟨rfl, hlen⟩ := htakes
    have halen : alen = 2 := by rw [h.alen_eq (by rw [hlen]), hlen]
    exact ⟨{ attr with counterTooSmall := true }, by simp [halen], rfl⟩
  | resultInd =>
    obtain ⟨rfl, hlen⟩ := htakes
    have halen : alen = 2 := by rw [h.alen_eq (by rw [hlen]), hlen]
    exact ⟨{ attr with resultInd := true }, by simp [halen], rfl⟩
  | bidding =>
    have hlen : content.length = 2 := htakes
    have halen : alen = 2 := by rw [h.alen_eq (by rw [hlen]), hlen]
    have hwhole := h.slice_whole
    rw [hlen] at hwhole
    refine ⟨{ attr with bidding := some (pos + 2) }, by simp [halen], ?_⟩
    simp only [SimAttrs.values, SimValues.add, Option.map_some, hwhole]
  | auts =>
    obtain ⟨haka, hlen⟩ := htakes
    have halen : alen = akaAutsLen := by rw [h.alen_eq (by rw [hlen]; decide), hlen]
    have hwhole := h.slice_whole
    rw [hlen] at hwhole
    refine ⟨{ attr with auts := some (pos + 2) }, by simp [haka, halen], ?_⟩
    simp only [SimAttrs.values, SimValues.add, Option.map_some, hwhole]
  | identity =>
    obtain ⟨htwo, hplen⟩ := htakes
    have hread : data.be16 (pos + 2) = content.length - 2 := by rw [h.be16_eq htwo, hplen]
    have hfits : ¬data.be16 (pos + 2) > alen - 2 := by omega
    refine ⟨{ attr with identity := some (pos + 2 + 2), identityLen := data.be16 (pos + 2) },
      by simp [hfits], ?_⟩
    simp only [SimAttrs.values, SimValues.add, Option.map_some]
    rw [h.slice_content (by omega)]
  | kdfInput =>
    obtain ⟨rfl, htwo, hplen⟩ := htakes
    have hread : data.be16 (pos + 2) = content.length - 2 := by rw [h.be16_eq htwo, hplen]
    have hfits : ¬data.be16 (pos + 2) > alen - 2 := by omega
    refine ⟨{ attr with kdfInput := some (pos + 2 + 2), kdfInputLen := data.be16 (pos + 2) },
      by simp [hfits], ?_⟩
    simp only [SimAttrs.values, SimValues.add, Option.map_some]
    rw [h.slice_content (by omega)]
  | nextPseudonym =>
    obtain ⟨rfl, htwo, hplen⟩ := htakes
    have hread : data.be16 (pos + 2) = content.length - 2 := by rw [h.be16_eq htwo, hplen]
    have hfits : ¬data.be16 (pos + 2) > alen - 2 := by omega
    refine ⟨{ attr with nextPseudonym := some (pos + 4), nextPseudonymLen := data.be16 (pos + 2) },
      by simp [hfits], ?_⟩
    simp only [SimAttrs.values, SimValues.add, Option.map_some]
    rw [h.slice_content (by omega)]
  | nextReauthId =>
    obtain ⟨rfl, htwo, hplen⟩ := htakes
    have hread : data.be16 (pos + 2) = content.length - 2 := by rw [h.be16_eq htwo, hplen]
    have hfits : ¬data.be16 (pos + 2) > alen - 2 := by omega
    refine ⟨{ attr with nextReauthId := some (pos + 4), nextReauthIdLen := data.be16 (pos + 2) },
      by simp [hfits], ?_⟩
    simp only [SimAttrs.values, SimValues.add, Option.map_some]
    rw [h.slice_content (by omega)]
  | versionList =>
    obtain ⟨rfl, hfour, hplen⟩ := htakes
    have hread : data.be16 (pos + 2) = content.length - 2 := by rw [h.be16_eq (by omega), hplen]
    have hfits : ¬(data.be16 (pos + 2) < 2 ∨ data.be16 (pos + 2) > alen - 2) := by omega
    refine ⟨{ attr with versionList := some (pos + 2 + 2), versionListLen := data.be16 (pos + 2) },
      if_neg hfits, ?_⟩
    simp only [SimAttrs.values, SimValues.add, Option.map_some]
    rw [h.slice_content (by omega)]
  | encrData =>
    obtain ⟨htwo, hdvd⟩ := htakes
    have halen : alen = content.length := h.alen_eq (by omega)
    have hblocks : (alen - 2) % 16 = 0 := by omega
    refine ⟨{ attr with encrData := some (pos + 2 + 2), encrDataLen := alen - 2 },
      by simp [hblocks], ?_⟩
    simp only [SimAttrs.values, SimValues.add, Option.map_some]
    rw [h.slice_content (by omega)]
  | checkcode =>
    obtain ⟨haka, htwo, hlen⟩ := htakes
    have halen : alen = content.length := by
      apply h.alen_eq
      simp only [akaCheckcodeLen, akaPrimeCheckcodeLen] at hlen
      omega
    have hok : ¬(alen - 2 ≠ 0 ∧ alen - 2 ≠ akaCheckcodeLen ∧ alen - 2 ≠ akaPrimeCheckcodeLen) := by
      rw [halen]
      tauto
    refine ⟨{ attr with checkcode := some (pos + 2 + 2), checkcodeLen := alen - 2 },
      by simp only [if_neg haka, if_neg hok], ?_⟩
    simp only [SimAttrs.values, SimValues.add, Option.map_some]
    rw [h.slice_content (by omega)]
  | res =>
    obtain ⟨haka, hsome, hmax, hbits⟩ := htakes
    have hread : data.be16 (pos + 2) = content.be16 0 := h.be16_eq (by omega)
    have hwords := h.words
    simp only [akaMaxResLen] at hmax
    have hok : ¬(aka = 0 ∨ alen - 2 < akaMinResLen ∨ alen - 2 > akaMaxResLen) := by
      simp only [akaMinResLen, akaMaxResLen]
      omega
    refine ⟨{ attr with
        resLenBits := data.be16 (pos + 2), res := some (pos + 2 + 2), resLen := alen - 2 },
      by simp only [if_neg hok], ?_⟩
    have htake : (data.slice (pos + 2 + 2) (alen - 2)).take ((content.be16 0 + 7) / 8) =
        content.drop 2 := by
      rw [← h.slice_content (n := content.length - 2) (by omega), slice, slice, List.take_take,
        hbits, min_eq_left (by omega)]
    simp only [SimAttrs.values, SimValues.add, Option.map_some, hread, htake]
  | kdf =>
    obtain ⟨rfl, hlen⟩ := htakes
    have halen : alen = 2 := by rw [h.alen_eq (by rw [hlen]), hlen]
    have hread : data.be16 (pos + 2) = content.be16 0 := h.be16_eq hlen.ge
    have hcount := attr.kdf_le
    by_cases hfull : attr.kdf.length = akaPrimeKdfMax
    · refine ⟨attr, by simp [halen, hfull], ?_⟩
      simp only [SimAttrs.values, SimValues.add, List.take_append_of_le_length hfull.ge,
        List.take_of_length_le hfull.le]
    · have hroom : (attr.kdf ++ [content.be16 0]).length ≤ akaPrimeKdfMax := by
        rw [List.length_append]
        exact Nat.lt_of_le_of_ne hcount hfull
      refine ⟨{ attr with kdf := attr.kdf ++ [content.be16 0], kdf_le := hroom },
        by simp [halen, hfull, hread], ?_⟩
      simp only [SimAttrs.values, SimValues.add, List.take_of_length_le hroom]
  | padding =>
    obtain ⟨rfl, hzero⟩ := htakes
    have hbody : data.slice (pos + 2 + 2) (alen - 2) =
        (content ++ zeros (alen - content.length)).drop 2 := h.slice_drop 2
    have hnone : (data.slice (pos + 2 + 2) (alen - 2)).any (· ≠ 0) = false := by
      rw [hbody, List.any_eq_false]
      intro x hx
      rw [List.drop_append, List.mem_append] at hx
      rcases hx with hx | hx
      · simp [hzero x hx]
      · simp [List.eq_of_mem_replicate (List.mem_of_mem_drop hx)]
    exact ⟨attr, by simp only [hnone]; rfl, rfl⟩
  | permanentIdReq | anyIdReq | fullauthIdReq | skippable => exact ⟨_, rfl, rfl⟩
  | nonSkippable => exact htakes.elim

/-- The longest attribute that an octet counting words can announce. -/
def maxAttrLen : ℕ := 255 * 4

namespace SimCall
variable {pre rest : Bytes} {call : SimCall}

theorem content_le (call : SimCall) :
    2 + call.content.length ≤ call.attrLen ∧ call.attrLen < call.content.length + 6 := by
  unfold attrLen
  omega

theorem byteAt_type (call : SimCall) (pre rest : Bytes) :
    byteAt (pre ++ (call.encode ++ rest)) pre.length = call.attr.toNat := by
  rw [byteAt_append_right _ _ (Nat.le_refl _), Nat.sub_self]
  rfl

/-- The length octet keeps the number of words modulo 256. -/
theorem byteAt_words (call : SimCall) (pre rest : Bytes) :
    byteAt (pre ++ (call.encode ++ rest)) (pre.length + 1) = call.attrLen / 4 % 256 := by
  rw [byteAt_append_right _ _ (Nat.le_add_right _ _), Nat.add_sub_cancel_left]
  exact UInt8.toNat_ofNat'

theorem be16_content (htwo : 2 ≤ call.content.length) (pre rest : Bytes) :
    be16 (pre ++ (call.encode ++ rest)) (pre.length + 2) = call.content.be16 0 := by
  have hlayout : call.encode ++ rest = [call.attr, UInt8.ofNat (call.attrLen / 4)] ++
      (call.content ++ (zeros (call.attrLen - 2 - call.content.length) ++ rest)) := by
    simp only [encode, List.append_assoc]
  rw [be16_append_right _ _ (Nat.le_add_right _ _), Nat.add_sub_cancel_left, hlayout,
    be16_append_right _ _ (Nat.le_refl 2)]
  exact be16_append_left _ _ htwo

theorem stands (call : SimCall) (pre rest : Bytes) :
    Stands (pre ++ (call.encode ++ rest)) pre.length (call.attrLen - 2) call.content := by
  have hle := call.content_le
  have hwords := call.four_dvd_attrLen
  have hlayout : call.encode ++ rest = [call.attr, UInt8.ofNat (call.attrLen / 4)] ++
      (call.content ++ zeros (call.attrLen - 2 - call.content.length) ++ rest) := by
    simp only [encode, List.append_assoc]
  constructor
  · rw [List.length_append, List.length_append, encode_length]
    omega
  · have hlen : (call.content ++ zeros (call.attrLen - 2 - call.content.length)).length =
        call.attrLen - 2 := by
      rw [List.length_append, zeros_length]
      omega
    rw [slice_append_right _ _ (Nat.le_add_right _ _), Nat.add_sub_cancel_left, hlayout,
      slice_append_right _ _ (Nat.le_refl 2)]
    exact List.take_left' hlen
  · omega
  · omega
  · omega

end SimCall

section Loop
variable {aka : ℕ} {encr : Bool}

/-- The loop takes one attribute whose length octet holds its length. -/
theorem parseLoop_step {call : SimCall} (pre rest : Bytes) (turns : ℕ) (attr : SimAttrs)
    (htakes : call.kind.Takes aka encr call.content) (hfits : call.attrLen ≤ maxAttrLen) :
    ∃ attr', parseLoop (pre ++ (call.encode ++ rest)) aka encr (turns + 1) pre.length attr =
        parseLoop (pre ++ (call.encode ++ rest)) aka encr turns (pre ++ call.encode).length attr' ∧
      attr'.values (pre ++ (call.encode ++ rest)) =
        (attr.values (pre ++ (call.encode ++ rest))).add call.kind call.content := by
  have hstands := call.stands pre rest
  have hend : (pre ++ (call.encode ++ rest)).length = pre.length + call.attrLen + rest.length := by
    rw [List.length_append, List.length_append, SimCall.encode_length, Nat.add_assoc]
  have hnext : (pre ++ call.encode).length = pre.length + call.attrLen := by
    rw [List.length_append, SimCall.encode_length]
  have hle := call.content_le
  have hwords : byteAt (pre ++ (call.encode ++ rest)) (pre.length + 1) * 4 = call.attrLen := by
    have hdvd := call.four_dvd_attrLen
    rw [maxAttrLen] at hfits
    rw [call.byteAt_words]
    omega
  have hkind : simAt (byteAt (pre ++ (call.encode ++ rest)) pre.length) = call.kind := by
    rw [call.byteAt_type]
    rfl
  rw [hnext]
  generalize pre ++ (call.encode ++ rest) = data at *
  obtain ⟨attr', hone, hvalues⟩ := parseOne_stands attr hstands (by rwa [hkind])
  refine ⟨attr', ?_, by rw [hvalues, hkind]⟩
  have hover : ¬pre.length + call.attrLen > data.length := by omega
  have hunder : ¬call.attrLen = 0 := by omega
  rw [parseLoop, if_neg (by omega), if_neg (by omega)]
  simp only [hwords, if_neg hover, if_neg hunder, hone, if_true]

theorem parseLoop_calls {calls : List SimCall} (pre : Bytes) (turns : ℕ) (attr : SimAttrs)
    (hturns : calls.length < turns)
    (h : ∀ call ∈ calls, call.kind.Takes aka encr call.content ∧ call.attrLen ≤ maxAttrLen) :
    ∃ attr', parseLoop (pre ++ encodeCalls calls) aka encr turns pre.length attr =
        some (true, attr') ∧
      attr'.values (pre ++ encodeCalls calls) =
        calls.foldl SimValues.addCall (attr.values (pre ++ encodeCalls calls)) := by
  induction calls generalizing pre turns attr with
  | nil =>
    obtain _ | turns := turns
    · exact absurd hturns (Nat.not_lt_zero _)
    · refine ⟨attr, ?_, rfl⟩
      rw [parseLoop, if_pos]
      simp [encodeCalls]
  | cons call calls ih =>
    obtain _ | turns := turns
    · exact absurd hturns (Nat.not_lt_zero _)
    obtain ⟨htakes, hfits⟩ := h call List.mem_cons_self
    obtain ⟨attr₁, hstep, hvalues⟩ :=
      parseLoop_step pre (encodeCalls calls) turns attr htakes hfits
    obtain ⟨attr₂, hloop, hvalues'⟩ := ih (pre ++ call.encode) turns attr₁
      (Nat.lt_of_succ_lt_succ hturns) fun call hmem => h call (List.mem_cons_of_mem _ hmem)
    rw [List.append_assoc] at hloop hvalues'
    refine ⟨attr₂, hstep.trans hloop, ?_⟩
    rw [hvalues] at hvalues'
    exact hvalues'

/-- The length octet of an identity that is too long announces less than its actual length, or
nothing. -/
theorem parseLoop_overlong {call : SimCall} (pre rest : Bytes) (turns : ℕ) (attr : SimAttrs)
    (htakes : call.kind.Takes aka encr call.content) (hid : call.kind = .identity)
    (hlong : maxAttrLen < call.attrLen) :
    parseLoop (pre ++ (call.encode ++ rest)) aka encr (turns + 1) pre.length attr =
      some (false, attr) := by
  rw [hid] at htakes
  obtain ⟨htwo, hplen⟩ := htakes
  have hend : (pre ++ (call.encode ++ rest)).length = pre.length + call.attrLen + rest.length := by
    rw [List.length_append, List.length_append, SimCall.encode_length, Nat.add_assoc]
  have hle := call.content_le
  have hkind : simAt (byteAt (pre ++ (call.encode ++ rest)) pre.length) = .identity := by
    rw [call.byteAt_type, ← hid]
    rfl
  have hread := SimCall.be16_content htwo pre rest
  have hwords : byteAt (pre ++ (call.encode ++ rest)) (pre.length + 1) * 4 ≤ maxAttrLen := by
    have hlt := byteAt_lt (pre ++ (call.encode ++ rest)) (pre.length + 1)
    rw [maxAttrLen]
    omega
  generalize pre ++ (call.encode ++ rest) = data at *
  rw [parseLoop, if_neg (by omega), if_neg (by omega)]
  generalize data.byteAt (pre.length + 1) * 4 = len at *
  have hplenLong : data.be16 (pre.length + 2) > len - 2 - 2 := by
    rw [hread, hplen]
    have hdvd := call.four_dvd_attrLen
    simp only [maxAttrLen] at hwords hlong
    omega
  have hone : parseOne data aka encr pre.length (len - 2) attr = (false, attr) := by
    unfold parseOne
    rw [hkind]
    exact if_pos hplenLong
  by_cases hover : pre.length + len > data.length
  · exact if_pos hover
  · by_cases hunder : len = 0
    · simp only [if_neg hover, if_pos hunder]
    · simp only [if_neg hover, if_neg hunder, hone]
      rfl

/-- An identity that is too long spoils the message, wherever it stands. -/
theorem parseLoop_spoiled {calls : List SimCall} (pre : Bytes) (turns : ℕ) (attr : SimAttrs)
    (hturns : calls.length < turns)
    (h : ∀ call ∈ calls, call.kind.Takes aka encr call.content ∧
      (call.attrLen ≤ maxAttrLen ∨ call.kind = .identity))
    (hlong : ∃ call ∈ calls, maxAttrLen < call.attrLen) :
    ∃ attr', parseLoop (pre ++ encodeCalls calls) aka encr turns pre.length attr =
      some (false, attr') := by
  induction calls generalizing pre turns attr with
  | nil =>
    obtain ⟨call, hmem, -⟩ := hlong
    cases hmem
  | cons call calls ih =>
    obtain _ | turns := turns
    · exact absurd hturns (Nat.not_lt_zero _)
    obtain ⟨htakes, hok⟩ := h call List.mem_cons_self
    by_cases hfits : call.attrLen ≤ maxAttrLen
    · -- the overlong one is still to come
      obtain ⟨attr₁, hstep, -⟩ :=
        parseLoop_step pre (encodeCalls calls) turns attr htakes hfits
      obtain ⟨long, hmem, hlongLen⟩ := hlong
      have hlater : ∃ call ∈ calls, maxAttrLen < call.attrLen := by
        rcases List.mem_cons.mp hmem with rfl | hmem
        · exact absurd hlongLen (Nat.not_lt.mpr hfits)
        · exact ⟨long, hmem, hlongLen⟩
      obtain ⟨attr₂, hloop⟩ := ih (pre ++ call.encode) turns attr₁
        (Nat.lt_of_succ_lt_succ hturns) (fun call hmem => h call (List.mem_cons_of_mem _ hmem)) hlater
      rw [List.append_assoc] at hloop
      exact ⟨attr₂, hstep.trans hloop⟩
    · exact ⟨attr, parseLoop_overlong pre (encodeCalls calls) turns attr htakes
        (hok.resolve_left hfits) (Nat.lt_of_not_le hfits)⟩

/-- An attribute holds at most 1016 octets of encrypted data. -/
theorem parseOne_encrDataLen (data : Bytes) (aka : ℕ) (encr : Bool) (pos alen : ℕ)
    (attr : SimAttrs) :
    (parseOne data aka encr pos alen attr).2.encrDataLen = attr.encrDataLen ∨
      (parseOne data aka encr pos alen attr).2.encrDataLen = alen - 2 := by
  unfold parseOne
  cases simAt (data.byteAt pos) with
  | encrData =>
    right
    simp only
    split_ifs <;> rfl
  | permanentIdReq | anyIdReq | fullauthIdReq | nonSkippable | skippable => exact .inl rfl
  | _ =>
    left
    simp only
    split_ifs <;> rfl

theorem parseLoop_encrDataLen {data : Bytes} {turns pos : ℕ} {attr attr' : SimAttrs} {ok : Bool}
    (hle : attr.encrDataLen + 4 ≤ maxAttrLen)
    (h : parseLoop data aka encr turns pos attr = some (ok, attr')) :
    attr'.encrDataLen + 4 ≤ maxAttrLen := by
  induction turns generalizing pos attr with
  | zero => cases h
  | succ turns ih =>
    have hbyte := byteAt_lt data (pos + 1)
    have hnext := parseOne_encrDataLen data aka encr pos (data.byteAt (pos + 1) * 4 - 2) attr
    unfold parseLoop at h
    simp only at h
    generalize parseOne data aka encr pos (data.byteAt (pos + 1) * 4 - 2) attr = next at h hnext
    rcases next with ⟨cont, next⟩
    have hle' : next.encrDataLen + 4 ≤ maxAttrLen := by
      simp only [maxAttrLen] at hle ⊢
      rcases hnext with hsame | hnew
      · simp only at hsame
        omega
      · simp only at hnew
        omega
    split_ifs at h
    · cases h
      exact hle
    · cases h
      exact hle
    · cases h
      exact hle
    · cases h
      exact hle
    · exact ih hle' h
    · cases h
      exact hle'

end Loop

section Whole
variable {aka : ℕ} {encr : Bool} {calls : List SimCall}

theorem length_le_encodeCalls (calls : List SimCall) :
    calls.length ≤ (encodeCalls calls).length := by
  induction calls with
  | nil => exact Nat.le_refl 0
  | cons call calls ih =>
    have hle := call.content_le
    rw [encodeCalls_cons, List.length_append, SimCall.encode_length, List.length_cons]
    omega

theorem eapSimParseAttr_calls
    (h : ∀ call ∈ calls, call.kind.Takes aka encr call.content ∧ call.attrLen ≤ maxAttrLen) :
    ∃ attr, eapSimParseAttr (encodeCalls calls) aka encr = some (true, attr) ∧
      attr.values (encodeCalls calls) = addedValues calls :=
  parseLoop_calls [] _ {} (Nat.lt_succ_of_le (length_le_encodeCalls calls)) h

theorem eapSimParseAttr_spoiled
    (h : ∀ call ∈ calls, call.kind.Takes aka encr call.content ∧
      (call.attrLen ≤ maxAttrLen ∨ call.kind = .identity))
    (hlong : ∃ call ∈ calls, maxAttrLen < call.attrLen) :
    ∃ attr, eapSimParseAttr (encodeCalls calls) aka encr = some (false, attr) :=
  parseLoop_spoiled [] _ {} (Nat.lt_succ_of_le (length_le_encodeCalls calls)) h hlong

/-- The padding of a block is skipped and adds no value. -/
theorem addedValues_padded (inner : List SimCall) : addedValues (padded inner) = addedValues inner := by
  rw [padded, addedValues, List.foldl_append]
  unfold padding
  split <;> rfl

theorem padded_takes {inner : List SimCall}
    (h : ∀ call ∈ inner, call.kind.Takes aka true call.content) :
    ∀ call ∈ padded inner, call.kind.Takes aka true call.content := by
  intro call hmem
  rcases List.mem_append.mp hmem with hinner | hpad
  · exact h call hinner
  · unfold padding at hpad
    split at hpad
    · rw [List.mem_singleton] at hpad
      subst hpad
      exact ⟨rfl, fun x hx => List.eq_of_mem_replicate hx⟩
    · cases hpad

theorem attrLen_le_encodeCalls {call : SimCall} (hmem : call ∈ calls) :
    call.attrLen ≤ (encodeCalls calls).length := by
  induction calls with
  | nil => cases hmem
  | cons first calls ih =>
    rw [encodeCalls_cons, List.length_append, SimCall.encode_length]
    rcases List.mem_cons.mp hmem with rfl | hmem
    · exact Nat.le_add_right _ _
    · exact (ih hmem).trans (Nat.le_add_left _ _)

theorem foldl_addCall_block (v : SimValues)
    (h : ∀ call ∈ calls, call.kind ≠ .iv ∧ call.kind ≠ .encrData) :
    (calls.foldl SimValues.addCall v).iv = v.iv ∧
      (calls.foldl SimValues.addCall v).encrData = v.encrData := by
  induction calls generalizing v with
  | nil => exact ⟨rfl, rfl⟩
  | cons call calls ih =>
    obtain ⟨hiv, hencr⟩ := h call List.mem_cons_self
    have hkeep : (v.addCall call).iv = v.iv ∧ (v.addCall call).encrData = v.encrData := by
      unfold SimValues.addCall
      generalize call.kind = kind at hiv hencr ⊢
      cases kind <;> first | exact ⟨rfl, rfl⟩ | contradiction
    obtain ⟨hiv', hencr'⟩ := ih (v.addCall call) fun call hmem => h call (List.mem_cons_of_mem _ hmem)
    exact ⟨hiv'.trans hkeep.1, hencr'.trans hkeep.2⟩

/-- Nothing behind the block replaces its cipher text. -/
theorem addedValues_block {after : List SimCall} (before : List SimCall) (iv cipher : Bytes)
    (h : ∀ call ∈ after, call.kind ≠ .iv ∧ call.kind ≠ .encrData) :
    (addedValues (before ++ [.add atIv 0 iv, .add atEncrData 0 cipher] ++ after)).iv = some iv ∧
      (addedValues (before ++ [.add atIv 0 iv, .add atEncrData 0 cipher] ++ after)).encrData =
        some cipher := by
  rw [addedValues, List.foldl_append, List.foldl_append]
  exact foldl_addCall_block _ h

end Whole

/-- The type and the length are ones that the parser takes; the length of an identity is any that the
network may have assigned. -/
def SimCall.Acceptable (aka : ℕ) (encr : Bool) (call : SimCall) : Prop :=
  call.kind.Takes aka encr call.content ∧
    (call.attrLen ≤ maxAttrLen ∨
      (call.kind = .identity ∨ call.kind = .nextPseudonym ∨ call.kind = .nextReauthId) ∧
        call.content.length ≤ 2 + 1500)

structure SimScript.Acceptable (aka : ℕ) (script : SimScript) : Prop where
  before : ∀ call ∈ script.before, call.Acceptable aka false
  after : ∀ call ∈ script.after, call.Acceptable aka false
  inner : ∀ inner, script.block = some inner → ∀ call ∈ inner, call.Acceptable aka true
  /-- The encrypted data of the message are those of the block. -/
  one_block : script.block ≠ none →
    ∀ call ∈ script.after, call.kind ≠ .iv ∧ call.kind ≠ .encrData

/-- What was added is what is read, outside and inside of the block. -/
def RoundTrips (cbc : Cbc) (key : Bytes) (aka : ℕ) (script : SimScript) (calls : List SimCall)
    (body : Bytes) : Prop :=
  ∃ attr, eapSimParseAttr body aka false = some (true, attr) ∧
    attr.values body = addedValues calls ∧
    ∀ inner, script.block = some inner → ∃ cipher decrypted attr',
      (attr.values body).encrData = some cipher ∧
      eapSimParseEncr cbc key cipher (attr.values body).iv aka = some (decrypted, attr') ∧
      attr'.values decrypted = addedValues inner

/-- Every length octet holds the length that it stands for. -/
structure SimScript.Fits (script : SimScript) : Prop where
  before : ∀ call ∈ script.before, call.attrLen ≤ maxAttrLen
  after : ∀ call ∈ script.after, call.attrLen ≤ maxAttrLen
  inner : ∀ inner, script.block = some inner →
    4 + (encodeCalls (padded inner)).length ≤ maxAttrLen

section Script
variable {env : SimEnv} {cbc : Cbc} {key : Bytes} {aka : ℕ} {script : SimScript}
  {calls : List SimCall}

/-- Outside of the block only an identity can be too long. -/
theorem SimCall.Acceptable.outside {call : SimCall} (h : call.Acceptable aka false) :
    call.kind.Takes aka false call.content ∧
      (call.attrLen ≤ maxAttrLen ∨ call.kind = .identity) := by
  refine ⟨h.1, ?_⟩
  rcases h.2 with hfits | ⟨hid | hid | hid, -⟩
  · exact .inl hfits
  · exact .inr hid
  · have htakes := h.1
    rw [hid] at htakes
    cases htakes.1
  · have htakes := h.1
    rw [hid] at htakes
    cases htakes.1

theorem padded_length_dvd (inner : List SimCall) : 16 ∣ (encodeCalls (padded inner)).length := by
  have hwords := four_dvd_encodeCalls inner
  rw [padded, encodeCalls_append, List.length_append]
  unfold padding
  split
  · rw [encodeCalls_cons, encodeCalls_nil, List.append_nil, SimCall.encode_length]
    simp only [SimCall.attrLen, SimCall.content, List.length_append, zeros_length, ofBeNat_length]
    omega
  · rw [encodeCalls_nil, List.length_nil]
    omega

/-- The block is taken where its length fits, and is read as it was filled. -/
theorem eapSimParseEncr_padded {iv cipher : Bytes} {inner : List SimCall} (hinv : cbc.Invertible)
    (hok : ∀ call ∈ inner, call.kind.Takes aka true call.content)
    (hfits : 4 + (encodeCalls (padded inner)).length ≤ maxAttrLen)
    (hcipher : cbc.encrypt key iv (encodeCalls (padded inner)) = some cipher) :
    ∃ attr, eapSimParseEncr cbc key cipher (some iv) aka =
        some (encodeCalls (padded inner), attr) ∧
      attr.values (encodeCalls (padded inner)) = addedValues inner := by
  have hall : ∀ call ∈ padded inner,
      call.kind.Takes aka true call.content ∧ call.attrLen ≤ maxAttrLen := fun call hmem =>
    ⟨padded_takes hok call hmem, (attrLen_le_encodeCalls hmem).trans (by omega)⟩
  obtain ⟨attr, hparse, hvalues⟩ := eapSimParseAttr_calls hall
  refine ⟨attr, ?_, hvalues.trans (addedValues_padded inner)⟩
  simp [eapSimParseEncr, hinv.decrypt_eq hcipher, hparse]

/-- The attributes around a block, and those of the block itself. -/
theorem Builds.takes (hinv : cbc.Invertible) (hok : script.Acceptable aka)
    (hbuilds : script.Builds env cbc key calls) :
    ∀ call ∈ calls, call.kind.Takes aka false call.content := by
  cases hbuilds with
  | plain hnone =>
    intro call hmem
    rcases List.mem_append.mp hmem with hmem | hmem
    · exact (hok.before call hmem).1
    · exact (hok.after call hmem).1
  | encrypted inner random cipher hblock hrandom hcipher =>
    have hlen := hinv.length_eq hcipher
    have hblocks := padded_length_dvd inner
    intro call hmem
    rw [List.mem_append, List.mem_append, List.mem_pair] at hmem
    rcases hmem with (hmem | rfl | rfl) | hmem
    · exact (hok.before call hmem).1
    · show (ofBeNat 0 2 ++ random.1).length = 2 + ivLen
      rw [List.length_append, random.2, ofBeNat_length]
    · show 2 ≤ (ofBeNat 0 2 ++ cipher).length ∧ 16 ∣ (ofBeNat 0 2 ++ cipher).length - 2
      rw [List.length_append, ofBeNat_length, hlen, Nat.add_sub_cancel_left]
      exact ⟨Nat.le_add_right _ _, hblocks⟩
    · exact (hok.after call hmem).1

theorem roundTrips_of_fits (hinv : cbc.Invertible) (hok : script.Acceptable aka)
    (hbuilds : script.Builds env cbc key calls) (hfits : script.Fits) :
    RoundTrips cbc key aka script calls (encodeCalls calls) := by
  have htakes := Builds.takes hinv hok hbuilds
  cases hbuilds with
  | plain hnone =>
    obtain ⟨attr, hparse, hvalues⟩ := eapSimParseAttr_calls fun call hmem => ⟨htakes call hmem, by
      rcases List.mem_append.mp hmem with hmem | hmem
      · exact hfits.before call hmem
      · exact hfits.after call hmem⟩
    refine ⟨attr, hparse, hvalues, ?_⟩
    intro inner hblock
    rw [hnone] at hblock
    cases hblock
  | encrypted inner random cipher hblock hrandom hcipher =>
    have hlen := hinv.length_eq hcipher
    have hblocks := padded_length_dvd inner
    have hinner := hfits.inner inner hblock
    obtain ⟨attr, hparse, hvalues⟩ := eapSimParseAttr_calls fun call hmem => ⟨htakes call hmem, by
      rw [List.mem_append, List.mem_append, List.mem_pair] at hmem
      rcases hmem with (hmem | rfl | rfl) | hmem
      · exact hfits.before call hmem
      · rw [SimCall.attrLen, SimCall.content, List.length_append, random.2]
        decide
      · rw [SimCall.attrLen, SimCall.content, List.length_append, ofBeNat_length, hlen]
        omega
      · exact hfits.after call hmem⟩
    obtain ⟨hiv, hencr⟩ := addedValues_block script.before random.1 cipher
      (hok.one_block (by rw [hblock]; exact Option.some_ne_none _))
    obtain ⟨attr', hdecrypted, hvalues'⟩ := eapSimParseEncr_padded hinv
      (fun call hmem => (hok.inner inner hblock call hmem).1) hinner hcipher
    refine ⟨attr, hparse, hvalues, ?_⟩
    intro inner' hblock'
    rw [hblock] at hblock'
    cases hblock'
    rw [hvalues, hiv, hencr]
    exact ⟨cipher, _, attr', rfl, hdecrypted, hvalues'⟩

/-- In a message that parses every attribute has its length. -/
theorem fits_of_parsed {attr : SimAttrs}
    (h : ∀ call ∈ calls, call.kind.Takes aka false call.content ∧
      (call.attrLen ≤ maxAttrLen ∨ call.kind = .identity))
    (hparse : eapSimParseAttr (encodeCalls calls) aka false = some (true, attr)) :
    ∀ call ∈ calls, call.attrLen ≤ maxAttrLen := by
  intro call hmem
  by_contra hlong
  obtain ⟨attr', hspoiled⟩ := eapSimParseAttr_spoiled h ⟨call, hmem, Nat.lt_of_not_le hlong⟩
  rw [hparse] at hspoiled
  cases hspoiled

theorem encrData_length_le {data cipher : Bytes} {attr : SimAttrs} {ok encr : Bool}
    (hparse : eapSimParseAttr data aka encr = some (ok, attr))
    (hcipher : (attr.values data).encrData = some cipher) : cipher.length + 4 ≤ maxAttrLen := by
  have hle : attr.encrDataLen + 4 ≤ maxAttrLen := parseLoop_encrDataLen (by decide) hparse
  obtain ⟨off, -, rfl⟩ := Option.map_eq_some_iff.mp hcipher
  rw [slice_length]
  omega

theorem fits_of_roundTrips (hinv : cbc.Invertible) (hok : script.Acceptable aka)
    (hbuilds : script.Builds env cbc key calls)
    (h : RoundTrips cbc key aka script calls (encodeCalls calls)) : script.Fits := by
  obtain ⟨attr, hparse, hvalues, -⟩ := h
  cases hbuilds with
  | plain hnone =>
    have hfits := fits_of_parsed (fun call hmem => by
      rcases List.mem_append.mp hmem with hmem | hmem
      · exact (hok.before call hmem).outside
      · exact (hok.after call hmem).outside) hparse
    refine ⟨?_, ?_, ?_⟩
    · exact fun call hmem => hfits call (List.mem_append_left _ hmem)
    · exact fun call hmem => hfits call (List.mem_append_right _ hmem)
    · intro inner hblock
      rw [hnone] at hblock
      cases hblock
  | encrypted inner random cipher hblock hrandom hcipher =>
    have htakes := Builds.takes hinv hok (.encrypted inner random cipher hblock hrandom hcipher)
    have hlen := hinv.length_eq hcipher
    have hblocks := padded_length_dvd inner
    -- an overlong block would be cut short by the parser, whatever its cipher text
    obtain ⟨-, hencr⟩ := addedValues_block script.before random.1 cipher
      (hok.one_block (by rw [hblock]; exact Option.some_ne_none _))
    rw [← hvalues] at hencr
    have hinner := encrData_length_le hparse hencr
    have hfits := fits_of_parsed (fun call hmem => by
      refine ⟨htakes call hmem, ?_⟩
      rw [List.mem_append, List.mem_append, List.mem_pair] at hmem
      rcases hmem with (hmem | rfl | rfl) | hmem
      · exact (hok.before call hmem).outside.2
      · left
        rw [SimCall.attrLen, SimCall.content, List.length_append, random.2]
        decide
      · left
        rw [SimCall.attrLen, SimCall.content, List.length_append, ofBeNat_length]
        omega
      · exact (hok.after call hmem).outside.2) hparse
    refine ⟨?_, ?_, ?_⟩
    · exact fun call hmem => hfits call (by simp [hmem])
    · exact fun call hmem => hfits call (by simp [hmem])
    · intro inner' hblock'
      rw [hblock] at hblock'
      cases hblock'
      omega

end Script

/-- The parser ends on every octet string and leaves only pointers into it; and a message reads back
exactly if its length octets can hold the lengths. -/
theorem sim_codec {cbc : Cbc} (hinv : cbc.Invertible) (env : SimEnv) (key : Bytes) (aka : ℕ) :
    (∀ data encr, ∃ ok attr, eapSimParseAttr data aka encr = some (ok, attr) ∧
      attr.Inside data.length) ∧
    ∀ (code id type subtype : UInt8) (msg msg' : SimMsg) (script : SimScript),
      script.Acceptable aka → eapSimMsgInit env code id type subtype = some msg →
      script.build env cbc key msg = some msg' →
      ∃ calls, script.Builds env cbc key calls ∧
        (RoundTrips cbc key aka script calls (msg'.buf.data.drop simHdrLen) ↔ script.Fits) := by
  constructor
  · exact fun data encr => eapSimParseAttr_inside data aka encr
  · intro code id type subtype msg msg' script hok hinit hbuild
    obtain ⟨calls, hbuilds, hdata⟩ := script.build_data hinv hbuild
    have hbody : msg'.buf.data.drop simHdrLen = encodeCalls calls := by
      rw [hdata]
      exact List.drop_left' (eapSimMsgInit_length hinit)
    refine ⟨calls, hbuilds, ?_⟩
    rw [hbody]
    exact ⟨fits_of_roundTrips hinv hok hbuilds, roundTrips_of_fits hinv hok hbuilds⟩

/-- A cipher that changes nothing, and an environment where nothing fails. -/
def mirror : Cbc := ⟨fun _ _ plain => some plain, fun _ _ cipher => some cipher⟩

theorem mirror_invertible : mirror.Invertible where
  length_eq h := by
    cases h
    rfl
  decrypt_eq h := h.symm

def ready : SimEnv := ⟨fun _ => true, some ⟨zeros ivLen, zeros_length ivLen⟩⟩

theorem exists_built (script : SimScript) (subtype : UInt8)
    (h : ((eapSimMsgInit ready 1 7 18 subtype).bind (script.build ready mirror [])).isSome) :
    ∃ msg msg', eapSimMsgInit ready 1 7 18 subtype = some msg ∧
      script.build ready mirror [] msg = some msg' := by
  obtain ⟨msg', hboth⟩ := Option.isSome_iff_exists.mp h
  obtain ⟨msg, hinit, hbuild⟩ := Option.bind_eq_some_iff.mp hboth
  exact ⟨msg, msg', hinit, hbuild⟩

/-- `AT_RESULT_IND`, and a block of `AT_COUNTER` and `AT_NEXT_PSEUDONYM`. -/
def smallScript : SimScript :=
  ⟨[.add 135 0 []], some [.add 19 1 [], .add 132 2 [97, 98]], []⟩

theorem smallScript_acceptable : smallScript.Acceptable 0 where
  before := by
    intro call hmem
    rw [List.mem_singleton.mp hmem]
    exact ⟨⟨rfl, rfl⟩, .inl (by decide)⟩
  after := List.forall_mem_nil _
  inner inner hinner := by
    cases hinner
    intro call hmem
    rcases List.mem_pair.mp hmem with rfl | rfl
    · exact ⟨⟨rfl, rfl⟩, .inl (by decide)⟩
    · exact ⟨⟨rfl, by decide, by decide⟩, .inl (by decide)⟩
  one_block _ := List.forall_mem_nil _

theorem sim_codec_small : ∃ msg' calls, smallScript.Builds ready mirror [] calls ∧
    RoundTrips mirror [] 0 smallScript calls ((SimMsg.buf msg').data.drop simHdrLen) := by
  obtain ⟨msg, msg', hinit, hbuild⟩ := exists_built smallScript 11 (by decide)
  obtain ⟨calls, hbuilds, hiff⟩ := (sim_codec mirror_invertible ready [] 0).2 1 7 18 11 msg msg'
    smallScript smallScript_acceptable hinit hbuild
  refine ⟨msg', calls, hbuilds, hiff.mpr ⟨?_, List.forall_mem_nil _, ?_⟩⟩
  · intro call hmem
    rw [List.mem_singleton.mp hmem]
    decide
  · intro inner hinner
    cases hinner
    decide

/-- `AT_IDENTITY` with an identity of 1017 octets: the length octet is zero. -/
def longScript : SimScript := ⟨[.add 14 1017 (List.replicate 1017 97)], none, []⟩

theorem identity_not_returned : ∃ msg msg' calls, longScript.Acceptable 0 ∧
    eapSimMsgInit ready 1 7 18 10 = some msg ∧ longScript.build ready mirror [] msg = some msg' ∧
    longScript.Builds ready mirror [] calls ∧
    ¬RoundTrips mirror [] 0 longScript calls (msg'.buf.data.drop simHdrLen) := by
  have hcontent : (SimCall.add 14 1017 (List.replicate 1017 97)).content.length = 1019 := by
    rw [SimCall.content, List.length_append, ofBeNat_length, List.length_replicate]
  have hlong : (SimCall.add 14 1017 (List.replicate 1017 97)).attrLen = 1024 := by
    rw [SimCall.attrLen, hcontent]
  have hok : longScript.Acceptable 0 := by
    refine ⟨?_, List.forall_mem_nil _, ?_, fun _ => List.forall_mem_nil _⟩
    · intro call hmem
      rw [List.mem_singleton.mp hmem]
      refine ⟨⟨?_, ?_⟩, .inr ⟨.inl rfl, ?_⟩⟩
      · rw [hcontent]
        decide
      · rw [hcontent]
        exact be16_ofBeNat (by decide) _
      · rw [hcontent]
        decide
    · intro inner hinner
      cases hinner
  obtain ⟨msg, msg', hinit, hbuild⟩ := exists_built longScript 10 (by decide +kernel)
  obtain ⟨calls, hbuilds, hdata⟩ := longScript.build_data mirror_invertible hbuild
  refine ⟨msg, msg', calls, hok, hinit, hbuild, hbuilds, ?_⟩
  intro hround
  have hbody : msg'.buf.data.drop simHdrLen = encodeCalls calls := by
    rw [hdata]
    exact List.drop_left' (eapSimMsgInit_length hinit)
  rw [hbody] at hround
  have hfits := (fits_of_roundTrips mirror_invertible hok hbuilds hround).before _
    (List.mem_singleton_self _)
  rw [hlong] at hfits
  exact absurd hfits (by decide)

end Wpa.Sim
