import Wpa.Lib.Reads

/-! The attributes of EAP-SIM, EAP-AKA and EAP-AKA' messages: `eap_sim_parse_attr`. Pointers are
offsets from `start`. -/

namespace Wpa.Sim
open Lib Bytes

/-- The attribute types that the parser names; the others are skippable from 128 on. -/
inductive SimAt where
  | rand
  | autn
  | res
  | auts
  | padding
  | nonceMt
  | permanentIdReq
  | mac
  | notification
  | anyIdReq
  | identity
  | versionList
  | selectedVersion
  | fullauthIdReq
  | counter
  | counterTooSmall
  | nonceS
  | clientErrorCode
  | kdfInput
  | kdf
  | iv
  | encrData
  | nextPseudonym
  | nextReauthId
  | checkcode
  | resultInd
  | bidding
  | nonSkippable
  | skippable
  deriving DecidableEq

def simAt : ℕ → SimAt
  | 1 => .rand
  | 2 => .autn
  | 3 => .res
  | 4 => .auts
  | 6 => .padding
  | 7 => .nonceMt
  | 10 => .permanentIdReq
  | 11 => .mac
  | 12 => .notification
  | 13 => .anyIdReq
  | 14 => .identity
  | 15 => .versionList
  | 16 => .selectedVersion
  | 17 => .fullauthIdReq
  | 19 => .counter
  | 20 => .counterTooSmall
  | 21 => .nonceS
  | 22 => .clientErrorCode
  | 23 => .kdfInput
  | 24 => .kdf
  | 129 => .iv
  | 130 => .encrData
  | 132 => .nextPseudonym
  | 133 => .nextReauthId
  | 134 => .checkcode
  | 135 => .resultInd
  | 136 => .bidding
  | type => if type < 128 then .nonSkippable else .skippable

def gsmRandLen : ℕ := 16
def akaRandLen : ℕ := 16
def akaAutnLen : ℕ := 16
def akaAutsLen : ℕ := 14
def akaMinResLen : ℕ := 4
def akaMaxResLen : ℕ := 16
def akaCheckcodeLen : ℕ := 20
def akaPrimeCheckcodeLen : ℕ := 32
def akaPrimeKdfMax : ℕ := 10
def nonceMtLen : ℕ := 16
def nonceSLen : ℕ := 16
def macLen : ℕ := 16
def ivLen : ℕ := 16

inductive IdReq where
  | noIdReq
  | anyId
  | fullauthId
  | permanentId
  deriving DecidableEq

/-- `struct eap_sim_attrs`; a list holds the first `kdf_count` entries of `kdf`. -/
structure SimAttrs where
  rand : Option ℕ := none
  autn : Option ℕ := none
  mac : Option ℕ := none
  iv : Option ℕ := none
  encrData : Option ℕ := none
  versionList : Option ℕ := none
  nonceS : Option ℕ := none
  nextPseudonym : Option ℕ := none
  nextReauthId : Option ℕ := none
  nonceMt : Option ℕ := none
  identity : Option ℕ := none
  res : Option ℕ := none
  auts : Option ℕ := none
  checkcode : Option ℕ := none
  kdfInput : Option ℕ := none
  bidding : Option ℕ := none
  numChal : ℕ := 0
  versionListLen : ℕ := 0
  encrDataLen : ℕ := 0
  nextPseudonymLen : ℕ := 0
  nextReauthIdLen : ℕ := 0
  identityLen : ℕ := 0
  resLen : ℕ := 0
  resLenBits : ℕ := 0
  checkcodeLen : ℕ := 0
  kdfInputLen : ℕ := 0
  idReq : IdReq := .noIdReq
  notification : ℤ := -1
  counter : ℤ := -1
  selectedVersion : ℤ := -1
  clientErrorCode : ℤ := -1
  counterTooSmall : Bool := false
  resultInd : Bool := false
  kdf : List ℕ := []
  kdf_le : kdf.length ≤ akaPrimeKdfMax := by decide
  deriving DecidableEq

section Parse
variable (data : Bytes) (aka : ℕ) (encr : Bool)

/-- One turn of the `switch`, for the attribute at `pos` with `alen` octets behind its type and
length; `false` stands for `return -1`. -/
def parseOne (pos alen : ℕ) (attr : SimAttrs) : Bool × SimAttrs :=
  let apos := pos + 2
  match simAt (data.byteAt pos) with
  | .rand =>
    let alen := alen - 2
    if (aka = 0 ∧ alen % gsmRandLen ≠ 0) ∨ (aka ≠ 0 ∧ alen ≠ akaRandLen) then (false, attr)
    else (true, { attr with rand := some (apos + 2), numChal := alen / gsmRandLen })
  | .autn =>
    if aka = 0 then (false, attr)
    else if alen - 2 ≠ akaAutnLen then (false, attr)
    else (true, { attr with autn := some (apos + 2) })
  | .padding =>
    if !encr then (false, attr)
    else if (data.slice (apos + 2) (alen - 2)).any (· ≠ 0) then (false, attr)
    else (true, attr)
  | .nonceMt =>
    if alen ≠ 2 + nonceMtLen then (false, attr)
    else (true, { attr with nonceMt := some (apos + 2) })
  | .permanentIdReq => (true, { attr with idReq := .permanentId })
  | .mac =>
    if alen ≠ 2 + macLen then (false, attr)
    else (true, { attr with mac := some (apos + 2) })
  | .notification =>
    if alen ≠ 2 then (false, attr)
    else (true, { attr with notification := data.be16 apos })
  | .anyIdReq => (true, { attr with idReq := .anyId })
  | .identity =>
    let plen := data.be16 apos
    if plen > alen - 2 then (false, attr)
    else (true, { attr with identity := some (apos + 2), identityLen := plen })
  | .versionList =>
    if aka ≠ 0 then (false, attr)
    else
      let listLen := data.be16 apos
      if listLen < 2 ∨ listLen > alen - 2 then (false, attr)
      else (true, { attr with versionList := some (apos + 2), versionListLen := listLen })
  | .selectedVersion =>
    if alen ≠ 2 then (false, attr)
    else (true, { attr with selectedVersion := data.be16 apos })
  | .fullauthIdReq => (true, { attr with idReq := .fullauthId })
  | .counter =>
    if !encr then (false, attr)
    else if alen ≠ 2 then (false, attr)
    else (true, { attr with counter := data.be16 apos })
  | .counterTooSmall =>
    if !encr then (false, attr)
    else if alen ≠ 2 then (false, attr)
    else (true, { attr with counterTooSmall := true })
  | .nonceS =>
    if !encr then (false, attr)
    else if alen ≠ 2 + nonceSLen then (false, attr)
    else (true, { attr with nonceS := some (apos + 2) })
  | .clientErrorCode =>
    if alen ≠ 2 then (false, attr)
    else (true, { attr with clientErrorCode := data.be16 apos })
  | .iv =>
    if alen ≠ 2 + macLen then (false, attr)
    else (true, { attr with iv := some (apos + 2) })
  | .encrData =>
    -- stored before the length is looked at
    let attr := { attr with encrData := some (apos + 2), encrDataLen := alen - 2 }
    if attr.encrDataLen % 16 ≠ 0 then (false, attr) else (true, attr)
  | .nextPseudonym =>
    if !encr then (false, attr)
    else
      let plen := data.be16 apos
      if plen > alen - 2 then (false, attr)
      else (true, { attr with nextPseudonym := some (pos + 4), nextPseudonymLen := plen })
  | .nextReauthId =>
    if !encr then (false, attr)
    else
      let plen := data.be16 apos
      if plen > alen - 2 then (false, attr)
      else (true, { attr with nextReauthId := some (pos + 4), nextReauthIdLen := plen })
  | .res =>
    -- the bit length is stored whatever becomes of the attribute
    let attr := { attr with resLenBits := data.be16 apos }
    let alen := alen - 2
    if aka = 0 ∨ alen < akaMinResLen ∨ alen > akaMaxResLen then (false, attr)
    else (true, { attr with res := some (apos + 2), resLen := alen })
  | .auts =>
    if aka = 0 then (false, attr)
    else if alen ≠ akaAutsLen then (false, attr)
    else (true, { attr with auts := some apos })
  | .checkcode =>
    if aka = 0 then (false, attr)
    else
      let alen := alen - 2
      if alen ≠ 0 ∧ alen ≠ akaCheckcodeLen ∧ alen ≠ akaPrimeCheckcodeLen then (false, attr)
      else (true, { attr with checkcode := some (apos + 2), checkcodeLen := alen })
  | .resultInd =>
    if encr then (false, attr)
    else if alen ≠ 2 then (false, attr)
    else (true, { attr with resultInd := true })
  | .kdfInput =>
    if aka ≠ 2 then (false, attr)
    else
      let plen := data.be16 apos
      if plen > alen - 2 then (false, attr)
      else (true, { attr with kdfInput := some (apos + 2), kdfInputLen := plen })
  | .kdf =>
    if aka ≠ 2 then (false, attr)
    else if alen ≠ 2 then (false, attr)
    else if h : attr.kdf.length = akaPrimeKdfMax then (true, attr)
    else
      (true, { attr with
        kdf := attr.kdf ++ [data.be16 apos]
        kdf_le := by
          rw [List.length_append]
          exact Nat.lt_of_le_of_ne attr.kdf_le h })
  | .bidding =>
    if alen ≠ 2 then (false, attr)
    else (true, { attr with bidding := some apos })
  | .nonSkippable => (false, attr)
  | .skippable => (true, attr)

/-- The `while` loop, for at most as many turns as the first argument says; `none` if they do not
suffice. -/
def parseLoop : ℕ → ℕ → SimAttrs → Option (Bool × SimAttrs)
  | 0, _, _ => none
  | turns + 1, pos, attr =>
    if pos ≥ data.length then some (true, attr)
    else if pos + 2 > data.length then some (false, attr)
    else
      let len := data.byteAt (pos + 1) * 4
      if pos + len > data.length then some (false, attr)
      else if len = 0 then some (false, attr)
      else
        let (ok, attr) := parseOne data aka encr pos (len - 2) attr
        if ok then parseLoop turns (pos + len) attr else some (false, attr)

def eapSimParseAttr : Option (Bool × SimAttrs) :=
  parseLoop data aka encr (data.length + 1) 0 {}

end Parse

/-- The pointers of the structure, each with its length. -/
def SimAttrs.ranges (attr : SimAttrs) : List (Option ℕ × ℕ) :=
  [(attr.rand, attr.numChal * gsmRandLen), (attr.autn, akaAutnLen), (attr.mac, macLen),
    (attr.iv, ivLen), (attr.encrData, attr.encrDataLen), (attr.versionList, attr.versionListLen),
    (attr.nonceS, nonceSLen), (attr.nextPseudonym, attr.nextPseudonymLen),
    (attr.nextReauthId, attr.nextReauthIdLen), (attr.nonceMt, nonceMtLen),
    (attr.identity, attr.identityLen), (attr.res, attr.resLen), (attr.auts, akaAutsLen),
    (attr.checkcode, attr.checkcodeLen), (attr.kdfInput, attr.kdfInputLen), (attr.bidding, 2)]

/-- Every pointer with its length lies inside the first `n` octets. -/
def SimAttrs.Inside (attr : SimAttrs) (n : ℕ) : Prop :=
  ∀ range ∈ attr.ranges, ∀ off, range.1 = some off → off + range.2 ≤ n

theorem SimAttrs.inside_empty (n : ℕ) : ({} : SimAttrs).Inside n := by
  simp [SimAttrs.Inside, SimAttrs.ranges]

/-- A structure that differs in one range only, and that one lies inside. -/
theorem SimAttrs.Inside.set {attr attr' : SimAttrs} {n : ℕ} (h : attr.Inside n) (i off len : ℕ)
    (hset : attr'.ranges = attr.ranges.set i (some off, len)) (hle : off + len ≤ n) :
    attr'.Inside n := by
  intro range hmem start hstart
  rw [hset] at hmem
  rcases List.mem_or_eq_of_mem_set hmem with hold | rfl
  · exact h range hold start hstart
  · cases hstart
    exact hle

section Bounds
variable {data : Bytes} {aka : ℕ} {encr : Bool}

/-- What one attribute stores points into that attribute, also where it is then refused. -/
theorem parseOne_inside {pos alen : ℕ} {attr : SimAttrs} (hend : pos + 2 + alen ≤ data.length)
    (halen : 2 ≤ alen) (h : attr.Inside data.length) :
    (parseOne data aka encr pos alen attr).2.Inside data.length := by
  unfold parseOne
  cases simAt (data.byteAt pos) with
  | rand =>
    simp only
    split_ifs
    · exact h
    · apply h.set 0 (pos + 2 + 2) ((alen - 2) / gsmRandLen * gsmRandLen) rfl
      have hdiv := Nat.div_mul_le_self (alen - 2) gsmRandLen
      omega
  | autn =>
    simp only
    split_ifs
    · exact h
    · exact h
    · apply h.set 1 (pos + 2 + 2) akaAutnLen rfl
      simp only [akaAutnLen] at *
      omega
  | mac =>
    simp only
    split_ifs
    · exact h
    · apply h.set 2 (pos + 2 + 2) macLen rfl
      simp only [macLen] at *
      omega
  | iv =>
    simp only
    split_ifs
    · exact h
    · apply h.set 3 (pos + 2 + 2) ivLen rfl
      simp only [macLen, ivLen] at *
      omega
  | encrData =>
    simp only
    split_ifs
    · exact h.set 4 (pos + 2 + 2) (alen - 2) rfl (by omega)
    · exact h.set 4 (pos + 2 + 2) (alen - 2) rfl (by omega)
  | versionList =>
    simp only
    split_ifs
    · exact h
    · exact h
    · exact h.set 5 (pos + 2 + 2) (data.be16 (pos + 2)) rfl (by omega)
  | nonceS =>
    simp only
    split_ifs
    · exact h
    · exact h
    · apply h.set 6 (pos + 2 + 2) nonceSLen rfl
      simp only [nonceSLen] at *
      omega
  | nextPseudonym =>
    simp only
    split_ifs
    · exact h
    · exact h
    · exact h.set 7 (pos + 4) (data.be16 (pos + 2)) rfl (by omega)
  | nextReauthId =>
    simp only
    split_ifs
    · exact h
    · exact h
    · exact h.set 8 (pos + 4) (data.be16 (pos + 2)) rfl (by omega)
  | nonceMt =>
    simp only
    split_ifs
    · exact h
    · apply h.set 9 (pos + 2 + 2) nonceMtLen rfl
      simp only [nonceMtLen] at *
      omega
  | identity =>
    simp only
    split_ifs
    · exact h
    · exact h.set 10 (pos + 2 + 2) (data.be16 (pos + 2)) rfl (by omega)
  | res =>
    simp only
    split_ifs
    · exact h
    · exact h.set 11 (pos + 2 + 2) (alen - 2) rfl (by omega)
  | auts =>
    simp only
    split_ifs
    · exact h
    · exact h
    · apply h.set 12 (pos + 2) akaAutsLen rfl
      simp only [akaAutsLen] at *
      omega
  | checkcode =>
    simp only
    split_ifs
    · exact h
    · exact h
    · exact h.set 13 (pos + 2 + 2) (alen - 2) rfl (by omega)
  | kdfInput =>
    simp only
    split_ifs
    · exact h
    · exact h
    · exact h.set 14 (pos + 2 + 2) (data.be16 (pos + 2)) rfl (by omega)
  | bidding =>
    simp only
    split_ifs
    · exact h
    · exact h.set 15 (pos + 2) 2 rfl (by omega)
  -- the others store numbers and flags
  | permanentIdReq | anyIdReq | fullauthIdReq | nonSkippable | skippable => exact h
  | padding | notification | selectedVersion | counter | counterTooSmall | clientErrorCode
    | resultInd | kdf =>
    simp only
    split_ifs <;> exact h

/-- Each turn of the loop moves on, so it ends; and all that was stored on the way points inside. -/
theorem parseLoop_inside (turns pos : ℕ) (attr : SimAttrs) (hturns : data.length - pos < turns)
    (h : attr.Inside data.length) :
    ∃ ok attr', parseLoop data aka encr turns pos attr = some (ok, attr') ∧
      attr'.Inside data.length := by
  induction turns generalizing pos attr with
  | zero => exact absurd hturns (Nat.not_lt_zero _)
  | succ turns ih =>
    have hstop (ok : Bool) : ∃ ok' attr', some (ok, attr) = some (ok', attr') ∧
        attr'.Inside data.length := ⟨ok, attr, rfl, h⟩
    unfold parseLoop
    by_cases hdone : pos ≥ data.length
    · rw [if_pos hdone]
      exact hstop true
    rw [if_neg hdone]
    by_cases hhead : pos + 2 > data.length
    · rw [if_pos hhead]
      exact hstop false
    rw [if_neg hhead]
    by_cases hover : pos + data.byteAt (pos + 1) * 4 > data.length
    · simp only [if_pos hover]
      exact hstop false
    by_cases hunder : data.byteAt (pos + 1) * 4 = 0
    · simp only [if_neg hover, if_pos hunder]
      exact hstop false
    simp only [if_neg hover, if_neg hunder]
    have hstored : (parseOne data aka encr pos (data.byteAt (pos + 1) * 4 - 2) attr).2.Inside
        data.length := parseOne_inside (by omega) (by omega) h
    generalize parseOne data aka encr pos (data.byteAt (pos + 1) * 4 - 2) attr = stored at hstored ⊢
    rcases stored with ⟨ok, attr'⟩
    cases ok with
    | true => exact ih _ attr' (by omega) hstored
    | false => exact ⟨false, attr', rfl, hstored⟩

/-- The parser ends for every octet string, and every pointer it leaves lies inside. -/
theorem eapSimParseAttr_inside (data : Bytes) (aka : ℕ) (encr : Bool) :
    ∃ ok attr, eapSimParseAttr data aka encr = some (ok, attr) ∧ attr.Inside data.length :=
  parseLoop_inside _ 0 {} (by omega) (SimAttrs.inside_empty _)

end Bounds
end Wpa.Sim
