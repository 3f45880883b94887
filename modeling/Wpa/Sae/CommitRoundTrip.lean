import Wpa.Sae.CommitFrame

/-! What a fresh peer reads from a commit message, against what was written into it. -/

namespace Wpa.Sae
open Lib Bytes
variable {E : Type}

/-- The octets of the element pass the checks of the parser. -/
structure ValidElement (g : Group E) (element : E) : Prop where
  encodes : ∃ b, g.toBin element = some b ∧ b.length = g.elementLen ∧ g.fromBin b = some element ∧
    (if g.ffc then 1 < beNat b ∧ beNat b < g.prime - 1 ∧ beNat b ^ g.order % g.prime = 1
    else beNat (b.take g.primeLen) < g.prime ∧ beNat (b.drop g.primeLen) < g.prime ∧
      g.isOnCurve element = true)

/-- What goes into a commit message. -/
structure Commit (g : Group E) where
  group : ℕ
  scalar : ℕ
  element : E
  h2e : Bool
  token : Option Bytes
  identifier : Option Bytes
  rejectedGroups : Option Bytes
  akmp : ℕ
  group_lt : group < 65536
  one_lt_scalar : 1 < scalar
  scalar_lt : scalar < g.order
  element_valid : ValidElement g element
  token_length : ∀ t ∈ token, t.length = sha256MacLen
  identifier_length : ∀ i ∈ identifier, i.length ≤ 253
  identifier_h2e : identifier.isSome → h2e = true
  rejectedGroups_h2e : rejectedGroups.isSome → h2e = true
  akmp_sae : akmp = keyMgmtSae ∨ akmp = keyMgmtFtSae ∨ akmp = keyMgmtSaeExtKey

namespace Commit
variable {g : Group E} (c : Commit g)

def sender : Data E :=
  { group := c.group
    h2e := c.h2e
    akmp := c.akmp
    tmp := some
      { group := some g
        ownCommitScalar := some c.scalar
        ownCommitElement := some c.element
        ownRejectedGroups := c.rejectedGroups } }

/-- The instance right after `sae_set_group`. -/
def freshPeer : Data E := { group := c.group, tmp := some { group := some g } }

def extKey : Bool := wpaKeyMgmtSaeExtKey c.akmp

/-- The selector that the message carries, zero if none. -/
def selector : ℕ := if c.extKey then wpaAkmToSuite c.akmp else 0

/-- The peer accepted the message and has all that was written. -/
def Received (r : Cursor E × Status) : Prop :=
  r.2 = .success ∧ r.1.sae.peerCommitScalar = some c.scalar ∧
    r.1.sae.tmp.bind Tmp.peerCommitElement = some c.element ∧ r.1.token = c.token ∧
    r.1.sae.pwId = c.identifier ∧ r.1.sae.tmp.bind Tmp.peerRejectedGroups = c.rejectedGroups ∧
    r.1.sae.peerAkmSuiteSelector = c.selector

end Commit

section Octets

theorem putLe16_append_le16 {n : ℕ} (h : n < 65536) (rest : Bytes) :
    le16 (putLe16 n ++ rest) 0 = n := by
  simp only [putLe16, ofBeNat, le16, byteAt]
  simp
  omega

theorem extElement_length (id : UInt8) (d : Bytes) : (extElement id d).length = d.length + 3 := by
  simp [extElement]

theorem byteAt_extElement (id : UInt8) (d rest : Bytes) :
    byteAt (extElement id d ++ rest) 0 = 255 ∧
    byteAt (extElement id d ++ rest) 1 = (1 + d.length) % 256 ∧
    byteAt (extElement id d ++ rest) 2 = id.toNat := by
  simp [extElement, byteAt]

theorem isExtElement_extElement {id id' : UInt8} {d : Bytes} (hd : d.length ≤ 254) {minLen : ℕ}
    (rest : Bytes) :
    isExtElement id' minLen (extElement id d ++ rest) =
      (decide (minLen ≤ 1 + d.length) && id == id') := by
  obtain ⟨h0, h1, h2⟩ := byteAt_extElement id d rest
  have hlen : (1 + d.length) % 256 = 1 + d.length := by omega
  unfold isExtElement
  rw [h0, h1, h2, hlen, List.length_append, extElement_length]
  have hid : (id.toNat == id'.toNat) = (id == id') := by
    rw [Bool.eq_iff_iff, beq_iff_eq, beq_iff_eq]
    exact UInt8.toNat_inj
  rw [hid]
  have hfit : 3 ≤ d.length + 3 + rest.length ∧ 1 + d.length + 2 ≤ d.length + 3 + rest.length := by
    omega
  simp [hfit.1, hfit.2]

@[simp] theorem isExtElement_nil (id : UInt8) (minLen : ℕ) : isExtElement id minLen [] = false := rfl

theorem elementData_extElement {id : UInt8} {d : Bytes} (hd : d.length ≤ 254) (rest : Bytes) :
    elementData (extElement id d ++ rest) = d := by
  obtain ⟨-, h1, -⟩ := byteAt_extElement id d rest
  unfold elementData
  rw [h1, show (1 + d.length) % 256 - 1 = d.length by omega]
  simp [extElement, slice]

theorem elementRest_extElement {id : UInt8} {d : Bytes} (hd : d.length ≤ 254) (rest : Bytes) :
    elementRest (extElement id d ++ rest) = rest := by
  obtain ⟨-, h1, -⟩ := byteAt_extElement id d rest
  unfold elementRest
  rw [h1, show 2 + (1 + d.length) % 256 = (extElement id d).length by
    rw [extElement_length]; omega]
  exact List.drop_left

end Octets
section Frame

/-- Without H2E no suite selector is read. -/
theorem saeParseCommitBody_selector [DecidableEq E] {args : ParseArgs} (h : args.h2e = false)
    (g : Group E) (c : Cursor E) :
    (saeParseCommitBody args g c).1.sae.peerAkmSuiteSelector = c.sae.peerAkmSuiteSelector := by
  refine saeParseCommitBody_invariant
    (P := fun c' => c'.sae.peerAkmSuiteSelector = c.sae.peerAkmSuiteSelector)
    ?_ ?_ ?_ ?_ ?_ ?_ ?_ ?_ c rfl
  · intro c' hc
    simp only [saeParseCommitToken, Bool.false_eq_true, if_false]
    split <;> exact hc
  · intro c' hc
    unfold saeParseCommitScalar
    simp only
    split_ifs <;> exact hc
  · intro c' hc
    unfold saeParseCommitElement saeParseCommitElementFfc saeParseCommitElementEcc
    simp only
    split_ifs <;> exact hc
  · intro c' hc
    unfold saeParsePasswordIdentifier
    simp only
    split_ifs <;> exact hc
  · exact fun h' => absurd (h.symm.trans h') (by decide)
  · intro c' hc
    unfold saeParseTokenContainer
    split <;> exact hc
  · exact fun h' => absurd (h.symm.trans h') (by decide)
  · intro c' hc
    unfold saeFinishCommit
    simp only
    split_ifs <;> exact hc

/-- A list of rejected groups that was read has at least one octet and fits its length octet. -/
def RejectedFits (c : Cursor E) : Prop :=
  ∀ l, c.sae.tmp.bind Tmp.peerRejectedGroups = some l → 1 ≤ l.length ∧ l.length ≤ 254

theorem RejectedFits.modifyTmp {c : Cursor E} (hc : RejectedFits c) {c' : Cursor E}
    {f : Tmp E → Tmp E} (hsae : c'.sae = c.sae.modifyTmp f)
    (hf : ∀ tmp, (f tmp).peerRejectedGroups = tmp.peerRejectedGroups) : RejectedFits c' := by
  intro l hl
  refine hc l ?_
  rw [hsae, modifyTmp_tmp] at hl
  cases htmp : c.sae.tmp with
  | none =>
    rw [htmp] at hl
    cases hl
  | some tmp =>
    rw [htmp, Option.map_some, Option.bind_some, hf] at hl
    exact hl

theorem saeParseCommitBody_rejected [DecidableEq E] (args : ParseArgs) (g : Group E) (c : Cursor E)
    (hc : RejectedFits c) : RejectedFits (saeParseCommitBody args g c).1 := by
  refine saeParseCommitBody_invariant ?_ ?_ ?_ ?_ ?_ ?_ ?_ ?_ c hc
  · intro c hc
    simp only [saeParseCommitToken, Bool.false_eq_true, if_false]
    split <;> exact hc
  · intro c hc
    unfold saeParseCommitScalar
    simp only
    split_ifs <;> exact hc
  · intro c hc
    unfold saeParseCommitElement saeParseCommitElementFfc saeParseCommitElementEcc
    simp only
    split_ifs <;> first | exact hc | exact hc.modifyTmp rfl fun _ => rfl
  · intro c hc
    unfold saeParsePasswordIdentifier
    simp only
    split_ifs <;> first | exact hc | exact hc.modifyTmp rfl fun _ => rfl
  · intro _ c hc
    unfold saeParseRejectedGroups
    split
    · exact hc
    · rename_i helem
      split
      · intro l hl
        cases htmp : c.sae.tmp <;> simp [htmp] at hl
      · intro l hl
        cases htmp : c.sae.tmp with
        | none => simp [htmp] at hl
        | some tmp =>
          obtain rfl : elementData c.pos = l := by simpa [htmp] using hl
          rw [Bool.not_eq_true', Bool.not_eq_false] at helem
          simp only [saeIsRejectedGroupsElem, isExtElement, Bool.and_eq_true, decide_eq_true_eq]
            at helem
          have hlt := c.pos.byteAt_lt 1
          simp only [elementData, slice_length]
          omega
  · intro c hc
    unfold saeParseTokenContainer
    split <;> exact hc
  · intro _ c hc
    unfold saeParseAkmSuiteSelector
    split <;> exact hc
  · intro c hc
    unfold saeFinishCommit
    simp only
    split_ifs <;> exact hc

end Frame

section Read

theorem saeParseCommitScalar_read {g : Group E} {c : Cursor E} {scalar : ℕ} {rest : Bytes}
    (hstate : c.sae.state ≠ .accepted) (h1 : 1 < scalar) (hlt : scalar < g.order)
    (hpos : c.pos = ofBeNat scalar g.primeLen ++ rest) :
    saeParseCommitScalar g true c =
      ({ c with sae := { c.sae with peerCommitScalar := some scalar }, pos := rest },
        .success) := by
  have hfits : scalar < 256 ^ g.primeLen := hlt.trans_le g.order_le
  have htake : c.pos.take g.primeLen = ofBeNat scalar g.primeLen := by
    rw [hpos, List.take_left' (ofBeNat_length _ _)]
  have hdrop : c.pos.drop g.primeLen = rest := by
    rw [hpos, List.drop_left' (ofBeNat_length _ _)]
  have hlen : ¬c.pos.length < g.primeLen := by
    rw [hpos, List.length_append, ofBeNat_length]
    omega
  have hrange : ¬(scalar = 0 ∨ scalar = 1 ∨ g.order ≤ scalar) := by omega
  simp only [saeParseCommitScalar, htake, hdrop, beNat_ofBeNat hfits, hlen, hstate, hrange,
    false_and, Bool.not_true, Bool.false_eq_true, or_self, if_false]

theorem saeParseCommitElement_read {g : Group E} {c : Cursor E} {element : E} {b rest : Bytes}
    (hlen : b.length = g.elementLen) (hfrom : g.fromBin b = some element)
    (hvalid : if g.ffc then 1 < beNat b ∧ beNat b < g.prime - 1 ∧ beNat b ^ g.order % g.prime = 1
      else beNat (b.take g.primeLen) < g.prime ∧ beNat (b.drop g.primeLen) < g.prime ∧
        g.isOnCurve element = true)
    (hpos : c.pos = b ++ rest) :
    saeParseCommitElement g c =
      ({ c with
          sae := c.sae.modifyTmp fun tmp => { tmp with peerCommitElement := some element }
          pos := rest }, .success) := by
  have htake : c.pos.take g.elementLen = b := by rw [hpos, List.take_left' hlen]
  have hdrop : c.pos.drop g.elementLen = rest := by rw [hpos, List.drop_left' hlen]
  have hroom : ¬c.pos.length < g.elementLen := by
    rw [hpos, List.length_append]
    omega
  unfold saeParseCommitElement
  cases hffc : g.ffc with
  | true =>
    simp only [Group.elementLen, hffc, if_true] at htake hdrop hroom hvalid
    simp only [saeParseCommitElementFfc, htake, hdrop, hroom, hfrom, hvalid, if_true, if_false,
      Option.isSome_some, Bool.true_and, decide_true, and_self]
  | false =>
    simp only [Group.elementLen, hffc, Bool.false_eq_true, if_false] at htake hdrop hroom hvalid hlen
    have hx : c.pos.take g.primeLen = b.take g.primeLen := by
      rw [hpos, List.take_append_of_le_length (by omega)]
    have hy : slice c.pos g.primeLen g.primeLen = b.drop g.primeLen := by
      rw [hpos, slice, List.drop_append_of_le_length (by omega),
        List.take_left' (by rw [List.length_drop]; omega)]
    have hprime := beNat_ofBeNat g.prime_lt
    have hxlt : memcmp (b.take g.primeLen) (ofBeNat g.prime g.primeLen) < 0 := by
      rw [memcmp_neg_iff (by rw [List.length_take, ofBeNat_length]; omega), hprime]
      exact hvalid.1
    have hylt : memcmp (b.drop g.primeLen) (ofBeNat g.prime g.primeLen) < 0 := by
      rw [memcmp_neg_iff (by rw [List.length_drop, ofBeNat_length]; omega), hprime]
      exact hvalid.2.1
    simp only [saeParseCommitElementEcc, htake, hdrop, hroom, hfrom, hx, hy, not_le.mpr hxlt,
      not_le.mpr hylt, or_self, if_false, Option.any_some, hvalid.2.2, if_true, Bool.false_eq_true]

/-- An element with another extension ID, or none, is not taken for one. -/
def NotAt (id : UInt8) (b : Bytes) : Prop := ∀ minLen, isExtElement id minLen b = false

theorem notAt_nil (id : UInt8) : NotAt id [] := fun _ => rfl

theorem notAt_extElement {id id' : UInt8} (hne : id ≠ id') {d : Bytes} (hd : d.length ≤ 254)
    (rest : Bytes) : NotAt id' (extElement id d ++ rest) := by
  intro minLen
  rw [isExtElement_extElement hd]
  simp [hne]

theorem saeParsePasswordIdentifier_read {c : Cursor E} (hnone : c.sae.pwId = none)
    {identifier : Option Bytes} (hlen : ∀ i ∈ identifier, i.length ≤ 253) {rest : Bytes}
    (hpos : c.pos = identifier.elim [] (extElement extPasswordIdentifier) ++ rest)
    (hrest : NotAt extPasswordIdentifier rest) {tmp : Tmp E} (htmp : c.sae.tmp = some tmp) :
    saeParsePasswordIdentifier true c =
      ({ c with
          sae := { c.sae with tmp := some { tmp with pwId := identifier } }
          pos := rest }, .success) := by
  unfold saeParsePasswordIdentifier
  cases identifier with
  | none =>
    have hat : saeIsPasswordIdElem c.pos = false := by
      rw [hpos]
      exact hrest 1
    have hpw : tmp.pwId = none := by simpa [Data.pwId, htmp] using hnone
    have hsame : ({ tmp with pwId := none } : Tmp E) = tmp := by rw [← hpw]
    have hposr : c.pos = rest := hpos
    simp only [hat, Bool.not_false, if_true, hnone, Option.isSome_none, Bool.false_eq_true, if_false,
      hsame, ← htmp, ← hposr]
  | some i =>
    have hi : i.length ≤ 254 := (hlen i rfl).trans (by omega)
    have hpos' : c.pos = extElement extPasswordIdentifier i ++ rest := hpos
    have hat : saeIsPasswordIdElem c.pos = true := by
      rw [hpos', saeIsPasswordIdElem, isExtElement_extElement hi]
      simp
    have hdata : elementData c.pos = i := by rw [hpos', elementData_extElement hi]
    have hnext : elementRest c.pos = rest := by rw [hpos', elementRest_extElement hi]
    simp only [hat, hnone, hdata, hnext, Bool.not_true, Bool.false_eq_true, if_false,
      Option.any_none, Data.modifyTmp, htmp, Option.map_some]

theorem saeParseRejectedGroups_read {c : Cursor E} {rejected : Option Bytes} {rest : Bytes}
    (hlen : ∀ l ∈ rejected, 1 ≤ l.length ∧ l.length ≤ 254)
    (hpos : c.pos = rejected.elim [] (extElement extRejectedGroups) ++ rest)
    (hrest : NotAt extRejectedGroups rest) {tmp : Tmp E} (htmp : c.sae.tmp = some tmp)
    (hnone : tmp.peerRejectedGroups = none) :
    saeParseRejectedGroups true c =
      ({ c with
          sae := { c.sae with tmp := some { tmp with peerRejectedGroups := rejected } }
          pos := rest }, .success) := by
  unfold saeParseRejectedGroups
  cases rejected with
  | none =>
    have hat : saeIsRejectedGroupsElem c.pos = false := by
      rw [hpos]
      exact hrest 2
    have hsame : ({ tmp with peerRejectedGroups := none } : Tmp E) = tmp := by rw [← hnone]
    have hposr : c.pos = rest := hpos
    simp only [hat, Bool.not_false, if_true, hsame, ← htmp, ← hposr]
  | some l =>
    obtain ⟨hmin, hmax⟩ := hlen l rfl
    have hpos' : c.pos = extElement extRejectedGroups l ++ rest := hpos
    have hat : saeIsRejectedGroupsElem c.pos = true := by
      rw [hpos', saeIsRejectedGroupsElem, isExtElement_extElement hmax]
      simp
      omega
    have hdata : elementData c.pos = l := by rw [hpos', elementData_extElement hmax]
    have hnext : elementRest c.pos = rest := by rw [hpos', elementRest_extElement hmax]
    simp only [hat, hdata, hnext, Bool.not_true, Bool.false_eq_true, if_false, Data.modifyTmp,
      htmp, Option.map_some]

theorem saeParseTokenContainer_read {c : Cursor E} {token : Option Bytes} {rest : Bytes}
    (hlen : ∀ t ∈ token, t.length = sha256MacLen) (hnone : c.token = none)
    (hpos : c.pos = token.elim [] (extElement extAntiCloggingToken) ++ rest)
    (hrest : NotAt extAntiCloggingToken rest) :
    saeParseTokenContainer c = { c with token := token } := by
  unfold saeParseTokenContainer
  cases token with
  | none =>
    have hat : saeIsTokenContainerElem c.pos = false := by
      rw [hpos]
      exact hrest 1
    rw [hat, if_neg Bool.false_ne_true, ← hnone]
  | some t =>
    have ht : t.length ≤ 254 := by
      rw [hlen t rfl]
      decide
    have hpos' : c.pos = extElement extAntiCloggingToken t ++ rest := hpos
    have hat : saeIsTokenContainerElem c.pos = true := by
      rw [hpos', saeIsTokenContainerElem, isExtElement_extElement ht]
      simp
    rw [hat, if_pos rfl, hpos', elementData_extElement ht]

/-- The suite selector is read only where no container stands in front of it. -/
theorem saeParseAkmSuiteSelector_read {c : Cursor E} {suite : ℕ} (hsuite : suite < 2 ^ 32)
    (hpos : c.pos = extElement extAkmSuiteSelector (ofBeNat suite rsnSelectorLen)) :
    saeParseAkmSuiteSelector c =
      ({ c with sae := { c.sae with peerAkmSuiteSelector := suite }, pos := [] }, .success) := by
  have hlen : (ofBeNat suite rsnSelectorLen).length ≤ 254 := by
    rw [ofBeNat_length]
    decide
  have hpos' : c.pos = extElement extAkmSuiteSelector (ofBeNat suite rsnSelectorLen) ++ [] := by
    rw [hpos, List.append_nil]
  have hat : saeIsAkmSuiteSelectorElem c.pos = true := by
    rw [saeIsAkmSuiteSelectorElem, hpos', isExtElement_extElement hlen]
    simp [extElement_length, rsnSelectorLen]
  have hdata : slice c.pos 3 rsnSelectorLen = ofBeNat suite rsnSelectorLen := by
    rw [hpos]
    simp [extElement, slice]
  have hnext : elementRest c.pos = [] := by rw [hpos', elementRest_extElement hlen]
  have hfits : suite < 256 ^ rsnSelectorLen := by
    simpa [rsnSelectorLen] using hsuite
  simp only [saeParseAkmSuiteSelector, hat, hdata, hnext, beNat_ofBeNat hfits, Bool.not_true,
    Bool.false_eq_true, if_false]

theorem saeParseAkmSuiteSelector_skip {c : Cursor E} (h : NotAt extAkmSuiteSelector c.pos) :
    saeParseAkmSuiteSelector c = (c, .success) := by
  have hat : saeIsAkmSuiteSelectorElem c.pos = false := by
    rw [saeIsAkmSuiteSelectorElem, h, Bool.and_false]
  simp [saeParseAkmSuiteSelector, hat]

/-- An instance that has sent nothing has nothing to compare with. -/
theorem saeFinishCommit_fresh [DecidableEq E] {c : Cursor E}
    (hselector : c.sae.ownAkmSuiteSelector = 0)
    (hscalar : c.sae.tmp.bind Tmp.ownCommitScalar = none) :
    (saeFinishCommit c).2 = .success ∧ (saeFinishCommit c).1.token = c.token ∧
      (saeFinishCommit c).1.sae.tmp = c.sae.tmp ∧
      (saeFinishCommit c).1.sae.peerCommitScalar = c.sae.peerCommitScalar ∧
      (saeFinishCommit c).1.sae.peerAkmSuiteSelector = c.sae.peerAkmSuiteSelector := by
  simp [saeFinishCommit, hselector, hscalar]

end Read

namespace Commit
variable {g : Group E} (c : Commit g)

/-- What stands behind the commit element. -/
def selectorElement : Bytes :=
  if c.extKey then extElement extAkmSuiteSelector (ofBeNat (wpaAkmToSuite c.akmp) rsnSelectorLen)
  else []

def tokenElement : Bytes := c.token.elim [] (extElement extAntiCloggingToken)
def rejectedElement : Bytes := c.rejectedGroups.elim [] (extElement extRejectedGroups)
def identifierElement : Bytes := c.identifier.elim [] (extElement extPasswordIdentifier)

theorem write_eq {b : Bytes} (hb : g.toBin c.element = some b) :
    ∃ sae', saeWriteCommit c.token c.identifier c.sender =
      some (putLe16 c.group ++ ((if c.h2e then [] else c.token.getD []) ++
        (ofBeNat c.scalar g.primeLen ++ (b ++ (c.identifierElement ++
          ((if c.h2e then c.rejectedElement else []) ++ ((if c.h2e then c.tokenElement else []) ++
            c.selectorElement)))))), sae') := by
  have hfits : c.scalar < 256 ^ g.primeLen := c.scalar_lt.trans_le g.order_le
  refine ⟨if wpaKeyMgmtSaeExtKey c.akmp then
    { c.sender with ownAkmSuiteSelector := wpaAkmToSuite c.akmp } else c.sender, ?_⟩
  simp only [saeWriteCommit, sender, Option.bind_eq_bind, Option.bind_some, bignumToBin, hfits,
    if_true, hb, commitElements, List.append_assoc]
  rfl

/-- What the peer parses the message with. -/
def parseArgs (allowedGroups : Option (List ℕ)) : ParseArgs := { allowedGroups, h2e := c.h2e }

/-- The peer supports the group: an FFC group has to be enabled explicitly. -/
structure Supported (allowedGroups : Option (List ℕ)) : Prop where
  listed : ∀ l ∈ allowedGroups, c.group ∈ l
  explicit : g.ffc = true → allowedGroups.isSome = true

theorem saeParseCommit_freshPeer [DecidableEq E] (lib : ℕ → Option (Group E))
    {groups : Option (List ℕ)} (hgroups : c.Supported groups) (rest : Bytes) :
    saeParseCommit lib (c.parseArgs groups) (putLe16 c.group ++ rest) c.freshPeer =
      saeParseCommitBody (c.parseArgs groups) g { sae := c.freshPeer, pos := rest } := by
  have hlen : (putLe16 c.group).length = 2 := rfl
  have hle := putLe16_append_le16 c.group_lt rest
  have hlisted : (groups.any fun l => !l.contains c.group && c.group != 0) = false := by
    cases h : groups with
    | none => rfl
    | some l =>
      have hmem : l.contains c.group = true := List.contains_iff_mem.mpr (hgroups.listed l h)
      rw [Option.any_some, hmem]
      rfl
  have hffc : (g.ffc && groups.isNone) = false := by
    cases hg : g.ffc with
    | false => rfl
    | true => simpa using hgroups.explicit hg
  have hgroup : saeGroupAllowed lib groups c.group c.freshPeer = (c.freshPeer, .success) := by
    simp only [saeGroupAllowed, hlisted, freshPeer, Option.any_some, hffc, Bool.false_eq_true,
      if_false, ne_eq, not_true_eq_false, and_false, Bool.not_true]
  have hshort : ¬(putLe16 c.group ++ rest).length < 2 := by
    rw [List.length_append, hlen]
    omega
  have hdrop : (putLe16 c.group ++ rest).drop 2 = rest := List.drop_left' hlen
  have hgroup' : saeGroupAllowed lib (c.parseArgs groups).allowedGroups c.group c.freshPeer =
      (c.freshPeer, .success) := hgroup
  simp only [saeParseCommit, hshort, if_false, hle, hgroup', hdrop, andThen, if_true]
  rfl

/-- The instance of the peer when all but the suite selector is read. -/
def peerData : Data E :=
  { group := c.group
    peerCommitScalar := some c.scalar
    tmp := some
      { group := some g
        peerCommitElement := some c.element
        pwId := c.identifier
        peerRejectedGroups := c.rejectedGroups } }

theorem selector_ne_zero (hext : c.extKey = true) : c.selector ≠ 0 := by
  have hakmp : c.akmp = keyMgmtSaeExtKey := by
    rcases c.akmp_sae with h | h | h
    · rw [extKey, h] at hext
      exact absurd hext (by decide)
    · rw [extKey, h] at hext
      exact absurd hext (by decide)
    · exact h
  rw [selector, if_pos hext, hakmp]
  decide

theorem selector_eq_zero_iff : c.selector = 0 ↔ c.extKey = false := by
  constructor
  · intro h
    exact Bool.eq_false_iff.mpr fun hext => c.selector_ne_zero hext h
  · intro h
    simp [selector, h]

theorem selector_lt : c.selector < 2 ^ 32 := by
  rcases c.akmp_sae with h | h | h <;> rw [selector, extKey, h] <;> decide

theorem received_finish [DecidableEq E] (suite : ℕ) {r : Cursor E}
    (hsae : r.sae = { c.peerData with peerAkmSuiteSelector := suite }) (htoken : r.token = c.token) :
    c.Received (saeFinishCommit r) ↔ suite = c.selector := by
  have hown : r.sae.ownAkmSuiteSelector = 0 := by rw [hsae]; rfl
  have hscalar : r.sae.tmp.bind Tmp.ownCommitScalar = none := by rw [hsae]; rfl
  obtain ⟨hstatus, htok, htmp, hpeer, hsuite⟩ := saeFinishCommit_fresh hown hscalar
  unfold Received
  rw [Data.pwId, hstatus, htok, htmp, hpeer, hsuite, htoken, hsae]
  simp [peerData]

theorem selectorElement_notAt {id : UInt8} (hne : extAkmSuiteSelector ≠ id) :
    NotAt id c.selectorElement := by
  unfold selectorElement
  split
  · rw [← List.append_nil (extElement _ _)]
    refine notAt_extElement hne ?_ []
    rw [ofBeNat_length]
    decide
  · exact notAt_nil id

theorem tokenElement_notAt {id : UInt8} (hne : extAntiCloggingToken ≠ id) {rest : Bytes}
    (hrest : NotAt id rest) : NotAt id (c.tokenElement ++ rest) := by
  unfold tokenElement
  cases h : c.token with
  | none => exact hrest
  | some t =>
    refine notAt_extElement hne ?_ rest
    rw [c.token_length t h]
    decide

theorem rejectedElement_notAt {id : UInt8} (hne : extRejectedGroups ≠ id)
    (hfits : ∀ l ∈ c.rejectedGroups, l.length ≤ 254) {rest : Bytes} (hrest : NotAt id rest) :
    NotAt id (c.rejectedElement ++ rest) := by
  unfold rejectedElement
  cases h : c.rejectedGroups with
  | none => exact hrest
  | some l => exact notAt_extElement hne (hfits l h) rest

section Chain

/-- The parts that are read with and without H2E. -/
theorem parse_identifier (token : Option Bytes) {rest b : Bytes}
    (hb : g.toBin c.element = some b) (hrest : NotAt extPasswordIdentifier rest) :
    andThen (andThen (saeParseCommitScalar g true
      { sae := c.freshPeer
        pos := ofBeNat c.scalar g.primeLen ++ (b ++ (c.identifierElement ++ rest))
        token := token }) (saeParseCommitElement g)) (saeParsePasswordIdentifier true) =
      ({ sae := c.peerData.modifyTmp fun tmp => { tmp with peerRejectedGroups := none }
         pos := rest
         token := token }, .success) := by
  obtain ⟨b', hb', hlen, hfrom, hvalid⟩ := c.element_valid.encodes
  obtain rfl : b' = b := Option.some.inj (hb'.symm.trans hb)
  have hstate : c.freshPeer.state ≠ .accepted := State.noConfusion
  rw [saeParseCommitScalar_read hstate c.one_lt_scalar c.scalar_lt rfl, andThen_success,
    saeParseCommitElement_read hlen hfrom hvalid rfl, andThen_success,
    saeParsePasswordIdentifier_read rfl c.identifier_length rfl hrest rfl]
  rfl

variable [DecidableEq E]

theorem parse_h2e (hh2e : c.h2e = true) (groups : Option (List ℕ))
    (hfits : ∀ l ∈ c.rejectedGroups, 1 ≤ l.length ∧ l.length ≤ 254) {b : Bytes}
    (hb : g.toBin c.element = some b) :
    saeParseCommitBody (c.parseArgs groups) g
      { sae := c.freshPeer
        pos := ofBeNat c.scalar g.primeLen ++ (b ++ (c.identifierElement ++ (c.rejectedElement ++
          (c.tokenElement ++ c.selectorElement)))) } =
      andThen (saeParseAkmSuiteSelector
        { sae := c.peerData, pos := c.tokenElement ++ c.selectorElement, token := c.token })
        saeFinishCommit := by
  have hrejected : NotAt extPasswordIdentifier
      (c.rejectedElement ++ (c.tokenElement ++ c.selectorElement)) :=
    c.rejectedElement_notAt (by decide) (fun l hl => (hfits l hl).2)
      (c.tokenElement_notAt (by decide) (c.selectorElement_notAt (by decide)))
  have htoken : NotAt extRejectedGroups (c.tokenElement ++ c.selectorElement) :=
    c.tokenElement_notAt (by decide) (c.selectorElement_notAt (by decide))
  have hselector : NotAt extAntiCloggingToken c.selectorElement :=
    c.selectorElement_notAt (by decide)
  have hid := c.parse_identifier none hb hrejected
  rw [saeParseCommitBody_of_h2e g _ hh2e]
  simp only [parseArgs]
  rw [hid, andThen_success, saeParseRejectedGroups_read hfits rfl htoken rfl rfl, andThen_success,
    andThen_success, saeParseTokenContainer_read c.token_length rfl rfl hselector]
  rfl

theorem parse_not_h2e (hh2e : c.h2e = false) (hext : c.extKey = false)
    (groups : Option (List ℕ)) {b : Bytes} (hb : g.toBin c.element = some b) :
    saeParseCommitBody (c.parseArgs groups) g
      { sae := c.freshPeer
        pos := c.token.getD [] ++ (ofBeNat c.scalar g.primeLen ++ (b ++ (c.identifierElement ++
          c.selectorElement))) } =
      saeFinishCommit { sae := c.peerData, pos := [], token := c.token } := by
  have hidentifier : c.identifier = none :=
    Option.not_isSome_iff_eq_none.mp fun h => by simp [c.identifier_h2e h] at hh2e
  have hrejected : c.rejectedGroups = none :=
    Option.not_isSome_iff_eq_none.mp fun h => by simp [c.rejectedGroups_h2e h] at hh2e
  have hselector : c.selectorElement = [] := by simp [selectorElement, hext]
  have hlen : b.length = g.elementLen := by
    obtain ⟨b', hb', hlen, -⟩ := c.element_valid.encodes
    obtain rfl : b' = b := Option.some.inj (hb'.symm.trans hb)
    exact hlen
  have htoken : saeParseCommitToken g false
      { sae := c.freshPeer
        pos := c.token.getD [] ++ (ofBeNat c.scalar g.primeLen ++ (b ++ (c.identifierElement ++
          c.selectorElement))) } =
      { sae := c.freshPeer
        pos := ofBeNat c.scalar g.primeLen ++ (b ++ (c.identifierElement ++ []))
        token := c.token } := by
    have hbody : (ofBeNat c.scalar g.primeLen ++ (b ++ (c.identifierElement ++ []))).length =
        g.primeLen + g.elementLen := by
      simp [identifierElement, hidentifier, hlen, ofBeNat_length]
    rw [hselector]
    cases h : c.token with
    | none =>
      simp only [saeParseCommitToken, Option.getD_none, List.nil_append, hbody, le_refl, true_or,
        if_true, Bool.false_eq_true, if_false]
    | some t =>
      have ht := c.token_length t h
      have htlen : (t ++ (ofBeNat c.scalar g.primeLen ++ (b ++ (c.identifierElement ++ [])))).length -
          (g.primeLen + g.elementLen) = t.length := by
        rw [List.length_append, hbody]
        omega
      have hlong : ¬((t ++ (ofBeNat c.scalar g.primeLen ++
          (b ++ (c.identifierElement ++ [])))).length ≤ g.primeLen + g.elementLen ∨
          t.length < sha256MacLen) := by
        rw [List.length_append, hbody, ht]
        simp [sha256MacLen]
      simp only [saeParseCommitToken, Bool.false_eq_true, if_false, Option.getD_some, htlen, hlong,
        List.take_left, List.drop_left]
  have hid := c.parse_identifier c.token hb (notAt_nil _)
  rw [saeParseCommitBody_of_not_h2e g _ hh2e, htoken]
  simp only [parseArgs]
  rw [hid, andThen_success]
  simp only [peerData, Data.modifyTmp, hrejected, Option.map_some]

/-- The suite selector that is read behind the token container. -/
theorem received_h2e (groups : Option (List ℕ)) (hh2e : c.h2e = true)
    (hfits : ∀ l ∈ c.rejectedGroups, 1 ≤ l.length ∧ l.length ≤ 254) {b : Bytes}
    (hb : g.toBin c.element = some b) :
    c.Received (saeParseCommitBody (c.parseArgs groups) g
      { sae := c.freshPeer
        pos := ofBeNat c.scalar g.primeLen ++ (b ++ (c.identifierElement ++ (c.rejectedElement ++
          (c.tokenElement ++ c.selectorElement)))) }) ↔
      (c.extKey = false ∨ c.token = none) := by
  rw [c.parse_h2e hh2e groups hfits hb]
  by_cases hread : c.extKey = true ∧ c.token = none
  · obtain ⟨hext, htoken⟩ := hread
    have hselector : c.selectorElement =
        extElement extAkmSuiteSelector (ofBeNat c.selector rsnSelectorLen) := by
      simp [selectorElement, selector, hext]
    rw [saeParseAkmSuiteSelector_read c.selector_lt
      (by rw [tokenElement, htoken, hselector]; rfl), andThen_success, c.received_finish c.selector rfl rfl]
    simp [htoken]
  · have hskip : NotAt extAkmSuiteSelector (c.tokenElement ++ c.selectorElement) := by
      cases htoken : c.token with
      | none =>
        have hext : c.extKey = false := Bool.eq_false_iff.mpr fun hext => hread ⟨hext, htoken⟩
        rw [tokenElement, htoken, selectorElement, hext]
        exact notAt_nil _
      | some t =>
        rw [tokenElement, htoken]
        refine notAt_extElement (by decide) ?_ _
        rw [c.token_length t htoken]
        decide
    rw [saeParseAkmSuiteSelector_skip hskip, andThen_success, c.received_finish 0 rfl rfl, eq_comm,
      c.selector_eq_zero_iff]
    constructor
    · exact Or.inl
    · rintro (hext | htoken)
      · exact hext
      · exact Bool.eq_false_iff.mpr fun hext => hread ⟨hext, htoken⟩

/-- Without H2E the suite selector is written and never read. -/
theorem received_not_h2e (groups : Option (List ℕ)) (hh2e : c.h2e = false) {b : Bytes}
    (hb : g.toBin c.element = some b) :
    c.Received (saeParseCommitBody (c.parseArgs groups) g
      { sae := c.freshPeer
        pos := c.token.getD [] ++ (ofBeNat c.scalar g.primeLen ++ (b ++ (c.identifierElement ++
          c.selectorElement))) }) ↔ c.extKey = false := by
  constructor
  · intro hreceived
    have hsuite := hreceived.2.2.2.2.2.2
    rw [saeParseCommitBody_selector hh2e] at hsuite
    exact c.selector_eq_zero_iff.mp hsuite.symm
  · intro hext
    rw [c.parse_not_h2e hh2e hext groups hb, c.received_finish 0 rfl rfl]
    exact (c.selector_eq_zero_iff.mpr hext).symm

/-- A fresh peer of the same group gets what was written if and only if the list of rejected groups
is of 1 to 254 octets, and a suite selector, if there is one, stands in a message with H2E and
without a token container. -/
theorem commit_received_iff (lib : ℕ → Option (Group E)) {groups : Option (List ℕ)}
    (hgroups : c.Supported groups) :
    ∃ body sae', saeWriteCommit c.token c.identifier c.sender = some (body, sae') ∧
      (c.Received (saeParseCommit lib (c.parseArgs groups) body c.freshPeer) ↔
        (c.extKey = true → c.h2e = true ∧ c.token = none) ∧
          ∀ l ∈ c.rejectedGroups, 1 ≤ l.length ∧ l.length ≤ 254) := by
  obtain ⟨b, hb, -⟩ := c.element_valid.encodes
  obtain ⟨sae', hwrite⟩ := c.write_eq hb
  refine ⟨_, sae', hwrite, ?_⟩
  rw [c.saeParseCommit_freshPeer lib hgroups]
  cases hh2e : c.h2e with
  | false =>
    have hrejected : c.rejectedGroups = none :=
      Option.not_isSome_iff_eq_none.mp fun h => by simp [c.rejectedGroups_h2e h] at hh2e
    have h := c.received_not_h2e groups hh2e hb
    simp only [Bool.false_eq_true, if_false, List.nil_append]
    rw [h]
    simp [hrejected]
  | true =>
    simp only [if_true, List.nil_append]
    by_cases hfits : ∀ l ∈ c.rejectedGroups, 1 ≤ l.length ∧ l.length ≤ 254
    · rw [c.received_h2e groups hh2e hfits hb, and_iff_left hfits]
      cases c.extKey <;> simp
    · refine iff_of_false (fun hreceived => hfits fun l hl => ?_) fun h => hfits h.2
      have hstart : RejectedFits
          { sae := c.freshPeer
            pos := ofBeNat c.scalar g.primeLen ++ (b ++ (c.identifierElement ++
              (c.rejectedElement ++ (c.tokenElement ++ c.selectorElement)))) } := by
        intro l hl
        cases hl
      exact saeParseCommitBody_rejected (c.parseArgs groups) g _ hstart l
        (hreceived.2.2.2.2.2.1.trans hl)

end Chain
end Commit

section P256

def p256Prime : ℕ := 0xffffffff00000001000000000000000000000000ffffffffffffffffffffffff

/-- Group 19, with the points as pairs of coordinates. -/
def p256 : Group (ℕ × ℕ) where
  ffc := false
  prime := p256Prime
  primeLen := 32
  order := 0xffffffff00000000ffffffffffffffffbce6faada7179e84f3b9cac2fc632551
  orderLen := 32
  toBin point := some (ofBeNat point.1 32 ++ ofBeNat point.2 32)
  xBin point := some (ofBeNat point.1 32)
  fromBin b := if b.length = 64 then some (beNat (b.take 32), beNat (b.drop 32)) else none
  isOnCurve point := point.2 * point.2 % p256Prime ==
    (point.1 * point.1 * point.1 + (p256Prime - 3) * point.1 +
      0x5ac635d8aa3a93e7b3ebbd55769886bc651d06b0cc53b0f63bce3c3e27d2604b) % p256Prime
  prime_lt := by decide
  order_le := by decide

def p256Base : ℕ × ℕ :=
  (0x6b17d1f2e12c4247f8bce6e563a440f277037d812deb33a0f4a13945d898c296,
    0x4fe342e2fe1a7f9b8ee7eb4a7c0f9e162bce33576b315ececbb6406837bf51f5)

theorem p256Base_valid : ValidElement p256 p256Base :=
  ⟨⟨ofBeNat p256Base.1 32 ++ ofBeNat p256Base.2 32, rfl, by decide, by decide,
    by decide⟩⟩

/-- A commit for SAE-EXT-KEY with H2E. -/
def p256Commit (token : Option Bytes) (h : ∀ t ∈ token, t.length = sha256MacLen) : Commit p256 where
  group := 19
  scalar := 2
  element := p256Base
  h2e := true
  token
  identifier := none
  rejectedGroups := none
  akmp := keyMgmtSaeExtKey
  group_lt := by decide
  one_lt_scalar := by decide
  scalar_lt := by decide
  element_valid := p256Base_valid
  token_length := h
  identifier_length := by simp
  identifier_h2e := fun _ => rfl
  rejectedGroups_h2e := fun _ => rfl
  akmp_sae := .inr (.inr rfl)

def p256Plain : Commit p256 := p256Commit none (by simp)

def p256Token : Commit p256 :=
  p256Commit (some (List.replicate 32 0)) (by rintro t ⟨⟩; rfl)

theorem p256Plain_received :
    p256Plain.Supported none ∧
      ∃ body sae', saeWriteCommit p256Plain.token p256Plain.identifier p256Plain.sender =
        some (body, sae') ∧
        p256Plain.Received (saeParseCommit (fun _ => some p256) (p256Plain.parseArgs none) body
          p256Plain.freshPeer) := by
  have hsupported : p256Plain.Supported none := ⟨by simp, by decide⟩
  obtain ⟨body, sae', hwrite, hiff⟩ :=
    p256Plain.commit_received_iff (fun _ => some p256) hsupported
  refine ⟨hsupported, body, sae', hwrite, hiff.mpr ⟨fun _ => ⟨rfl, rfl⟩, ?_⟩⟩
  intro l hl
  cases hl

/-- With a token container in front of it the suite selector is lost. -/
theorem p256Token_not_received :
    p256Token.Supported none ∧
      ∃ body sae', saeWriteCommit p256Token.token p256Token.identifier p256Token.sender =
        some (body, sae') ∧
        ¬p256Token.Received (saeParseCommit (fun _ => some p256) (p256Token.parseArgs none) body
          p256Token.freshPeer) := by
  have hsupported : p256Token.Supported none := ⟨by simp, by decide⟩
  obtain ⟨sae', hwrite⟩ := p256Token.write_eq rfl
  refine ⟨hsupported, _, sae', hwrite, ?_⟩
  rw [p256Token.saeParseCommit_freshPeer _ hsupported]
  have hiff := p256Token.received_h2e none rfl (by rintro l ⟨⟩) rfl
  intro hreceived
  rcases hiff.mp hreceived with hext | htoken
  · exact absurd hext (by decide)
  · exact absurd htoken (by rintro ⟨⟩)

end P256
end Wpa.Sae
