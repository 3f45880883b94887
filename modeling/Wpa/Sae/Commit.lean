import Wpa.Sae.State

/-! The body of a commit message: `sae_write_commit` and `sae_parse_commit` of `common/sae.c`. The
cursor of the parser is the list of octets that are left. -/

namespace Wpa.Sae
open Lib Bytes

inductive Status where
  | success
  | unspecifiedFailure
  | finiteCyclicGroupNotSupported
  | unknownPasswordIdentifier
  | silentlyDiscard
  | antiCloggingTokenReq
  | unknownAuthTransaction
  deriving DecidableEq

def sha256MacLen : ℕ := 32
def rsnSelectorLen : ℕ := 4

/-- `crypto_bignum_to_bin` with padding to `len` octets. -/
def bignumToBin (n len : ℕ) : Option Bytes := if n < 256 ^ len then some (ofBeNat n len) else none

section Write
variable {E : Type}

/-- The elements behind the commit element, in the order in which they are written. -/
def commitElements (sae : Data E) (tmp : Tmp E) (token identifier : Option Bytes) : Bytes :=
  (identifier.elim [] (extElement extPasswordIdentifier)) ++
  (if sae.h2e then tmp.ownRejectedGroups.elim [] (extElement extRejectedGroups) else []) ++
  (if sae.h2e then token.elim [] (extElement extAntiCloggingToken) else []) ++
  (if wpaKeyMgmtSaeExtKey sae.akmp then
    extElement extAkmSuiteSelector (ofBeNat (wpaAkmToSuite sae.akmp) rsnSelectorLen)
  else [])

/-- The body and the instance, which remembers the suite selector it sent. -/
def saeWriteCommit (token identifier : Option Bytes) (sae : Data E) : Option (Bytes × Data E) := do
  let tmp ← sae.tmp
  let g ← tmp.group
  let scalar ← bignumToBin (← tmp.ownCommitScalar) g.primeLen
  let element ← g.toBin (← tmp.ownCommitElement)
  let body := putLe16 sae.group ++ (if sae.h2e then [] else token.getD []) ++ scalar ++ element ++
    commitElements sae tmp token identifier
  let sae :=
    if wpaKeyMgmtSaeExtKey sae.akmp then
      { sae with ownAkmSuiteSelector := wpaAkmToSuite sae.akmp }
    else sae
  return (body, sae)

end Write

section Parse
variable {E : Type} [DecidableEq E]

/-- The instance, what is left of the message, and the token that was found. -/
structure Cursor (E : Type) where
  sae : Data E
  pos : Bytes
  token : Option Bytes := none

/-- What a call is given besides the message, and the outcomes of its allocations. -/
structure ParseArgs where
  allowedGroups : Option (List ℕ)
  h2e : Bool
  scalarAlloc : Bool := true
  pwIdAlloc : Bool := true
  rejectedAlloc : Bool := true

/-- The next part of the parser runs only after a successful one. -/
def andThen (r : Cursor E × Status) (f : Cursor E → Cursor E × Status) : Cursor E × Status :=
  if r.2 = .success then f r.1 else r

/-- The terminating zero of `allowed_groups` matches a group number of zero. -/
def saeGroupAllowed (lib : ℕ → Option (Group E)) (allowedGroups : Option (List ℕ)) (group : ℕ)
    (sae : Data E) : Data E × Status :=
  if (allowedGroups.any fun l => !l.contains group && group != 0) then
    (sae, .finiteCyclicGroupNotSupported)
  else if sae.state = .committed ∧ group ≠ sae.group then (sae, .finiteCyclicGroupNotSupported)
  else
    let r := if group ≠ sae.group then saeSetGroup lib group sae else (sae, true)
    if !r.2 then (r.1, .finiteCyclicGroupNotSupported)
    else
      match r.1.tmp with
      | none => (r.1, .unspecifiedFailure)
      | some tmp =>
        if (tmp.group.any fun g => g.ffc) && allowedGroups.isNone then
          (r.1, .finiteCyclicGroupNotSupported)
        else (r.1, .success)

def isExtElement (id : UInt8) (minLen : ℕ) (b : Bytes) : Bool :=
  decide (3 ≤ b.length) && b.byteAt 0 == 255 && decide (minLen ≤ b.byteAt 1) &&
    decide (b.byteAt 1 + 2 ≤ b.length) && b.byteAt 2 == id.toNat

def saeIsPasswordIdElem : Bytes → Bool := isExtElement extPasswordIdentifier 1
def saeIsRejectedGroupsElem : Bytes → Bool := isExtElement extRejectedGroups 2
def saeIsTokenContainerElem : Bytes → Bool := isExtElement extAntiCloggingToken 1

def saeIsAkmSuiteSelectorElem (b : Bytes) : Bool :=
  decide (2 + 1 + rsnSelectorLen ≤ b.length) &&
    isExtElement extAkmSuiteSelector (1 + rsnSelectorLen) b

/-- The octets behind the extension ID of the element at the cursor, and what follows it. -/
def elementData (b : Bytes) : Bytes := slice b 3 (b.byteAt 1 - 1)

def elementRest (b : Bytes) : Bytes := b.drop (2 + b.byteAt 1)

/-- Without H2E everything beyond the scalar and the element is taken as a token in front of
them. -/
def saeParseCommitToken (g : Group E) (h2e : Bool) (c : Cursor E) : Cursor E :=
  if h2e then c
  else
    let scalarElemLen := g.primeLen + g.elementLen
    let tlen := c.pos.length - scalarElemLen
    if c.pos.length ≤ scalarElemLen ∨ tlen < sha256MacLen then c
    else { c with token := some (c.pos.take tlen), pos := c.pos.drop tlen }

def saeParseCommitScalar (g : Group E) (alloc : Bool) (c : Cursor E) : Cursor E × Status :=
  if c.pos.length < g.primeLen ∨ !alloc then (c, .unspecifiedFailure)
  else
    let peerScalar := beNat (c.pos.take g.primeLen)
    if c.sae.state = .accepted ∧ c.sae.peerCommitScalarAccepted = some peerScalar then
      (c, .unspecifiedFailure)
    else if peerScalar = 0 ∨ peerScalar = 1 ∨ g.order ≤ peerScalar then (c, .unspecifiedFailure)
    else
      ({ c with
          sae := { c.sae with peerCommitScalar := some peerScalar }
          pos := c.pos.drop g.primeLen }, .success)

/-- The element is stored before it is checked to be on the curve. -/
def saeParseCommitElementEcc (g : Group E) (c : Cursor E) : Cursor E × Status :=
  if c.pos.length < 2 * g.primeLen then (c, .unspecifiedFailure)
  else
    let prime := ofBeNat g.prime g.primeLen
    let x := c.pos.take g.primeLen
    let y := slice c.pos g.primeLen g.primeLen
    if 0 ≤ memcmp x prime ∨ 0 ≤ memcmp y prime then (c, .unspecifiedFailure)
    else
      let point := g.fromBin (c.pos.take (2 * g.primeLen))
      let sae := c.sae.modifyTmp fun tmp => { tmp with peerCommitElement := point }
      if point.any g.isOnCurve then ({ c with sae, pos := c.pos.drop (2 * g.primeLen) }, .success)
      else ({ c with sae }, .unspecifiedFailure)

def saeParseCommitElementFfc (g : Group E) (c : Cursor E) : Cursor E × Status :=
  if c.pos.length < g.primeLen then (c, .unspecifiedFailure)
  else
    let element := g.fromBin (c.pos.take g.primeLen)
    let sae := c.sae.modifyTmp fun tmp => { tmp with peerCommitElement := element }
    let v := beNat (c.pos.take g.primeLen)
    if element.isSome && decide (1 < v ∧ v < g.prime - 1 ∧ v ^ g.order % g.prime = 1) then
      ({ c with sae, pos := c.pos.drop g.primeLen }, .success)
    else ({ c with sae }, .unspecifiedFailure)

def saeParseCommitElement (g : Group E) (c : Cursor E) : Cursor E × Status :=
  if g.ffc then saeParseCommitElementFfc g c else saeParseCommitElementEcc g c

def Data.pwId (sae : Data E) : Option Bytes := sae.tmp.bind Tmp.pwId

def saeParsePasswordIdentifier (alloc : Bool) (c : Cursor E) : Cursor E × Status :=
  if !saeIsPasswordIdElem c.pos then
    if c.sae.pwId.isSome then (c, .unknownPasswordIdentifier) else (c, .success)
  else
    let pwId := elementData c.pos
    if c.sae.pwId.any fun old => cString old != pwId then (c, .unknownPasswordIdentifier)
    else if !alloc then
      ({ c with sae := c.sae.modifyTmp fun tmp => { tmp with pwId := none } }, .unspecifiedFailure)
    else
      ({ c with
          sae := c.sae.modifyTmp fun tmp => { tmp with pwId := some pwId }
          pos := elementRest c.pos }, .success)

def saeParseRejectedGroups (alloc : Bool) (c : Cursor E) : Cursor E × Status :=
  if !saeIsRejectedGroupsElem c.pos then (c, .success)
  else if !alloc then
    ({ c with sae := c.sae.modifyTmp fun tmp => { tmp with peerRejectedGroups := none } },
      .unspecifiedFailure)
  else
    let groups := elementData c.pos
    ({ c with
        sae := c.sae.modifyTmp fun tmp => { tmp with peerRejectedGroups := some groups }
        pos := elementRest c.pos }, .success)

/-- The cursor is passed by value: it stays in front of the container. -/
def saeParseTokenContainer (c : Cursor E) : Cursor E :=
  if saeIsTokenContainerElem c.pos then { c with token := some (elementData c.pos) } else c

def saeParseAkmSuiteSelector (c : Cursor E) : Cursor E × Status :=
  if !saeIsAkmSuiteSelectorElem c.pos then (c, .success)
  else
    ({ c with
        sae := { c.sae with peerAkmSuiteSelector := (slice c.pos 3 rsnSelectorLen).beNat }
        pos := elementRest c.pos }, .success)

/-- The suite selectors of both sides, and the check for a reflected commit. -/
def saeFinishCommit (c : Cursor E) : Cursor E × Status :=
  let sae := c.sae
  if sae.ownAkmSuiteSelector ≠ 0 ∧ sae.ownAkmSuiteSelector ≠ sae.peerAkmSuiteSelector then
    (c, .unspecifiedFailure)
  else
    let akmp :=
      if sae.akmp = 0 ∧ sae.peerAkmSuiteSelector = rsnAuthKeyMgmtSaeExtKey then keyMgmtSaeExtKey
      else sae.akmp
    let ownScalar := sae.tmp.bind Tmp.ownCommitScalar
    let ownElement := sae.tmp.bind Tmp.ownCommitElement
    let reflected := ownScalar.isSome && ownScalar == sae.peerCommitScalar && ownElement.isSome &&
      decide (ownElement = sae.tmp.bind Tmp.peerCommitElement)
    ({ c with sae := { sae with akmp } }, if reflected then .silentlyDiscard else .success)

/-- The parts behind the group, for the group that is selected. -/
def saeParseCommitBody (args : ParseArgs) (g : Group E) (c : Cursor E) : Cursor E × Status :=
  let r := saeParseCommitScalar g args.scalarAlloc (saeParseCommitToken g args.h2e c)
  let r := andThen r (saeParseCommitElement g)
  let r := andThen r (saeParsePasswordIdentifier args.pwIdAlloc)
  let r := if args.h2e then andThen r (saeParseRejectedGroups args.rejectedAlloc) else r
  let r := if args.h2e then andThen r fun c => (saeParseTokenContainer c, .success) else r
  let r := if args.h2e then andThen r saeParseAkmSuiteSelector else r
  andThen r saeFinishCommit

def saeParseCommit (lib : ℕ → Option (Group E)) (args : ParseArgs) (data : Bytes) (sae : Data E) :
    Cursor E × Status :=
  if data.length < 2 then ({ sae, pos := data }, .unspecifiedFailure)
  else
    let r := saeGroupAllowed lib args.allowedGroups (data.le16 0) sae
    let c : Cursor E := { sae := r.1, pos := data.drop 2 }
    andThen (c, r.2) fun c =>
      match c.sae.tmp.bind Tmp.group with
      | some g => saeParseCommitBody args g c
      -- without a group the scalar has no octets and is zero
      | none => (c, .unspecifiedFailure)

end Parse
end Wpa.Sae
