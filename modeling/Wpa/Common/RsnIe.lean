import Wpa.Common.Kde

/-! RSN elements: `wpa_parse_wpa_ie_rsn`, the comparison of two RSN elements and the insertion of
a PMKID into one, from `common/wpa_common.c`. -/

namespace Wpa
open Lib Bytes

def rsnVersion : ℕ := 1
def capabilityOcvc : ℕ := 2 ^ 14

structure WpaIeData where
  proto : Proto := .rsn
  pairwiseCipher : ℕ := cipherCcmp
  hasPairwise : Bool := false
  groupCipher : ℕ := cipherCcmp
  hasGroup : Bool := false
  keyMgmt : ℕ := keyMgmtIeee8021x
  capabilities : ℕ := 0
  numPmkid : ℕ := 0
  pmkid : Option ℕ := none
  mgmtGroupCipher : ℕ := cipherAes128Cmac
  deriving DecidableEq

/-- `rsn_selector_to_bitfield` of a selector already read as a big-endian number. -/
def rsnSelectorToBitfield (selector : ℕ) : ℕ :=
  if selector = 0x000fac00 then cipherNone
  else if selector = 0x000fac02 then cipherTkip
  else if selector = 0x000fac04 then cipherCcmp
  else if selector = 0x000fac06 then cipherAes128Cmac
  else if selector = 0x000fac08 then cipherGcmp
  else if selector = 0x000fac0a then cipherCcmp256
  else if selector = 0x000fac09 then cipherGcmp256
  else if selector = 0x000fac0b then cipherBipGmac128
  else if selector = 0x000fac0c then cipherBipGmac256
  else if selector = 0x000fac0d then cipherBipCmac256
  else if selector = 0x000fac07 then cipherGtkNotUsed
  else 0

def keyMgmtPasn : ℕ := 2 ^ 25

def rsnKeyMgmtToBitfield (selector : ℕ) : ℕ :=
  if selector = 0x000fac01 then keyMgmtIeee8021x
  else if selector = 0x000fac02 then keyMgmtPsk
  else if selector = 0x000fac03 then keyMgmtFtIeee8021x
  else if selector = 0x000fac04 then keyMgmtFtPsk
  else if selector = 0x000fac0d then keyMgmtFtIeee8021xSha384
  else if selector = 0x000fac05 then keyMgmtIeee8021xSha256
  else if selector = 0x000fac06 then keyMgmtPskSha256
  else if selector = 0x000fac08 then keyMgmtSae
  else if selector = 0x000fac18 then keyMgmtSaeExtKey
  else if selector = 0x000fac09 then keyMgmtFtSae
  else if selector = 0x000fac0b then keyMgmtIeee8021xSuiteB
  else if selector = 0x000fac0c then keyMgmtIeee8021xSuiteB192
  else if selector = 0x000fac0e then keyMgmtFilsSha256
  else if selector = 0x000fac0f then keyMgmtFilsSha384
  else if selector = 0x000fac10 then keyMgmtFtFilsSha256
  else if selector = 0x000fac11 then keyMgmtFtFilsSha384
  else if selector = 0x000fac12 then keyMgmtOwe
  else if selector = 0x506f9a02 then keyMgmtDpp
  else if selector = 0x506f9a01 then keyMgmtOsen
  else if selector = 0x000fac15 then keyMgmtPasn
  else 0

def wpaCipherValidGroup (cipher : ℕ) : Bool :=
  wpaCipherValidPairwise cipher || cipher == cipherGtkNotUsed

/-- A position in the element and the number of octets left after it. -/
structure RsnCursor where
  pos : ℕ
  left : ℕ

def RsnCursor.skip (c : RsnCursor) (n : ℕ) : RsnCursor := ⟨c.pos + n, c.left - n⟩

/-- The union of `count` suite selectors from `pos` on. -/
def suiteUnion (toBit : ℕ → ℕ) (ie : Bytes) (pos count : ℕ) : ℕ :=
  (List.range count).foldl (fun acc i => acc ||| toBit (ie.be32 (pos + 4 * i))) 0

/-- The header forms: OSEN, the RSNE override elements and the RSNE itself. -/
def rsnIeHeader (ie : Bytes) : Except ℤ (WpaIeData × RsnCursor) :=
  let n := ie.length
  if n = 0 then .error (-1)
  else if n < 4 then .error (-1)
  else if n ≥ 6 ∧ ie.byteAt 1 ≥ 4 ∧ ie.byteAt 1 = n - 2 ∧ ie.be32 2 = osenIeVendorType then
    .ok ({ groupCipher := cipherGtkNotUsed, hasGroup := true, keyMgmt := keyMgmtOsen,
           proto := .osen }, ⟨6, n - 6⟩)
  else if n ≥ 8 ∧ ie.byteAt 1 ≥ 6 ∧ ie.byteAt 1 = n - 2 ∧
      (ie.be32 2 = rsneOverrideIeVendorType ∨ ie.be32 2 = rsneOverride2IeVendorType) ∧
      ie.le16 6 = rsnVersion then
    .ok ({}, ⟨8, n - 8⟩)
  else if ie.byteAt 0 ≠ eidRsn ∨ ie.byteAt 1 ≠ n - 2 ∨ ie.le16 2 ≠ rsnVersion then .error (-2)
  else .ok ({}, ⟨4, n - 4⟩)

def rsnIeGroup (ie : Bytes) (d : WpaIeData) (c : RsnCursor) : Except ℤ (WpaIeData × RsnCursor) :=
  if c.left ≥ 4 then
    let group := rsnSelectorToBitfield (ie.be32 c.pos)
    if wpaCipherValidGroup group then
      .ok ({ d with groupCipher := group, hasGroup := true }, c.skip 4)
    else .error (-1)
  else if c.left > 0 then .error (-3)
  else .ok (d, c)

def rsnIePairwise (ie : Bytes) (d : WpaIeData) (c : RsnCursor) :
    Except ℤ (WpaIeData × RsnCursor) :=
  if c.left ≥ 2 then
    let count := ie.le16 c.pos
    let c := c.skip 2
    if count = 0 ∨ count > c.left / 4 then .error (-4)
    else
      let pairwise := suiteUnion rsnSelectorToBitfield ie c.pos count
      if hasBits pairwise cipherAes128Cmac then .error (-1)
      else .ok ({ d with pairwiseCipher := pairwise, hasPairwise := true }, c.skip (4 * count))
  else if c.left = 1 then .error (-5)
  else .ok (d, c)

def rsnIeKeyMgmt (ie : Bytes) (d : WpaIeData) (c : RsnCursor) : Except ℤ (WpaIeData × RsnCursor) :=
  if c.left ≥ 2 then
    let count := ie.le16 c.pos
    let c := c.skip 2
    if count = 0 ∨ count > c.left / 4 then .error (-6)
    else
      .ok ({ d with keyMgmt := suiteUnion rsnKeyMgmtToBitfield ie c.pos count },
        c.skip (4 * count))
  else if c.left = 1 then .error (-7)
  else .ok (d, c)

def rsnIeCapabilities (ie : Bytes) (d : WpaIeData) (c : RsnCursor) : WpaIeData × RsnCursor :=
  if c.left ≥ 2 then ({ d with capabilities := ie.le16 c.pos }, c.skip 2) else (d, c)

def rsnIePmkid (ie : Bytes) (d : WpaIeData) (c : RsnCursor) : Except ℤ (WpaIeData × RsnCursor) :=
  if c.left ≥ 2 then
    let num := ie.le16 c.pos
    let c := c.skip 2
    if num > c.left / pmkidLen then .error (-9)
    else .ok ({ d with numPmkid := num, pmkid := some c.pos }, c.skip (num * pmkidLen))
  else .ok (d, c)

def rsnIeMgmtGroup (ie : Bytes) (d : WpaIeData) (c : RsnCursor) : Except ℤ WpaIeData :=
  if c.left ≥ 4 then
    let mgmt := rsnSelectorToBitfield (ie.be32 c.pos)
    if wpaCipherValidMgmtGroup mgmt then .ok { d with mgmtGroupCipher := mgmt } else .error (-10)
  else .ok d

def wpaParseWpaIeRsn (ie : Bytes) : Except ℤ WpaIeData := do
  let (d, c) ← rsnIeHeader ie
  let (d, c) ← rsnIeGroup ie d c
  let (d, c) ← rsnIePairwise ie d c
  let (d, c) ← rsnIeKeyMgmt ie d c
  let (d, c) := rsnIeCapabilities ie d c
  let (d, c) ← rsnIePmkid ie d c
  rsnIeMgmtGroup ie d c

/-- `wpa_compare_rsn_ie`: `true` stands for the return value zero. -/
def wpaCompareRsnIe (ftInitialAssoc : Bool) (ie1 ie2 : Bytes) : Bool :=
  if ie1 = ie2 then true
  else if ftInitialAssoc then
    match wpaParseWpaIeRsn ie1, wpaParseWpaIeRsn ie2 with
    | .ok d1, .ok d2 =>
      d1.proto == d2.proto && d1.pairwiseCipher == d2.pairwiseCipher &&
        d1.groupCipher == d2.groupCipher && d1.keyMgmt == d2.keyMgmt &&
        d1.capabilities == d2.capabilities && d1.mgmtGroupCipher == d2.mgmtGroupCipher
    | _, _ => false
  else false

/-- `ieee802_11_rsnx_capab`. -/
def ieee80211RsnxCapab (rsnxe : Option Bytes) (capab : ℕ) : Bool :=
  match rsnxe with
  | none => false
  | some e =>
    let body :=
      if e.byteAt 0 = eidVendorSpecific ∧ e.byteAt 1 ≥ 4 + 1 then e.slice 6 (e.byteAt 1 - 4)
      else e.slice 2 (e.byteAt 1)
    let flen := body.byteAt 0 % 16 + 1
    body.length != 0 && decide (flen ≤ body.length) &&
      hasBits (beNat (body.take (min flen 4)).reverse) (2 ^ capab)

def rsnxCapabSecureLtf : ℕ := 8

/-- Offset of the first element with the RSN element ID. -/
def findRsnElement (ies : Bytes) : ℕ → ℕ → Option ℕ
  | 0, _ => none
  | fuel + 1, start =>
    if start < ies.length then
      if ies.byteAt start = eidRsn then some start
      else findRsnElement ies fuel (start + 2 + ies.byteAt (start + 1))
    else none

def insertAt (b : Bytes) (off : ℕ) (src : Bytes) : Bytes := b.take off ++ src ++ b.drop off

def removeAt (b : Bytes) (off n : ℕ) : Bytes := b.take off ++ b.drop (off + n)

/-- Add to the length octet of the element at `start`, modulo its width. -/
def addElementLen (b : Bytes) (start : ℕ) (n : ℤ) : Bytes :=
  b.writeAt (start + 1) [UInt8.ofNat (((b.byteAt (start + 1) : ℤ) + n) % 256).toNat]

def wpaInsertPmkid (ies pmkid : Bytes) : Option Bytes := do
  let start ← findRsnElement ies (ies.length + 1) 0
  let rend := start + 2 + ies.byteAt (start + 1)
  let rpos := start + 2 + 2 + 4
  let rpos := rpos + 2 + ies.le16 rpos * rsnSelectorLen
  let rpos := rpos + 2 + ies.le16 rpos * rsnSelectorLen
  if rpos = rend then
    -- neither RSN Capabilities nor a PMKID list: both are added
    some (addElementLen (insertAt ies rpos ([0, 0] ++ [1, 0] ++ pmkid)) start (2 + 2 + 16))
  else
    let rpos := rpos + 2
    if rpos > rend then none
    else if rpos = rend then
      some (addElementLen (insertAt ies rpos ([1, 0] ++ pmkid)) start (2 + 16))
    else if rend - rpos < 2 then none
    else
      let num := ies.le16 rpos
      if num * pmkidLen > rend - rpos - 2 then none
      else
        let ies := (removeAt ies (rpos + 2) (num * pmkidLen)).writeAt rpos [1, 0]
        some (addElementLen (insertAt ies (rpos + 2) pmkid) start (16 - 16 * num))

end Wpa
