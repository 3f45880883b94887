import Wpa.Auth.Tx

/-! The group keys of one `struct wpa_group`: their derivation from the GMK and their
configuration in the driver. A Boolean result is `true` for the return value zero. -/

namespace Wpa.Auth
open Lib Bytes Prog

def gtkMaxLen : ℕ := 32

/-- `wpa_gmk_to_gtk`. Without random data the key is still derived, but the call fails. -/
def wpaGmkToGtk (env : Env) (ans : Answer) (site : RandomSite) (gmk : Bytes) (label : String)
    (gnonce : Bytes) (len : ℕ) : Option Bytes × Bool :=
  let random := (ans.random site).map (·.take len)
  let data := env.addr ++ gnonce ++ ans.time site ++ random.getD []
  let data := data ++ zeros (ethAlen + wpaNonceLen + 8 + gtkMaxLen - data.length)
  let gtk := env.cr.prf .sha384 gmk label data len
  (gtk, gtk.isSome && random.isSome)

/-- A key slot after a derivation, which leaves it alone if the PRF fails. -/
def setKeySlot (keys : List Bytes) (n base : ℕ) (key : Option Bytes) : List Bytes :=
  match key with
  | none => keys
  | some key => keys.set (n - base) key

def noMgmtFrameProtection : ℕ := 0

/-- The next nonce from the group counter. -/
def Group.drawGnonce (g : Group) : Group :=
  { g with gnonce := g.counter, counter := incByteArray g.counter }

def gtkUpdateGtk (env : Env) (ans : Answer) (g : Group) : Group × Bool :=
  let g := g.drawGnonce
  let r := wpaGmkToGtk env ans .gtk g.gmk "Group key expansion" g.gnonce g.gtkLen
  ({ g with gtk := setKeySlot g.gtk g.gn 1 r.1 }, r.2)

def gtkUpdateIgtk (env : Env) (ans : Answer) (g : Group) : Group × Bool :=
  let g := g.drawGnonce
  let r := wpaGmkToGtk env ans .igtk g.gmk "IGTK key expansion" g.gnonce
    (wpaCipherKeyLen env.conf.groupMgmtCipher)
  ({ g with igtk := setKeySlot g.igtk g.gnIgtk 4 r.1 }, r.2)

def gtkUpdateBigtk (env : Env) (ans : Answer) (g : Group) : Group × Bool :=
  let g := g.drawGnonce
  let r := wpaGmkToGtk env ans .bigtk g.gmk "BIGTK key expansion" g.gnonce
    (wpaCipherKeyLen env.conf.groupMgmtCipher)
  ({ g with bigtk := setKeySlot g.bigtk g.gnBigtk 6 r.1 }, r.2)

def wpaGtkUpdate (env : Env) (ans : Answer) (g : Group) : Group × Bool :=
  let mfp := env.conf.ieee80211w ≠ noMgmtFrameProtection
  let r₁ := gtkUpdateGtk env ans g
  let r₂ := if mfp then gtkUpdateIgtk env ans r₁.1 else (r₁.1, true)
  let r₃ := if mfp ∧ env.conf.beaconProt then gtkUpdateBigtk env ans r₂.1 else (r₂.1, true)
  (r₃.1, r₁.2 && r₂.2 && r₃.2)

/-- `wpa_group_config_group_keys`: the keys handed to the driver, up to the first refusal of a
management key. -/
def wpaGroupConfigGroupKeys (env : Env) (ans : Answer) (g : Group) : List Act × Bool :=
  let len := wpaCipherKeyLen env.conf.groupMgmtCipher
  let gtk : Act := .setGroupKey g.vlanId .gtk g.gn ((keySlot g.gtk g.gn 1).take g.gtkLen)
  let igtk : Act := .setGroupKey g.vlanId .igtk g.gnIgtk ((keySlot g.igtk g.gnIgtk 4).take len)
  let bigtk : Act :=
    .setGroupKey g.vlanId .bigtk g.gnBigtk ((keySlot g.bigtk g.gnBigtk 6).take len)
  if env.conf.ieee80211w = noMgmtFrameProtection ∨ ¬ans.setKey .gtk then ([gtk], ans.setKey .gtk)
  else if ¬env.conf.beaconProt ∨ ¬ans.setKey .igtk then ([gtk, igtk], ans.setKey .igtk)
  else ([gtk, igtk, bigtk], ans.setKey .bigtk)

/-- `wpa_group_init_gmk_and_counter`. The address of the group in memory, which is mixed into the
counter, is not modelled. -/
def wpaGroupInitGmkAndCounter (env : Env) (ans : Answer) (g : Group) : Group × Bool :=
  match ans.random .gmk with
  | none => (g, false)
  | some gmk =>
    let g := { g with gmk := gmk }
    match ans.random .counter with
    | none => (g, false)
    | some rkey =>
      match env.cr.prf .sha1 rkey "Init Counter" (env.addr ++ ans.time .counter) wpaNonceLen with
      | none => (g, false)
      | some counter => ({ g with counter := counter }, true)

/-- The attempt of `wpa_group_ensure_init` to set up the keys anew. -/
def reinitGroupKeys (env : Env) (ans : Answer) (g : Group) : Group × List Act × Bool :=
  let r₁ := wpaGroupInitGmkAndCounter env ans g
  if ¬r₁.2 then (r₁.1, [], false)
  else
    let r₂ := wpaGtkUpdate env ans r₁.1
    if ¬r₂.2 then (r₂.1, [], false) else (r₂.1, wpaGroupConfigGroupKeys env ans r₂.1)

/-- Without enough entropy the first 4-way handshake is rejected. -/
def Group.firstSta (g : Group) (poolReady : Bool) : Group :=
  if poolReady then { g with firstStaSeen := true, reject4wayHsForEntropy := false }
  else { g with reject4wayHsForEntropy := true }

/-- `wpa_group_ensure_init`, which starts the group keys over when the first station connects. -/
def ensureInit (env : Env) (ans : Answer) (g : Group) : Group × List Act :=
  if g.firstStaSeen then (g, [])
  else
    let r := reinitGroupKeys env ans (g.firstSta ans.randomPoolReady)
    if r.2.2 then (r.1, r.2.1)
    else ({ r.1 with firstStaSeen := false, reject4wayHsForEntropy := true }, r.2.1)

/-- `wpa_group_gtk_init`. -/
def gtkInit (env : Env) (ans : Answer) (g : Group) : Group :=
  (wpaGtkUpdate env ans { g with
    changed := false
    state := .gtkInit
    gtk := [zeros 32, zeros 32]
    gn := 1
    gm := 2
    gnIgtk := 4
    gmIgtk := 5
    gnBigtk := 6
    gmBigtk := 7 }).1

/-- The key indices of `GN` and `GM` exchanged. -/
def Group.swapKeys (g : Group) : Group :=
  { g with
    gm := g.gn
    gn := g.gm
    gmIgtk := g.gnIgtk
    gnIgtk := g.gmIgtk
    gmBigtk := g.gnBigtk
    gnBigtk := g.gmBigtk }

/-- The part of `wpa_group_setkeys` before the stations are told. -/
def setKeysGroup (env : Env) (ans : Answer) (g : Group) : Group :=
  let g := (wpaGtkUpdate env ans
    ({ g with changed := true, state := .setKeys, gtkReKey := false } : Group).swapKeys).1
  { g with gKeyDoneStations := 0 }

/-- What the group keys leave alone: the accounting and the life time of the group. -/
structure Group.Accounting where
  vlanId : ℤ
  gInit : Bool
  gKeyDoneStations : ℤ
  gtkReKey : Bool
  state : GroupState
  references : ℕ
  numSetupIface : ℕ

def Group.accounting (g : Group) : Group.Accounting where
  vlanId := g.vlanId
  gInit := g.gInit
  gKeyDoneStations := g.gKeyDoneStations
  gtkReKey := g.gtkReKey
  state := g.state
  references := g.references
  numSetupIface := g.numSetupIface

section Accounting
variable (env : Env) (ans : Answer) (g : Group)

@[simp] theorem gtkUpdateGtk_accounting : (gtkUpdateGtk env ans g).1.accounting = g.accounting := rfl

@[simp] theorem gtkUpdateIgtk_accounting :
    (gtkUpdateIgtk env ans g).1.accounting = g.accounting := rfl

@[simp] theorem gtkUpdateBigtk_accounting :
    (gtkUpdateBigtk env ans g).1.accounting = g.accounting := rfl

@[simp] theorem wpaGtkUpdate_accounting : (wpaGtkUpdate env ans g).1.accounting = g.accounting := by
  simp only [wpaGtkUpdate]
  split_ifs <;> simp

@[simp] theorem wpaGroupInitGmkAndCounter_accounting :
    (wpaGroupInitGmkAndCounter env ans g).1.accounting = g.accounting := by
  unfold wpaGroupInitGmkAndCounter
  cases ans.random .gmk with
  | none => rfl
  | some gmk =>
    cases ans.random .counter with
    | none => rfl
    | some rkey =>
      dsimp only
      split <;> rfl

@[simp] theorem reinitGroupKeys_accounting :
    (reinitGroupKeys env ans g).1.accounting = g.accounting := by
  simp only [reinitGroupKeys]
  split_ifs <;> simp

@[simp] theorem Group.firstSta_accounting (ready : Bool) :
    (g.firstSta ready).accounting = g.accounting := by
  cases ready <;> rfl

@[simp] theorem ensureInit_accounting : (ensureInit env ans g).1.accounting = g.accounting := by
  have hreinit := reinitGroupKeys_accounting env ans (g.firstSta ans.randomPoolReady)
  rw [Group.firstSta_accounting] at hreinit
  simp only [ensureInit]
  split_ifs
  · rfl
  · exact hreinit
  · exact hreinit

@[simp] theorem gtkInit_accounting :
    (gtkInit env ans g).accounting = { g.accounting with state := .gtkInit } :=
  wpaGtkUpdate_accounting env ans _

@[simp] theorem setKeysGroup_accounting :
    (setKeysGroup env ans g).accounting =
      { g.accounting with state := .setKeys, gtkReKey := false, gKeyDoneStations := 0 } := by
  have h := wpaGtkUpdate_accounting env ans
    ({ g with changed := true, state := .setKeys, gtkReKey := false } : Group).swapKeys
  simp only [Group.accounting, Group.Accounting.mk.injEq] at h
  simp only [setKeysGroup, Group.accounting, Group.Accounting.mk.injEq, h]
  simp [Group.swapKeys]

end Accounting
end Wpa.Auth
