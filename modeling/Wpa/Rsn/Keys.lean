import Wpa.Rsn.State

/-! Installation of the pairwise and group keys by the supplicant. A result `true` stands for the
return value zero, `false` for a negative one. -/

namespace Wpa.Rsn
open Lib Bytes Prog

def nullRsc : Bytes := zeros 8
def gtkMaxLen : ℕ := 32
def igtkKdePrefixLen : ℕ := 2 + 6
def bigtkKdePrefixLen : ℕ := 2 + 6

/-- The TK leaves the state machine once the driver has it. -/
def Sm.ptkInstalled (sm : Sm) : Sm := { sm with ptk := { sm.ptk with tk := [], installed := true } }

/-- The `wpa_sm_set_key` call for the PTK. -/
def ptkSetKey (sm : Sm) (key : EapolKey) (keyFlag : ℕ) : SetKey where
  kind := .ptk
  alg := wpaCipherToAlg sm.pairwiseCipher
  addr := some sm.bssid
  keyIdx := sm.keyidxActive
  setTx := true
  seq := (if sm.proto.isRsnOrOsen then nullRsc else key.keyRsc).take
    (wpaCipherRscLen sm.pairwiseCipher)
  key := sm.ptk.tk
  keyFlag := keyFlagPairwise ||| keyFlag

/-- Hand a key to the driver and record it if the driver took it or its refusal is tolerated. -/
def handKey (k : SetKey) (tolerated : Bool) (record : Sm → Sm) : M Bool := do
  let ok ← wpaSmSetKey k
  if ok || tolerated then do
    update record
    pure true
  else pure false

def wpaSupplicantInstallPtk (key : EapolKey) (keyFlag : ℕ) : M Bool := do
  let sm ← get
  let keylen := wpaCipherKeyLen sm.pairwiseCipher
  if sm.ptk.installed then pure true
  else if sm.pairwiseCipher = cipherNone then pure true
  else if ¬wpaCipherValidPairwise sm.pairwiseCipher then pure false
  else if keylen = 0 ∨ keylen ≠ sm.ptk.tk.length then pure false
  else handKey (ptkSetKey sm key keyFlag) false Sm.ptkInstalled

def wpaSupplicantActivatePtk : M Bool := do
  let sm ← get
  wpaSmSetKey
    { kind := .ptkActivate, alg := .none, addr := some sm.bssid, keyIdx := sm.keyidxActive,
      setTx := false, seq := [], key := [], keyFlag := keyFlagPairwiseRxTxModify }

/-- `struct wpa_gtk_data`, with the GTK cut to `gtk_len`. -/
structure GtkData where
  alg : WpaAlg
  tx : Bool
  keyRscLen : ℕ
  keyidx : ℕ
  gtk : Bytes
  deriving DecidableEq

/-- `wpa_supplicant_check_group_cipher`: the algorithm and RSC length, if the key length fits. -/
def wpaSupplicantCheckGroupCipher (groupCipher keylen maxkeylen : ℕ) : Option (WpaAlg × ℕ) :=
  let alg := wpaCipherToAlg groupCipher
  let klen := wpaCipherKeyLen groupCipher
  if alg = .none then none
  else if keylen ≠ klen ∨ maxkeylen < klen then none
  else some (alg, wpaCipherRscLen groupCipher)

/-- The Tx and Rx Michael MIC keys of a TKIP key, exchanged. -/
def swapMichael (key : Bytes) : Bytes := key.take 16 ++ key.slice 24 8 ++ key.slice 16 8

/-- The `wpa_sm_set_key` call for the GTK. -/
def gtkSetKey (sm : Sm) (gd : GtkData) (keyRsc : Bytes) : SetKey :=
  let gtk := if sm.groupCipher = cipherTkip then swapMichael gd.gtk else gd.gtk
  let seq := keyRsc.take gd.keyRscLen
  if sm.pairwiseCipher = cipherNone then
    { kind := .gtk, alg := gd.alg, addr := none, keyIdx := gd.keyidx, setTx := true,
      seq := seq, key := gtk, keyFlag := keyFlagGroupRxTxDefault }
  else
    { kind := .gtk, alg := gd.alg, addr := some broadcastEtherAddr, keyIdx := gd.keyidx,
      setTx := gd.tx, seq := seq, key := gtk, keyFlag := keyFlagGroupRx }

def wpaSupplicantInstallGtk (gd : GtkData) (keyRsc : Bytes) (wnmSleep : Bool) : M Bool := do
  let sm ← get
  if sm.gtk = gd.gtk ∨ sm.gtkWnmSleep = gd.gtk then pure true
  else
    handKey (gtkSetKey sm gd keyRsc) false fun sm =>
      if wnmSleep then { sm with gtkWnmSleep := gd.gtk } else { sm with gtk := gd.gtk }

def wpaSupplicantGtkTxBitWorkaround (sm : Sm) (tx : Bool) : Bool :=
  if tx ∧ sm.pairwiseCipher ≠ cipherNone then false else tx

def wpaSupplicantRscRelaxation (sm : Sm) (rsc : Bytes) : Bool :=
  sm.wpaRscRelaxation && wpaCipherRscLen sm.groupCipher == 6 &&
    (rsc.byteAt 5 != 0 && rsc.byteAt 0 == 0 || rsc.byteAt 6 != 0 || rsc.byteAt 7 != 0)

def relaxedRsc (sm : Sm) (key : EapolKey) : Bytes :=
  if wpaSupplicantRscRelaxation sm key.keyRsc then nullRsc else key.keyRsc

/-- `wpa_supplicant_pairwise_gtk` on the body of the GTK KDE. -/
def wpaSupplicantPairwiseGtk (key : EapolKey) (gtk : Bytes) : M Bool := do
  let sm ← get
  if gtk.length < 2 ∨ gtk.length - 2 > gtkMaxLen then pure false
  else if sm.groupCipher = cipherGtkNotUsed then pure true
  else
    match wpaSupplicantCheckGroupCipher sm.groupCipher (gtk.length - 2) (gtk.length - 2) with
    | none => pure false
    | some (alg, keyRscLen) =>
      wpaSupplicantInstallGtk
        { alg := alg
          tx := wpaSupplicantGtkTxBitWorkaround sm (hasBits (gtk.byteAt 0) 4)
          keyRscLen := keyRscLen
          keyidx := gtk.byteAt 0 % 4
          gtk := gtk.drop 2 }
        (relaxedRsc sm key) false

/-- The `wpa_sm_set_key` call for the IGTK or the BIGTK in the body of a KDE. -/
def mgmtSetKey (sm : Sm) (kind : KeyKind) (kde key : Bytes) : SetKey where
  kind := kind
  alg := wpaCipherToAlg sm.mgmtGroupCipher
  addr := some broadcastEtherAddr
  keyIdx := kde.le16 0
  setTx := false
  seq := kde.slice 2 6
  key := key
  keyFlag := keyFlagGroupRx

/-- `wpa_supplicant_install_igtk` on the body of the IGTK KDE. -/
def wpaSupplicantInstallIgtk (kde : Bytes) (wnmSleep : Bool) : M Bool := do
  let sm ← get
  let len := wpaCipherKeyLen sm.mgmtGroupCipher
  let keyidx := kde.le16 0
  let igtk := kde.slice igtkKdePrefixLen len
  if (sm.igtk.length = len ∧ sm.igtk = igtk) ∨
      (sm.igtkWnmSleep.length = len ∧ sm.igtkWnmSleep = igtk) then pure true
  else if keyidx > 4095 then pure false
  else
    -- a KeyID with swapped octets is ignored instead of failing the handshake
    handKey (mgmtSetKey sm .igtk kde igtk) (keyidx == 0x0400 || keyidx == 0x0500) fun sm =>
      if wnmSleep then { sm with igtkWnmSleep := igtk } else { sm with igtk := igtk }

/-- `wpa_supplicant_install_bigtk` on the body of the BIGTK KDE. -/
def wpaSupplicantInstallBigtk (kde : Bytes) (wnmSleep : Bool) : M Bool := do
  let sm ← get
  let len := wpaCipherKeyLen sm.mgmtGroupCipher
  let keyidx := kde.le16 0
  let bigtk := kde.slice bigtkKdePrefixLen len
  if (sm.bigtk.length = len ∧ sm.bigtk = bigtk) ∨
      (sm.bigtkWnmSleep.length = len ∧ sm.bigtkWnmSleep = bigtk) then pure true
  else if keyidx < 6 ∨ keyidx > 7 then pure false
  else
    handKey (mgmtSetKey sm .bigtk kde bigtk) false fun sm =>
      if wnmSleep then { sm with bigtkWnmSleep := bigtk } else { sm with bigtk := bigtk }

/-- The IGTK half of `ieee80211w_set_keys`. -/
def setIgtkKde (kde : Option Bytes) : M Bool := do
  let sm ← get
  match kde with
  | none => pure true
  | some igtk =>
    if igtk.length ≠ igtkKdePrefixLen + wpaCipherKeyLen sm.mgmtGroupCipher then pure false
    else wpaSupplicantInstallIgtk igtk false

/-- The BIGTK half of `ieee80211w_set_keys`. -/
def setBigtkKde (kde : Option Bytes) : M Bool := do
  let sm ← get
  match kde with
  | none => pure true
  | some bigtk =>
    if ¬sm.beaconProt then pure true
    else if bigtk.length ≠ bigtkKdePrefixLen + wpaCipherKeyLen sm.mgmtGroupCipher then pure false
    else wpaSupplicantInstallBigtk bigtk false

def ieee80211wSetKeys (keyData : Bytes) (ie : EapolIeParse) : M Bool := do
  let sm ← get
  if ¬wpaCipherValidMgmtGroup sm.mgmtGroupCipher ∨ sm.mgmtGroupCipher = cipherGtkNotUsed then
    pure true
  else do
    let ok ← setIgtkKde (kde keyData ie.igtk)
    if ok then setBigtkKde (kde keyData ie.bigtk) else pure false

end Wpa.Rsn
