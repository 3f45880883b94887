import Wpa.Common.KeyData
import Wpa.Auth.Tx

/-! The Key Data of message 3/4 and of group message 1/2 against the room that is allocated for it,
and against what the station reads from it. -/

namespace Wpa.Auth
open Lib Bytes

def igtkKdePrefixLen : ℕ := 2 + 6
def ocvOciKdeLen : ℕ := 2 + rsnSelectorLen + 3

def ieee80211wKdeLen (conf : Conf) (sm : Sta) : ℕ :=
  (if sm.mgmtFrameProt then
    2 + rsnSelectorLen + igtkKdePrefixLen + wpaCipherKeyLen conf.groupMgmtCipher else 0) +
  if sm.mgmtFrameProt && conf.beaconProt then
    2 + rsnSelectorLen + igtkKdePrefixLen + wpaCipherKeyLen conf.groupMgmtCipher else 0

def ocvOciLen (sm : Sta) : ℕ := if sm.ocvEnabled = 0 then 0 else ocvOciKdeLen

/-- `kde_len` of message 3/4. -/
def msg3Of4KdeLen (env : Env) (l : Local) : ℕ :=
  let sm := l.sta
  (msg3Of4Ie env sm).length + ieee80211wKdeLen env.conf sm + ocvOciLen sm +
  (if sm.useExtKeyId then 2 + rsnSelectorLen + 2 else 0) +
  (if sm.wpa = .wpa2 then 2 + rsnSelectorLen + 2 + l.group.gtkLen else 0) +
  (if wpaKeyMgmtFt sm.wpaKeyMgmt then 2 + pmkidLen + 300 else 0) +
  (if beNat sm.ipAddr > 0 then 2 + rsnSelectorLen + 3 * 4 else 0) +
  (if env.conf.transitionDisable ≠ 0 then 2 + rsnSelectorLen + 1 else 0) +
  if sm.wpaKeyMgmt = keyMgmtDpp then 2 + rsnSelectorLen + 2 else 0

/-- `kde_len` of group message 1/2. -/
def msg1Of2KdeLen (env : Env) (l : Local) : ℕ :=
  2 + rsnSelectorLen + 2 + l.group.gtkLen + ieee80211wKdeLen env.conf l.sta + ocvOciLen l.sta

/-- What `wpa_auth_gen_wpa_ie` has put into `wpa_ie`. -/
structure OwnElements where
  rsne : Bytes
  rsnxe : Option Bytes
  mde : Option Bytes
  wpa : Option Bytes
  rsne_length : rsne.length ≤ 255
  rsnxe_length : ∀ b ∈ rsnxe, b.length ≤ 255
  mde_length : ∀ b ∈ mde, b.length ≤ 255
  wpa_length : ∀ b ∈ wpa, b.length ≤ 251

namespace OwnElements
variable (e : OwnElements)

def items : List Item :=
  [.element 48 e.rsne] ++ (e.rsnxe.map (Item.element 244)).toList ++
    (e.mde.map (Item.element 54)).toList ++ (e.wpa.map (Item.kde wpaOuiType)).toList

def bytes : Bytes := e.items.flatMap Item.bytes

end OwnElements

section Keys
variable (env : Env) (ans : Answer) (sm : Sta) (g : Group)

/-- The data of the IGTK KDE, if there is one. -/
def igtkData : Option Bytes :=
  if sm.mgmtFrameProt then
    (if hidesGroupKeys env.conf sm then ans.random .stubIgtk
      else some (keySlot g.igtk g.gnIgtk 4)).map fun key =>
      [UInt8.ofNat g.gnIgtk, 0] ++ groupPn ans g g.gnIgtk ++
        key.take (wpaCipherKeyLen env.conf.groupMgmtCipher)
  else none

/-- The data of the BIGTK KDE, which only follows an IGTK KDE. -/
def bigtkData : Option Bytes :=
  if (igtkData env ans sm g).isSome && env.conf.beaconProt then
    (if sm.wpaKeyMgmt = keyMgmtOsen then ans.random .stubBigtk
      else some (keySlot g.bigtk g.gnBigtk 6)).map fun key =>
      [UInt8.ofNat g.gnBigtk, 0] ++ groupPn ans g g.gnBigtk ++
        key.take (wpaCipherKeyLen env.conf.groupMgmtCipher)
  else none

def gtkData (gtk : Bytes) : Bytes := [UInt8.ofNat (g.gn % 4), 0] ++ gtk

def keyIdData : Option Bytes :=
  if sm.useExtKeyId then some [UInt8.ofNat (sm.keyidxActive % 2), 0] else none

def optKde (selector : ℕ) (data : Option Bytes) : List Item := (data.map (Item.kde selector)).toList

theorem flatMap_optKde (selector : ℕ) (data : Option Bytes) :
    (optKde selector data).flatMap Item.bytes = (data.map (wpaAddKde selector)).getD [] := by
  cases data <;> simp [optKde, Item.bytes]

theorem optKde_ite (c : Prop) [Decidable c] (selector : ℕ) (data : Bytes) :
    (if c then wpaAddKde selector data else []) =
      (optKde selector (if c then some data else none)).flatMap Item.bytes := by
  rw [flatMap_optKde]
  split <;> rfl

theorem ieee80211wKdeAdd_eq :
    ieee80211wKdeAdd env ans sm g =
      (optKde rsnKeyDataIgtk (igtkData env ans sm g) ++
        optKde rsnKeyDataBigtk (bigtkData env ans sm g)).flatMap Item.bytes := by
  rw [List.flatMap_append, flatMap_optKde, flatMap_optKde]
  unfold ieee80211wKdeAdd bigtkData igtkData bigtkKde
  cases sm.mgmtFrameProt with
  | false => simp
  | true =>
    generalize (if hidesGroupKeys env.conf sm = true then ans.random .stubIgtk
      else some (keySlot g.igtk g.gnIgtk 4)) = igtk
    generalize (if sm.wpaKeyMgmt = keyMgmtOsen then ans.random .stubBigtk
      else some (keySlot g.bigtk g.gnBigtk 6)) = bigtk
    cases igtk with
    | none => simp
    | some igtk =>
      cases env.conf.beaconProt with
      | false => simp
      | true => cases bigtk <;> simp

end Keys

/-- What the callbacks and the configuration promise for an RSN station without FT. -/
structure Served (env : Env) (ans : Answer) (l : Local) (e : OwnElements) : Prop where
  wpa2 : l.sta.wpa = .wpa2
  not_ft : wpaKeyMgmtFt l.sta.wpaKeyMgmt = false
  wpaIe : env.wpaIe = e.bytes
  gtkLen : l.group.gtkLen ≤ 32
  one_le_gtk : ∀ gtk, stationGtk env.conf ans l.sta l.group = some gtk → 1 ≤ gtk.length
  ipAddr : l.sta.ipAddr.length = 4
  ipAddrMask : env.conf.ipAddrMask.length = 4
  ipAddrGo : env.conf.ipAddrGo.length = 4
  seqnum : ∀ i b, ans.seqnum i = some b → b.length = 8
  oci : ∀ b, ans.ocvInsertOciKde = some b → ∃ oci, oci.length = 3 ∧ b = wpaAddKde rsnKeyDataOci oci

section Items
variable (env : Env) (ans : Answer) (l : Local) (e : OwnElements)

/-- The keys in the order in which they are written. -/
def keyItems (gtk : Bytes) (oci : Option Bytes) : List Item :=
  [.kde rsnKeyDataGroupkey (gtkData l.group gtk)] ++
    (optKde rsnKeyDataIgtk (igtkData env ans l.sta l.group) ++
      optKde rsnKeyDataBigtk (bigtkData env ans l.sta l.group)) ++ optKde rsnKeyDataOci oci

def ipData : Option Bytes :=
  if beNat l.sta.ipAddr > 0 then some (l.sta.ipAddr ++ env.conf.ipAddrMask ++ env.conf.ipAddrGo)
  else none

def transitionData : Option Bytes :=
  if env.conf.transitionDisable ≠ 0 then some [UInt8.ofNat env.conf.transitionDisable] else none

def dppData : Option Bytes :=
  if l.sta.wpaKeyMgmt = keyMgmtDpp then
    some [2, if env.conf.dppPfs = 0 then 1 else if env.conf.dppPfs = 1 then 3 else 0]
  else none

def msg3Of4Items (gtk : Bytes) (oci : Option Bytes) : List Item :=
  e.items ++ optKde rsnKeyDataKeyid (keyIdData l.sta) ++ keyItems env ans l gtk oci ++
    optKde wfaKeyDataIpAddrAlloc (ipData env l) ++
    optKde wfaKeyDataTransitionDisable (transitionData env) ++ optKde wfaKeyDataDpp (dppData env l)

variable {env ans l e}

/-- The OCI KDE that is written, if there is one. -/
theorem ocvOciAdd_eq (h : Served env ans l e) {b : Bytes} (hb : ocvOciAdd ans l.sta = some b) :
    ∃ oci : Option Bytes, (∀ d ∈ oci, d.length = 3 ∧ l.sta.ocvEnabled ≠ 0) ∧
      b = (optKde rsnKeyDataOci oci).flatMap Item.bytes := by
  unfold ocvOciAdd at hb
  split_ifs at hb with hoff hchannel
  · cases hb
    exact ⟨none, by simp, rfl⟩
  · obtain ⟨oci, hlen, rfl⟩ := h.oci b hb
    refine ⟨some oci, ?_, ?_⟩
    · rintro d ⟨⟩
      exact ⟨hlen, hoff⟩
    · rw [flatMap_optKde]
      rfl

theorem msg3Of4Kde_eq (h : Served env ans l e) {kde : Bytes} (hkde : msg3Of4Kde env ans l = some kde) :
    ∃ gtk oci, stationGtk env.conf ans l.sta l.group = some gtk ∧
      (∀ d ∈ oci, d.length = 3 ∧ l.sta.ocvEnabled ≠ 0) ∧
      kde = (msg3Of4Items env ans l e gtk oci).flatMap Item.bytes := by
  have hie : msg3Of4Ie env l.sta = e.items.flatMap Item.bytes := by
    rw [← OwnElements.bytes, ← h.wpaIe]
    simp [msg3Of4Ie, h.wpa2]
  simp only [msg3Of4Kde, h.wpa2, if_true, h.not_ft, Bool.false_eq_true, if_false,
    Option.bind_eq_bind, Option.bind_eq_some_iff, Option.bind_some, hie] at hkde
  obtain ⟨gtk', hmap, hkde⟩ := hkde
  obtain ⟨gtk, hgtk, rfl⟩ := Option.map_eq_some_iff.mp hmap
  by_cases halloc : ans.alloc .kdeBuf = true
  · rw [if_neg (not_not.mpr halloc)] at hkde
    obtain ⟨b, hb, hkde⟩ := Option.bind_eq_some_iff.mp hkde
    obtain ⟨oci, hoci, rfl⟩ := ocvOciAdd_eq h hb
    refine ⟨gtk, oci, hgtk, hoci, ?_⟩
    rw [← Option.some.inj hkde]
    simp only [optKde_ite, dppKde, ieee80211wKdeAdd_eq, msg3Of4Items, keyItems, keyIdData, ipData,
      transitionData, dppData, List.flatMap_append, List.append_assoc, List.nil_append,
      Option.map_some, Option.getD_some]
    simp [Item.bytes, gtkKde, gtkData]
  · rw [if_pos halloc] at hkde
    cases hkde

theorem msg1Of2Kde_eq (h : Served env ans l e) {kde : Bytes} (hkde : msg1Of2Kde env ans l = some kde) :
    ∃ gtk oci, stationGtk env.conf ans l.sta l.group = some gtk ∧
      (∀ d ∈ oci, d.length = 3 ∧ l.sta.ocvEnabled ≠ 0) ∧
      kde = (keyItems env ans l gtk oci).flatMap Item.bytes := by
  simp only [msg1Of2Kde, h.wpa2, if_true, Option.bind_eq_bind, Option.bind_eq_some_iff] at hkde
  obtain ⟨gtk, hgtk, hkde⟩ := hkde
  by_cases halloc : ans.alloc .kdeBuf = true
  · rw [if_neg (not_not.mpr halloc)] at hkde
    obtain ⟨b, hb, hkde⟩ := Option.bind_eq_some_iff.mp hkde
    obtain ⟨oci, hoci, rfl⟩ := ocvOciAdd_eq h hb
    refine ⟨gtk, oci, hgtk, hoci, ?_⟩
    rw [← Option.some.inj hkde]
    simp only [ieee80211wKdeAdd_eq, keyItems, List.flatMap_append, List.append_assoc]
    simp [Item.bytes, gtkKde, gtkData]
  · rw [if_pos halloc] at hkde
    cases hkde

end Items

section Bounds
variable {env : Env} {ans : Answer} {l : Local} {e : OwnElements}

theorem wpaCipherKeyLen_le (cipher : ℕ) : wpaCipherKeyLen cipher ≤ 32 := by
  unfold wpaCipherKeyLen
  split_ifs <;> omega

theorem groupPn_length (h : Served env ans l e) (idx : ℕ) : (groupPn ans l.group idx).length = 6 := by
  unfold groupPn
  split
  · exact zeros_length 6
  · cases hseq : ans.seqnum idx with
    | none => simp
    | some b =>
      have := h.seqnum idx b hseq
      simp [this]

theorem groupKeyData_length (h : Served env ans l e) (idx n : ℕ) (key : Bytes) :
    8 ≤ ([UInt8.ofNat idx, 0] ++ groupPn ans l.group idx ++ key.take n).length ∧
      ([UInt8.ofNat idx, 0] ++ groupPn ans l.group idx ++ key.take n).length ≤ 8 + n := by
  have hkey : (key.take n).length ≤ n := List.length_take_le _ _
  rw [List.length_append, List.length_append, groupPn_length h, List.length_cons,
    List.length_singleton]
  omega

theorem igtkData_length (h : Served env ans l e) {b : Bytes}
    (hb : b ∈ igtkData env ans l.sta l.group) :
    8 ≤ b.length ∧ b.length ≤ 8 + wpaCipherKeyLen env.conf.groupMgmtCipher ∧
      l.sta.mgmtFrameProt = true := by
  unfold igtkData at hb
  split at hb
  · rename_i hmfp
    obtain ⟨key, -, rfl⟩ := Option.map_eq_some_iff.mp (Option.mem_def.mp hb)
    obtain ⟨hmin, hmax⟩ := groupKeyData_length h l.group.gnIgtk
      (wpaCipherKeyLen env.conf.groupMgmtCipher) key
    exact ⟨hmin, hmax, hmfp⟩
  · cases hb

theorem bigtkData_length (h : Served env ans l e) {b : Bytes}
    (hb : b ∈ bigtkData env ans l.sta l.group) :
    8 ≤ b.length ∧ b.length ≤ 8 + wpaCipherKeyLen env.conf.groupMgmtCipher ∧
      l.sta.mgmtFrameProt = true ∧ env.conf.beaconProt = true := by
  unfold bigtkData at hb
  split at hb
  · rename_i hboth
    rw [Bool.and_eq_true] at hboth
    obtain ⟨igtk, higtk⟩ := Option.isSome_iff_exists.mp hboth.1
    obtain ⟨key, -, rfl⟩ := Option.map_eq_some_iff.mp (Option.mem_def.mp hb)
    obtain ⟨hmin, hmax⟩ := groupKeyData_length h l.group.gnBigtk
      (wpaCipherKeyLen env.conf.groupMgmtCipher) key
    exact ⟨hmin, hmax, (igtkData_length h higtk).2.2, hboth.2⟩
  · cases hb

theorem gtkData_length {g : Group} (gtk : Bytes) : (gtkData g gtk).length = gtk.length + 2 := by
  simp [gtkData]

theorem stationGtk_length_le {conf : Conf} {sm : Sta} {g : Group} {gtk : Bytes}
    (h : stationGtk conf ans sm g = some gtk) : gtk.length ≤ g.gtkLen := by
  obtain ⟨key, -, rfl⟩ := Option.map_eq_some_iff.mp h
  exact List.length_take_le _ _

theorem length_optKde (selector : ℕ) (data : Option Bytes) :
    ((optKde selector data).flatMap Item.bytes).length = data.elim 0 fun b => b.length + 6 := by
  cases data <;> simp [optKde, Item.bytes]

theorem fits_optKde {selector : ℕ} (hs : selector < 2 ^ 32) {data : Option Bytes}
    (hd : ∀ b ∈ data, b.length ≤ 251) : ∀ item ∈ optKde selector data, item.Fits := by
  intro item hitem
  obtain ⟨b, hb, rfl⟩ := Option.map_eq_some_iff.mp (Option.mem_toList.mp hitem)
  exact ⟨hs, hd b hb⟩

/-- The room for the keys and the OCI of either message. -/
theorem keyItems_length (h : Served env ans l e) {gtk : Bytes} {oci : Option Bytes}
    (hgtk : stationGtk env.conf ans l.sta l.group = some gtk)
    (hoci : ∀ d ∈ oci, d.length = 3 ∧ l.sta.ocvEnabled ≠ 0) :
    ((keyItems env ans l gtk oci).flatMap Item.bytes).length ≤
      2 + rsnSelectorLen + 2 + l.group.gtkLen + ieee80211wKdeLen env.conf l.sta +
        ocvOciLen l.sta := by
  have hgtkLen := stationGtk_length_le hgtk
  have hselector : rsnSelectorLen = 4 := rfl
  have hprefix : igtkKdePrefixLen = 8 := rfl
  have higtk : ((optKde rsnKeyDataIgtk (igtkData env ans l.sta l.group)).flatMap Item.bytes).length ≤
      if l.sta.mgmtFrameProt then 2 + rsnSelectorLen + igtkKdePrefixLen +
        wpaCipherKeyLen env.conf.groupMgmtCipher else 0 := by
    rw [length_optKde]
    cases hdata : igtkData env ans l.sta l.group with
    | none => exact Nat.zero_le _
    | some b =>
      obtain ⟨-, hmax, hmfp⟩ := igtkData_length h hdata
      rw [if_pos hmfp, Option.elim_some]
      omega
  have hbigtk :
      ((optKde rsnKeyDataBigtk (bigtkData env ans l.sta l.group)).flatMap Item.bytes).length ≤
      if l.sta.mgmtFrameProt && env.conf.beaconProt then 2 + rsnSelectorLen + igtkKdePrefixLen +
        wpaCipherKeyLen env.conf.groupMgmtCipher else 0 := by
    rw [length_optKde]
    cases hdata : bigtkData env ans l.sta l.group with
    | none => exact Nat.zero_le _
    | some b =>
      obtain ⟨-, hmax, hmfp, hbeacon⟩ := bigtkData_length h hdata
      rw [hmfp, hbeacon, Option.elim_some]
      simp only [Bool.and_self, if_true]
      omega
  have hociLen : ((optKde rsnKeyDataOci oci).flatMap Item.bytes).length ≤ ocvOciLen l.sta := by
    rw [length_optKde]
    cases oci with
    | none => exact Nat.zero_le _
    | some d =>
      obtain ⟨hlen, hocv⟩ := hoci d rfl
      rw [ocvOciLen, if_neg hocv, Option.elim_some, hlen]
      decide
  have hkde : (Item.kde rsnKeyDataGroupkey (gtkData l.group gtk)).bytes.length =
      gtk.length + 2 + 6 := by
    rw [Item.bytes, wpaAddKde_length, gtkData_length]
  simp only [keyItems, List.flatMap_append, List.length_append, List.flatMap_cons, List.flatMap_nil,
    List.append_nil, hkde]
  rw [ieee80211wKdeLen]
  omega

theorem keyItems_fits (h : Served env ans l e) {gtk : Bytes} {oci : Option Bytes}
    (hgtk : stationGtk env.conf ans l.sta l.group = some gtk)
    (hoci : ∀ d ∈ oci, d.length = 3 ∧ l.sta.ocvEnabled ≠ 0) :
    ∀ item ∈ keyItems env ans l gtk oci, item.Fits := by
  have hcipher := wpaCipherKeyLen_le env.conf.groupMgmtCipher
  have hgtkLen := stationGtk_length_le hgtk
  have hmax := h.gtkLen
  simp only [keyItems, List.forall_mem_append, List.forall_mem_singleton]
  refine ⟨⟨⟨by decide, ?_⟩, ?_, ?_⟩, ?_⟩
  · rw [gtkData_length]
    omega
  · refine fits_optKde (by decide) fun b hb => ?_
    have := igtkData_length h hb
    omega
  · refine fits_optKde (by decide) fun b hb => ?_
    have := bigtkData_length h hb
    omega
  · refine fits_optKde (by decide) fun b hb => ?_
    rw [(hoci b hb).1]
    decide

theorem items_fits (e : OwnElements) : ∀ item ∈ e.items, item.Fits := by
  simp only [OwnElements.items, List.forall_mem_append, List.forall_mem_singleton]
  refine ⟨⟨⟨⟨by decide, e.rsne_length⟩, ?_⟩, ?_⟩, ?_⟩
  · intro item hitem
    obtain ⟨b, hb, rfl⟩ := Option.map_eq_some_iff.mp (Option.mem_toList.mp hitem)
    exact ⟨by decide, e.rsnxe_length b hb⟩
  · intro item hitem
    obtain ⟨b, hb, rfl⟩ := Option.map_eq_some_iff.mp (Option.mem_toList.mp hitem)
    exact ⟨by decide, e.mde_length b hb⟩
  · exact fits_optKde (by decide) e.wpa_length

theorem msg3Of4Items_fits (h : Served env ans l e) {gtk : Bytes} {oci : Option Bytes}
    (hgtk : stationGtk env.conf ans l.sta l.group = some gtk)
    (hoci : ∀ d ∈ oci, d.length = 3 ∧ l.sta.ocvEnabled ≠ 0) :
    ∀ item ∈ msg3Of4Items env ans l e gtk oci, item.Fits := by
  simp only [msg3Of4Items, List.forall_mem_append]
  refine ⟨⟨⟨⟨⟨items_fits e, ?_⟩, keyItems_fits h hgtk hoci⟩, ?_⟩, ?_⟩, ?_⟩
  · refine fits_optKde (by decide) fun b hb => ?_
    unfold keyIdData at hb
    split at hb <;> cases hb
    simp
  · refine fits_optKde (by decide) fun b hb => ?_
    unfold ipData at hb
    split at hb <;> cases hb
    simp [h.ipAddr, h.ipAddrMask, h.ipAddrGo]
  · refine fits_optKde (by decide) fun b hb => ?_
    unfold transitionData at hb
    split at hb <;> cases hb
    simp
  · refine fits_optKde (by decide) fun b hb => ?_
    unfold dppData at hb
    split at hb <;> cases hb
    simp

theorem length_optKde_ite (c : Prop) [Decidable c] (selector : ℕ) (data : Bytes) :
    ((optKde selector (if c then some data else none)).flatMap Item.bytes).length =
      if c then 2 + rsnSelectorLen + data.length else 0 := by
  rw [← optKde_ite]
  split
  · rw [wpaAddKde_length]
    simp only [rsnSelectorLen]
    omega
  · rfl

theorem msg3Of4Items_length (h : Served env ans l e) {gtk : Bytes} {oci : Option Bytes}
    (hgtk : stationGtk env.conf ans l.sta l.group = some gtk)
    (hoci : ∀ d ∈ oci, d.length = 3 ∧ l.sta.ocvEnabled ≠ 0) :
    ((msg3Of4Items env ans l e gtk oci).flatMap Item.bytes).length ≤ msg3Of4KdeLen env l := by
  have hkeys := keyItems_length h hgtk hoci
  have hie : (msg3Of4Ie env l.sta).length = (e.items.flatMap Item.bytes).length := by
    rw [← OwnElements.bytes, ← h.wpaIe]
    simp [msg3Of4Ie, h.wpa2]
  have hip : (l.sta.ipAddr ++ env.conf.ipAddrMask ++ env.conf.ipAddrGo).length = 3 * 4 := by
    rw [List.length_append, List.length_append, h.ipAddr, h.ipAddrMask, h.ipAddrGo]
  simp only [msg3Of4Items, List.flatMap_append, List.length_append, keyIdData, ipData,
    transitionData, dppData, length_optKde_ite, hip, List.length_cons, List.length_nil,
    Nat.reduceAdd]
  simp only [msg3Of4KdeLen, h.wpa2, h.not_ft, hie, if_true, Bool.false_eq_true, if_false]
  omega

end Bounds

section Fold
variable (f : Found)

theorem foldl_optKde_other {selector : ℕ}
    (h : selector ≠ rsnKeyDataKeyid ∧ selector ≠ rsnKeyDataGroupkey ∧ selector ≠ rsnKeyDataIgtk ∧
      selector ≠ rsnKeyDataBigtk) (data : Option Bytes) :
    (optKde selector data).foldl Found.store f = f := by
  cases data with
  | none => rfl
  | some b => simp [optKde, Found.store, h]

theorem foldl_optKde_keyid (hf : f.keyId = none) {data : Option Bytes}
    (hd : ∀ b ∈ data, b.length = 2) :
    (optKde rsnKeyDataKeyid data).foldl Found.store f = { f with keyId := data } := by
  cases data with
  | none =>
    obtain ⟨⟩ := f
    cases hf
    rfl
  | some b =>
    have htake : b.take 2 = b := List.take_of_length_le (hd b rfl).le
    simp [optKde, Found.store, hd b rfl, htake]

theorem foldl_optKde_igtk (hf : f.igtk = none) {data : Option Bytes}
    (hd : ∀ b ∈ data, 2 < b.length) :
    (optKde rsnKeyDataIgtk data).foldl Found.store f = { f with igtk := data } := by
  cases data with
  | none =>
    obtain ⟨⟩ := f
    cases hf
    rfl
  | some b =>
    have hlen := hd b rfl
    simp [optKde, Found.store, hlen, rsnKeyDataIgtk, rsnKeyDataKeyid, rsnKeyDataGroupkey]

theorem foldl_optKde_bigtk (hf : f.bigtk = none) {data : Option Bytes}
    (hd : ∀ b ∈ data, 2 < b.length) :
    (optKde rsnKeyDataBigtk data).foldl Found.store f = { f with bigtk := data } := by
  cases data with
  | none =>
    obtain ⟨⟩ := f
    cases hf
    rfl
  | some b =>
    have hlen := hd b rfl
    simp [optKde, Found.store, hlen, rsnKeyDataIgtk, rsnKeyDataKeyid, rsnKeyDataGroupkey,
      rsnKeyDataBigtk]

theorem foldl_items (e : OwnElements) :
    e.items.foldl Found.store {} =
      { rsnIe := some (Item.element 48 e.rsne).bytes
        rsnxe := e.rsnxe.map fun b => (Item.element 244 b).bytes } := by
  have hwpa : ∀ f : Found, ((e.wpa.map (Item.kde wpaOuiType)).toList).foldl Found.store f = f :=
    fun f => foldl_optKde_other f (by decide) e.wpa
  have hmde : ∀ f : Found, ((e.mde.map (Item.element 54)).toList).foldl Found.store f = f := by
    intro f
    cases e.mde with
    | none => rfl
    | some b => rfl
  simp only [OwnElements.items, List.foldl_append, hwpa, hmde]
  cases e.rsnxe with
  | none => rfl
  | some b => rfl

variable {env : Env} {ans : Answer} {l : Local} {e : OwnElements} {f}

theorem foldl_keyItems (h : Served env ans l e) {gtk : Bytes} {oci : Option Bytes}
    (hgtk : stationGtk env.conf ans l.sta l.group = some gtk) (higtk : f.igtk = none)
    (hbigtk : f.bigtk = none) :
    (keyItems env ans l gtk oci).foldl Found.store f =
      { f with
        gtk := some (gtkData l.group gtk)
        igtk := igtkData env ans l.sta l.group
        bigtk := bigtkData env ans l.sta l.group } := by
  have hlen : 2 < (gtkData l.group gtk).length := by
    have := h.one_le_gtk gtk hgtk
    rw [gtkData_length]
    omega
  have hstore : f.store (.kde rsnKeyDataGroupkey (gtkData l.group gtk)) =
      { f with gtk := some (gtkData l.group gtk) } := by
    simp [Found.store, hlen, rsnKeyDataGroupkey, rsnKeyDataKeyid]
  simp only [keyItems, List.foldl_append, List.foldl_cons, List.foldl_nil, hstore]
  have higtkLen : ∀ b ∈ igtkData env ans l.sta l.group, 2 < b.length := fun b hb => by
    have := igtkData_length h hb
    omega
  have hbigtkLen : ∀ b ∈ bigtkData env ans l.sta l.group, 2 < b.length := fun b hb => by
    have := bigtkData_length h hb
    omega
  rw [foldl_optKde_igtk { f with gtk := some (gtkData l.group gtk) } higtk higtkLen,
    foldl_optKde_bigtk { f with
      gtk := some (gtkData l.group gtk)
      igtk := igtkData env ans l.sta l.group } hbigtk hbigtkLen,
    foldl_optKde_other _ (by decide)]

theorem foldl_msg3Of4Items (h : Served env ans l e) {gtk : Bytes} {oci : Option Bytes}
    (hgtk : stationGtk env.conf ans l.sta l.group = some gtk) :
    (msg3Of4Items env ans l e gtk oci).foldl Found.store {} =
      { rsnIe := some (Item.element 48 e.rsne).bytes
        rsnxe := e.rsnxe.map fun b => (Item.element 244 b).bytes
        keyId := keyIdData l.sta
        gtk := some (gtkData l.group gtk)
        igtk := igtkData env ans l.sta l.group
        bigtk := bigtkData env ans l.sta l.group } := by
  have hkeyid : ∀ b ∈ keyIdData l.sta, b.length = 2 := by
    intro b hb
    unfold keyIdData at hb
    split at hb <;> cases hb
    rfl
  simp only [msg3Of4Items, List.foldl_append, foldl_items]
  rw [foldl_optKde_keyid _ rfl hkeyid, foldl_keyItems h hgtk rfl rfl,
    foldl_optKde_other _ (by decide), foldl_optKde_other _ (by decide),
    foldl_optKde_other _ (by decide)]

end Fold

section RoundTrip
variable {env : Env} {ans : Answer} {l : Local} {e : OwnElements}

/-- The Key Data with the padding that AES key wrap needs. -/
def paddedKeyData (kde : Bytes) : Bytes := kde ++ padding (padLen kde.length)

/-- With AES key wrap this is what is encrypted. -/
theorem aesWrap_of_protectKeyData {a : SendArgs} {kde counter iv keyData groupCounter : Bytes}
    (hkde : a.kde = some kde) (hencr : a.encr = true) (hmic : l.sta.micLen ≠ 0)
    (hwrap : usesAesWrap l.sta = true)
    (h : protectKeyData env ans l a counter = some (iv, keyData, groupCounter)) :
    env.cr.aesWrap l.sta.ptk.kek (paddedKeyData kde) = some keyData := by
  have hpadded : (kde ++ if padLen kde.length = 0 then [] else
      [0xdd] ++ zeros (padLen kde.length - 1)) = paddedKeyData kde := by
    unfold paddedKeyData padding
    split <;> rfl
  have hlen : (paddedKeyData kde).length = kde.length + padLen kde.length := by
    unfold paddedKeyData padding
    split
    · simp [*]
    · simp
      omega
  have hall : (paddedKeyData kde).take (kde.length + padLen kde.length + 8 - 8) =
      paddedKeyData kde := List.take_of_length_le (by omega)
  simp only [protectKeyData, hkde, hencr, hmic, hwrap, Option.getD_some, hpadded, keyDataLen,
    not_true_eq_false, or_false, and_self, if_true, hall, reduceCtorEq, if_false] at h
  split_ifs at h
  obtain ⟨out, hout, heq⟩ := Option.map_eq_some_iff.mp h
  cases heq
  exact hout

/-- The Key Data of both messages fits its room, and the station gets out of it the elements and
the keys that went in. -/
theorem keyData_round_trip (h : Served env ans l e) :
    (∀ kde, msg3Of4Kde env ans l = some kde → kde.length ≤ msg3Of4KdeLen env l ∧
      ∃ gtk ie, stationGtk env.conf ans l.sta l.group = some gtk ∧
        wpaParseKdeIes (paddedKeyData kde) = some ie ∧
        ie.found (paddedKeyData kde) =
          { rsnIe := some (Item.element 48 e.rsne).bytes
            rsnxe := e.rsnxe.map fun b => (Item.element 244 b).bytes
            keyId := keyIdData l.sta
            gtk := some (gtkData l.group gtk)
            igtk := igtkData env ans l.sta l.group
            bigtk := bigtkData env ans l.sta l.group }) ∧
    (∀ kde, msg1Of2Kde env ans l = some kde → kde.length ≤ msg1Of2KdeLen env l ∧
      ∃ gtk ie, stationGtk env.conf ans l.sta l.group = some gtk ∧
        wpaParseKdeIes (paddedKeyData kde) = some ie ∧
        ie.found (paddedKeyData kde) =
          { gtk := some (gtkData l.group gtk)
            igtk := igtkData env ans l.sta l.group
            bigtk := bigtkData env ans l.sta l.group }) ∧
    ∀ a kde counter iv keyData groupCounter, a.kde = some kde → a.encr = true → l.sta.micLen ≠ 0 →
      usesAesWrap l.sta = true →
      protectKeyData env ans l a counter = some (iv, keyData, groupCounter) →
      env.cr.aesWrap l.sta.ptk.kek (paddedKeyData kde) = some keyData := by
  refine ⟨?_, ?_, fun a kde counter iv keyData groupCounter => aesWrap_of_protectKeyData⟩
  · intro kde hkde
    obtain ⟨gtk, oci, hgtk, hoci, rfl⟩ := msg3Of4Kde_eq h hkde
    obtain ⟨ie, hparse, hfound⟩ := wpaParseKdeIes_items (msg3Of4Items env ans l e gtk oci)
      (msg3Of4Items_fits h hgtk hoci) _
    refine ⟨msg3Of4Items_length h hgtk hoci, gtk, ie, hgtk, hparse, ?_⟩
    rw [← foldl_msg3Of4Items h hgtk]
    exact hfound
  · intro kde hkde
    obtain ⟨gtk, oci, hgtk, hoci, rfl⟩ := msg1Of2Kde_eq h hkde
    obtain ⟨ie, hparse, hfound⟩ := wpaParseKdeIes_items (keyItems env ans l gtk oci)
      (keyItems_fits h hgtk hoci) _
    refine ⟨keyItems_length h hgtk hoci, gtk, ie, hgtk, hparse, ?_⟩
    exact hfound.trans (foldl_keyItems h hgtk rfl rfl)

/-- An authenticator with every part of message 3/4. -/
def fullElements : OwnElements where
  rsne := [1, 0]
  rsnxe := some [2]
  mde := some [1, 2, 3]
  wpa := none
  rsne_length := by decide
  rsnxe_length := by simp
  mde_length := by simp
  wpa_length := by simp

def fullEnv : Env where
  cr := default
  wpaIe := fullElements.bytes
  conf := { beaconProt := true, transitionDisable := 1 }

def fullLocal : Local where
  sta :=
    { wpa := .wpa2, wpaKeyMgmt := keyMgmtSae, useExtKeyId := true, keyidxActive := 1
      mgmtFrameProt := true, ipAddr := [10, 0, 0, 2] }
  group :=
    { gn := 1, gtkLen := 16, gtk := [List.replicate 16 7, []], gnIgtk := 4
      igtk := [List.replicate 16 8, []], gnBigtk := 6, bigtk := [List.replicate 16 9, []] }

theorem full_keyData_round_trip :
    Served fullEnv {} fullLocal fullElements ∧ ∃ kde ie, msg3Of4Kde fullEnv {} fullLocal = some kde ∧
      kde.length ≤ msg3Of4KdeLen fullEnv fullLocal ∧
      wpaParseKdeIes (paddedKeyData kde) = some ie ∧
      (ie.found (paddedKeyData kde)).gtk = some ([1, 0] ++ List.replicate 16 7) := by
  have hserved : Served fullEnv {} fullLocal fullElements :=
    ⟨rfl, by decide, rfl, by decide, by rintro gtk ⟨⟩; decide, rfl, rfl, rfl,
      by rintro i b ⟨⟩; rfl, by rintro b ⟨⟩⟩
  obtain ⟨hlen, gtk, ie, hgtk, hparse, hfound⟩ :=
    (keyData_round_trip hserved).1 _ rfl
  refine ⟨hserved, _, ie, rfl, hlen, hparse, ?_⟩
  rw [hfound]
  cases hgtk
  rfl

end RoundTrip
end Wpa.Auth
