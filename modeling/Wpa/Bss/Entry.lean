import Wpa.Common.Defs
import Wpa.Common.Reltime
import Wpa.Ie.Elements
import Wpa.Lib.Heap

/-! The entries of the BSS table of `bss.c`, the scan results that they are made of, and what the
table is told from outside. Interworking, P2P and WPS are compiled in; the attributes in P2P and WPS
elements are read by functions that are parameters. -/

namespace Wpa.BssTable
open Lib Bytes Ie

def eidMeshId : ℕ := 114
def eidInterworking : ℕ := 107
def eidVendorSpecific : ℕ := 221
def wpsIeVendorType : ℕ := 0x0050f204
def p2pIeVendorType : ℕ := 0x506f9a09
def ssidMaxLen : ℕ := 32
def scanAssociated : ℕ := 2 ^ 5

/-- `P2P_WILDCARD_SSID`, "DIRECT-". -/
def p2pWildcardSsid : Bytes := [68, 73, 82, 69, 67, 84, 45]

abbrev MacAddr := { b : Bytes // b.length = ethAlen }

/-- The octets of `u8 ssid[SSID_MAX_LEN]` that are in use. -/
abbrev Ssid := { b : Bytes // b.length ≤ ssidMaxLen }

def zeroAddr : MacAddr := ⟨zeros ethAlen, zeros_length _⟩

def calculateUpdateTime (fetchTime : Reltime) (ageMs : ℕ) : Reltime :=
  let usec := (ageMs % 1000 * 1000).toUInt64
  let sec := fetchTime.sec - (ageMs / 1000).toUInt64
  if fetchTime.usec < usec then ⟨sec - 1, fetchTime.usec + 1000000 - usec⟩
  else ⟨sec, fetchTime.usec - usec⟩

/-- `struct wpa_scan_res` with the two groups of elements behind it. -/
structure ScanRes where
  flags : ℕ
  bssid : MacAddr
  freq : ℤ
  age : ℕ
  ies : Bytes
  beaconIes : Bytes

/-- `struct wpa_bss`; `ies` is everything that is allocated behind the structure. -/
structure Bss where
  id : ℕ
  scanMissCount : ℕ
  lastUpdateIdx : ℕ
  flags : ℕ
  bssid : MacAddr
  hessid : Bytes
  ssid : Ssid
  freq : ℤ
  lastUpdate : Reltime
  ieLen : ℕ
  beaconIeLen : ℕ
  ies : Bytes

/-- `struct wpa_ssid`; no SSID is the empty one. -/
structure Network where
  ssid : Bytes
  wps : Bool
  pbcEnrollee : Bool
  pinEnrollee : Bool

/-- What the table is told from outside; `stale` is what a pointer to freed memory reads. -/
structure Env where
  bssMaxCount : ℕ
  bssExpirationScanCount : ℕ
  ignoreOldScanRes : Bool
  networks : List Network
  scanTriggerTime : Reltime
  p2pGroupInterface : Bool
  ownAddr : MacAddr
  bssid : MacAddr
  pendingBssid : MacAddr
  pendingJoinIfaceAddr : MacAddr
  pendingJoinDevAddr : MacAddr
  stale : Bss

/-- `wps_is_selected_pbc_registrar`, `wps_is_addr_authorized` and `p2p_parse_dev_addr`. -/
structure Attrs where
  selectedPbcRegistrar : Bytes → Bool
  addrAuthorized : Bytes → MacAddr → Bool
  p2pDevAddr : Bytes → Option MacAddr

def getIe (ies : Bytes) (eid : ℕ) : Option Bytes :=
  ((elements ies).find? fun e => e.id = eid).map fun e => e.data.read ies

/-- An element of the vendor type. -/
def isVendor (type : ℕ) (ies : Bytes) (e : Element) : Bool :=
  e.id = eidVendorSpecific && 4 ≤ e.data.len && (e.data.read ies).be32 0 = type

def hasVendorIe (ies : Bytes) (type : ℕ) : Bool := (elements ies).any (isVendor type ies)

/-- What the elements of the vendor type hold behind it, one after another; `[]` is `NULL`. -/
def vendorIeMulti (ies : Bytes) (type : ℕ) : Bytes :=
  ((elements ies).filter (isVendor type ies)).flatMap fun e => (e.data.read ies).drop 4

/-- `wpa_bss_ie_ptr` with `ie_len`. -/
def Bss.ieArea (bss : Bss) : Bytes := bss.ies.take bss.ieLen

def ScanRes.allIes (res : ScanRes) : Bytes := res.ies ++ res.beaconIes

/-- `wpa_scan_get_ie`, which takes the elements of the Beacon frame if there are no others. -/
def scanGetIe (res : ScanRes) (eid : ℕ) : Option Bytes :=
  getIe (if res.ies = [] then res.beaconIes else res.ies) eid

def setHessid (bss : Bss) : Bss :=
  { bss with hessid :=
      match getIe bss.ieArea eidInterworking with
      | none => zeros ethAlen
      | some ie =>
        if ie.length = 7 then ie.slice 1 ethAlen
        else if ie.length = 9 then ie.slice 3 ethAlen
        else zeros ethAlen }

def copyRes (dst : Bss) (src : ScanRes) (fetchTime : Reltime) : Bss :=
  { dst with
    flags := src.flags
    bssid := src.bssid
    freq := src.freq
    lastUpdate := calculateUpdateTime fetchTime src.age }

/-- `WPA_BSS_IES_CHANGED_FLAG` of `wpa_bss_compare_res`. -/
def iesChanged (old : Bss) (newRes : ScanRes) : Bool :=
  ¬(old.ieLen = newRes.ies.length ∧ old.ieArea = newRes.ies)

def isWpsCandidate (attrs : Attrs) (env : Env) (bss : Bss) : Bool :=
  let wpsIe := vendorIeMulti bss.ieArea wpsIeVendorType
  if wpsIe = [] then false
  else
    let pbc := attrs.selectedPbcRegistrar wpsIe
    if !pbc && !attrs.addrAuthorized wpsIe env.ownAddr then false
    else
      match env.networks.find? fun n => n.wps && (n.ssid = [] || n.ssid = bss.ssid.val) with
      | none => false
      | some ssid => if pbc then ssid.pbcEnrollee else ssid.pinEnrollee

def isP2pPendingBss (attrs : Attrs) (env : Env) (bss : Bss) : Bool :=
  bss.bssid = env.pendingJoinIfaceAddr ||
    (env.pendingJoinDevAddr ≠ zeroAddr &&
      attrs.p2pDevAddr bss.ieArea = some env.pendingJoinDevAddr)

def isKnown (attrs : Attrs) (env : Env) (bss : Bss) : Bool :=
  isP2pPendingBss attrs env bss ||
    env.networks.any fun n => n.ssid ≠ [] && n.ssid = bss.ssid.val

/-- The part of `struct scan_info` that says what was scanned. -/
structure ScanInfo where
  freqs : List ℤ
  ssids : List Bytes
  aborted : Bool

def includedInScan (bss : Bss) : Option ScanInfo → Bool
  | none => true
  | some info =>
    (info.freqs = [] || info.freqs.contains bss.freq) &&
      (info.ssids = [] || info.ssids.any fun s => s = [] || s = bss.ssid.val)

/-- The checks of `wpa_bss_update_scan_res`, and the SSID or mesh identifier that passes them. -/
def scanSsid (env : Env) (res : ScanRes) (fetchTime : Reltime) : Option Ssid :=
  if env.ignoreOldScanRes &&
      (calculateUpdateTime fetchTime res.age).before env.scanTriggerTime then none
  else
    match scanGetIe res eidSsid with
    | none => none
    | some ssid =>
      if hlen : ssid.length ≤ ssidMaxLen then
        let p2p := hasVendorIe res.ies p2pIeVendorType
        if !p2p && env.p2pGroupInterface then none
        else if p2p && ssid = p2pWildcardSsid then none
        else
          match scanGetIe res eidMeshId with
          | none => some ⟨ssid, hlen⟩
          | some mesh =>
            if hmesh : mesh.length ≤ ssidMaxLen then some ⟨mesh, hmesh⟩ else some ⟨ssid, hlen⟩
      else none

/-- The information element areas lie in what is allocated behind the structure. -/
def Bss.Fits (bss : Bss) : Prop := bss.ieLen + bss.beaconIeLen ≤ bss.ies.length

/-- What tells two entries apart. -/
def Bss.key (bss : Bss) : MacAddr × Ssid := (bss.bssid, bss.ssid)

@[simp] theorem setHessid_id (bss : Bss) : (setHessid bss).id = bss.id := rfl

@[simp] theorem setHessid_key (bss : Bss) : (setHessid bss).key = bss.key := rfl

@[simp] theorem setHessid_fits (bss : Bss) : (setHessid bss).Fits ↔ bss.Fits := Iff.rfl

end Wpa.BssTable
