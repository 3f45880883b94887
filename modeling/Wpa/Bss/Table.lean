import Wpa.Bss.Entry
import Wpa.Lib.Runs

/-! The BSS table of `bss.c`: two lists that link the same entries, the last scan results and the
other pointers to entries, under the operations of the table and what is set from outside. There
is no BSSID filter. -/

namespace Wpa.BssTable
open Lib Bytes Ie

/-- The notifications about entries. -/
inductive Note
  | added (id : ℕ)
  | removed (id : ℕ)
  deriving DecidableEq

/-- `struct wpa_connect_work`. -/
structure ConnectWork where
  bss : Option Ptr
  bssRemoved : Bool

/-- The part of `struct wpa_supplicant` that the table is; `lastScanRes` is the used part of the
array, which is there if its size is not zero. -/
structure St where
  heap : Heap Bss
  bss : List Ptr
  bssId : List Ptr
  numBss : ℕ
  bssNextId : ℕ
  bssUpdateIdx : ℕ
  lastScanRes : List Ptr
  lastScanResSize : ℕ
  currentBss : Option Ptr
  pendingConnect : Option ConnectWork
  env : Env
  notes : List Note

/-- What the allocator does during one call. -/
structure Memory extends Allocator where
  reallocArray : Bool

def St.entry (s : St) (p : Ptr) : Bss := s.heap.read s.env.stale p

def St.setEntry (s : St) (p : Ptr) (bss : Bss) : St := { s with heap := s.heap.set p bss }

/-- `wpa_bss_update_pending_connect`. -/
def updatePendingConnect (work : Option ConnectWork) (oldBss : Ptr) (newBss : Option Ptr) :
    Option ConnectWork :=
  work.map fun cwork =>
    if cwork.bss = some oldBss then ⟨newBss, cwork.bssRemoved || newBss.isNone⟩ else cwork

def bssRemove (s : St) (p : Ptr) : St :=
  { s with
    lastScanRes := s.lastScanRes.erase p
    pendingConnect := updatePendingConnect s.pendingConnect p none
    bss := s.bss.erase p
    bssId := s.bssId.erase p
    numBss := s.numBss - 1
    notes := s.notes ++ [.removed (s.entry p).id]
    heap := s.heap.free p }

def bssGet (s : St) (bssid : MacAddr) (ssid : Ssid) : Option Ptr :=
  s.bss.find? fun p => (s.entry p).bssid = bssid && (s.entry p).ssid = ssid

def bssInUse (s : St) (p : Ptr) : Bool :=
  if s.currentBss = some p then true
  else if s.currentBss.any fun q => (s.entry p).ssid ≠ (s.entry q).ssid then false
  else
    (s.entry p).bssid ≠ zeroAddr &&
      ((s.entry p).bssid = s.env.bssid || (s.entry p).bssid = s.env.pendingBssid)

section Ops
variable (attrs : Attrs)

/-- The entry that `wpa_bss_remove_oldest_unknown` removes. -/
def oldestUnknown (s : St) : Option Ptr :=
  s.bss.find? fun p =>
    !isKnown attrs s.env (s.entry p) && !isWpsCandidate attrs s.env (s.entry p)

/-- The entry that `wpa_bss_remove_oldest` removes. -/
def oldest (s : St) : Option Ptr :=
  match oldestUnknown attrs s with
  | some p => some p
  | none => s.bss.find? fun p => !bssInUse s p

def makeRoom (s : St) : St :=
  if s.numBss + 1 > s.env.bssMaxCount then
    match oldest attrs s with
    | some p => bssRemove s p
    | none => { s with env.bssMaxCount := s.numBss + 1 }
  else s

def newEntry (s : St) (ssid : Ssid) (res : ScanRes) (fetchTime : Reltime) : Bss :=
  setHessid
    { id := s.bssNextId, scanMissCount := 0, lastUpdateIdx := s.bssUpdateIdx, flags := res.flags
      bssid := res.bssid, hessid := zeros ethAlen, ssid := ssid, freq := res.freq
      lastUpdate := calculateUpdateTime fetchTime res.age, ieLen := res.ies.length
      beaconIeLen := res.beaconIes.length, ies := res.allIes }

def link (s : St) (p : Ptr) (id : ℕ) : St :=
  { s with
    bss := s.bss ++ [p]
    bssId := s.bssId ++ [p]
    numBss := s.numBss + 1
    notes := s.notes ++ [.added id] }

def bssAdd (s : St) (ssid : Ssid) (res : ScanRes) (fetchTime : Reltime) (mem : Memory) :
    St × Option Ptr :=
  match mem.alloc s.heap.live with
  | none => (s, none)
  | some p =>
    let bss := newEntry s ssid res fetchTime
    let s := { s.setEntry p bss with bssNextId := (s.bssNextId + 1) % 2 ^ 32 }
    (link (makeRoom attrs s) p bss.id, some p)

/-- The entry has got another place in memory, and all pointers to it follow. -/
def relocate (s : St) (p q : Ptr) (bss : Bss) : St :=
  { s with
    heap := (s.heap.free p).set q bss
    bssId := s.bssId.replace p q
    lastScanRes := s.lastScanRes.replace p q
    currentBss := if s.currentBss = some p then some q else s.currentBss
    pendingConnect := updatePendingConnect s.pendingConnect p (some q) }

/-- The part of `wpa_bss_update` that stores the new elements. -/
def storeIes (s : St) (p : Ptr) (res : ScanRes) (mem : Memory) : St × Ptr :=
  let bss := s.entry p
  if hasVendorIe bss.ieArea p2pIeVendorType && !hasVendorIe res.ies p2pIeVendorType then (s, p)
  else if bss.ieLen + bss.beaconIeLen ≥ res.ies.length + res.beaconIes.length then
    (s.setEntry p { bss with
      ies := bss.ies.writeAt 0 res.allIes
      ieLen := res.ies.length
      beaconIeLen := res.beaconIes.length }, p)
  else
    match mem.realloc s.heap.live p with
    | none => (s, p)
    | some q =>
      (relocate s p q { bss with
        ies := res.allIes
        ieLen := res.ies.length
        beaconIeLen := res.beaconIes.length }, q)

/-- The entry has been updated by the current scan results, and is the more current one. -/
def isMoreCurrent (s : St) (bss : Bss) (res : ScanRes) (fetchTime : Reltime) : Bool :=
  bss.lastUpdateIdx = s.bssUpdateIdx &&
    (hasBits bss.flags scanAssociated ||
      (!hasBits res.flags scanAssociated &&
        !bss.lastUpdate.before (calculateUpdateTime fetchTime res.age)))

/-- The entry is written, and taken out of the list to be put at its end. -/
def takeOut (s : St) (p : Ptr) (bss : Bss) : St :=
  { s with heap := s.heap.set p bss, bss := s.bss.erase p }

def bssUpdate (s : St) (p : Ptr) (res : ScanRes) (fetchTime : Reltime) (mem : Memory) : St × Ptr :=
  let bss := s.entry p
  if isMoreCurrent s bss res fetchTime then (s, p)
  else
    let changed := iesChanged bss res
    let bss := copyRes { bss with scanMissCount := 0, lastUpdateIdx := s.bssUpdateIdx } res fetchTime
    let (s, p) := storeIes (takeOut s p bss) p res mem
    let s := if changed then s.setEntry p (setHessid (s.entry p)) else s
    ({ s with bss := s.bss ++ [p] }, p)

/-- The size of the array of the last scan results after it has grown if it was full. -/
def lastScanResRoom (s : St) (mem : Memory) : ℕ :=
  if s.lastScanRes.length ≥ s.lastScanResSize ∧ mem.reallocArray then
    if s.lastScanResSize = 0 then 32 else s.lastScanResSize * 2
  else s.lastScanResSize

def addToLastScanRes (s : St) (p : Ptr) (mem : Memory) : St :=
  { s with
    lastScanResSize := lastScanResRoom s mem
    lastScanRes :=
      if s.lastScanRes.length ≥ lastScanResRoom s mem then s.lastScanRes
      else s.lastScanRes ++ [p] }

def updateScanRes (s : St) (res : ScanRes) (fetchTime : Reltime) (mem : Memory) : St :=
  match scanSsid s.env res fetchTime with
  | none => s
  | some ssid =>
    match bssGet s res.bssid ssid with
    | none =>
      match bssAdd attrs s ssid res fetchTime mem with
      | (s, none) => s
      | (s, some p) => addToLastScanRes s p mem
    | some p =>
      let (s, p) := bssUpdate s p res fetchTime mem
      if p ∈ s.lastScanRes then s else addToLastScanRes s p mem

def updateStart (s : St) : St :=
  { s with bssUpdateIdx := (s.bssUpdateIdx + 1) % 2 ^ 32, lastScanRes := [] }

/-- One turn of the loop of `wpa_bss_update_end`. -/
def expire (info : Option ScanInfo) (s : St) (p : Ptr) : St :=
  if bssInUse s p || !includedInScan (s.entry p) info then s
  else
    let s :=
      if (s.entry p).lastUpdateIdx < s.bssUpdateIdx then
        s.setEntry p { s.entry p with
          scanMissCount := ((s.entry p).scanMissCount + 1) % 2 ^ 32 }
      else s
    if (s.entry p).scanMissCount ≥ s.env.bssExpirationScanCount then bssRemove s p else s

def updateEnd (s : St) (info : Option ScanInfo) (newScan : Bool) : St :=
  if info.any ScanInfo.aborted || !newScan then s else s.bss.foldl (expire info) s

/-- The loop of `wpa_bss_flush_by_age`, which ends at the first entry that is in time. -/
def flushByAgeFrom (t : Reltime) : List Ptr → St → St
  | [], s => s
  | p :: ps, s =>
    if bssInUse s p then flushByAgeFrom t ps s
    else if (s.entry p).lastUpdate.before t then flushByAgeFrom t ps (bssRemove s p)
    else s

def flushByAge (s : St) (age : ℤ) (now : Reltime) : St :=
  flushByAgeFrom ⟨now.sec - UInt64.ofInt age, now.usec⟩ s.bss s

def flushOne (s : St) (p : Ptr) : St := if bssInUse s p then s else bssRemove s p

def flush (s : St) : St := s.bss.foldl flushOne s

/-- The operations, and what is done to the pointers and the settings from outside: the current BSS
and the one of a pending connection are entries or nothing. -/
inductive Input
  | updateStart
  | scanRes (res : ScanRes) (fetchTime : Reltime) (mem : Memory)
  | updateEnd (info : Option ScanInfo) (newScan : Bool)
  | flush
  | flushByAge (age : ℤ) (now : Reltime)
  | remove (p : Ptr)
  | setCurrent (p : Option Ptr)
  | setPending (work : Option ConnectWork)
  | setEnv (env : Env)

def handle (s : St) : Input → St
  | .updateStart => updateStart s
  | .scanRes res fetchTime mem => updateScanRes attrs s res fetchTime mem
  | .updateEnd info newScan => updateEnd s info newScan
  | .flush => flush s
  | .flushByAge age now => flushByAge s age now
  | .remove p => if p ∈ s.bss then bssRemove s p else s
  | .setCurrent p => { s with currentBss := p.filter fun p => p ∈ s.bss }
  | .setPending work =>
    { s with pendingConnect :=
        work.map fun cwork => { cwork with bss := cwork.bss.filter fun p => p ∈ s.bss } }
  | .setEnv env => { s with env := env }

def step (s : St) (i : Input) : St × List Note :=
  let s := handle attrs { s with notes := [] } i
  (s, s.notes)

/-- `wpa_bss_init`. -/
def init (env : Env) : St :=
  { heap := fun _ => none, bss := [], bssId := [], numBss := 0, bssNextId := 0, bssUpdateIdx := 0
    lastScanRes := [], lastScanResSize := 0, currentBss := none, pendingConnect := none, env := env
    notes := [] }

end Ops

section Entries
variable (s : St) (p q : Ptr) (b : Bss)

@[simp] theorem entry_setEntry_self : (s.setEntry p b).entry p = b := Heap.read_set_self

theorem entry_setEntry_of_ne (hne : q ≠ p) : (s.setEntry p b).entry q = s.entry q :=
  Heap.read_set_of_ne hne

theorem entry_bssRemove (hne : q ≠ p) : (bssRemove s p).entry q = s.entry q :=
  Heap.read_free_of_ne hne

end Entries

end Wpa.BssTable
