import Wpa.Common.Crypto
import Wpa.Lib.Expiry
import Wpa.Lib.Runs

/-! The PMKSA cache of the supplicant, `rsn_supp/pmksa_cache.c`, with the `cur_pmksa` pointer and
the `free_cb` of `rsn_supp/wpa.c`. The timers that `pmksa_cache_set_expiration` arms only decide
when `pmksa_cache_expire` and `pmksa_cache_reauth` run; both are operations that may run at any
time here. -/

namespace Wpa.PmksaSupp
open Lib Lib.Expiry

def pmksaCacheMaxEntries : ℕ := 32
def pmkLenMax : ℕ := 64

structure Entry where
  ref : ℕ := 0
  pmkid : Bytes
  pmk : Bytes
  expiration : ℕ
  akmp : ℕ
  aa : Bytes
  filsCacheId : Option Bytes := none
  reauthTime : ℕ := 0
  networkCtx : ℕ := 0
  opportunistic : Bool := false
  external : Bool := false
  deriving DecidableEq

/-- Why an entry was dropped. The source does not tell evictions and flushes apart. -/
inductive Cause where
  | replaced
  | flushed
  | evicted
  | expired
  deriving DecidableEq

inductive FreeReason where
  | free
  | replace
  | expire
  deriving DecidableEq

def Cause.reason : Cause → FreeReason
  | replaced => .replace
  | flushed => .free
  | evicted => .free
  | expired => .expire

/-- One call of `free_cb`, and `cur_pmksa` as it found it. -/
structure Freed where
  entry : Entry
  cause : Cause
  curPmksa : Option ℕ
  deriving DecidableEq

structure Cache where
  pmksa : List Entry
  pmksaCount : ℤ
  curPmksa : Option ℕ
  pmk : Bytes
  nextRef : ℕ
  freed : List Freed
  deriving DecidableEq

def pmksaCacheInit : Cache :=
  { pmksa := [], pmksaCount := 0, curPmksa := none, pmk := [], nextRef := 0, freed := [] }

def isCurrent (c : Cache) (entry : Entry) : Bool := c.curPmksa == some entry.ref

/-- The PMK of the association is forgotten with a current entry that is not just replaced, and
with every expired entry that holds it. -/
def wpaSmPmksaFreeCb (entry : Entry) (reason : FreeReason) (c : Cache) : Cache :=
  let expiredPmk := reason == .expire && c.pmk == entry.pmk
  let deauth := isCurrent c entry && reason != .replace || expiredPmk
  { c with
    curPmksa := if isCurrent c entry || expiredPmk then none else c.curPmksa
    pmk := if deauth then [] else c.pmk }

def pmksaCacheFreeEntry (cause : Cause) (entry : Entry) (c : Cache) : Cache :=
  wpaSmPmksaFreeCb entry cause.reason
    { c with
      pmksaCount := c.pmksaCount - 1
      freed := c.freed ++ [{ entry, cause, curPmksa := c.curPmksa }] }

/-- The walk of `pmksa_cache_expire` from `entry` on: what stays in the list, and the rest of the
cache after the entries were freed. -/
def expireFrom (now : ℕ) : List Entry → Cache → List Entry × Cache
  | [], c => ([], c)
  | entry :: l, c =>
    if entry.expiration ≤ now then
      if wpaKeyMgmtSae entry.akmp && isCurrent c entry then
        let r := expireFrom now l c
        (entry :: r.1, r.2)
      else expireFrom now l (pmksaCacheFreeEntry .expired entry c)
    else (entry :: l, c)

def pmksaCacheExpire (now : ℕ) (c : Cache) : Cache :=
  let r := expireFrom now c.pmksa c
  { r.2 with pmksa := r.1 }

def flushMatch (networkCtx : ℕ) (pmk : Option Bytes) (externalOnly : Bool) (entry : Entry) : Bool :=
  (entry.networkCtx == networkCtx || networkCtx == 0) && (pmk.all fun k => k == entry.pmk) &&
    (!externalOnly || entry.external)

def pmksaCacheFlush (networkCtx : ℕ) (pmk : Option Bytes) (externalOnly : Bool) (c : Cache) :
    Cache :=
  let flushed := flushMatch networkCtx pmk externalOnly
  { (c.pmksa.filter flushed).foldl (fun c entry => pmksaCacheFreeEntry .flushed entry c) c with
    pmksa := c.pmksa.filter fun entry => !flushed entry }

def sameAa (aa : Bytes) (pos : Entry) : Bool := pos.aa == aa

/-- The old entry `pos` of the authenticator is unlinked first, then the entries that share its
PMK go unless it was opportunistic, and at last `pos` itself is freed. -/
def replaceEntry (networkCtx : ℕ) (pos : Entry) (c : Cache) : Cache :=
  let c := { c with pmksa := c.pmksa.eraseP (sameAa pos.aa) }
  let c := if pos.opportunistic then c else pmksaCacheFlush networkCtx (some pos.pmk) false c
  pmksaCacheFreeEntry .replaced pos c

/-- The entry that expires first makes room, or the one behind it if the first is in use. -/
def evictEntry (c : Cache) : Cache :=
  if pmksaCacheMaxEntries ≤ c.pmksaCount then
    match c.pmksa with
    | [] => c
    | pos :: l =>
      if isCurrent c pos then
        match l with
        | [] => { c with pmksa := [pos] }
        | next :: l => pmksaCacheFreeEntry .evicted next { c with pmksa := pos :: l }
      else pmksaCacheFreeEntry .evicted pos { c with pmksa := l }
  else c

def linkEntry (entry : Entry) (c : Cache) : Cache × ℕ :=
  ({ c with
      pmksa := insertBefore Entry.expiration { entry with ref := c.nextRef } c.pmksa
      pmksaCount := c.pmksaCount + 1
      nextRef := c.nextRef + 1 }, c.nextRef)

def samePmksa (entry pos : Entry) : Bool := pos.pmk == entry.pmk && pos.pmkid == entry.pmkid

/-- The cache and the address of the entry that the call returns. -/
def pmksaCacheAddEntry (entry : Entry) (c : Cache) : Cache × ℕ :=
  match c.pmksa.find? (sameAa entry.aa) with
  | some pos =>
    if samePmksa entry pos then (c, pos.ref)
    else linkEntry entry (evictEntry (replaceEntry entry.networkCtx pos c))
  | none => linkEntry entry (evictEntry c)

/-- What a call reads from `struct wpa_sm`, the clock, and the outcome of an allocation. -/
structure Params where
  now : ℕ
  ownAddr : Bytes
  dot11RSNAConfigPMKLifetime : ℕ
  dot11RSNAConfigPMKReauthThreshold : ℕ
  alloc : Bool
  deriving DecidableEq

structure AddArgs where
  pmk : Bytes
  pmkid : Option Bytes
  kck : Option Bytes
  aa : Bytes
  spa : Bytes
  networkCtx : ℕ
  akmp : ℕ
  cacheId : Option Bytes
  deriving DecidableEq

def Params.expiration (p : Params) : ℕ := p.now + p.dot11RSNAConfigPMKLifetime

/-- The product of the two settings is an `unsigned int`. -/
def Params.reauthTime (p : Params) : ℕ :=
  p.now + p.dot11RSNAConfigPMKLifetime * p.dot11RSNAConfigPMKReauthThreshold % 2 ^ 32 / 100

def addedEntry (cr : Crypto) (p : Params) (a : AddArgs) : Entry :=
  { pmkid :=
      match a.pmkid with
      | some pmkid => pmkid
      | none =>
        if a.akmp = keyMgmtIeee8021xSuiteB192 then
          rsnPmkidSuiteB192 cr (a.kck.getD []) a.aa a.spa
        else if wpaKeyMgmtSuiteB a.akmp then rsnPmkidSuiteB cr (a.kck.getD []) a.aa a.spa
        else rsnPmkid cr a.pmk a.aa a.spa a.akmp
    pmk := a.pmk
    expiration := p.expiration
    akmp := a.akmp
    aa := a.aa
    filsCacheId := a.cacheId
    reauthTime := p.reauthTime
    networkCtx := a.networkCtx }

def addAllowed (p : Params) (a : AddArgs) : Bool :=
  decide (a.pmk.length ≤ pmkLenMax) && !(wpaKeyMgmtSuiteB a.akmp && a.kck.isNone) && p.alloc

def pmksaCacheAdd (cr : Crypto) (p : Params) (a : AddArgs) (c : Cache) : Cache × Option ℕ :=
  if addAllowed p a then
    let r := pmksaCacheAddEntry (addedEntry cr p a) c
    (r.1, some r.2)
  else (c, none)

def matchesGet (aa pmkid : Option Bytes) (networkCtx akmp : ℕ) (entry : Entry) : Bool :=
  (aa.all fun a => entry.aa == a) && (pmkid.all fun id => entry.pmkid == id) &&
    (akmp == 0 || akmp == entry.akmp) && (networkCtx == 0 || networkCtx == entry.networkCtx)

def pmksaCacheGet (aa pmkid : Option Bytes) (networkCtx akmp : ℕ) (c : Cache) : Option Entry :=
  c.pmksa.find? (matchesGet aa pmkid networkCtx akmp)

def cloneArgs (p : Params) (oldEntry : Entry) (aa : Bytes) : AddArgs :=
  { pmk := oldEntry.pmk
    pmkid :=
      if wpaKeyMgmtSae oldEntry.akmp || wpaKeyMgmtFils oldEntry.akmp then some oldEntry.pmkid
      else none
    kck := none
    aa
    spa := p.ownAddr
    networkCtx := oldEntry.networkCtx
    akmp := oldEntry.akmp
    cacheId := oldEntry.filsCacheId }

/-- The fields that `pmksa_cache_clone_entry` overwrites in the entry it got from
`pmksa_cache_add`, wherever that stands in the list. -/
def overwrite (oldEntry : Entry) (ref : ℕ) (entry : Entry) : Entry :=
  if entry.ref = ref then
    { entry with
      expiration := oldEntry.expiration
      reauthTime := oldEntry.reauthTime
      opportunistic := true }
  else entry

def pmksaCacheCloneEntry (cr : Crypto) (p : Params) (oldEntry : Entry) (aa : Bytes) (c : Cache) :
    Cache × Option ℕ :=
  let r := pmksaCacheAdd cr p (cloneArgs p oldEntry aa) c
  match r.2 with
  | none => r
  | some ref => ({ r.1 with pmksa := r.1.pmksa.map (overwrite oldEntry ref) }, some ref)

def pastReauth (now : ℕ) (entry : Entry) : Bool :=
  wpaKeyMgmtSae entry.akmp && decide (entry.reauthTime < now)

def opportunisticSource (now networkCtx akmp : ℕ) (c : Cache) : Option Entry :=
  if networkCtx = 0 then none
  else
    c.pmksa.find? fun entry =>
      entry.networkCtx == networkCtx && (akmp == 0 || entry.akmp == akmp) && !pastReauth now entry

def pmksaCacheGetOpportunistic (cr : Crypto) (p : Params) (networkCtx : ℕ) (aa : Bytes)
    (akmp : ℕ) (c : Cache) : Cache × Option ℕ :=
  match opportunisticSource p.now networkCtx akmp c with
  | some entry => pmksaCacheCloneEntry cr p entry aa c
  | none => (c, none)

def pmksaCacheGetFilsCacheId (networkCtx : ℕ) (cacheId : Bytes) (c : Cache) : Option Entry :=
  c.pmksa.find? fun entry => entry.networkCtx == networkCtx && entry.filsCacheId == some cacheId

structure SelectArgs where
  pmkid : Option Bytes
  bssid : Option Bytes
  networkCtx : ℕ
  tryOpportunistic : Bool
  filsCacheId : Option Bytes
  akmp : ℕ
  deriving DecidableEq

/-- The entry that the two plain lookups of `pmksa_cache_set_current` find. -/
def lookupCurrent (a : SelectArgs) (c : Cache) : Option Entry :=
  (a.pmkid.bind fun pmkid => pmksaCacheGet none (some pmkid) a.networkCtx a.akmp c).or
    (a.bssid.bind fun bssid => pmksaCacheGet (some bssid) none a.networkCtx a.akmp c)

def pmksaCacheSetCurrent (cr : Crypto) (p : Params) (a : SelectArgs) (c : Cache) : Cache :=
  let c := { c with curPmksa := none }
  let r : Cache × Option ℕ :=
    match lookupCurrent a c, a.bssid with
    | some entry, _ => (c, some entry.ref)
    | none, some bssid =>
      if a.tryOpportunistic then pmksaCacheGetOpportunistic cr p a.networkCtx bssid a.akmp c
      else (c, none)
    | none, none => (c, none)
  let found : Option ℕ :=
    r.2.or ((a.filsCacheId.bind fun id => pmksaCacheGetFilsCacheId a.networkCtx id r.1).map
      Entry.ref)
  let stale := r.1.pmksa.any fun entry => found == some entry.ref && pastReauth p.now entry
  { r.1 with curPmksa := if stale then none else found }

inductive Op where
  | add (args : AddArgs)
  | addEntry (entry : Entry)
  | flush (networkCtx : ℕ) (pmk : Option Bytes) (externalOnly : Bool)
  | getOpportunistic (networkCtx : ℕ) (aa : Bytes) (akmp : ℕ)
  | setCurrent (args : SelectArgs)
  | expire
  -- what the state machine does to its pointer, its PMK and the current entry besides
  | assignCurrent (ref : Option ℕ)
  | setPmk (pmk : Bytes)
  | keyNegComplete
  deriving DecidableEq

structure Call where
  params : Params
  op : Op
  deriving DecidableEq

/-- `wpa_supplicant_key_neg_complete` clears the opportunistic flag of the current entry. -/
def clearOpportunistic (c : Cache) : Cache :=
  { c with
    pmksa := c.pmksa.map fun entry =>
      if isCurrent c entry then { entry with opportunistic := false } else entry }

def step (cr : Crypto) (c : Cache) (i : Call) : Cache × List Empty :=
  match i.op with
  | .add args => ((pmksaCacheAdd cr i.params args c).1, [])
  | .addEntry entry => ((pmksaCacheAddEntry entry c).1, [])
  | .flush networkCtx pmk externalOnly => (pmksaCacheFlush networkCtx pmk externalOnly c, [])
  | .getOpportunistic networkCtx aa akmp =>
    ((pmksaCacheGetOpportunistic cr i.params networkCtx aa akmp c).1, [])
  | .setCurrent args => (pmksaCacheSetCurrent cr i.params args c, [])
  | .expire => (pmksaCacheExpire i.params.now c, [])
  | .assignCurrent ref => ({ c with curPmksa := ref }, [])
  | .setPmk pmk => ({ c with pmk }, [])
  | .keyNegComplete => (clearOpportunistic c, [])

end Wpa.PmksaSupp
