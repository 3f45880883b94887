import Wpa.Lib.Bytes
import Wpa.Common.Defs

/-! Path validation of X.509 certificates in `tls/x509v3.c`. The signature check is a relation
between an issuer and a certificate that the environment provides; certificates are taken as
`x509_certificate_parse` leaves them, which yields no time before 1970. -/

namespace Wpa.X509
open Lib Bytes

inductive NameAttrType where
  | notUsed
  | dc
  | cn
  | c
  | l
  | st
  | o
  | ou
  deriving DecidableEq

structure NameAttr where
  type : NameAttrType
  value : Option Bytes
  deriving DecidableEq

/-- The part of `struct x509_name` that names are compared by. -/
structure Name where
  attr : List NameAttr := []
  email : Option Bytes := none
  deriving DecidableEq

inductive Version where
  | v1
  | v2
  | v3
  deriving DecidableEq

def extBasicConstraints : ℕ := 2 ^ 0
def extPathLenConstraint : ℕ := 2 ^ 1
def extKeyUsage : ℕ := 2 ^ 2
def keyUsageKeyCertSign : ℕ := 2 ^ 5

structure Certificate where
  version : Version := .v3
  issuer : Name := {}
  subject : Name := {}
  notBefore : ℕ := 0
  notAfter : ℕ := 0
  extensionsPresent : ℕ := 0
  ca : Bool := false
  pathLenConstraint : ℕ := 0
  keyUsage : ℕ := 0
  publicKey : Bytes := []
  tbsCert : Bytes := []
  signValue : Bytes := []
  deriving DecidableEq

/-- A certificate in a chain with the mark that validation leaves on it. -/
structure Entry where
  cert : Certificate
  issuerTrusted : Bool := false
  deriving DecidableEq

structure Env where
  now : ℕ
  disableTimeChecks : Bool := false
  /-- `x509_certificate_check_signature` of an issuer and a certificate. -/
  checkSignature : Certificate → Certificate → Bool

/-- `X509_VALIDATE_*`. -/
inductive Reason where
  | badCertificate
  | certificateExpired
  | certificateUnknown
  | unknownCa
  deriving DecidableEq

def whitespace (c : UInt8) : Bool := c == 0x20 || c == 0x09

/-- The loop of `x509_str_strip_whitespace`, which keeps one blank of each run of them and none at
the start. -/
def squeeze : Bool → Bytes → Bytes
  | _, [] => []
  | removeWhitespace, c :: cs =>
    if removeWhitespace && whitespace c then squeeze removeWhitespace cs
    else c :: squeeze (whitespace c) cs

/-- `x509_str_strip_whitespace`. A string of one blank is not reached by the test at its end. -/
def strStripWhitespace (a : Bytes) : Bytes :=
  let out := squeeze true a
  if out.length > 1 ∧ whitespace (out.getLastD 0) then out.dropLast else out

def toLower (c : UInt8) : ℕ := if 0x41 ≤ c.toNat ∧ c.toNat ≤ 0x5a then c.toNat + 32 else c.toNat

def strcasecmp : Bytes → Bytes → ℤ
  | [], [] => 0
  | [], _ :: _ => -1
  | _ :: _, [] => 1
  | x :: xs, y :: ys =>
    if toLower x < toLower y then -1
    else if toLower x > toLower y then 1
    else strcasecmp xs ys

/-- `x509_str_compare`, with memory for the copies that are stripped. -/
def strCompare : Option Bytes → Option Bytes → ℤ
  | none, some _ => -1
  | some _, none => 1
  | none, none => 0
  | some a, some b => strcasecmp (strStripWhitespace a) (strStripWhitespace b)

/-- The loop of `x509_name_compare` over two arrays of one length. -/
def attrsCompare : List NameAttr → List NameAttr → ℤ
  | a :: as, b :: bs =>
    if a.type ≠ b.type then -1
    else if strCompare a.value b.value ≠ 0 then strCompare a.value b.value
    else attrsCompare as bs
  | _, _ => 0

/-- `x509_name_compare`. -/
def nameCompare (a b : Name) : ℤ :=
  if a.attr.length < b.attr.length then -1
  else if a.attr.length > b.attr.length then 1
  else if attrsCompare a.attr b.attr ≠ 0 then attrsCompare a.attr b.attr
  else strCompare a.email b.email

/-- `x509_valid_issuer`. -/
def validIssuer (cert : Certificate) : Bool :=
  if hasBits cert.extensionsPresent extBasicConstraints ∧ ¬cert.ca then false
  else if cert.version = .v3 ∧ ¬hasBits cert.extensionsPresent extBasicConstraints then false
  else if hasBits cert.extensionsPresent extKeyUsage ∧
      ¬hasBits cert.keyUsage keyUsageKeyCertSign then false
  else true

/-- The check of a certificate against the next one of the chain. -/
def checkNext (env : Env) (idx : ℕ) (cert next : Certificate) : Except Reason Unit :=
  if nameCompare cert.issuer next.subject ≠ 0 then .error .certificateUnknown
  else if ¬validIssuer next then .error .badCertificate
  else if hasBits next.extensionsPresent extPathLenConstraint ∧ idx > next.pathLenConstraint then
    .error .badCertificate
  else if ¬env.checkSignature next cert then .error .badCertificate
  else .ok ()

/-- The search for the issuer in the trusted list; `true` if it completes the chain. -/
def checkTrust (env : Env) (trusted : List Certificate) (cert : Certificate) :
    Except Reason Bool :=
  match trusted.find? fun trust => nameCompare cert.issuer trust.subject = 0 with
  | none => .ok false
  | some trust =>
    if ¬validIssuer trust then .error .badCertificate
    else if ¬env.checkSignature trust cert then .error .badCertificate
    else .ok true

/-- What the loop does with a certificate while the chain is not yet trusted. -/
def checkCert (env : Env) (trusted : List Certificate) (idx : ℕ) (cert : Certificate)
    (next : Option Certificate) : Except Reason Bool :=
  if ¬env.disableTimeChecks ∧ (env.now < cert.notBefore ∨ env.now > cert.notAfter) then
    .error .certificateExpired
  else
    match next with
    | none => checkTrust env trusted cert
    | some next =>
      match checkNext env idx cert next with
      | .error reason => .error reason
      | .ok () => checkTrust env trusted cert

/-- The loop of `x509_certificate_chain_validate` from certificate number `idx` on: whether an
anchor was found or why the loop ended early, and the chain with its marks. -/
def validateFrom (env : Env) (trusted : List Certificate) :
    ℕ → Bool → List Entry → Except Reason Bool × List Entry
  | _, chainTrusted, [] => (.ok chainTrusted, [])
  | idx, true, entry :: rest =>
    let r := validateFrom env trusted (idx + 1) true rest
    (r.1, { entry with issuerTrusted := false } :: r.2)
  | idx, false, entry :: rest =>
    match checkCert env trusted idx entry.cert (rest.head?.map Entry.cert) with
    | .error reason => (.error reason, { entry with issuerTrusted := false } :: rest)
    | .ok anchored =>
      let r := validateFrom env trusted (idx + 1) anchored rest
      (r.1, { entry with issuerTrusted := anchored } :: r.2)

/-- `x509_certificate_chain_validate`: `ok` stands for the return value zero. -/
def certificateChainValidate (env : Env) (trusted : List Certificate) (chain : List Entry) :
    Except Reason Unit × List Entry :=
  let r := validateFrom env trusted 0 false chain
  match r.1 with
  | .error reason => (.error reason, r.2)
  | .ok chainTrusted =>
    (if ¬chainTrusted ∧ trusted ≠ [] then .error .unknownCa else .ok (), r.2)

/-- Checks against the clock are off, or the certificate is inside its validity period. -/
def InValidity (env : Env) (cert : Certificate) : Prop :=
  env.disableTimeChecks ∨ (cert.notBefore ≤ env.now ∧ env.now ≤ cert.notAfter)

/-- The issuer is named by the certificate, may issue certificates, and its key verifies it. -/
structure Issues (env : Env) (issuer cert : Certificate) : Prop where
  name : nameCompare cert.issuer issuer.subject = 0
  valid : validIssuer issuer
  signature : env.checkSignature issuer cert

section Path
variable {α : Type} {ok : α → Prop} {issues : α → α → Prop} {anchored : α → Prop}

/-- Every member of the list up to number `n` is good and issued by the next one, and member `n`
is anchored. -/
inductive Path (ok : α → Prop) (issues : α → α → Prop) (anchored : α → Prop) :
    List α → ℕ → Prop
  | anchor {c : α} {rest : List α} (hok : ok c) (h : anchored c) :
      Path ok issues anchored (c :: rest) 0
  | link {c d : α} {rest : List α} {n : ℕ} (hok : ok c) (h : issues d c)
      (hpath : Path ok issues anchored (d :: rest) n) :
      Path ok issues anchored (c :: d :: rest) (n + 1)

theorem Path.lt_length {l : List α} {n : ℕ} (h : Path ok issues anchored l n) : n < l.length := by
  induction h with
  | anchor hok h => simp
  | link hok h hpath ih =>
    rw [List.length_cons]
    omega

theorem Path.ok_of_le {l : List α} {n : ℕ} (h : Path ok issues anchored l n) {i : ℕ} (hi : i ≤ n)
    {c : α} (hc : l[i]? = some c) : ok c := by
  induction h generalizing i with
  | anchor hok h =>
    obtain rfl : i = 0 := by omega
    cases hc
    exact hok
  | link hok h hpath ih =>
    cases i with
    | zero =>
      cases hc
      exact hok
    | succ i => exact ih (by omega) hc

theorem Path.issues_of_lt {l : List α} {n : ℕ} (h : Path ok issues anchored l n) {i : ℕ}
    (hi : i < n) {c d : α} (hc : l[i]? = some c) (hd : l[i + 1]? = some d) : issues d c := by
  induction h generalizing i with
  | anchor hok h => omega
  | link hok h hpath ih =>
    cases i with
    | zero =>
      cases hc
      cases hd
      exact h
    | succ i => exact ih (by omega) hc hd

theorem Path.anchored_last {l : List α} {n : ℕ} (h : Path ok issues anchored l n) {c : α}
    (hc : l[n]? = some c) : anchored c := by
  induction h with
  | anchor hok h =>
    cases hc
    exact h
  | link hok h hpath ih => exact ih hc

end Path

section Checks
variable {env : Env} {trusted : List Certificate} {idx : ℕ} {cert next : Certificate}

theorem checkNext_ok (h : checkNext env idx cert next = .ok ()) : Issues env next cert := by
  unfold checkNext at h
  split_ifs at h with hname hvalid hlen hsig
  exact ⟨not_not.mp hname, hvalid, hsig⟩

theorem checkTrust_ok (h : checkTrust env trusted cert = .ok true) :
    ∃ trust ∈ trusted, Issues env trust cert := by
  unfold checkTrust at h
  cases hfind : trusted.find? fun trust => decide (nameCompare cert.issuer trust.subject = 0) with
  | none =>
    rw [hfind] at h
    cases h
  | some trust =>
    rw [hfind] at h
    dsimp only at h
    split_ifs at h with hvalid hsig
    have hname : nameCompare cert.issuer trust.subject = 0 := by
      simpa using List.find?_some hfind
    exact ⟨trust, List.mem_of_find?_eq_some hfind, hname, hvalid, hsig⟩

/-- What a certificate has passed when the loop goes on behind it. -/
theorem checkCert_ok {next : Option Certificate} {anchored : Bool}
    (h : checkCert env trusted idx cert next = .ok anchored) :
    InValidity env cert ∧ (∀ d ∈ next, Issues env d cert) ∧
      (anchored → ∃ trust ∈ trusted, Issues env trust cert) := by
  unfold checkCert at h
  split_ifs at h with htime
  have hvalid : InValidity env cert := by
    unfold InValidity
    by_cases hoff : env.disableTimeChecks
    · exact Or.inl hoff
    · right
      have hin : ¬(env.now < cert.notBefore ∨ env.now > cert.notAfter) :=
        fun hout => htime ⟨hoff, hout⟩
      omega
  cases next with
  | none =>
    refine ⟨hvalid, by simp, ?_⟩
    rintro rfl
    exact checkTrust_ok h
  | some d =>
    dsimp only at h
    cases hnext : checkNext env idx cert d with
    | error reason =>
      rw [hnext] at h
      cases h
    | ok u =>
      rw [hnext] at h
      refine ⟨hvalid, ?_, ?_⟩
      · rintro d' hd'
        cases hd'
        exact checkNext_ok hnext
      · rintro rfl
        exact checkTrust_ok h

end Checks

section Validate
variable {env : Env} {trusted : List Certificate}

/-- A chain that is trusted already keeps its certificates and loses its marks. -/
theorem validateFrom_trusted (idx : ℕ) (chain : List Entry) :
    validateFrom env trusted idx true chain =
      (.ok true, chain.map fun entry => { entry with issuerTrusted := false }) := by
  induction chain generalizing idx with
  | nil => rfl
  | cons entry rest ih => simp [validateFrom, ih]

/-- The chain with a mark on certificate number `n` alone. -/
def marked (chain : List Entry) (n : ℕ) : List Entry :=
  chain.mapIdx fun i entry => { entry with issuerTrusted := decide (i = n) }

theorem marked_cons_succ (entry : Entry) (rest : List Entry) (n : ℕ) :
    marked (entry :: rest) (n + 1) = { entry with issuerTrusted := false } :: marked rest n := by
  simp [marked, List.mapIdx_cons]

theorem marked_cons_zero (entry : Entry) (rest : List Entry) :
    marked (entry :: rest) 0 = { entry with issuerTrusted := true } ::
      rest.map fun entry => { entry with issuerTrusted := false } := by
  apply List.ext_getElem?
  intro i
  cases i with
  | zero => simp [marked]
  | succ i => simp [marked]

theorem getElem?_marked (chain : List Entry) (n i : ℕ) :
    (marked chain n)[i]? =
      chain[i]?.map fun entry => { entry with issuerTrusted := decide (i = n) } := by
  simp [marked]

/-- The loop that finds an anchor has walked a path to it. -/
theorem validateFrom_path {idx : ℕ} {chain : List Entry}
    (h : (validateFrom env trusted idx false chain).1 = .ok true) :
    ∃ n, Path (InValidity env) (Issues env) (fun c => ∃ trust ∈ trusted, Issues env trust c)
      (chain.map Entry.cert) n ∧ (validateFrom env trusted idx false chain).2 = marked chain n := by
  induction chain generalizing idx with
  | nil => cases h
  | cons entry rest ih =>
    rw [validateFrom] at h ⊢
    cases hcheck : checkCert env trusted idx entry.cert (rest.head?.map Entry.cert) with
    | error reason =>
      rw [hcheck] at h
      cases h
    | ok anchored =>
      rw [hcheck] at h
      obtain ⟨hvalid, hnext, htrust⟩ := checkCert_ok hcheck
      cases anchored with
      | true =>
        refine ⟨0, .anchor hvalid (htrust rfl), ?_⟩
        rw [marked_cons_zero]
        simp only [validateFrom_trusted]
      | false =>
        obtain ⟨n, hpath, hmarks⟩ := ih h
        cases rest with
        | nil => cases hpath
        | cons entry' rest =>
          refine ⟨n + 1, .link hvalid (hnext entry'.cert rfl) hpath, ?_⟩
          rw [marked_cons_succ]
          simp only [hmarks]

/-- With a trusted list a chain passes only if the loop has found an anchor. -/
theorem validateFrom_of_valid {chain : List Entry} (htrusted : trusted ≠ [])
    (h : (certificateChainValidate env trusted chain).1 = .ok ()) :
    (validateFrom env trusted 0 false chain).1 = .ok true ∧
      (certificateChainValidate env trusted chain).2 =
        (validateFrom env trusted 0 false chain).2 := by
  unfold certificateChainValidate at h ⊢
  cases hr : (validateFrom env trusted 0 false chain).1 with
  | error reason => simp [hr] at h
  | ok chainTrusted => cases chainTrusted <;> simp_all

end Validate

def exampleCa (cn : Bytes) (key sig : Bytes) : Certificate where
  issuer := { attr := [⟨.cn, some [0x72]⟩] }
  subject := { attr := [⟨.cn, some cn⟩] }
  notAfter := 10
  extensionsPresent := extBasicConstraints
  ca := true
  publicKey := key
  signValue := sig

def exampleEnv : Env where
  now := 5
  checkSignature issuer cert := issuer.publicKey = cert.signValue

def exampleChain : List Entry :=
  [⟨exampleCa [0x61] [2] [1], false⟩, ⟨exampleCa [0x72] [1] [1], true⟩]

end Wpa.X509
