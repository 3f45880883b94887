import Wpa.Tls.Asn1RoundTrip
import Wpa.Tls.X509

/-! The path length constraint of `tls/x509v3.c`: how it is read from the basic constraints of a
certificate, and which issuers of an accepted chain it binds. -/

namespace Wpa.X509
open Lib Bytes Asn1

/-- `asn1_is_sequence` and its kin. -/
def isUniversal (hdr : Hdr) (tag : ℕ) : Bool := hdr.cls == classUniversal && hdr.tag == tag

/-- The part of `x509_parse_ext_basic_constraints` behind `cA`: the value of `buf` with the header
`hdr`, into an `unsigned long` of `w` bits. -/
def parsePathLen (w : ℕ) (cert : Certificate) (buf : Bytes) (hdr : Hdr) : Option Certificate :=
  if ¬ isUniversal hdr tagInteger then none
  else
    let value := (buf.slice hdr.payload hdr.length).foldl (fun v x => (v * 256 + x.toNat) % 2 ^ w) 0
    some { cert with
      pathLenConstraint := value
      extensionsPresent := cert.extensionsPresent ||| extPathLenConstraint }

def parseExtBasicConstraints (w : ℕ) (cert : Certificate) (buf : Bytes) : Option Certificate := do
  let hdr ← getNext buf
  if ¬ isUniversal hdr tagSequence then none
  else
    let cert :=
      { cert with extensionsPresent := cert.extensionsPresent ||| extBasicConstraints }
    if hdr.length = 0 then some cert
    else
      let seq := buf.slice hdr.payload hdr.length
      let hdr ← getNext seq
      if isUniversal hdr tagBoolean then
        let cert := { cert with ca := seq.byteAt hdr.payload ≠ 0 }
        let rest := seq.drop (hdr.payload + hdr.length)
        if rest = [] then some cert
        else
          let hdr ← getNext rest
          parsePathLen w cert rest hdr
      else parsePathLen w cert seq hdr

/-- The basic constraints with a path length, where no length takes more than one octet. -/
def derBasicConstraints (ca : Bool) (value : Bytes) : Bytes :=
  0x30 :: UInt8.ofNat (value.length + 5) ::
    0x01 :: 0x01 :: (if ca then 0xff else 0) :: 0x02 :: UInt8.ofNat value.length :: value

theorem foldl_pathLen (w v : ℕ) (value : Bytes) :
    value.foldl (fun v x => (v * 256 + x.toNat) % 2 ^ w) (v % 2 ^ w) =
      (v * 256 ^ value.length + value.beNat) % 2 ^ w := by
  induction value generalizing v with
  | nil => rw [List.foldl_nil, List.length_nil, pow_zero, mul_one, beNat, add_zero]
  | cons x value ih =>
    have hstep : (v % 2 ^ w * 256 + x.toNat) % 2 ^ w = (v * 256 + x.toNat) % 2 ^ w := by
      rw [Nat.add_mod, Nat.mod_mul_mod, ← Nat.add_mod]
    rw [List.foldl_cons, hstep, ih, beNat, List.length_cons]
    congr 1
    ring

/-- What is written into the basic constraints is read back. -/
theorem parseExtBasicConstraints_eq (w : ℕ) (cert : Certificate) (ca : Bool) {value : Bytes}
    (h : value.length ≤ 100) :
    parseExtBasicConstraints w cert (derBasicConstraints ca value) = some { cert with
      extensionsPresent := cert.extensionsPresent ||| extBasicConstraints ||| extPathLenConstraint
      ca := ca
      pathLenConstraint := value.beNat % 2 ^ w } := by
  obtain ⟨integer, hint⟩ : ∃ integer : Bytes, integer = 0x02 :: UInt8.ofNat value.length :: value :=
    ⟨_, rfl⟩
  obtain ⟨seq, hseq⟩ : ∃ seq : Bytes, seq = 0x01 :: 0x01 :: (if ca then 0xff else 0) :: integer :=
    ⟨_, rfl⟩
  have hlen : seq.length = value.length + 5 := by rw [hseq, hint]; rfl
  have hread : getNext (derBasicConstraints ca value) =
      some ⟨2, 0x30, classUniversal, true, tagSequence, value.length + 5⟩ := by
    have hshort := @getNext_short 0x30 seq [] (by decide)
      (by omega) (by rw [List.append_nil]; omega) rfl
    rw [List.append_nil, hlen, hseq, hint] at hshort
    exact hshort
  have hslice : (derBasicConstraints ca value).slice 2 (value.length + 5) = seq := by
    rw [← hlen, hseq, hint]
    exact List.take_of_length_le le_rfl
  have hboolean : getNext seq = some ⟨2, 0x01, classUniversal, false, tagBoolean, 1⟩ := by
    have hroom : ([if ca then (0xff : UInt8) else 0] ++ integer).length < 2 ^ 32 := by
      rw [hint, List.length_append, List.length_cons, List.length_cons]
      simp only [List.length_cons, List.length_nil]
      omega
    rw [hseq]
    exact @getNext_short 0x01 [if ca then 0xff else 0] integer (by decide) (by simp) hroom
      (by cases ca <;> rfl)
  have hca : decide (seq.byteAt 2 ≠ 0) = ca := by
    rw [hseq]
    cases ca <;> rfl
  have hrest : seq.drop 3 = integer := by rw [hseq]; rfl
  have hvalue := foldl_pathLen w 0 value
  rw [Nat.zero_mod, zero_mul, zero_add] at hvalue
  have hcontent : integer.slice 2 value.length = value := by
    rw [hint]
    exact List.take_of_length_le le_rfl
  have hinteger : getNext integer =
      some ⟨2, tagInteger, classUniversal, false, tagInteger, value.length⟩ := by
    rw [hint]
    exact getNext_small (.inl rfl) (by omega)
  have hne : integer ≠ [] := by
    rw [hint]
    exact List.cons_ne_nil _ _
  rw [parseExtBasicConstraints, hread]
  simp only [Option.bind_eq_bind, Option.bind_some, hslice, hboolean, hca, hrest, hinteger,
    if_neg hne, parsePathLen, hcontent, hvalue]
  rfl

/-- The trusted certificate that is taken for the issuer. -/
def findTrust (trusted : List Certificate) (cert : Certificate) : Option Certificate :=
  trusted.find? fun trust => nameCompare cert.issuer trust.subject = 0

/-- The number of the first certificate whose issuer is in the trusted list. -/
def pathEnd (trusted : List Certificate) (chain : List Entry) : ℕ :=
  chain.findIdx fun e => (findTrust trusted e.cert).isSome

/-- The constraint of an issuer, if it carries one, allows so many certificates between it and the
end certificate. -/
def Allows (issuer : Certificate) (between : ℕ) : Prop :=
  hasBits issuer.extensionsPresent extPathLenConstraint = true → between ≤ issuer.pathLenConstraint

/-- The constraints of all issuers on the path are met. -/
structure PathLensMet (trusted : List Certificate) (chain : List Entry) : Prop where
  intermediate : ∀ i < pathEnd trusted chain, ∀ e ∈ chain[i + 1]?, Allows e.cert i
  anchor : ∀ e ∈ chain[pathEnd trusted chain]?, ∀ trust ∈ findTrust trusted e.cert,
    Allows trust (pathEnd trusted chain)

section Checks
variable {env : Env} {trusted : List Certificate} {idx : ℕ} {cert next : Certificate}

theorem checkNext_allows (h : checkNext env idx cert next = .ok ()) : Allows next idx := by
  unfold checkNext at h
  split_ifs at h with hname hvalid hlen hsig
  intro hbit
  by_contra hgt
  exact hlen ⟨hbit, Nat.lt_of_not_le hgt⟩

theorem checkTrust_found {anchored : Bool} (h : checkTrust env trusted cert = .ok anchored) :
    anchored = (findTrust trusted cert).isSome := by
  unfold checkTrust at h
  rw [findTrust]
  cases hfind : trusted.find? fun trust => decide (nameCompare cert.issuer trust.subject = 0) with
  | none =>
    rw [hfind] at h
    exact (Except.ok.inj h).symm
  | some trust =>
    rw [hfind] at h
    dsimp only at h
    split_ifs at h
    exact (Except.ok.inj h).symm

theorem checkCert_allows {next : Option Certificate} {anchored : Bool}
    (h : checkCert env trusted idx cert next = .ok anchored) :
    anchored = (findTrust trusted cert).isSome ∧ ∀ d ∈ next, Allows d idx := by
  unfold checkCert at h
  split_ifs at h
  cases next with
  | none => exact ⟨checkTrust_found h, by simp⟩
  | some d =>
    dsimp only at h
    cases hnext : checkNext env idx cert d with
    | error reason =>
      rw [hnext] at h
      cases h
    | ok u =>
      rw [hnext] at h
      refine ⟨checkTrust_found h, fun d' hd' => ?_⟩
      cases hd'
      exact checkNext_allows hnext

/-- The loop ends its search at the first trusted issuer, and each issuer in the chain up to there
allows the certificates in front of it. -/
theorem validateFrom_allows {chain : List Entry}
    (h : (validateFrom env trusted idx false chain).1 = .ok true) :
    pathEnd trusted chain < chain.length ∧
      ∀ i < pathEnd trusted chain, ∀ e ∈ chain[i + 1]?, Allows e.cert (idx + i) := by
  induction chain generalizing idx with
  | nil => cases h
  | cons entry rest ih =>
    rw [validateFrom] at h
    cases hcheck : checkCert env trusted idx entry.cert (rest.head?.map Entry.cert) with
    | error reason =>
      rw [hcheck] at h
      cases h
    | ok anchored =>
      rw [hcheck] at h
      obtain ⟨hfound, hnext⟩ := checkCert_allows hcheck
      rw [pathEnd, List.findIdx_cons, ← hfound]
      cases anchored with
      | true => exact ⟨Nat.succ_pos _, fun i hi => absurd hi (Nat.not_lt_zero i)⟩
      | false =>
        obtain ⟨hlt, hallows⟩ := ih h
        refine ⟨Nat.succ_lt_succ hlt, fun i hi e he => ?_⟩
        cases i with
        | zero =>
          rw [List.getElem?_cons_succ, ← List.head?_eq_getElem?] at he
          exact hnext e.cert (Option.mem_map_of_mem _ he)
        | succ i =>
          have hrest := hallows i (Nat.lt_of_succ_lt_succ hi) e he
          rwa [Nat.succ_add_eq_add_succ] at hrest

end Checks

/-- An issuer that was read with a path length allows no more than was written. -/
theorem le_beNat_of_allows {w between : ℕ} {cert issuer : Certificate} {ca : Bool} {value : Bytes}
    (hlen : value.length ≤ 100)
    (hissuer : parseExtBasicConstraints w cert (derBasicConstraints ca value) = some issuer)
    (h : Allows issuer between) : between ≤ value.beNat := by
  rw [parseExtBasicConstraints_eq w cert ca hlen] at hissuer
  obtain rfl := Option.some.inj hissuer
  have hbit : hasBits (cert.extensionsPresent ||| extBasicConstraints ||| extPathLenConstraint)
      extPathLenConstraint = true := by
    rw [hasBits, bne_iff_ne, Nat.and_or_distrib_right, Nat.and_self, Ne, Nat.or_eq_zero_iff, not_and]
    exact fun _ => by decide
  exact (h hbit).trans (Nat.mod_le _ _)

/-- In an accepted chain the issuers in the chain are bound, and so all are exactly if the trusted
certificate that ends the path is: the loop does not look at its constraint. -/
theorem chain_pathLensMet_iff (env : Env) (trusted : List Certificate) (chain : List Entry)
    (htrusted : trusted ≠ []) (h : (certificateChainValidate env trusted chain).1 = .ok ()) :
    ∃ e trust, chain[pathEnd trusted chain]? = some e ∧ findTrust trusted e.cert = some trust ∧
      (∀ i < pathEnd trusted chain, ∀ e ∈ chain[i + 1]?, Allows e.cert i) ∧
      (PathLensMet trusted chain ↔
        hasBits trust.extensionsPresent extPathLenConstraint = false ∨
          pathEnd trusted chain ≤ trust.pathLenConstraint) := by
  obtain ⟨hlt, hallows⟩ := validateFrom_allows (validateFrom_of_valid htrusted h).1
  simp only [Nat.zero_add] at hallows
  have hfound : (findTrust trusted chain[pathEnd trusted chain].cert).isSome = true :=
    List.findIdx_getElem (w := hlt)
  obtain ⟨trust, htrust⟩ := Option.isSome_iff_exists.mp hfound
  have hend : chain[pathEnd trusted chain]? = some chain[pathEnd trusted chain] :=
    List.getElem?_eq_getElem hlt
  refine ⟨_, trust, hend, htrust, hallows, ?_⟩
  have hbool : Allows trust (pathEnd trusted chain) ↔
      hasBits trust.extensionsPresent extPathLenConstraint = false ∨
        pathEnd trusted chain ≤ trust.pathLenConstraint := by
    rw [Allows, ← Bool.not_eq_true, imp_iff_not_or]
  rw [← hbool]
  constructor
  · exact fun hmet => hmet.anchor _ hend trust htrust
  · intro hanchor
    refine ⟨hallows, fun e he t ht => ?_⟩
    obtain rfl := Option.some.inj (hend.symm.trans he)
    obtain rfl := Option.some.inj (htrust.symm.trans ht)
    exact hanchor

/-- A trusted certificate that allows `n` certificates between it and the end certificate. -/
def limitedCa (n : ℕ) : Certificate :=
  { exampleCa [0x72] [1] [1] with
    extensionsPresent := extBasicConstraints ||| extPathLenConstraint, pathLenConstraint := n }

/-- An end certificate and the one certificate between it and the trusted one. -/
def oneBetween : List Entry :=
  [⟨{ exampleCa [0x62] [3] [2] with issuer := { attr := [⟨.cn, some [0x61]⟩] } }, false⟩,
    ⟨exampleCa [0x61] [2] [1], false⟩]

theorem oneBetween_met :
    (certificateChainValidate exampleEnv [limitedCa 1] oneBetween).1 = .ok () ∧
      PathLensMet [limitedCa 1] oneBetween := by
  have hvalid : (certificateChainValidate exampleEnv [limitedCa 1] oneBetween).1 = .ok () := by
    decide
  obtain ⟨e, trust, -, htrust, -, hiff⟩ :=
    chain_pathLensMet_iff exampleEnv [limitedCa 1] oneBetween (by decide) hvalid
  refine ⟨hvalid, hiff.mpr (.inr ?_)⟩
  obtain rfl := List.mem_singleton.mp (List.mem_of_find?_eq_some htrust)
  decide

/-- A trusted certificate that allows none in between is taken all the same. -/
theorem oneBetween_accepted :
    (certificateChainValidate exampleEnv [limitedCa 0] oneBetween).1 = .ok () ∧
      ¬ PathLensMet [limitedCa 0] oneBetween := by
  refine ⟨by decide, fun hmet => ?_⟩
  have hend := hmet.anchor ⟨exampleCa [0x61] [2] [1], false⟩ (by decide) (limitedCa 0) (by decide)
    (by decide)
  exact absurd hend (by decide)

end Wpa.X509
