import Wpa.Lib.Octets

/-! Milenage: the authentication vector that the network generates, its check in the SIM and the
resynchronisation token that the SIM answers with. `aes_128_encrypt_block` is a parameter; `none`
stands for its error return. -/

namespace Wpa.Milenage
open Lib Octets

abbrev Block := Octets 16

variable (aes : Block → Block → Option Block)

/-- MAC-A and MAC-S, the two halves of the last block. -/
def f1 (opc k rand : Block) (sqn : Octets 6) (amf : Octets 2) : Option (Octets 8 × Octets 8) := do
  let tmp1 ← aes k (xor rand opc)
  let half : Octets 8 := Fin.append sqn amf
  let tmp2 : Block := Fin.append half half
  -- rotate by r1 = 8 octets, c1 is zero
  let tmp3 := xor (rotate 8 (xor tmp2 opc)) tmp1
  let out ← aes k tmp3
  let mac : Octets (8 + 8) := xor out opc
  some (left mac, right mac)

/-- Which of the output buffers of `milenage_f2345` are not null. -/
structure Want where
  res : Bool
  ck : Bool
  ik : Bool
  ak : Bool
  akstar : Bool

/-- The buffers as they are left, `none` where the caller passed a null pointer. -/
structure F2345 where
  res : Option (Octets 8)
  ck : Option Block
  ik : Option Block
  ak : Option (Octets 6)
  akstar : Option (Octets 6)
  deriving DecidableEq

/-- `E_K(rot(TEMP XOR OP_C, r) XOR c) XOR OP_C`, where `c` is in the last octet. -/
def out (opc k temp : Block) (r : Fin 16) (c : UInt8) : Option Block := do
  let tmp1 := rotate r (xor temp opc)
  let tmp3 ← aes k (Function.update tmp1 15 (tmp1 15 ^^^ c))
  some (xor tmp3 opc)

/-- A buffer that is filled only if the caller wants it. -/
def wanted {α : Type} (want : Bool) (x : Option α) : Option (Option α) :=
  if want then x.map some else some none

def f2345 (opc k rand : Block) (want : Want) : Option F2345 := do
  let temp ← aes k (xor rand opc)
  let out2 ← out aes opc k temp 0 1
  let ck ← wanted want.ck (out aes opc k temp 12 2)
  let ik ← wanted want.ik (out aes opc k temp 8 4)
  let out5 ← wanted want.akstar (out aes opc k temp 4 8)
  some
    { res := if want.res then some (right (show Octets (8 + 8) from out2)) else none
      ck := ck
      ik := ik
      ak := if want.ak then some (left (show Octets (6 + 10) from out2)) else none
      akstar := out5.map fun b => left (show Octets (6 + 10) from b) }

structure AuthVector where
  autn : Block
  ik : Option Block
  ck : Option Block
  res : Option (Octets 8)
  deriving DecidableEq

/-- `none` stands for `*res_len` set to 0. -/
def generate (opc : Block) (amf : Octets 2) (k : Block) (sqn : Octets 6) (rand : Block)
    (resLen : ℕ) : Option AuthVector := do
  if resLen < 8 then
    none
  else
    let (macA, _) ← f1 aes opc k rand sqn amf
    let v ← f2345 aes opc k rand ⟨true, true, true, true, false⟩
    let ak ← v.ak
    some
      { autn := (Fin.append (Fin.append (xor sqn ak) amf) macA : Octets (6 + 2 + 8))
        ik := v.ik
        ck := v.ck
        res := v.res }

/-- The sequence number of AUTS, if its MAC-S is right. -/
def auts (opc k rand : Block) (auts : Octets 14) : Option (Octets 6) := do
  let v ← f2345 aes opc k rand ⟨false, false, false, false, true⟩
  let ak ← v.akstar
  let auts : Octets (6 + 8) := auts
  let sqn := xor (left auts) ak
  let (_, macS) ← f1 aes opc k rand sqn (fun _ => 0)
  if macS = right auts then some sqn else none

/-- What `milenage_check` returns and leaves in its buffers. -/
structure Checked where
  ret : ℤ
  ik : Option Block
  ck : Option Block
  res : Option (Octets 8)
  auts : Option (Octets 14)
  deriving DecidableEq

def Checked.failed : Checked := ⟨-1, none, none, none, none⟩

def check (opc k : Block) (sqn : Octets 6) (rand autn : Block) : Checked :=
  match f2345 aes opc k rand ⟨true, true, true, true, false⟩ with
  | some { res, ck, ik, ak := some ak, .. } =>
    let autn : Octets (6 + 2 + 8) := autn
    let rxSqn := xor (left (left autn)) ak
    if memcmp rxSqn sqn ≤ 0 then
      match f2345 aes opc k rand ⟨false, false, false, false, true⟩ with
      | some { akstar := some ak, .. } =>
        match f1 aes opc k rand sqn (fun _ => 0) with
        | some (_, macS) =>
          ⟨-2, ik, ck, res, some (Fin.append (xor sqn ak) macS : Octets (6 + 8))⟩
        | none => ⟨-1, ik, ck, res, none⟩
      | _ => ⟨-1, ik, ck, res, none⟩
    else
      match f1 aes opc k rand rxSqn (right (left autn)) with
      | some (macA, _) => ⟨if macA = right autn then 0 else -1, ik, ck, res, none⟩
      | none => ⟨-1, ik, ck, res, none⟩
  | _ => .failed

/-! ### Both sides compute the same masked values -/

/-- An encryption that never fails. -/
def total (E : Block → Block → Block) : Block → Block → Option Block := fun k b => some (E k b)

section
variable (E : Block → Block → Block) (opc k rand : Block)

theorem f1_total (sqn : Octets 6) (amf : Octets 2) :
    ∃ macA macS, f1 (total E) opc k rand sqn amf = some (macA, macS) := ⟨_, _, rfl⟩

theorem f2345_total : ∃ res ck ik ak,
    f2345 (total E) opc k rand ⟨true, true, true, true, false⟩ =
      some ⟨some res, some ck, some ik, some ak, none⟩ := ⟨_, _, _, _, rfl⟩

/-- The key of the resynchronisation depends on RAND and the subscriber only. -/
theorem f2345_star_total : ∃ akstar,
    f2345 (total E) opc k rand ⟨false, false, false, false, true⟩ =
      some ⟨none, none, none, none, some akstar⟩ := ⟨_, rfl⟩

/-- The vector holds the sequence number under AK, the AMF and MAC-A of both. -/
theorem generate_total (sqn : Octets 6) (amf : Octets 2) {resLen : ℕ} (hres : 8 ≤ resLen) : ∃ res ck ik ak macA macS,
    f2345 (total E) opc k rand ⟨true, true, true, true, false⟩ =
      some ⟨some res, some ck, some ik, some ak, none⟩ ∧
    f1 (total E) opc k rand sqn amf = some (macA, macS) ∧
    generate (total E) opc amf k sqn rand resLen =
      some ⟨(Fin.append (Fin.append (xor sqn ak) amf) macA : Octets (6 + 2 + 8)),
        some ik, some ck, some res⟩ := by
  obtain ⟨macA, macS, hf1⟩ := f1_total E opc k rand sqn amf
  obtain ⟨res, ck, ik, ak, hf⟩ := f2345_total E opc k rand
  refine ⟨res, ck, ik, ak, macA, macS, hf, hf1, ?_⟩
  simp only [generate, if_neg (not_lt.mpr hres), hf1, hf, Option.bind_eq_bind, Option.bind_some]

variable {E opc k rand} {sqn s : Octets 6} {amf : Octets 2}

/-- What the SIM answers to a vector of the network: it accepts a larger number and answers any
other with a token that carries its own. -/
theorem check_of_vector {res : Octets 8} {ck ik : Block} {ak : Octets 6} {macA macS : Octets 8}
    (hf : f2345 (total E) opc k rand ⟨true, true, true, true, false⟩ =
      some ⟨some res, some ck, some ik, some ak, none⟩)
    (hf1 : f1 (total E) opc k rand sqn amf = some (macA, macS)) :
    let c := check (total E) opc k s rand
      (Fin.append (Fin.append (xor sqn ak) amf) macA : Octets (6 + 2 + 8))
    (s.value < sqn.value → c = ⟨0, some ik, some ck, some res, none⟩) ∧
    (sqn.value ≤ s.value → ∃ akstar mac' macS',
      f2345 (total E) opc k rand ⟨false, false, false, false, true⟩ =
        some ⟨none, none, none, none, some akstar⟩ ∧
      f1 (total E) opc k rand s (fun _ => 0) = some (mac', macS') ∧
      c = ⟨-2, some ik, some ck, some res,
        some (Fin.append (xor s akstar) macS' : Octets (6 + 8))⟩) := by
  intro c
  constructor
  · intro hlt
    have hcmp : ¬ memcmp sqn s ≤ 0 := fun h => absurd ((memcmp_nonpos_iff sqn s).mp h) (not_le.mpr hlt)
    simp only [c, check, hf, left_append, right_append, xor_xor_cancel, if_neg hcmp, hf1, if_true]
  · intro hle
    have hcmp : memcmp sqn s ≤ 0 := (memcmp_nonpos_iff sqn s).mpr hle
    obtain ⟨akstar, hstar⟩ := f2345_star_total E opc k rand
    obtain ⟨mac', macS', hf1'⟩ := f1_total E opc k rand s fun _ => 0
    refine ⟨akstar, mac', macS', hstar, hf1', ?_⟩
    simp only [c, check, hf, left_append, xor_xor_cancel, if_pos hcmp, hstar, hf1']

/-- The network reads the SIM's number out of the token. -/
theorem auts_of_token {akstar : Octets 6} {mac' macS' : Octets 8}
    (hstar : f2345 (total E) opc k rand ⟨false, false, false, false, true⟩ =
      some ⟨none, none, none, none, some akstar⟩)
    (hf1 : f1 (total E) opc k rand s (fun _ => 0) = some (mac', macS')) :
    auts (total E) opc k rand (Fin.append (xor s akstar) macS' : Octets (6 + 8)) = some s := by
  simp only [auts, hstar, hf1, left_append, right_append, xor_xor_cancel, Option.bind_eq_bind,
    Option.bind_some, if_true]

end

/-- For every block cipher, subscriber and pair of sequence numbers: the SIM accepts exactly the
larger number of the network and then holds the same keys and response; otherwise its token
brings the network to the SIM's number. -/
theorem network_and_sim_agree (E : Block → Block → Block) (opc k rand : Block) (amf : Octets 2)
    (n s : Octets 6) {resLen : ℕ} (hres : 8 ≤ resLen) :
    ∃ v, generate (total E) opc amf k n rand resLen = some v ∧
      let c := check (total E) opc k s rand v.autn
      (c.ret = 0 ↔ s.value < n.value) ∧
      (s.value < n.value → v.res.isSome ∧ c.res = v.res ∧ c.ck = v.ck ∧ c.ik = v.ik) ∧
      (n.value ≤ s.value → c.ret = -2 ∧
        ∃ token, c.auts = some token ∧ auts (total E) opc k rand token = some s) := by
  obtain ⟨res, ck, ik, ak, macA, macS, hf, hf1, hgen⟩ :=
    generate_total E opc k rand n amf hres
  refine ⟨_, hgen, ?_⟩
  intro c
  obtain ⟨haccept, hresync⟩ := check_of_vector (s := s) hf hf1
  refine ⟨⟨?_, ?_⟩, ?_, ?_⟩
  · intro hret
    by_contra hle
    obtain ⟨akstar, mac', macS', -, -, hc⟩ := hresync (not_lt.mp hle)
    have hret' : c.ret = -2 := congrArg Checked.ret hc
    omega
  · intro hlt
    exact congrArg Checked.ret (haccept hlt)
  · intro hlt
    have hc : c = _ := haccept hlt
    rw [hc]
    exact ⟨rfl, rfl, rfl, rfl⟩
  · intro hle
    obtain ⟨akstar, mac', macS', hstar, hf1', hc⟩ := hresync hle
    refine ⟨congrArg Checked.ret hc, _, congrArg Checked.auts hc, auts_of_token hstar hf1'⟩

theorem network_and_sim_agree_next :
    ∃ v, generate (total xor) (fun _ => 1) (fun _ => 2) (fun _ => 3) (fun _ => 5) (fun _ => 7) 16 =
        some v ∧
      (check (total xor) (fun _ => 1) (fun _ => 3) (fun _ => 4) (fun _ => 7) v.autn).ret = 0 := by
  obtain ⟨v, hv, haccept, -, -⟩ := network_and_sim_agree xor (fun _ => 1) (fun _ => 3) (fun _ => 7)
    (fun _ => 2) (fun _ => 5) (fun _ => 4) (show 8 ≤ 16 by decide)
  exact ⟨v, hv, haccept.mpr (by decide)⟩

end Wpa.Milenage
