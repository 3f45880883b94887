import Wpa.Rsn.Association
import Wpa.Lib.Runs

/-! No temporal key goes to the driver twice within one association, in whatever order messages
arrive. An SNonce is used up when the key derived from it is confirmed; from then on every new key
has another SNonce, and so is another key. -/

namespace Wpa.Rsn
open Lib Bytes Prog Relation

/-- A PTK with the nonces that it was derived from. -/
structure Derivation where
  anonce : Bytes
  snonce : Bytes
  ptk : Ptk
  deriving DecidableEq

def Act.derivation : Act → Option Derivation
  | .derivePtk anonce snonce ptk => some ⟨anonce, snonce, ptk⟩
  | _ => none

def Act.snonce : Act → Option Bytes
  | .renewSnonce r => some r
  | _ => none

/-- The temporal key that `wpa_supplicant_install_ptk` hands to the driver. -/
def Act.installedTk : Act → Option Bytes
  | .setKey k => if k.kind = .ptk then some k.key else none
  | _ => none

def derivations (out : List Act) : List Derivation := out.filterMap Act.derivation

/-- The SNonces that came from `random_get_bytes`, in order. -/
def drawnSnonces (out : List Act) : List Bytes := out.filterMap Act.snonce

def installedTks (out : List Act) : List Bytes := out.filterMap Act.installedTk

/-- What the cryptography and the random numbers promise, given the keys derived before the
association: no SNonce comes twice, and one temporal key is not derived from two pairs of nonces. -/
structure Fresh (given : List Derivation) (out : List Act) : Prop where
  snonces : (given.map Derivation.snonce ++ drawnSnonces out).Nodup
  injective : ∀ d₁ ∈ given ++ derivations out, ∀ d₂ ∈ given ++ derivations out,
    d₁.ptk.tk ≠ [] → d₁.ptk.tk = d₂.ptk.tk → d₁.anonce = d₂.anonce ∧ d₁.snonce = d₂.snonce

/-- The keys that an association takes over: a TPTK that waits to be confirmed and a PTK. -/
structure TakenOver (pending used : List Derivation) (sm : Sm) : Prop where
  tptk : sm.tptkSet → ∃ d ∈ pending, d.ptk = sm.tptk
  ptk : sm.ptk.installed = false → sm.ptk.tk ≠ [] → ∃ d ∈ used, d.ptk.tk = sm.ptk.tk

/-- The invariant, with the list of the SNonces whose keys have been confirmed. -/
structure InstallInv (given : List Derivation) (confirmed : List Bytes) (out : List Act) (sm : Sm) :
    Prop where
  installed : (installedTks out).Nodup
  source : ∀ tk ∈ installedTks out, ∃ d ∈ given ++ derivations out,
    d.ptk.tk = tk ∧ tk ≠ [] ∧ d.snonce ∈ confirmed
  drawn : ∀ d ∈ derivations out, d.snonce ∈ drawnSnonces out
  bound : ∀ r ∈ confirmed, r ∈ given.map Derivation.snonce ∨ r ∈ drawnSnonces out
  snonce : sm.renewSnonce = false → sm.snonce ∈ drawnSnonces out ∧ sm.snonce ∉ confirmed
  tptk : sm.tptkSet → ∃ d ∈ given ++ derivations out, d.ptk = sm.tptk ∧ d.snonce ∉ confirmed
  ptk : sm.ptk.installed = false → sm.ptk.tk ≠ [] → sm.ptk.tk ∉ installedTks out ∧
    ∃ d ∈ given ++ derivations out, d.ptk.tk = sm.ptk.tk ∧ d.snonce ∈ confirmed

/-- What the invariant is about. -/
def Sm.pairwise (sm : Sm) : Bytes × Bool × Bool × Ptk × Ptk :=
  (sm.snonce, sm.renewSnonce, sm.tptkSet, sm.tptk, sm.ptk)

def Act.silent (a : Act) : Bool :=
  a.derivation.isNone && a.snonce.isNone && a.installedTk.isNone

section Lists
variable {out new : List Act}

@[simp] theorem derivations_append :
    derivations (out ++ new) = derivations out ++ derivations new := List.filterMap_append

@[simp] theorem drawnSnonces_append :
    drawnSnonces (out ++ new) = drawnSnonces out ++ drawnSnonces new := List.filterMap_append

@[simp] theorem installedTks_append :
    installedTks (out ++ new) = installedTks out ++ installedTks new := List.filterMap_append

theorem silent_lists (h : ∀ a ∈ new, a.silent) :
    derivations new = [] ∧ drawnSnonces new = [] ∧ installedTks new = [] := by
  simp only [Act.silent, Bool.and_eq_true, Option.isNone_iff_eq_none] at h
  exact ⟨List.filterMap_eq_nil_iff.mpr fun a ha => (h a ha).1.1,
    List.filterMap_eq_nil_iff.mpr fun a ha => (h a ha).1.2,
    List.filterMap_eq_nil_iff.mpr fun a ha => (h a ha).2⟩

theorem Act.silent_of_plain {a : Act} (h : a.plain) : a.silent := by
  cases a <;> simp_all [Act.plain, Act.silent, Act.derivation, Act.snonce, Act.installedTk]

end Lists

section Invariant
variable {given : List Derivation} {confirmed : List Bytes} {out new : List Act} {sm sm' : Sm}

theorem Fresh.of_prefix {out' : List Act} (h : Fresh given out') (hp : out <+: out') :
    Fresh given out := by
  obtain ⟨new, rfl⟩ := hp
  obtain ⟨hnodup, hinj⟩ := h
  rw [drawnSnonces_append, ← List.append_assoc] at hnodup
  refine ⟨(List.nodup_append.mp hnodup).1, fun d₁ h₁ d₂ h₂ => hinj d₁ ?_ d₂ ?_⟩
  all_goals
    rw [derivations_append, ← List.append_assoc]
    exact List.mem_append_left _ ‹_›

theorem InstallInv.of_frame (h : InstallInv given confirmed out sm) (hst : sm'.pairwise = sm.pairwise)
    (hnew : ∀ a ∈ new, a.silent) : InstallInv given confirmed (out ++ new) sm' := by
  obtain ⟨hder, hdrawn, hinst⟩ := silent_lists hnew
  simp only [Sm.pairwise, Prod.mk.injEq] at hst
  obtain ⟨hs, hr, ht, htptk, hptk⟩ := hst
  constructor <;> simp only [derivations_append, drawnSnonces_append, installedTks_append, hder,
    hdrawn, hinst, List.append_nil, hs, hr, ht, htptk, hptk]
  exacts [h.installed, h.source, h.drawn, h.bound, h.snonce, h.tptk, h.ptk]

theorem InstallInv.disconnect (h : InstallInv given confirmed out sm) :
    InstallInv given confirmed out (disconnect sm) :=
  ⟨h.installed, h.source, h.drawn, h.bound, h.snonce, fun h => Bool.noConfusion h,
    fun _ htk => absurd rfl htk⟩

/-- A new SNonce is none of those that were used. -/
theorem InstallInv.draw {r : Bytes} (h : InstallInv given confirmed out sm)
    (hfresh : Fresh given (out ++ [.renewSnonce r])) (hst : sm'.snonce = r)
    (htptk : (sm'.tptkSet, sm'.tptk, sm'.ptk) = (sm.tptkSet, sm.tptk, sm.ptk)) :
    InstallInv given confirmed (out ++ [.renewSnonce r]) sm' := by
  have hdrawn : drawnSnonces (out ++ [.renewSnonce r]) = drawnSnonces out ++ [r] := by
    rw [drawnSnonces_append]
    rfl
  have hder : derivations (out ++ [.renewSnonce r]) = derivations out := by
    rw [derivations_append]
    exact List.append_nil _
  have hinst : installedTks (out ++ [.renewSnonce r]) = installedTks out := by
    rw [installedTks_append]
    exact List.append_nil _
  have hnew : r ∉ confirmed := by
    intro hr
    have hnodup := hfresh.snonces
    rw [hdrawn, ← List.append_assoc, List.nodup_append] at hnodup
    refine hnodup.2.2 r (List.mem_append.mpr (h.bound r hr)) r (List.mem_singleton_self r) rfl
  simp only [Prod.mk.injEq] at htptk
  obtain ⟨ht, htk, hp⟩ := htptk
  constructor <;> simp only [hder, hinst, hdrawn, ht, htk, hp, hst]
  · exact h.installed
  · exact h.source
  · exact fun d hd => List.mem_append_left _ (h.drawn d hd)
  · exact fun x hx => (h.bound x hx).imp_right (List.mem_append_left _)
  · exact fun _ => ⟨List.mem_append_right _ (List.mem_singleton_self r), hnew⟩
  · exact h.tptk
  · exact h.ptk

/-- Keys stay known when another one is derived. -/
theorem mem_known {d : Derivation} (h : d ∈ given ++ derivations out) :
    d ∈ given ++ derivations (out ++ new) := by
  rw [derivations_append, ← List.append_assoc]
  exact List.mem_append_left _ h

theorem InstallInv.derive {anonce : Bytes} {ptk : Ptk} (h : InstallInv given confirmed out sm)
    (hrenew : sm.renewSnonce = false) :
    InstallInv given confirmed (out ++ [.derivePtk anonce sm.snonce ptk])
      { sm with tptk := ptk, tptkSet := true } := by
  have hdrawn : drawnSnonces (out ++ [.derivePtk anonce sm.snonce ptk]) = drawnSnonces out := by
    rw [drawnSnonces_append]
    exact List.append_nil _
  have hder : derivations (out ++ [.derivePtk anonce sm.snonce ptk]) =
      derivations out ++ [⟨anonce, sm.snonce, ptk⟩] := by
    rw [derivations_append]
    rfl
  have hinst : installedTks (out ++ [.derivePtk anonce sm.snonce ptk]) = installedTks out := by
    rw [installedTks_append]
    exact List.append_nil _
  obtain ⟨hmem, hnot⟩ := h.snonce hrenew
  constructor
  · exact hinst ▸ h.installed
  · rw [hinst]
    intro tk htk
    obtain ⟨d, hd, hrest⟩ := h.source tk htk
    exact ⟨d, mem_known hd, hrest⟩
  · rw [hder, hdrawn]
    intro d hd
    rcases List.mem_append.mp hd with hd | hd
    · exact h.drawn d hd
    · rw [List.mem_singleton.mp hd]
      exact hmem
  · rw [hdrawn]
    exact h.bound
  · rw [hdrawn]
    exact h.snonce
  · intro _
    refine ⟨⟨anonce, sm.snonce, ptk⟩, ?_, rfl, hnot⟩
    rw [hder]
    exact List.mem_append_right _ (List.mem_append_right _ (List.mem_singleton_self _))
  · intro hi htk
    obtain ⟨hnotin, d, hd, hrest⟩ := h.ptk hi htk
    rw [hinst]
    exact ⟨hnotin, d, mem_known hd, hrest⟩

/-- A key that is confirmed has not been installed, since its SNonce is confirmed only now. -/
theorem InstallInv.promote (h : InstallInv given confirmed out sm) (hfresh : Fresh given out)
    (hset : sm.tptkSet) : ∃ r, InstallInv given (r :: confirmed) out sm.promoteTptk := by
  obtain ⟨d, hd, hptk, hnot⟩ := h.tptk hset
  refine ⟨d.snonce, h.installed, ?_, h.drawn, ?_, fun h => Bool.noConfusion h,
    fun h => Bool.noConfusion h, ?_⟩
  · intro tk htk
    obtain ⟨d', hd', heq, hne, hmem⟩ := h.source tk htk
    exact ⟨d', hd', heq, hne, List.mem_cons_of_mem _ hmem⟩
  · intro r hr
    rcases List.mem_cons.mp hr with rfl | hr
    · exact (List.mem_append.mp hd).imp (List.mem_map_of_mem) (h.drawn d)
    · exact h.bound r hr
  · intro _ (htk : sm.tptk.tk ≠ [])
    refine ⟨fun (hmem : sm.tptk.tk ∈ installedTks out) => ?_, d, hd, congrArg Ptk.tk hptk,
      List.mem_cons_self ..⟩
    obtain ⟨d', hd', heq, hne, hconf⟩ := h.source _ hmem
    have heq : d'.ptk.tk = d.ptk.tk := by rw [heq, hptk]
    have hsame := hfresh.injective d' hd' d hd (by rwa [heq, hptk]) heq
    exact hnot (hsame.2 ▸ hconf)

theorem InstallInv.install {k : SetKey} (h : InstallInv given confirmed out sm)
    (hk : PairwiseKey sm k) (hst : (sm'.snonce, sm'.renewSnonce) = (sm.snonce, sm.renewSnonce))
    (htptk : sm'.tptkSet → sm.tptkSet ∧ sm'.tptk = sm.tptk) (hptk : sm'.ptk.tk = []) :
    InstallInv given confirmed (out ++ [.setKey k]) sm' := by
  have hdrawn : drawnSnonces (out ++ [.setKey k]) = drawnSnonces out := by
    rw [drawnSnonces_append]
    exact List.append_nil _
  have hder : derivations (out ++ [.setKey k]) = derivations out := by
    rw [derivations_append]
    exact List.append_nil _
  have hinst : installedTks (out ++ [.setKey k]) = installedTks out ++ [sm.ptk.tk] := by
    simp [installedTks, Act.installedTk, hk.kind, hk.key]
  have hne : sm.ptk.tk ≠ [] := by
    have hlen := hk.length
    rw [hk.key] at hlen
    exact List.ne_nil_of_length_pos (Nat.pos_of_ne_zero hlen)
  obtain ⟨hnot, d, hd, heq, hconf⟩ := h.ptk hk.installed hne
  simp only [Prod.mk.injEq] at hst
  constructor <;> simp only [hder, hdrawn, hinst, hst]
  · rw [List.nodup_append]
    refine ⟨h.installed, List.nodup_singleton _, fun a ha b hb hab => hnot ?_⟩
    rw [← List.mem_singleton.mp hb, ← hab]
    exact ha
  · intro tk htk
    rcases List.mem_append.mp htk with htk | htk
    · exact h.source tk htk
    · rw [List.mem_singleton.mp htk]
      exact ⟨d, hd, heq, hne, hconf⟩
  · exact h.drawn
  · exact h.bound
  · exact h.snonce
  · intro hset
    obtain ⟨hset, heq⟩ := htptk hset
    rw [heq]
    exact h.tptk hset
  · exact fun _ htk => absurd hptk htk

end Invariant

/-- The invariant after the outputs `past`, along a path of moves of one call. -/
def InstallKept (given : List Derivation) (past : List Act) : Cfg Sm Act → Cfg Sm Act → Prop :=
  Preserves (fun out => Fresh given (past ++ out))
    fun out sm => ∃ confirmed, InstallInv given confirmed (past ++ out) sm

section Moves
variable {given : List Derivation} {past : List Act} {e : Env} {key : EapolKey} {ver : ℕ}
  {keyData : Bytes} {c c' : Cfg Sm Act}

instance : Std.Refl (InstallKept given past) := inferInstanceAs (Std.Refl (Preserves _ _))

instance : IsTrans _ (InstallKept given past) := inferInstanceAs (IsTrans _ (Preserves _ _))

theorem InstallKept.of_frame {s s' : Sm} {out new : List Act} (hst : s'.pairwise = s.pairwise)
    (hnew : ∀ a ∈ new, a.silent) : InstallKept given past ⟨s, out⟩ ⟨s', out ++ new⟩ := by
  refine Preserves.of_append fun _ => ?_
  rintro ⟨confirmed, h⟩
  rw [← List.append_assoc]
  exact ⟨confirmed, h.of_frame hst hnew⟩

theorem InstallKept.of_state {s s' : Sm} {out : List Act} (hst : s'.pairwise = s.pairwise) :
    InstallKept given past ⟨s, out⟩ ⟨s', out⟩ := by
  have h := @InstallKept.of_frame given past s s' out [] hst (by simp)
  rwa [List.append_nil] at h

theorem InstallKept.draw {s s' : Sm} {out : List Act} {r : Bytes} (hst : s'.snonce = r)
    (htptk : (s'.tptkSet, s'.tptk, s'.ptk) = (s.tptkSet, s.tptk, s.ptk)) :
    InstallKept given past ⟨s, out⟩ ⟨s', out ++ [.renewSnonce r]⟩ := by
  refine Preserves.of_append ?_
  rintro hfresh ⟨confirmed, h⟩
  rw [← List.append_assoc] at hfresh ⊢
  exact ⟨confirmed, h.draw hfresh hst htptk⟩

theorem BaseMove.installKept (h : BaseMove e c c') : InstallKept given past c c' := by
  cases h with
  | plain acts hst hacts =>
    have hpair := congrArg Sm.pairwise hst
    exact .of_frame hpair fun a ha => Act.silent_of_plain (hacts a ha)
  | disconnect =>
    refine Preserves.of_state ?_
    rintro ⟨confirmed, h⟩
    exact ⟨confirmed, h.disconnect⟩
  | pmksa => exact .of_state rfl
  | bssid => exact .of_state rfl

theorem Move1Of4.installKept (h : Move1Of4 e key ver c c') : InstallKept given past c c' := by
  cases h with
  | base h => exact h.installKept
  | pmk hst =>
    have hpair := congrArg Sm.pairwise hst
    exact .of_state hpair
  | renew r => exact .draw rfl rfl
  | derive ptk hs =>
    refine Preserves.of_append fun _ => ?_
    rintro ⟨confirmed, h⟩
    rw [← List.append_assoc]
    exact ⟨confirmed, h.derive hs⟩
  | mic => exact .of_frame rfl (by simp [Act.silent, Act.derivation, Act.snonce, Act.installedTk])
  | anonce => exact .of_state rfl

theorem KeyMove.installKept (h : KeyMove e key ver keyData c c') : InstallKept given past c c' := by
  have hquiet {a : Act} (h : a.silent) : ∀ x ∈ [a], x.silent := by simpa using h
  cases h with
  | base h => exact h.installKept
  | renewDue =>
    refine Preserves.of_state ?_
    rintro ⟨confirmed, h⟩
    exact ⟨confirmed, h.installed, h.source, h.drawn, h.bound, fun h => Bool.noConfusion h, h.tptk,
      h.ptk⟩
  | ftNonce r => exact .draw rfl rfl
  | installPtk k hk =>
    refine Preserves.of_append fun _ => ?_
    rintro ⟨confirmed, h⟩
    rw [← List.append_assoc]
    exact ⟨confirmed, h.install hk rfl (fun h => ⟨h, rfl⟩) rfl⟩
  | installPtkFailed k hk =>
    refine Preserves.of_append fun _ => ?_
    rintro ⟨confirmed, h⟩
    have hinst : InstallInv given confirmed _ (disconnect _) := h.install hk rfl (fun h => Bool.noConfusion h) rfl
    rw [← List.append_assoc, List.append_cons]
    exact ⟨confirmed, hinst.of_frame rfl (hquiet rfl)⟩
  | activatePtk k hk => exact .of_frame rfl (hquiet (by simp [Act.silent, Act.derivation, Act.snonce,
      Act.installedTk, hk]))
  | groupKey k _ _ _ _ _ _ hk =>
    refine .of_frame rfl (hquiet ?_)
    rcases hk.kind with h | h | h <;>
      simp [Act.silent, Act.derivation, Act.snonce, Act.installedTk, h]
  | _ => exact .of_frame rfl (hquiet rfl)

end Moves

section Call
variable {given : List Derivation} {past : List Act} {e : Env} {key : EapolKey} {micLen n : ℕ}
  {tmp tmp' keyData plain : Bytes} {c c' : Cfg Sm Act}

theorem MicStep.installKept (h : MicStep e key tmp c c' tmp') : InstallKept given past c c' := by
  cases h with
  | unsigned => exact refl c
  | ptk => exact .of_frame rfl (by simp [Act.silent, Act.derivation, Act.snonce, Act.installedTk])
  | @tptk s out _ _ hm =>
    refine Preserves.of_append ?_
    rintro hfresh ⟨confirmed, h⟩
    simp only [tptkMic, Bool.and_eq_true] at hm
    rw [← List.append_assoc] at hfresh ⊢
    obtain ⟨r, hr⟩ := h.promote (hfresh.of_prefix (List.prefix_append _ _)) hm.1
    exact ⟨r :: confirmed, hr.of_frame rfl (by simp [Act.silent, Act.derivation, Act.snonce,
      Act.installedTk])⟩

theorem AeadStep.installKept (h : AeadStep e key micLen tmp n c c' keyData)
    (hset : c.st.tptkSet → micLen ≠ 0) : InstallKept given past c c' := by
  cases h with
  | skipped => exact refl c
  | tptk h ht => exact absurd h.1 (hset ht)
  | ptk => exact .of_frame rfl (by simp [Act.silent, Act.derivation, Act.snonce, Act.installedTk])

theorem DecryptStep.installKept (h : DecryptStep key micLen keyData c c' plain) :
    InstallKept given past c c' := by
  cases h with
  | skipped => exact refl c
  | decrypted => exact .of_frame rfl (by simp [Act.silent, Act.derivation, Act.snonce, Act.installedTk])

theorem Dispatch.installKept (h : Dispatch e key micLen keyData c c') :
    InstallKept given past c c' := by
  have hkeys (hp : ReflTransGen (KeyMove e key key.ver keyData) c c') :
      InstallKept given past c c' :=
    path_induction (R := InstallKept given past) (fun _ _ => KeyMove.installKept) hp
  cases h with
  | ignored => exact refl c
  | msg1Of4 _ _ _ hp =>
    exact path_induction (R := InstallKept given past) (fun _ _ => Move1Of4.installKept) hp
  | msg3Of4 _ _ hp => exact hkeys hp
  | msg1Of2 _ _ hp => exact hkeys hp

/-- The suite protects frames with a MIC, and the keys have the lengths that go with it. -/
structure MicBased (sm : Sm) : Prop where
  akm : ¬filsAkm sm.keyMgmt
  keyLength : KeyLength sm

theorem MicBased.rxMicLen_ne_zero {sm : Sm} (h : MicBased sm) (hset : sm.tptkSet) :
    sm.rxMicLen ≠ 0 := by
  intro hzero
  obtain ⟨hs, hlen⟩ := (wpaMicLen_eq_zero hzero).resolve_left h.akm
  have hpmk := h.keyLength.sized hs (.inl hset)
  rw [if_neg (by omega)] at hlen
  omega

theorem MicStep.keyMgmt (h : MicStep e key tmp c c' tmp') : c'.st.keyMgmt = c.st.keyMgmt := by
  cases h <;> rfl

theorem MicStep.tptkSet (h : MicStep e key tmp c c' tmp') (hset : c'.st.tptkSet) :
    c.st.tptkSet := by
  cases h with
  | unsigned => exact hset
  | tptk => cases hset
  | ptk => exact hset

theorem AeadStep.keyMgmt (h : AeadStep e key micLen tmp n c c' keyData) :
    c'.st.keyMgmt = c.st.keyMgmt := by
  cases h <;> rfl

theorem Dispatch.keyMgmt (h : Dispatch e key micLen keyData c c') :
    c'.st.keyMgmt = c.st.keyMgmt := by
  cases h with
  | ignored => rfl
  | msg1Of4 _ _ _ hp => exact congrArg Fixed.keyMgmt (moves_1Of4_frame hp).1
  | msg3Of4 _ _ hp => exact congrArg Fixed.keyMgmt (keys_fixed hp).1
  | msg1Of2 _ _ hp => exact congrArg Fixed.keyMgmt (keys_fixed hp).1

/-- One call keeps the invariant. -/
theorem RxResult.installKept {sm : Sm} {buf : Bytes} (h : RxResult e sm buf c)
    (hmb : MicBased sm) : c.st.keyMgmt = sm.keyMgmt ∧ InstallKept given past ⟨sm, []⟩ c := by
  have hopen : InstallKept given past ⟨sm, []⟩ ⟨sm.opened, []⟩ := .of_state rfl
  cases h with
  | dropped => exact ⟨rfl, hopen⟩
  | halfway _ _ _ hmic => exact ⟨hmic.keyMgmt, trans hopen hmic.installKept⟩
  | stopped _ hmic haead =>
    refine ⟨haead.keyMgmt.trans hmic.keyMgmt, trans hopen (trans hmic.installKept ?_)⟩
    exact haead.installKept fun hset => hmb.rxMicLen_ne_zero (hmic.tptkSet hset)
  | handled _ hmic haead hdec hdisp =>
    have hst := hdec.st_eq
    refine ⟨?_, trans hopen (trans hmic.installKept (trans ?_ (trans hdec.installKept
      hdisp.installKept)))⟩
    · rw [hdisp.keyMgmt, hst, haead.keyMgmt, hmic.keyMgmt]
      rfl
    · exact haead.installKept fun hset => hmb.rxMicLen_ne_zero (hmic.tptkSet hset)

end Call

section Run
variable {pending used : List Derivation} {e : Env} {bssid : Bytes} {sm : Sm}

theorem InstallInv.initial (h : TakenOver pending used sm) (hrenew : sm.renewSnonce)
    (hfresh : Fresh (pending ++ used) []) :
    InstallInv (pending ++ used) (used.map Derivation.snonce) [] sm := by
  have hnodup := hfresh.snonces
  simp only [List.map_append, drawnSnonces, List.filterMap_nil, List.append_nil] at hnodup
  refine ⟨List.nodup_nil, fun _ h => absurd h List.not_mem_nil,
    fun _ h => absurd h List.not_mem_nil, ?_, ?_, ?_, ?_⟩
  · intro r hr
    rw [List.map_append]
    exact .inl (List.mem_append_right _ hr)
  · intro hfalse
    rw [hfalse] at hrenew
    cases hrenew
  · intro hset
    obtain ⟨d, hd, hptk⟩ := h.tptk hset
    refine ⟨d, List.mem_append_left _ (List.mem_append_left _ hd), hptk, fun hmem => ?_⟩
    exact (List.nodup_append.mp hnodup).2.2 _ (List.mem_map_of_mem hd) _ hmem rfl
  · intro hinst htk
    obtain ⟨d, hd, hptk⟩ := h.ptk hinst htk
    exact ⟨List.not_mem_nil, d, List.mem_append_left _ (List.mem_append_right _ hd), hptk,
      List.mem_map_of_mem hd⟩

theorem associated_takenOver (h : fastAssociation sm → TakenOver pending used sm) :
    TakenOver pending used (associated e bssid sm) := by
  by_cases hfast : fastAssociation sm
  · have hkeys := associated_keys_of_fast e bssid hfast
    simp only [Sm.keys, Prod.mk.injEq] at hkeys
    obtain ⟨-, -, ht, -, htptk, hptk, -⟩ := hkeys
    constructor
    · rw [ht, htptk]
      exact (h hfast).tptk
    · rw [hptk]
      exact (h hfast).ptk
  · rw [associated_of_not_fast hfast]
    exact ⟨fun h => Bool.noConfusion h, fun _ htk => absurd rfl htk⟩

theorem associated_keyMgmt : (associated e bssid sm).keyMgmt = sm.keyMgmt := by
  by_cases hfast : fastAssociation sm
  · have hkeys := associated_keys_of_fast e bssid hfast
    simp only [Sm.keys, Prod.mk.injEq] at hkeys
    exact hkeys.1
  · rw [associated_of_not_fast hfast]
    rfl

theorem rxStep_installInv {given : List Derivation} {out : List Act} (hmb : MicBased sm)
    (hinv : ∃ confirmed, InstallInv given confirmed out sm) (i : Env × Bytes)
    (hfresh : ∀ q, q <+: out ++ (rxStep sm i).2 → Fresh given q) :
    MicBased (rxStep sm i).1 ∧
      ∃ confirmed, InstallInv given confirmed (out ++ (rxStep sm i).2) (rxStep sm i).1 := by
  obtain ⟨hakm, hkept⟩ := @RxResult.installKept given out _ _ _ _
    (wpaSmRxEapol_result i.1 sm i.2) hmb
  have hakm : (rxStep sm i).1.keyMgmt = sm.keyMgmt := hakm
  refine ⟨⟨?_, rxStep_keyLength hmb.keyLength⟩, hkept.2 (fun p hp => hfresh _ ?_) ?_⟩
  · rw [hakm]
    exact hmb.akm
  · exact (List.prefix_append_right_inj out).mpr hp
  · simpa only [List.append_nil] using hinv

/-- Between two associations no temporal key is handed to the driver twice, whatever frames
arrive, if no SNonce is drawn twice and no temporal key is derived from two pairs of nonces. Where a
fast transition has set keys before, they count as derived from SNonces of their own. -/
theorem installedTks_nodup (e : Env) (bssid : Bytes) (sm : Sm) (pending used : List Derivation)
    (hakm : ¬filsAkm sm.keyMgmt)
    (hfast : fastAssociation sm → KeyLength sm ∧ TakenOver pending used sm)
    (frames : List (Env × Bytes))
    (hfresh : Fresh (pending ++ used)
      (Runs.outputs (Runs.trace rxStep (associated e bssid sm) frames))) :
    (installedTks (Runs.outputs (Runs.trace rxStep (associated e bssid sm) frames))).Nodup := by
  have hstart : MicBased (associated e bssid sm) :=
    ⟨by rwa [associated_keyMgmt], associated_keyLength fun h => (hfast h).1⟩
  have hrenew : (associated e bssid sm).renewSnonce := associated_reset.2
  have hinit := InstallInv.initial (associated_takenOver fun h => (hfast h).2) hrenew
    (hfresh.of_prefix List.nil_prefix)
  have hrun : MicBased (Runs.final rxStep (associated e bssid sm) frames) ∧
      ∃ confirmed, InstallInv (pending ++ used) confirmed _ _ :=
    Runs.outputs_invariant (H := Fresh (pending ++ used))
      (I := fun out s => MicBased s ∧ ∃ confirmed, InstallInv (pending ++ used) confirmed out s)
      ⟨hstart, _, hinit⟩ (fun _ _ i h => rxStep_installInv h.1 h.2 i) frames
      fun q hq => hfresh.of_prefix hq
  obtain ⟨-, confirmed, hinv⟩ := hrun
  exact hinv.installed

end Run

section Samples

/-- A second handshake after the one of `wpaFrames`, for which another SNonce is drawn, and a
copy of its last message. -/
def rekeyFrames : List (Env × Bytes) :=
  let env := { sampleEnv with random := some (List.replicate 32 8) }
  wpaFrames ++
    [(env, sampleFrame eapolKeyTypeWpa 0x0089 32 3 []),
      (env, sampleFrame eapolKeyTypeWpa 0x01c9 32 4 wpaIeSample),
      (env, sampleFrame eapolKeyTypeWpa 0x01c9 32 5 wpaIeSample)]

theorem installedTks_nodup_sample :
    (installedTks (Runs.outputs (Runs.trace rxStep
        (associated sampleEnv [2, 0, 0, 0, 0, 1] wpaSample) rekeyFrames))).length = 2 ∧
      (installedTks (Runs.outputs (Runs.trace rxStep
        (associated sampleEnv [2, 0, 0, 0, 0, 1] wpaSample) rekeyFrames))).Nodup :=
  ⟨by decide +kernel, installedTks_nodup sampleEnv [2, 0, 0, 0, 0, 1] wpaSample [] [] (by decide)
    (fun h => absurd h (by decide)) rekeyFrames ⟨by decide +kernel, by decide +kernel⟩⟩

end Samples
end Wpa.Rsn
