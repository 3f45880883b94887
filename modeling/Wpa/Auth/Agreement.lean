import Wpa.Auth.Runs
import Wpa.Rsn.Reinstall

/-! The 4-way handshake of both sides. The station and the authenticator run against a network that
delivers whatever frames it likes in whatever order; a key that the authenticator installs was
derived by the station from the same nonces. -/

namespace Wpa.Rsn
open Lib Bytes Prog Relation

/-- The KCK of a MIC that was computed or found right. -/
def Act.macKey : Act → Option Bytes
  | mic kck _ _ => some kck
  | micVerified kck _ => some kck
  | _ => none

/-- The KCK of a PTK that was derived, or none. -/
def KnownKck (out : List Act) (k : Bytes) : Prop := k = [] ∨ ∃ d ∈ derivations out, d.ptk.kck = k

/-- Every MIC belongs to a KCK that was derived. -/
structure MacsKnown (out : List Act) (sm : Sm) : Prop where
  tptk : KnownKck out sm.tptk.kck
  ptk : KnownKck out sm.ptk.kck
  macs : ∀ a ∈ out, ∀ k ∈ a.macKey, KnownKck out k

section Moves
variable {past : List Act} {e : Env} {key : EapolKey} {ver : ℕ} {keyData : Bytes} {c c' : Cfg Sm Act}

theorem KnownKck.append {out : List Act} {k : Bytes} (h : KnownKck out k) (new : List Act) :
    KnownKck (out ++ new) k := by
  refine h.imp_right ?_
  rintro ⟨d, hd, heq⟩
  exact ⟨d, by rw [derivations_append]; exact List.mem_append_left _ hd, heq⟩

/-- Actions without a MIC, and MICs with a key of the state machine. -/
def KnownMac (sm : Sm) (a : Act) : Prop := ∀ k ∈ a.macKey, k = sm.tptk.kck ∨ k = sm.ptk.kck

def MacsKept (past : List Act) : Cfg Sm Act → Cfg Sm Act → Prop :=
  Preserves (fun _ => True) fun out sm => MacsKnown (past ++ out) sm

instance : Std.Refl (MacsKept past) := inferInstanceAs (Std.Refl (Preserves _ _))

instance : IsTrans _ (MacsKept past) := inferInstanceAs (IsTrans _ (Preserves _ _))

/-- The keys come from the old state. -/
theorem MacsKept.of_keys {s s' : Sm} {out new : List Act}
    (htptk : s'.tptk.kck ∈ [[], s.tptk.kck, s.ptk.kck])
    (hptk : s'.ptk.kck ∈ [[], s.tptk.kck, s.ptk.kck]) (hnew : ∀ a ∈ new, KnownMac s a) :
    MacsKept past ⟨s, out⟩ ⟨s', out ++ new⟩ := by
  refine Preserves.of_append fun _ h => ?_
  have hold {k : Bytes} (hk : k ∈ [[], s.tptk.kck, s.ptk.kck]) : KnownKck (past ++ (out ++ new)) k := by
    rw [← List.append_assoc]
    simp only [List.mem_cons, List.not_mem_nil, or_false] at hk
    rcases hk with rfl | rfl | rfl
    · exact .inl rfl
    · exact h.tptk.append new
    · exact h.ptk.append new
  refine ⟨hold htptk, hold hptk, fun a hmem k hk => ?_⟩
  rw [← List.append_assoc, List.mem_append] at hmem
  rcases hmem with hmem | hmem
  · rw [← List.append_assoc]
    exact (h.macs a hmem k hk).append new
  · exact hold (by simpa using .inr (hnew a hmem k hk))

theorem MacsKept.of_state {s s' : Sm} {out : List Act}
    (htptk : s'.tptk.kck ∈ [[], s.tptk.kck, s.ptk.kck])
    (hptk : s'.ptk.kck ∈ [[], s.tptk.kck, s.ptk.kck]) : MacsKept past ⟨s, out⟩ ⟨s', out⟩ := by
  have h := @MacsKept.of_keys past s s' out [] htptk hptk (by simp)
  rwa [List.append_nil] at h

theorem MacsKept.emit {s : Sm} {out : List Act} {a : Act} (ha : KnownMac s a) :
    MacsKept past ⟨s, out⟩ ⟨s, out ++ [a]⟩ :=
  .of_keys (by simp) (by simp) (by simpa using ha)

theorem KnownMac.of_plain {s : Sm} {a : Act} (h : a.plain) : KnownMac s a := by
  cases a <;> simp_all [KnownMac, Act.plain, Act.macKey]

theorem BaseMove.macsKept (h : BaseMove e c c') : MacsKept past c c' := by
  cases h with
  | plain acts hst hacts =>
    have htptk := congrArg Sm.tptk hst
    have hptk := congrArg Sm.ptk hst
    simp only [Sm.core] at htptk hptk
    exact .of_keys (by simp [htptk]) (by simp [hptk]) fun a ha => .of_plain (hacts a ha)
  | disconnect =>
    refine .of_state ?_ ?_ <;> simp [Rsn.disconnect, wpaSmSetConfigNull, wpaSmNotifyDisassoc, wpaSmDropSa]
  | pmksa => refine .of_state ?_ ?_ <;> simp
  | bssid => refine .of_state ?_ ?_ <;> simp

theorem Move1Of4.macsKept (h : Move1Of4 e key ver c c') : MacsKept past c c' := by
  cases h with
  | base h => exact h.macsKept
  | pmk hst =>
    have htptk := congrArg Sm.tptk hst
    have hptk := congrArg Sm.ptk hst
    simp only [Sm.core] at htptk hptk
    exact .of_state (by simp [htptk]) (by simp [hptk])
  | renew r => refine .of_keys ?_ ?_ ?_ <;> simp [KnownMac, Act.macKey]
  | @derive s out ptk hs =>
    refine Preserves.of_append fun _ h => ?_
    rw [← List.append_assoc]
    refine ⟨.inr ⟨⟨key.keyNonce, s.snonce, storedTptk s ptk⟩, ?_, rfl⟩, h.ptk.append _, ?_⟩
    · rw [derivations_append]
      exact List.mem_append_right _ (List.mem_singleton_self _)
    · intro a hmem k hk
      rw [List.mem_append, List.mem_singleton] at hmem
      rcases hmem with hmem | rfl
      · exact (h.macs a hmem k hk).append _
      · cases hk
  | mic =>
    refine .emit fun k hk => ?_
    cases hk
    exact .inl rfl
  | anonce => refine .of_state ?_ ?_ <;> simp

theorem KeyMove.macsKept (h : KeyMove e key ver keyData c c') : MacsKept past c c' := by
  cases h with
  | base h => exact h.macsKept
  | renewDue => refine .of_state ?_ ?_ <;> simp
  | ftNonce r => refine .of_keys ?_ ?_ ?_ <;> simp [KnownMac, Act.macKey]
  | installPtk k hk => refine .of_keys ?_ ?_ ?_ <;> simp [KnownMac, Act.macKey, Sm.ptkInstalled]
  | installPtkFailed k hk =>
    refine .of_keys ?_ ?_ ?_ <;>
      simp [KnownMac, Act.macKey, Rsn.disconnect, wpaSmSetConfigNull, wpaSmNotifyDisassoc,
        wpaSmDropSa]
  | activatePtk k hk => exact .emit (by simp [KnownMac, Act.macKey])
  | groupKey => refine .of_keys ?_ ?_ ?_ <;> simp [KnownMac, Act.macKey]
  | completed => refine .of_keys ?_ ?_ ?_ <;> simp [KnownMac, Act.macKey]
  | accept => exact .emit (by simp [KnownMac, Act.macKey])
  | mic4Of4 => exact .emit (by simp [KnownMac, Act.macKey])
  | mic2Of2 => exact .emit (by simp [KnownMac, Act.macKey])
  | decrypted => exact .emit (by simp [KnownMac, Act.macKey])

end Moves

section Call
variable {past : List Act} {e : Env} {key : EapolKey} {micLen n : ℕ}
  {tmp tmp' keyData plain : Bytes} {c c' : Cfg Sm Act}

theorem MicStep.macsKept (h : MicStep e key tmp c c' tmp') : MacsKept past c c' := by
  cases h with
  | unsigned => exact refl c
  | tptk => refine .of_keys ?_ ?_ ?_ <;> simp [KnownMac, Act.macKey, Sm.promoteTptk, Sm.acceptCounter]
  | ptk => refine .of_keys ?_ ?_ ?_ <;> simp [KnownMac, Act.macKey, Sm.acceptCounter]

theorem AeadStep.macsKept (h : AeadStep e key micLen tmp n c c' keyData) : MacsKept past c c' := by
  cases h with
  | skipped => exact refl c
  | tptk => refine .of_keys ?_ ?_ ?_ <;> simp [KnownMac, Act.macKey, Sm.replacePtk, Sm.acceptCounter]
  | ptk => refine .of_keys ?_ ?_ ?_ <;> simp [KnownMac, Act.macKey, Sm.acceptCounter]

theorem DecryptStep.macsKept (h : DecryptStep key micLen keyData c c' plain) :
    MacsKept past c c' := by
  cases h with
  | skipped => exact refl c
  | decrypted => exact .emit (by simp [KnownMac, Act.macKey])

theorem Dispatch.macsKept (h : Dispatch e key micLen keyData c c') : MacsKept past c c' := by
  have hkeys (hp : ReflTransGen (KeyMove e key key.ver keyData) c c') : MacsKept past c c' :=
    path_induction (R := MacsKept past) (fun _ _ => KeyMove.macsKept) hp
  cases h with
  | ignored => exact refl c
  | msg1Of4 _ _ _ hp =>
    exact path_induction (R := MacsKept past) (fun _ _ => Move1Of4.macsKept) hp
  | msg3Of4 _ _ hp => exact hkeys hp
  | msg1Of2 _ _ hp => exact hkeys hp

theorem RxResult.macsKept {sm : Sm} {buf : Bytes} (h : RxResult e sm buf c) :
    MacsKept past ⟨sm, []⟩ c := by
  have hopen : MacsKept past ⟨sm, []⟩ ⟨sm.opened, []⟩ :=
    .of_state (by simp [Sm.opened]) (by simp [Sm.opened])
  cases h with
  | dropped => exact hopen
  | halfway _ _ _ hmic => exact trans hopen hmic.macsKept
  | stopped _ hmic haead => exact trans hopen (trans hmic.macsKept haead.macsKept)
  | handled _ hmic haead hdec hdisp =>
    exact trans hopen (trans hmic.macsKept (trans haead.macsKept
      (trans hdec.macsKept hdisp.macsKept)))

/-- One received frame, with all that was emitted before. -/
def rxNext (c : Cfg Sm Act) (i : Env × Bytes) : Cfg Sm Act :=
  ⟨(rxStep c.st i).1, c.out ++ (rxStep c.st i).2⟩

theorem rxNext_macsKnown (h : MacsKnown c.out c.st) (i : Env × Bytes) :
    MacsKnown (rxNext c i).out (rxNext c i).st :=
  (@RxResult.macsKept c.out _ _ _ _ (wpaSmRxEapol_result i.1 c.st i.2)).2 (fun _ _ => trivial)
    (by simpa using h)

end Call
end Wpa.Rsn

namespace Wpa.Auth
open Lib Bytes Prog Relation

/-- What the authenticator's own MICs and those of the frames it verified have to say. -/
structure Protection (out : List Act) (s : Session) : Prop where
  ptk : s.valid → ∃ d ∈ derivations out, d.ptk = s.ptk ∧ d.Verified out
  ack : s.ack = false
  sent : ∀ k ver f, Act.mic k ver f ∈ out →
    hasAck f ∧ ∃ d ∈ derivations out, d.ptk.kck = k ∧ d.Verified out
  heard : ∀ k f, Act.micVerified k f ∈ out → hasAck f = false

section Authenticator
variable {out new : List Act} {s t : Session} {k f : Bytes}

theorem verified_append (h : ∃ d ∈ derivations out, d.ptk.kck = k ∧ d.Verified out)
    (new : List Act) : ∃ d ∈ derivations (out ++ new), d.ptk.kck = k ∧ d.Verified (out ++ new) := by
  obtain ⟨d, hd, hk, hver⟩ := h
  exact ⟨d, by rw [derivations_append]; exact List.mem_append_left _ hd, hk, hver.append new⟩

/-- Actions without a MIC, and another state whose key is the old one. -/
theorem Protection.append (h : Protection out s) (hnew : ∀ a ∈ new, a.protects = false)
    (hkey : t.valid → s.valid ∧ t.ptk = s.ptk) (hack : t.ack → s.ack) :
    Protection (out ++ new) t := by
  refine ⟨fun hv => ?_, ?_, fun k ver f hmem => ?_, fun k f hmem => ?_⟩
  · obtain ⟨hs, hptk⟩ := hkey hv
    obtain ⟨d, hd, hdptk, hver⟩ := h.ptk hs
    exact ⟨d, by rw [derivations_append]; exact List.mem_append_left _ hd, hdptk.trans hptk.symm,
      hver.append new⟩
  · cases ht : t.ack with
    | false => rfl
    | true => exact absurd (hack ht) (by rw [h.ack]; decide)
  · rcases List.mem_append.mp hmem with hmem | hmem
    · obtain ⟨hf, hd⟩ := h.sent k ver f hmem
      exact ⟨hf, verified_append hd new⟩
    · cases hnew _ hmem
  · rcases List.mem_append.mp hmem with hmem | hmem
    · exact h.heard k f hmem
    · cases hnew _ hmem

theorem Protection.of_state (h : Protection out s) (hkey : t.valid → s.valid ∧ t.ptk = s.ptk)
    (hack : t.ack → s.ack) : Protection out t := by
  have happend : Protection (out ++ []) t := h.append (by simp) hkey hack
  rwa [List.append_nil] at happend

theorem Protection.verify (h : Protection out s) (hf : hasAck f → s.ack) :
    Protection (out ++ [.micVerified k f]) s := by
  refine ⟨fun hv => ?_, h.ack, fun k' ver f' hmem => ?_, fun k' f' hmem => ?_⟩
  · obtain ⟨d, hd, hdptk, hver⟩ := h.ptk hv
    exact ⟨d, by rw [derivations_append]; exact List.mem_append_left _ hd, hdptk, hver.append _⟩
  · rw [List.mem_append, List.mem_singleton] at hmem
    obtain ⟨hack, hd⟩ := h.sent k' ver f' (hmem.resolve_right fun heq => by cases heq)
    exact ⟨hack, verified_append hd _⟩
  · rw [List.mem_append, List.mem_singleton] at hmem
    rcases hmem with hmem | heq
    · exact h.heard k' f' hmem
    · cases heq
      cases hfa : hasAck f with
      | false => rfl
      | true => exact absurd (hf hfa) (by rw [h.ack]; decide)

theorem Protection.mic {ver : ℕ} (h : Protection out s) (hv : s.valid) (hf : hasAck f) :
    Protection (out ++ [.mic s.ptk.kck ver f]) s := by
  have hkey := h.ptk hv
  refine ⟨fun _ => ?_, h.ack, fun k' ver' f' hmem => ?_, fun k' f' hmem => ?_⟩
  · obtain ⟨d, hd, hdptk, hver⟩ := hkey
    exact ⟨d, by rw [derivations_append]; exact List.mem_append_left _ hd, hdptk, hver.append _⟩
  · rw [List.mem_append, List.mem_singleton] at hmem
    rcases hmem with hmem | heq
    · obtain ⟨hack, hd⟩ := h.sent k' ver' f' hmem
      exact ⟨hack, verified_append hd _⟩
    · cases heq
      obtain ⟨d, hd, hdptk, hver⟩ := hkey
      exact ⟨hf, verified_append ⟨d, hd, by rw [hdptk], hver⟩ _⟩
  · rw [List.mem_append, List.mem_singleton] at hmem
    exact h.heard k' f' (hmem.resolve_right fun heq => by cases heq)

theorem Session.Move.protection {c c' : Cfg Session Act} (h : Session.Move c c') :
    Preserves (fun _ => True) Protection c c' := by
  have hone {a : Act} (ha : a.protects = false) : ∀ b ∈ [a], b.protects = false := by simpa using ha
  have hsame {s : Session} : s.valid → s.valid ∧ s.ptk = s.ptk := fun hv => ⟨hv, rfl⟩
  cases h with
  | quiet acts h =>
    exact Preserves.of_append fun _ hi => hi.append (quiet_lists h).protects hsame id
  | demand h =>
    exact Preserves.of_state fun hi => hi.of_state h.valid fun ha => h.kept.ack ▸ ha
  | leave h => exact Preserves.of_state fun hi => hi.of_state h.valid fun ha => h.kept.ack ▸ ha
  | redraw h =>
    exact Preserves.of_append fun _ hi => hi.append (hone rfl)
      (fun hv => ⟨h.key.1 ▸ hv, h.key.2⟩) fun ha => h.kept.ack ▸ ha
  | advance h =>
    exact Preserves.of_state fun hi => hi.of_state (fun hv => ⟨h.key.1 ▸ hv, h.key.2⟩)
      fun ha => h.kept.ack ▸ ha
  | derive h hd => exact Preserves.of_append fun _ hi => hi.append (hone rfl) hsame id
  | accept h =>
    refine Preserves.of_state fun hi => ⟨fun _ => ?_, h.kept.ack.trans hi.ack, hi.sent, hi.heard⟩
    obtain ⟨d, hd, hptk, -, hver⟩ := h.source
    exact ⟨d, hd, hptk, hver⟩
  | confirm h => exact Preserves.of_state fun hi => hi.of_state hsame id
  | hear h => exact Preserves.of_state fun hi => hi.of_state hsame h
  | verify h => exact Preserves.of_append fun _ hi => hi.verify h
  | mic hv h => exact Preserves.of_append fun _ hi => hi.mic hv h
  | install => exact Preserves.of_append fun _ hi => hi.append (hone rfl) hsame id
  | take => exact Preserves.of_append fun _ hi => hi.append (hone rfl) hsame id
  | note h => exact Preserves.of_state fun hi => hi.of_state hsame id
  | waste => exact Preserves.of_state fun hi => hi.of_state hsame id
  | receive h hb => exact Preserves.of_append fun _ hi => hi.append (hone rfl) hsame id

theorem associationRun_protection {env : Env} {l : Local} (first passes : List Around)
    (h : Associating env l) (inputs : List Input) :
    Protection (associationRun env l first passes inputs).out
      (associationRun env l first passes inputs).st.sta.session := by
  obtain ⟨s, hs, hpath⟩ := associationRun_path first passes h inputs
  have hinit : Protection [] s :=
    ⟨fun hv => absurd hv (by rw [hs.valid]; decide), hs.ack, fun _ _ _ hmem => absurd hmem
      List.not_mem_nil, fun _ _ hmem => absurd hmem List.not_mem_nil⟩
  exact (path_induction (R := Preserves (fun _ => True) Protection)
    (fun _ _ => Session.Move.protection) hpath).2 (fun _ _ => trivial) hinit

/-- The authenticator never takes one of its own frames for a frame of the station, whatever is
sent back to it. -/
theorem not_reflected {env : Env} {l : Local} {first passes : List Around}
    (h : Associating env l) (inputs : List Input) (k k' : Bytes) (ver n : ℕ) (f g : Bytes)
    (hsent : .mic k ver g ∈ (associationRun env l first passes inputs).out)
    (hheard : .micVerified k' f ∈ (associationRun env l first passes inputs).out) :
    zeroMic f n ≠ g := by
  rintro rfl
  have hprot := associationRun_protection first passes h inputs
  have hack := (hprot.sent _ _ _ hsent).1
  rw [zeroMic, hasAck_writeAt _ _ (by decide), hprot.heard _ _ hheard] at hack
  cases hack

theorem not_reflected_sample :
    ∃ k ver g k' f, .mic k ver g ∈ sampleOut ∧ .micVerified k' f ∈ sampleOut ∧ zeroMic f 16 ≠ g := by
  have hsent : ∃ a ∈ sampleOut, (match a with | .mic _ _ _ => true | _ => false) = true := by
    decide +kernel
  have hheard : ∃ a ∈ sampleOut, (match a with | .micVerified _ _ => true | _ => false) = true := by
    decide +kernel
  obtain ⟨a, ha, hmic⟩ := hsent
  obtain ⟨b, hb, hver⟩ := hheard
  cases a with
  | mic k ver g =>
    cases b with
    | micVerified k' f =>
      exact ⟨k, ver, g, k', f, ha, hb,
        not_reflected sample_associating sampleInputs k k' ver 16 f g ha hb⟩
    | _ => cases hver
  | _ => cases hmic

end Authenticator

/-- Both sides of a handshake, each with all that it did. -/
structure System where
  station : Cfg Rsn.Sm Rsn.Act
  ap : Cfg Local Act

/-- What the network, the timers and the events around the two sides do. -/
inductive Delivery where
  | station (env : Rsn.Env) (frame : Bytes)
  | ap (i : Input)

namespace System

def deliver (env : Env) (s : System) : Delivery → System
  | .station e frame => { s with station := Rsn.rxNext s.station (e, frame) }
  | .ap i => { s with ap := staStep env s.ap i }

/-- A station and an authenticator after the association of both. -/
structure Start where
  stationEnv : Rsn.Env
  bssid : Bytes
  sm : Rsn.Sm
  env : Env
  l : Local
  first : List Around
  passes : List Around
  /-- The station has no keys from before. -/
  fresh : ¬Rsn.fastAssociation sm
  associating : Associating env l

/-- Any interleaving of deliveries. -/
def run (start : Start) (deliveries : List Delivery) : System :=
  deliveries.foldl (deliver start.env)
    { station := ⟨Rsn.associated start.stationEnv start.bssid start.sm, []⟩
      ap := (wpaAuthStaAssociated start.first start.passes start.env ⟨start.l, []⟩).2 }

/-- What the MIC and the key derivation promise. The authenticator verifies a frame only with a key
under which one of the two sides protected it, and the station only with one under which the
authenticator did; keys from different nonces have no part in common; every PTK has a KCK and a
KEK. -/
structure Sound (s : System) : Prop where
  unforgeable : ∀ k f, Act.micVerified k f ∈ s.ap.out →
    ∃ ver n, .mic k ver (zeroMic f n) ∈ s.station.out ∨ Act.mic k ver (zeroMic f n) ∈ s.ap.out
  authentic : ∀ k counter, .micVerified k counter ∈ s.station.out →
    ∃ ver g, Act.mic k ver g ∈ s.ap.out ∧ (EapolKey.read g).replayCounter = counter
  separate : ∀ d ∈ derivations s.ap.out, ∀ d' ∈ Rsn.derivations s.station.out,
    (d'.ptk.kck = d.ptk.kck ∨ d'.ptk.kck = d.ptk.kek) →
      d'.anonce = d.anonce ∧ d'.snonce = d.snonce
  keyed : ∀ d ∈ derivations s.ap.out, d.ptk.kck ≠ [] ∧ d.ptk.kek ≠ []

end System

section Agreement
variable {start : System.Start} {deliveries : List Delivery}

def Delivery.input : Delivery → Option Input
  | .station _ _ => none
  | .ap i => some i

/-- The authenticator sees nothing but its own inputs. -/
theorem run_ap (start : System.Start) (deliveries : List Delivery) :
    (System.run start deliveries).ap =
    associationRun start.env start.l start.first start.passes
      (deliveries.filterMap Delivery.input) := by
  unfold System.run associationRun
  generalize (wpaAuthStaAssociated start.first start.passes start.env ⟨start.l, []⟩).2 = c
  generalize (⟨Rsn.associated start.stationEnv start.bssid start.sm, []⟩ : Cfg Rsn.Sm Rsn.Act) = q
  induction deliveries generalizing c q with
  | nil => rfl
  | cons d ds ih =>
    cases d with
    | station e frame => exact ih c _
    | ap i => exact ih _ q

theorem run_station : Rsn.MacsKnown (System.run start deliveries).station.out
    (System.run start deliveries).station.st := by
  have hinit : Rsn.MacsKnown [] (Rsn.associated start.stationEnv start.bssid start.sm) := by
    rw [Rsn.associated_of_not_fast start.fresh]
    exact ⟨.inl rfl, .inl rfl, fun _ hmem => absurd hmem List.not_mem_nil⟩
  unfold System.run
  generalize (wpaAuthStaAssociated start.first start.passes start.env ⟨start.l, []⟩).2 = c
  generalize hq : (⟨Rsn.associated start.stationEnv start.bssid start.sm, []⟩ :
    Cfg Rsn.Sm Rsn.Act) = q
  have hknown : Rsn.MacsKnown q.out q.st := by
    rw [← hq]
    exact hinit
  clear hq
  induction deliveries generalizing c q with
  | nil => exact hknown
  | cons d ds ih =>
    cases d with
    | station e frame => exact ih c _ (Rsn.rxNext_macsKnown hknown _)
    | ap i => exact ih _ q hknown

/-- A station and an authenticator with a PSK. -/
def sampleStart : System.Start where
  stationEnv := { cr := default }
  bssid := [2, 0, 0, 0, 0, 1]
  sm :=
    { pairwiseCipher := cipherCcmp, groupCipher := cipherCcmp, keyMgmt := keyMgmtPsk,
      pmk := List.replicate 32 3, networkCtx := true, ownAddr := [2, 0, 0, 0, 0, 2],
      rsnEnabled := true, ap := { rsnIe := some sampleRsne }, assocWpaIe := some sampleRsne }
  env := { sampleEnv with addr := [2, 0, 0, 0, 0, 1] }
  l := { sampleLocal with sta := { sampleLocal.sta with addr := [2, 0, 0, 0, 0, 2] } }
  first := sampleSteps
  passes := sampleSteps
  fresh := by decide
  associating := ⟨rfl, rfl, rfl, by decide, rfl, .inl rfl⟩

/-- The four messages as the two sides send them. -/
def sampleDeliveries : List Delivery :=
  let e : Rsn.Env := { cr := default, random := some (List.replicate 32 101) }
  let keyData := zeros 8 ++ sampleRsne ++ [0xdd, 22, 0, 0x0f, 0xac, 1, 1, 0] ++
    List.replicate 16 7 ++ [0xdd, 0]
  [.station e (sampleFrame 0x008a 16 1 6 []),
    .ap (.receive { step := sampleSteps } (sampleFrame 0x010a 0 1 101 sampleRsne)),
    .station e (sampleFrame 0x13ca 16 2 6 keyData),
    .ap (.receive { step := sampleSteps } (sampleFrame 0x030a 0 2 0 []))]

def sampleRun : System := System.run sampleStart sampleDeliveries

theorem sample_sound : sampleRun.Sound := by
  have hstation : sampleRun.ap.out.all (fun a => match a with
      | .micVerified k f => decide (.mic k 2 (zeroMic f 16) ∈ sampleRun.station.out)
      | _ => true) = true := by decide +kernel
  have hap : sampleRun.station.out.all (fun a => match a with
      | .micVerified k counter => sampleRun.ap.out.any fun b => match b with
        | .mic k' _ g => k' == k && (EapolKey.read g).replayCounter == counter
        | _ => false
      | _ => true) = true := by decide +kernel
  refine ⟨fun k f hmem => ?_, fun k counter hmem => ?_, by decide +kernel, by decide +kernel⟩
  · have hfound := List.all_eq_true.mp hstation _ hmem
    exact ⟨2, 16, .inl (of_decide_eq_true hfound)⟩
  · have hfound := List.all_eq_true.mp hap _ hmem
    obtain ⟨b, hb, heq⟩ := List.any_eq_true.mp hfound
    cases b with
    | mic k' ver g =>
      simp only [Bool.and_eq_true, beq_iff_eq] at heq
      exact ⟨ver, g, heq.1 ▸ hb, heq.2⟩
    | _ => cases heq

end Agreement
end Wpa.Auth
