import Wpa.Auth.Session

/-! The pairwise keys of a session. A handshake owns its ANonce from the moment it is drawn; once
a key derived with it is installed, the next handshake draws another one, so no temporal key comes
back. -/

namespace Wpa.Auth
open Lib Bytes Prog

/-- What the random numbers and the key derivation promise: no ANonce comes twice, and keys from
different ANonces differ. -/
structure Fresh (out : List Act) : Prop where
  anonces : (drawnAnonces out).Nodup
  injective : ∀ d₁ ∈ derivations out, ∀ d₂ ∈ derivations out,
    d₁.ptk.tk = d₂.ptk.tk → d₁.anonce = d₂.anonce

/-- The ANonce was drawn last, and no key derived with it is installed. -/
structure Current (out : List Act) (a : Bytes) : Prop where
  last : (drawnAnonces out).getLast? = some a
  unspent : ∀ d ∈ derivations out, d.ptk.tk ∈ installedTks out → d.anonce ≠ a

/-- A key that is installed was derived with the last ANonce, and a frame was verified under it. -/
def InstallsVerified (p : List Act) (a : Act) : Prop :=
  ∀ tk ∈ a.installedTk, ∃ d ∈ derivations p,
    d.ptk.tk = tk ∧ (drawnAnonces p).getLast? = some d.anonce ∧ d.Verified p

structure KeyInv (out : List Act) (s : Session) : Prop where
  installed : (installedTks out).Nodup
  verified : Each InstallsVerified out
  source : ∀ tk ∈ installedTks out, ∃ d ∈ derivations out, d.ptk.tk = tk
  drawn : ∀ d ∈ derivations out, d.anonce ∈ drawnAnonces out
  current : s.state.keyed ∨ (s.state = .authentication2 ∧ s.disconnect = false) →
    Current out s.anonce
  ptk : s.valid → ∃ d ∈ derivations out, d.ptk = s.ptk ∧ d.anonce = s.anonce ∧ d.Verified out
  renew : s.renew → s.valid = false
  authentication : s.state = .authentication → s.valid = false
  confirmed : s.state.confirming → s.confirmed → s.valid ∨ s.requested

section States
variable {x : PtkState}

theorem PtkState.not_keyed_of_idle (h : x.idle) : x.keyed = false ∧ x.confirming = false ∧
    x ≠ .authentication2 := by
  cases x <;> simp_all [PtkState.idle, PtkState.keyed, PtkState.confirming]

end States

section Invariant
variable {out new : List Act} {s t : Session}

theorem Fresh.of_prefix {out' : List Act} (h : Fresh out') (hp : out <+: out') : Fresh out := by
  obtain ⟨new, rfl⟩ := hp
  obtain ⟨hnodup, hinj⟩ := h
  rw [drawnAnonces_append] at hnodup
  refine ⟨(List.nodup_append.mp hnodup).1, fun d₁ h₁ d₂ h₂ => hinj d₁ ?_ d₂ ?_⟩
  all_goals
    rw [derivations_append]
    exact List.mem_append_left _ ‹_›

/-- What the actions of a session have to say about its keys, without its state. -/
structure KeyLog (out : List Act) : Prop where
  installed : (installedTks out).Nodup
  verified : Each InstallsVerified out
  source : ∀ tk ∈ installedTks out, ∃ d ∈ derivations out, d.ptk.tk = tk
  drawn : ∀ d ∈ derivations out, d.anonce ∈ drawnAnonces out

theorem KeyInv.log (h : KeyInv out s) : KeyLog out :=
  ⟨h.installed, h.verified, h.source, h.drawn⟩

/-- The invariant of a new state over the same actions. -/
theorem KeyInv.of_state (h : KeyLog out)
    (current : t.state.keyed ∨ (t.state = .authentication2 ∧ t.disconnect = false) →
      Current out t.anonce)
    (ptk : t.valid → ∃ d ∈ derivations out, d.ptk = t.ptk ∧ d.anonce = t.anonce ∧ d.Verified out)
    (renew : t.renew → t.valid = false) (authentication : t.state = .authentication → t.valid = false)
    (confirmed : t.state.confirming → t.confirmed → t.valid ∨ t.requested) : KeyInv out t :=
  ⟨h.installed, h.verified, h.source, h.drawn, current, ptk, renew, authentication, confirmed⟩

/-- Actions that neither draw, derive nor install leave the invariant alone. -/
theorem KeyInv.append (h : KeyInv out s) (hderived : derivations new = [])
    (hdrawn : drawnAnonces new = []) (hinstalled : installedTks new = []) : KeyInv (out ++ new) s := by
  have hd : derivations (out ++ new) = derivations out := by
    rw [derivations_append, hderived, List.append_nil]
  have ha : drawnAnonces (out ++ new) = drawnAnonces out := by
    rw [drawnAnonces_append, hdrawn, List.append_nil]
  have hi : installedTks (out ++ new) = installedTks out := by
    rw [installedTks_append, hinstalled, List.append_nil]
  constructor
  · rw [hi]
    exact h.installed
  · refine h.verified.append fun a hmem p tk htk => ?_
    have hnone := List.filterMap_eq_nil_iff.mp hinstalled a hmem
    rw [hnone] at htk
    cases htk
  · rw [hi, hd]
    exact h.source
  · rw [hd, ha]
    exact h.drawn
  · intro hstate
    obtain ⟨hlast, hunspent⟩ := h.current hstate
    exact ⟨by rw [ha]; exact hlast, by rw [hd, hi]; exact hunspent⟩
  · intro hvalid
    obtain ⟨d, hmem, hptk, hanonce, hver⟩ := h.ptk hvalid
    exact ⟨d, by rw [hd]; exact hmem, hptk, hanonce, hver.append new⟩
  · exact h.renew
  · exact h.authentication
  · exact h.confirmed

theorem KeyInv.quiet (h : KeyInv out s) (hnew : ∀ a ∈ new, a.quiet) : KeyInv (out ++ new) s :=
  h.append (quiet_lists hnew).derivations (quiet_lists hnew).drawn (quiet_lists hnew).installed

/-- Another state with the same keys. -/
theorem KeyInv.same (h : KeyInv out s) (hstate : t.state = s.state) (hanonce : t.anonce = s.anonce)
    (hptk : t.ptk = s.ptk) (hvalid : t.valid = s.valid) (hdisconnect : t.disconnect = s.disconnect)
    (hrenew : t.renew = s.renew) (hconfirmed : t.confirmed → t.valid ∨ s.confirmed)
    (hrequested : t.requested = s.requested) : KeyInv out t := by
  refine KeyInv.of_state h.log ?_ ?_ ?_ ?_ ?_
  · rw [hstate, hdisconnect, hanonce]
    exact h.current
  · rw [hvalid, hptk, hanonce]
    exact h.ptk
  · rw [hrenew, hvalid]
    exact h.renew
  · rw [hstate, hvalid]
    exact h.authentication
  · intro hconfirming hc
    rcases hconfirmed hc with hvalid' | hold
    · exact .inl hvalid'
    · rw [hstate] at hconfirming
      rw [hvalid, hrequested]
      exact h.confirmed hconfirming hold

theorem KeyInv.demand (h : KeyInv out s) (hd : s.Demands t) : KeyInv out t := by
  refine KeyInv.of_state h.log ?_ ?_ ?_ ?_ ?_
  · rw [hd.state, hd.anonce]
    rintro (hkeyed | ⟨hauth, hdis⟩)
    · exact h.current (.inl hkeyed)
    · refine h.current (.inr ⟨hauth, ?_⟩)
      cases hs : s.disconnect with
      | false => rfl
      | true =>
        rw [hd.disconnect hs] at hdis
        cases hdis
  · intro hvalid
    obtain ⟨hs, hptk⟩ := hd.valid hvalid
    rw [hptk, hd.anonce]
    exact h.ptk hs
  · intro hrenew
    rcases hd.renew hrenew with hs | hs
    · cases ht : t.valid with
      | false => rfl
      | true =>
        have hv := (hd.valid ht).1
        rw [h.renew hs] at hv
        cases hv
    · exact hs
  · rw [hd.state]
    intro hauth
    cases ht : t.valid with
    | false => rfl
    | true =>
      have hs := (hd.valid ht).1
      rw [h.authentication hauth] at hs
      cases hs
  · rw [hd.state]
    intro hconfirming hc
    cases ht : t.valid with
    | true => exact .inl rfl
    | false =>
      refine .inr ?_
      rcases h.confirmed hconfirming (hd.confirmed hc) with hs | hs
      · exact hd.lost hs ht hconfirming
      · exact hd.requested hs

theorem KeyInv.leave (h : KeyInv out s) (hl : s.Leaves t) : KeyInv out t := by
  have hkeyed : t.state.keyed = false ∧ t.state.confirming = false := by
    rcases hl.state with hidle | ⟨hauth, -⟩
    · exact ⟨(PtkState.not_keyed_of_idle hidle).1, (PtkState.not_keyed_of_idle hidle).2.1⟩
    · rw [hauth]
      exact ⟨rfl, rfl⟩
  refine KeyInv.of_state h.log ?_ ?_ ?_ hl.authentication ?_
  · rintro (hk | ⟨hauth, hdis⟩)
    · rw [hkeyed.1] at hk
      cases hk
    · rcases hl.state with hidle | ⟨-, hdis'⟩
      · exact absurd hauth (PtkState.not_keyed_of_idle hidle).2.2
      · rw [hdis'] at hdis
        cases hdis
  · intro hvalid
    obtain ⟨hs, hptk⟩ := hl.valid hvalid
    rw [hptk, hl.anonce]
    exact h.ptk hs
  · intro hrenew
    rcases hl.renew hrenew with hs | hs
    · cases ht : t.valid with
      | false => rfl
      | true =>
        have hv := (hl.valid ht).1
        rw [h.renew hs] at hv
        cases hv
    · exact hs
  · rw [hkeyed.2]
    intro hfalse
    cases hfalse

theorem KeyInv.redraw {a : Bytes} (h : KeyInv out s) (hr : s.Redraws t a)
    (hfresh : Fresh (out ++ [.anonce a])) : KeyInv (out ++ [.anonce a]) t := by
  have hvalid : t.valid = false := by
    rw [hr.key.1]
    exact hr.cause.elim h.renew h.authentication
  have hderived : derivations (out ++ [.anonce a]) = derivations out := by
    rw [derivations_append]
    exact List.append_nil _
  have hinstalled : installedTks (out ++ [.anonce a]) = installedTks out := by
    rw [installedTks_append]
    exact List.append_nil _
  have hdrawn : drawnAnonces (out ++ [.anonce a]) = drawnAnonces out ++ [a] := by
    rw [drawnAnonces_append]
    rfl
  have hnew : a ∉ drawnAnonces out := by
    have hnodup := hfresh.anonces
    rw [hdrawn] at hnodup
    intro hmem
    exact (List.nodup_append.mp hnodup).2.2 a hmem a (List.mem_singleton_self a) rfl
  have hlog : KeyLog (out ++ [.anonce a]) := by
    refine ⟨by rw [hinstalled]; exact h.installed, ?_, by rw [hinstalled, hderived]; exact h.source, ?_⟩
    · exact each_concat.mpr ⟨h.verified, fun tk htk => by cases htk⟩
    · rw [hderived, hdrawn]
      exact fun d hd => List.mem_append_left _ (h.drawn d hd)
  refine KeyInv.of_state hlog (fun _ => ⟨?_, ?_⟩) ?_ (fun _ => hvalid) (fun _ => hvalid) ?_
  · rw [hdrawn, hr.anonce, List.getLast?_concat]
  · rw [hderived, hr.anonce]
    rintro d hd - rfl
    exact hnew (h.drawn d hd)
  · rw [hvalid]
    intro hfalse
    cases hfalse
  · intro hconfirming
    rcases hr.state with hs | hs <;> rw [hs] at hconfirming <;> cases hconfirming

theorem KeyInv.advance (h : KeyInv out s) (ha : s.Advances t) : KeyInv out t := by
  refine KeyInv.of_state h.log ?_ ?_ ?_ ?_ ?_
  · rw [ha.anonce]
    exact fun _ => h.current ha.origin
  · rw [ha.key.1, ha.key.2, ha.anonce]
    exact h.ptk
  · rw [ha.key.1]
    exact fun hrenew => h.renew (ha.renew hrenew)
  · intro hauth
    have hkeyed := ha.state
    rw [hauth] at hkeyed
    cases hkeyed
  · intro hconfirming hc
    rw [ha.key.1]
    exact (h.confirmed (ha.confirming hconfirming hc) (ha.confirmed hc)).imp_right ha.requested

/-- A derived key is none of those installed before: their ANonces were others. -/
theorem KeyInv.derive {d : Derivation} (h : KeyInv out s) (hkeyed : s.state.keyed)
    (hd : d.anonce = s.anonce) (hfresh : Fresh (out ++ [.derive d])) :
    KeyInv (out ++ [.derive d]) s := by
  have hderived : derivations (out ++ [.derive d]) = derivations out ++ [d] := by
    rw [derivations_append]
    rfl
  have hinstalled : installedTks (out ++ [.derive d]) = installedTks out := by
    rw [installedTks_append]
    exact List.append_nil _
  have hdrawn : drawnAnonces (out ++ [.derive d]) = drawnAnonces out := by
    rw [drawnAnonces_append]
    exact List.append_nil _
  obtain ⟨hlast, hunspent⟩ := h.current (.inl hkeyed)
  have hlog : KeyLog (out ++ [.derive d]) := by
    refine ⟨by rw [hinstalled]; exact h.installed, ?_, ?_, ?_⟩
    · exact each_concat.mpr ⟨h.verified, fun tk htk => by cases htk⟩
    · rw [hinstalled, hderived]
      intro tk htk
      obtain ⟨d₀, hmem, hd₀⟩ := h.source tk htk
      exact ⟨d₀, List.mem_append_left _ hmem, hd₀⟩
    · rw [hderived, hdrawn]
      intro d₀ hmem
      rcases List.mem_append.mp hmem with hmem | hmem
      · exact h.drawn d₀ hmem
      · rw [List.mem_singleton.mp hmem, hd]
        exact List.mem_of_getLast? hlast
  refine KeyInv.of_state hlog (fun _ => ⟨by rw [hdrawn]; exact hlast, ?_⟩) ?_ h.renew
    h.authentication h.confirmed
  · rw [hinstalled]
    intro d₀ hmem htk
    have hold := hmem
    rw [hderived, List.mem_append, List.mem_singleton] at hold
    rcases hold with hold | rfl
    · exact hunspent d₀ hold htk
    · obtain ⟨d₁, hmem₁, heq⟩ := h.source _ htk
      have hmem₁' : d₁ ∈ derivations (out ++ [.derive d₀]) := by
        rw [hderived]
        exact List.mem_append_left _ hmem₁
      rw [← hfresh.injective d₁ hmem₁' d₀ hmem heq]
      exact hunspent d₁ hmem₁ (heq ▸ htk)
  · intro hvalid
    obtain ⟨d₀, hmem, hptk, hanonce, hver⟩ := h.ptk hvalid
    exact ⟨d₀, by rw [hderived]; exact List.mem_append_left _ hmem, hptk, hanonce, hver.append _⟩

theorem KeyInv.accept (h : KeyInv out s) (ha : s.Accepts out t) : KeyInv out t := by
  have hrenew : t.renew = false := by
    rw [ha.renew.1]
    rcases ha.renew.2 with hs | hs
    · exact hs
    · cases hr : s.renew with
      | false => rfl
      | true =>
        rw [h.renew hr] at hs
        cases hs
  refine KeyInv.of_state h.log ?_ (fun _ => ?_) ?_ ?_ fun _ _ => .inl ha.valid
  · rw [ha.anonce]
    exact fun _ => h.current (.inl ha.keyed)
  · rw [ha.anonce]
    exact ha.source
  · rw [hrenew]
    intro hfalse
    cases hfalse
  · rw [ha.state]
    intro hauth
    have hkeyed := ha.keyed
    rw [hauth] at hkeyed
    cases hkeyed

theorem KeyInv.install {alg : WpaAlg} (h : KeyInv out s) (hstate : s.state = .ptkInitNegotiating)
    (hconfirmed : s.confirmed) (hfree : s.requested = false) :
    KeyInv (out ++ [.installPtk alg s.ptk.tk])
      { s with state := .ptkInitDone, confirmed := false } := by
  have hvalid : s.valid := by
    rcases h.confirmed (by rw [hstate]; rfl) hconfirmed with hv | hr
    · exact hv
    · rw [hfree] at hr
      cases hr
  obtain ⟨d, hmem, hptk, hanonce, hver⟩ := h.ptk hvalid
  obtain ⟨hlast, hunspent⟩ := h.current (.inl (by rw [hstate]; rfl))
  have hderived : derivations (out ++ [.installPtk alg s.ptk.tk]) = derivations out := by
    rw [derivations_append]
    exact List.append_nil _
  have hdrawn : drawnAnonces (out ++ [.installPtk alg s.ptk.tk]) = drawnAnonces out := by
    rw [drawnAnonces_append]
    exact List.append_nil _
  have hinstalled : installedTks (out ++ [.installPtk alg s.ptk.tk]) =
      installedTks out ++ [s.ptk.tk] := by
    rw [installedTks_append]
    rfl
  have hnew : s.ptk.tk ∉ installedTks out := fun htk =>
    hunspent d hmem (by rw [hptk]; exact htk) hanonce
  have hlog : KeyLog (out ++ [.installPtk alg s.ptk.tk]) := by
    refine ⟨?_, ?_, ?_, by rw [hderived, hdrawn]; exact h.drawn⟩
    · rw [hinstalled, List.nodup_append]
      refine ⟨h.installed, List.nodup_singleton _, ?_⟩
      rintro x hx y hy rfl
      exact hnew (List.mem_singleton.mp hy ▸ hx)
    · refine each_concat.mpr ⟨h.verified, fun tk htk => ⟨d, hmem, ?_, ?_, hver⟩⟩
      · rw [hptk]
        exact Option.some.inj htk
      · rw [hanonce]
        exact hlast
    · rw [hinstalled, hderived]
      intro tk htk
      rcases List.mem_append.mp htk with htk | htk
      · exact h.source tk htk
      · exact ⟨d, hmem, by rw [hptk, List.mem_singleton.mp htk]⟩
  refine KeyInv.of_state hlog ?_ (fun _ => ⟨d, ?_, hptk, hanonce, hver.append _⟩) h.renew ?_ ?_
  · rintro (hkeyed | ⟨hauth, -⟩)
    · cases hkeyed
    · cases hauth
  · rw [hderived]
    exact hmem
  · intro hauth
    cases hauth
  · intro hconfirming
    cases hconfirming

theorem Session.Move.keyInv {c c' : Cfg Session Act} (h : Session.Move c c') :
    Preserves Fresh KeyInv c c' := by
  cases h with
  | quiet acts h => exact Preserves.of_append fun _ hi => hi.quiet h
  | demand h => exact Preserves.of_state fun hi => hi.demand h
  | leave h => exact Preserves.of_state fun hi => hi.leave h
  | redraw h => exact Preserves.of_append fun hf hi => hi.redraw h hf
  | advance h => exact Preserves.of_state fun hi => hi.advance h
  | derive h hd => exact Preserves.of_append fun hf hi => hi.derive h hd hf
  | accept h => exact Preserves.of_state fun hi => hi.accept h
  | confirm h =>
    exact Preserves.of_state fun hi => hi.same rfl rfl rfl rfl rfl rfl (fun hb => .inl (h hb)) rfl
  | hear => exact Preserves.of_state fun hi => hi.same rfl rfl rfl rfl rfl rfl .inr rfl
  | verify => exact Preserves.of_append fun _ hi => hi.append rfl rfl rfl
  | mic => exact Preserves.of_append fun _ hi => hi.append rfl rfl rfl
  | install hstate hconfirmed hfree =>
    exact Preserves.of_append fun _ hi => hi.install hstate hconfirmed hfree
  | take =>
    exact Preserves.of_append fun _ hi =>
      (hi.append rfl rfl rfl).same rfl rfl rfl rfl rfl rfl .inr rfl
  | note =>
    exact Preserves.of_state fun hi => hi.same rfl rfl rfl rfl rfl rfl .inr rfl
  | waste =>
    exact Preserves.of_state fun hi => hi.same rfl rfl rfl rfl rfl rfl .inr rfl
  | receive h hb =>
    exact Preserves.of_append fun _ hi =>
      (hi.append rfl rfl rfl).same rfl rfl rfl rfl rfl rfl (fun hb' => .inl (hb hb')) rfl

/-- A run of the abstract machine from a state without a PTK, in which no handshake is under way,
installs no key twice and none that was not verified. -/
theorem keyInv_of_path {s t : Session} (hvalid : s.valid = false) (hidle : s.state.idle)
    (h : Relation.ReflTransGen Session.Move ⟨s, []⟩ ⟨t, out⟩) (hfresh : Fresh out) :
    KeyInv out t := by
  have hnot := PtkState.not_keyed_of_idle hidle
  have hinit : KeyInv [] s := by
    refine KeyInv.of_state ⟨List.nodup_nil, each_nil, fun _ h => absurd h List.not_mem_nil,
      fun _ h => absurd h List.not_mem_nil⟩ ?_ ?_ (fun _ => hvalid) (fun _ => hvalid) ?_
    · rintro (hkeyed | ⟨hauth, -⟩)
      · rw [hnot.1] at hkeyed
        cases hkeyed
      · exact absurd hauth hnot.2.2
    · rw [hvalid]
      intro hfalse
      cases hfalse
    · rw [hnot.2.1]
      intro hfalse
      cases hfalse
  exact (path_induction (R := Preserves Fresh KeyInv) (fun _ _ => Session.Move.keyInv) h).2
    (fun p hp => hfresh.of_prefix hp) hinit

end Invariant
end Wpa.Auth
