import Wpa.Sae.Commit

/-! What the parser of commit messages leaves as it is. -/

namespace Wpa.Sae
open Lib Bytes
variable {E : Type}

@[simp] theorem modifyTmp_tmp (f : Tmp E → Tmp E) (sae : Data E) :
    (sae.modifyTmp f).tmp = sae.tmp.map f := rfl

@[simp] theorem modifyTmp_peerAkmSuiteSelector (f : Tmp E → Tmp E) (sae : Data E) :
    (sae.modifyTmp f).peerAkmSuiteSelector = sae.peerAkmSuiteSelector := rfl

@[simp] theorem andThen_success (c : Cursor E) (f : Cursor E → Cursor E × Status) :
    andThen (c, .success) f = f c := rfl

theorem andThen_invariant {P : Cursor E → Prop} {r : Cursor E × Status}
    {f : Cursor E → Cursor E × Status} (hr : P r.1) (hf : ∀ c, P c → P (f c).1) :
    P (andThen r f).1 := by
  unfold andThen
  split
  · exact hf _ hr
  · exact hr

section Parts
variable [DecidableEq E] {args : ParseArgs} (g : Group E) (c : Cursor E)

theorem saeParseCommitBody_of_h2e (h : args.h2e = true) :
    saeParseCommitBody args g c =
      andThen (andThen (andThen (andThen (andThen (andThen
        (saeParseCommitScalar g args.scalarAlloc c) (saeParseCommitElement g))
        (saeParsePasswordIdentifier args.pwIdAlloc)) (saeParseRejectedGroups args.rejectedAlloc))
        fun c => (saeParseTokenContainer c, .success)) saeParseAkmSuiteSelector)
        saeFinishCommit := by
  simp only [saeParseCommitBody, saeParseCommitToken, h, if_true]

theorem saeParseCommitBody_of_not_h2e (h : args.h2e = false) :
    saeParseCommitBody args g c =
      andThen (andThen (andThen
        (saeParseCommitScalar g args.scalarAlloc (saeParseCommitToken g false c))
        (saeParseCommitElement g)) (saeParsePasswordIdentifier args.pwIdAlloc))
        saeFinishCommit := by
  simp only [saeParseCommitBody, h, Bool.false_eq_true, if_false]

end Parts

/-- An invariant of the parts of the parser is one of the parser. -/
theorem saeParseCommitBody_invariant [DecidableEq E] {P : Cursor E → Prop} {args : ParseArgs}
    {g : Group E} (htoken : ∀ c, P c → P (saeParseCommitToken g false c))
    (hscalar : ∀ c, P c → P (saeParseCommitScalar g args.scalarAlloc c).1)
    (helement : ∀ c, P c → P (saeParseCommitElement g c).1)
    (hpwId : ∀ c, P c → P (saeParsePasswordIdentifier args.pwIdAlloc c).1)
    (hrejected : args.h2e = true → ∀ c, P c → P (saeParseRejectedGroups args.rejectedAlloc c).1)
    (hcontainer : ∀ c, P c → P (saeParseTokenContainer c))
    (hselector : args.h2e = true → ∀ c, P c → P (saeParseAkmSuiteSelector c).1)
    (hfinish : ∀ c, P c → P (saeFinishCommit c).1) (c : Cursor E) (hc : P c) :
    P (saeParseCommitBody args g c).1 := by
  cases h : args.h2e with
  | false =>
    rw [saeParseCommitBody_of_not_h2e g c h]
    have hscalar' := hscalar _ (htoken c hc)
    exact andThen_invariant
      (andThen_invariant (andThen_invariant hscalar' helement) hpwId) hfinish
  | true =>
    rw [saeParseCommitBody_of_h2e g c h]
    refine andThen_invariant (andThen_invariant (andThen_invariant ?_ hcontainer) (hselector h))
      hfinish
    exact andThen_invariant
      (andThen_invariant (andThen_invariant (hscalar c hc) helement) hpwId) (hrejected h)


/-- An instance without what a commit message of the peer is read into. -/
def Tmp.unread (tmp : Tmp E) : Tmp E :=
  { tmp with peerCommitElement := none, pwId := none, peerRejectedGroups := none }

def Data.unread (sae : Data E) : Data E :=
  { sae with
    peerCommitScalar := none
    peerAkmSuiteSelector := 0
    akmp := 0
    tmp := sae.tmp.map Tmp.unread }

theorem unread_of_modifyTmp {a b c : Data E} {f : Tmp E → Tmp E} (hb : b.unread = c)
    (ha : a = b.modifyTmp f) (hf : ∀ tmp, (f tmp).unread = tmp.unread) : a.unread = c := by
  rw [← hb, ha]
  cases h : b.tmp with
  | none => simp [Data.unread, Data.modifyTmp, h]
  | some tmp => simp [Data.unread, Data.modifyTmp, h, hf]

theorem tmp_bind_of_unread {α : Type} {a b : Data E} (h : a.unread = b.unread)
    {f : Tmp E → Option α} (hf : ∀ tmp, f tmp.unread = f tmp) : a.tmp.bind f = b.tmp.bind f := by
  have hview : ∀ sae : Data E, sae.unread.tmp.bind f = sae.tmp.bind f := by
    intro sae
    cases htmp : sae.tmp with
    | none => simp [Data.unread, htmp]
    | some tmp => simp [Data.unread, htmp, hf]
  rw [← hview a, ← hview b, h]

section Unread

theorem saeParseCommitBody_unread [DecidableEq E] (args : ParseArgs) (g : Group E) (c : Cursor E) :
    (saeParseCommitBody args g c).1.sae.unread = c.sae.unread := by
  refine saeParseCommitBody_invariant (P := fun c' => c'.sae.unread = c.sae.unread)
    ?_ ?_ ?_ ?_ ?_ ?_ ?_ ?_ c rfl
  · intro c' hc
    simp only [saeParseCommitToken, Bool.false_eq_true, if_false]
    split <;> exact hc
  · intro c' hc
    unfold saeParseCommitScalar
    simp only
    split_ifs <;> exact hc
  · intro c' hc
    unfold saeParseCommitElement saeParseCommitElementFfc saeParseCommitElementEcc
    simp only
    split_ifs <;> first | exact hc | exact unread_of_modifyTmp hc rfl fun _ => rfl
  · intro c' hc
    unfold saeParsePasswordIdentifier
    simp only
    split_ifs <;> first | exact hc | exact unread_of_modifyTmp hc rfl fun _ => rfl
  · intro _ c' hc
    unfold saeParseRejectedGroups
    simp only
    split_ifs <;> first | exact hc | exact unread_of_modifyTmp hc rfl fun _ => rfl
  · intro c' hc
    unfold saeParseTokenContainer
    split <;> exact hc
  · intro _ c' hc
    unfold saeParseAkmSuiteSelector
    split <;> exact hc
  · intro c' hc
    unfold saeFinishCommit
    simp only
    split_ifs <;> exact hc

/-- A group that is allowed is the one in use, or it is set up anew. -/
theorem saeGroupAllowed_cases (lib : ℕ → Option (Group E)) (allowedGroups : Option (List ℕ))
    (group : ℕ) (sae : Data E) :
    (saeGroupAllowed lib allowedGroups group sae).1 = sae ∨
      (group ≠ sae.group ∧ sae.state ≠ .committed ∧
        (saeGroupAllowed lib allowedGroups group sae).1 = (saeSetGroup lib group sae).1) := by
  unfold saeGroupAllowed
  split
  · exact .inl rfl
  · split
    · exact .inl rfl
    · rename_i hcommitted
      by_cases hgroup : group = sae.group
      · left
        simp only [hgroup, ne_eq, not_true_eq_false, if_false, Bool.not_true, Bool.false_eq_true]
        split
        · rfl
        · split <;> rfl
      · refine .inr ⟨hgroup, fun h => hcommitted ⟨h, hgroup⟩, ?_⟩
        simp only [ne_eq, hgroup, not_false_eq_true, if_true]
        split
        · rfl
        · split
          · rfl
          · split <;> rfl

/-- The parser works on the instance for the group of the message. -/
theorem saeParseCommit_unread [DecidableEq E] (lib : ℕ → Option (Group E)) (args : ParseArgs) (data : Bytes)
    (sae : Data E) :
    (saeParseCommit lib args data sae).1.sae.unread = sae.unread ∨
      (data.le16 0 ≠ sae.group ∧ sae.state ≠ .committed ∧
        (saeParseCommit lib args data sae).1.sae.unread =
          (saeSetGroup lib (data.le16 0) sae).1.unread) := by
  have hbody : (saeParseCommit lib args data sae).1.sae.unread = sae.unread ∨
      (saeParseCommit lib args data sae).1.sae.unread =
        (saeGroupAllowed lib args.allowedGroups (data.le16 0) sae).1.unread := by
    unfold saeParseCommit
    split
    · exact .inl rfl
    · right
      simp only [andThen]
      split
      · split
        · exact saeParseCommitBody_unread args _ _
        · rfl
      · rfl
  rcases saeGroupAllowed_cases lib args.allowedGroups (data.le16 0) sae with hsame | ⟨hne, hst, hset⟩
  · rw [hsame, or_self] at hbody
    exact .inl hbody
  · rcases hbody with hbody | hbody
    · exact .inl hbody
    · exact .inr ⟨hne, hst, by rw [hbody, hset]⟩

theorem saeSetGroup_state (lib : ℕ → Option (Group E)) (group : ℕ) (sae : Data E) :
    (saeSetGroup lib group sae).1 = sae ∨ (saeSetGroup lib group sae).1.state = .nothing := by
  unfold saeSetGroup
  split
  · exact .inl rfl
  · split <;> exact .inr rfl

end Unread
end Wpa.Sae
