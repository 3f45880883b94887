import Wpa.Ie.Walk
import Wpa.Wps.AttrParse

/-! Bounds of `wps_parse_msg`: every turn of the loop moves on and keeps what it stores inside the
message, unless the search for padding counts up to 2^31 octets. -/

namespace Wpa.Wps
open Lib Bytes Ie

/-- The length that the readers of a fixed pointer take it to have. -/
def FixedField.len : FixedField → ℕ
  | version | version2 | msgType | connTypeFlags | rfBands | wpsState | networkIdx | networkKeyIdx
  | selectedRegistrar | requestType | responseType | apSetupLocked | settingsDelayTime
  | networkKeyShareable | requestToEnroll => 1
  | authTypeFlags | encrTypeFlags | configMethods | selRegConfigMethods | assocState | configError
  | devPasswordId | authType | encrType | apChannel | registrarConfigurationMethods => 2
  | osVersion => 4
  | macAddr => macAddrLen
  | primaryDevType => wpsDevTypeLen
  | authenticator => wpsAuthenticatorLen
  | keyWrapAuth => wpsKwaLen
  | enrolleeNonce | registrarNonce => wpsNonceLen
  | uuidR | uuidE => wpsUuidLen
  | rSnonce1 | rSnonce2 | eSnonce1 | eSnonce2 => wpsSecretNonceLen
  | rHash1 | rHash2 | eHash1 | eHash2 => wpsHashLen

section Inside
variable {msg : Bytes} {attr : WpsParseAttr} {field : FixedField} {pos len n : ℕ}

/-- Every pointer lies inside the message with its length, and the arrays hold their entries. -/
structure Inside (msg : Bytes) (attr : WpsParseAttr) : Prop where
  fixed : ∀ field pos, attr.fixed field = some pos → pos + field.len ≤ msg.length
  var : ∀ field s, attr.var field = some s → s.off + s.len ≤ msg.length
  cred : ∀ s ∈ attr.cred, s.off + s.len ≤ msg.length
  numCred : attr.cred.length ≤ maxCredCount
  reqDevType : ∀ pos ∈ attr.reqDevType, pos + wpsDevTypeLen ≤ msg.length
  numReqDevType : attr.reqDevType.length ≤ maxReqDevTypeCount
  vendorExt : ∀ s ∈ attr.vendorExt, s.off + s.len ≤ msg.length
  numVendorExt : attr.vendorExt.length ≤ maxWpsParseVendorExt

theorem Inside.empty (msg : Bytes) : Inside msg {} := by
  constructor <;> simp

theorem Inside.setFixed (h : Inside msg attr) (hpos : pos + field.len ≤ msg.length) :
    Inside msg (attr.setFixed field pos) := by
  refine { h with fixed := fun other p hp => ?_ }
  by_cases heq : other = field
  · subst heq
    rw [WpsParseAttr.setFixed_fixed, Function.update_self, Option.some_inj] at hp
    exact hp ▸ hpos
  · rw [WpsParseAttr.setFixed_fixed, Function.update_of_ne heq] at hp
    exact h.fixed other p hp

theorem Inside.setVar (h : Inside msg attr) {s : Span} (field : VarField)
    (hs : s.off + s.len ≤ msg.length) : Inside msg (attr.setVar field s) := by
  refine { h with var := fun other t ht => ?_ }
  by_cases heq : other = field
  · subst heq
    rw [WpsParseAttr.setVar_var, Function.update_self, Option.some_inj] at ht
    exact ht ▸ hs
  · rw [WpsParseAttr.setVar_var, Function.update_of_ne heq] at ht
    exact h.var other t ht

theorem Inside.addCred (h : Inside msg attr) {s : Span} (hs : s.off + s.len ≤ msg.length)
    (hroom : attr.cred.length < maxCredCount) :
    Inside msg { attr with cred := attr.cred ++ [s] } := by
  refine { h with cred := fun t ht => ?_, numCred := ?_ }
  · obtain ht | ht := List.mem_append.mp ht
    · exact h.cred t ht
    · rw [List.mem_singleton.mp ht]
      exact hs
  · rw [List.length_append]
    exact hroom

theorem Inside.addReqDevType (h : Inside msg attr) (hpos : pos + wpsDevTypeLen ≤ msg.length)
    (hroom : attr.reqDevType.length < maxReqDevTypeCount) :
    Inside msg { attr with reqDevType := attr.reqDevType ++ [pos] } := by
  refine { h with reqDevType := fun p hp => ?_, numReqDevType := ?_ }
  · obtain hp | hp := List.mem_append.mp hp
    · exact h.reqDevType p hp
    · rw [List.mem_singleton.mp hp]
      exact hpos
  · rw [List.length_append]
    exact hroom

theorem Inside.addVendorExt (h : Inside msg attr) {s : Span} (hs : s.off + s.len ≤ msg.length)
    (hroom : attr.vendorExt.length < maxWpsParseVendorExt) :
    Inside msg { attr with vendorExt := attr.vendorExt ++ [s] } := by
  refine { h with vendorExt := fun t ht => ?_, numVendorExt := ?_ }
  · obtain ht | ht := List.mem_append.mp ht
    · exact h.vendorExt t ht
    · rw [List.mem_singleton.mp ht]
      exact hs
  · rw [List.length_append]
    exact hroom

end Inside

section Tables

theorem mem_of_lookup {β : Type} {l : List (ℕ × β)} {k : ℕ} {b : β} (h : l.lookup k = some b) :
    (k, b) ∈ l := by
  obtain ⟨front, rest, rfl, -⟩ := List.lookup_eq_some_iff.mp h
  simp

theorem fixedAttrs_len : ∀ e ∈ fixedAttrs, e.2.2 = e.2.1.len := by decide

theorem wfaElems_len : ∀ e ∈ wfaElems, e.2.2 = e.2.1.len := by decide

end Tables

section Fields
variable {msg : Bytes} {attr : WpsParseAttr} {E : WpsParseAttr → Prop} {V : Element → Prop}
  {type id pos len stop fuel : ℕ}

theorem setVendorExtWfaSubelem_inside (h : Inside msg attr) (hpos : pos + len ≤ msg.length) :
    Meets (setVendorExtWfaSubelem msg attr id len pos) (Inside msg) (Inside msg) := by
  unfold setVendorExtWfaSubelem
  split
  · rename_i field n hfield
    have hlen : n = field.len := wfaElems_len _ (mem_of_lookup hfield)
    split_ifs with hne
    · exact .refuse h
    · exact .ret (h.setFixed (by omega))
  · split_ifs with hmacs hap hone
    · exact .ret (h.setVar _ hpos)
    · exact .refuse h
    · refine .bind_read (read8_eq (by omega)) (.ret ?_)
      exact { h with }
    · exact .ret h

/-- An invariant of the step, over the subelements so far, is one of the loop; `V` is what is known
of every subelement. -/
theorem parseVendorExtWfa_meets (past : List Element) {I : List Element → WpsParseAttr → Prop}
    (hstep : ∀ past e attr, e.data.off + e.data.len ≤ msg.length → V e → I past attr →
      Meets (setVendorExtWfaSubelem msg attr e.id e.data.len e.data.off) E (I (past ++ [e])))
    (hstop : stop ≤ msg.length) (hfuel : stop - pos < fuel)
    (hvalid : ∀ e ∈ elementsBetween msg pos stop, V e) (h : I past attr) :
    Meets (parseVendorExtWfa msg stop fuel pos attr) E
      (I (past ++ elementsBetween msg pos stop)) := by
  induction fuel generalizing pos past attr with
  | zero => exact absurd hfuel (Nat.not_lt_zero _)
  | succ fuel ih =>
    have hend (hnone : ¬ pos + 2 + msg.byteAt (pos + 1) ≤ stop) :
        I (past ++ elementsBetween msg pos stop) attr := by
      have hnil : elementsBetween msg pos stop = [] := by
        by_contra hne
        exact hnone (whole_of_elementsBetween hne hstop)
      rw [hnil, List.append_nil]
      exact h
    rw [parseVendorExtWfa]
    split_ifs with htwo
    · refine .bind_read (read8_eq (by omega)) (.bind_read (read8_eq (by omega)) ?_)
      split_ifs with hlong
      · exact .ret (hend (by omega))
      · have hcons : elementsBetween msg pos stop =
            ⟨msg.byteAt pos, ⟨pos + 2, msg.byteAt (pos + 1)⟩⟩ ::
              elementsBetween msg (pos + 2 + msg.byteAt (pos + 1)) stop :=
          elementsBetween_cons (by omega) hstop
        rw [hcons] at hvalid ⊢
        have hhead := hstep past ⟨msg.byteAt pos, ⟨pos + 2, msg.byteAt (pos + 1)⟩⟩ attr
          (by show pos + 2 + msg.byteAt (pos + 1) ≤ msg.length; omega)
          (hvalid _ List.mem_cons_self) h
        refine .bind hhead fun attr' h' => ?_
        have hrest := ih (past ++ [_]) (by omega)
          (fun e he => hvalid e (List.mem_cons_of_mem _ he)) h'
        rw [List.append_assoc] at hrest
        exact hrest
    · exact .ret (hend (by omega))

theorem parseVendorExt_inside (h : Inside msg attr) (hpos : pos + len ≤ msg.length) :
    Meets (parseVendorExt msg attr pos len) (Inside msg) (Inside msg) := by
  unfold parseVendorExt
  by_cases hshort : len < 3
  · rw [if_pos hshort]
    exact .ret h
  · rw [if_neg hshort]
    refine .bind_read (readBe24_eq (by omega)) ?_
    split_ifs
    · exact parseVendorExtWfa_meets (V := fun _ => True) (I := fun _ => Inside msg) []
        (fun _ e attr he _ hattr => setVendorExtWfaSubelem_inside hattr he) hpos (by omega)
        (fun _ _ => trivial) h
    · exact .refuse h
    · exact .refuse h
    · exact .ret (h.addVendorExt hpos (by omega))

theorem readBe16_eq (h : pos + 2 ≤ msg.length) : readBe16 msg pos = some (msg.be16 pos) := by
  have h₀ : pos < msg.length := by omega
  have h₁ : pos + 1 < msg.length := by omega
  simp [readBe16, read8_eq h₀, read8_eq h₁, be16]

/-- Whether the length of an out-of-band device password is outside the limits. -/
def OobInvalid (msg : Bytes) (pos len : ℕ) : Prop :=
  len < wpsOobPubkeyHashLen + 2 ∨ len > wpsOobPubkeyHashLen + 2 + wpsOobDevicePasswordLen ∨
    (len < wpsOobPubkeyHashLen + 2 + wpsOobDevicePasswordMinLen ∧
      msg.be16 (pos + wpsOobPubkeyHashLen) ≠ devPwNfcConnectionHandover)

instance : Decidable (OobInvalid msg pos len) := inferInstanceAs (Decidable (_ ∨ _))

theorem oobInvalid_eq (hpos : pos + len ≤ msg.length) :
    oobInvalid msg pos len = some (decide (OobInvalid msg pos len)) := by
  unfold oobInvalid
  split_ifs with hout hshort
  · rw [decide_eq_true]
    exact hout.imp_right .inl
  · have hread : pos + wpsOobPubkeyHashLen + 2 ≤ msg.length := by omega
    rw [readBe16_eq hread, Option.map_some, Option.some_inj]
    apply decide_eq_decide.mpr
    unfold OobInvalid
    tauto
  · rw [decide_eq_false]
    unfold OobInvalid
    tauto

theorem setOther_inside (h : Inside msg attr) (hpos : pos + len ≤ msg.length) :
    Meets (setOther msg attr type pos len) (Inside msg) (Inside msg) := by
  unfold setOther
  split_ifs with hoob hcred hfull hreq hlen hmany hsec hinvalid hvendor
  · refine .bind_read (oobInvalid_eq hpos) ?_
    split_ifs
    · exact .refuse h
    · exact .ret (h.setVar _ hpos)
  · exact .ret h
  · exact .ret (h.addCred hpos (by omega))
  · exact .refuse h
  · exact .ret h
  · exact .ret (h.addReqDevType (by omega) (by omega))
  · exact .refuse h
  · exact .ret (h.setVar _ hpos)
  · exact parseVendorExt_inside h hpos
  · exact .ret h

theorem setAttr_inside (h : Inside msg attr) (hpos : pos + len ≤ msg.length) :
    Meets (setAttr msg attr type pos len) (Inside msg) (Inside msg) := by
  unfold setAttr
  split
  · rename_i field n hfield
    have hlen : n = field.len := fixedAttrs_len _ (mem_of_lookup hfield)
    split_ifs with hne
    · exact .refuse h
    · exact .ret (h.setFixed (by omega))
  · split
    · refine .ret (h.setVar _ ?_)
      show pos + (if _ then _ else _) ≤ _
      split_ifs <;> omega
    · split
      · split_ifs
        · exact .ret h
        · exact .ret (h.setVar _ hpos)
      · split
        · exact .ret (h.setVar _ hpos)
        · exact setOther_inside h hpos

end Fields

section Padding
variable {msg : Bytes} {pos i fuel type len : ℕ}

/-- So many zero octets from `pos` on that `int i` overflows in the search for another one. -/
def LongPadding (msg : Bytes) (pos : ℕ) : Prop := ∀ i < 2 ^ 31, msg[pos + i]? = some 0

theorem isPadding_eq_none_iff (hfuel : msg.length - pos < i + fuel) (hi : i < 2 ^ 31)
    (hle : i ≤ msg.length - pos) :
    isPadding msg pos fuel i = none ↔ ∀ j, i ≤ j → j < 2 ^ 31 → msg[pos + j]? = some 0 := by
  induction fuel generalizing i with
  | zero => omega
  | succ fuel ih =>
    rw [isPadding]
    by_cases hin : i < msg.length - pos
    · obtain ⟨x, hx⟩ : ∃ x, msg[pos + i]? = some x := by
        apply Option.ne_none_iff_exists'.mp
        rw [ne_eq, List.getElem?_eq_none_iff]
        omega
      have hread : msg.read8 (pos + i) = some x.toNat := by
        rw [read8, hx, Option.map_some]
      rw [if_pos hin, hread, Option.bind_some]
      by_cases hzero : x = 0
      · subst hzero
        have hhead : (∀ j, i ≤ j → j < 2 ^ 31 → msg[pos + j]? = some 0) ↔
            ∀ j, i + 1 ≤ j → j < 2 ^ 31 → msg[pos + j]? = some 0 := by
          refine ⟨fun h j hj => h j (by omega), fun h j hj hlt => ?_⟩
          obtain rfl | hj := Nat.eq_or_lt_of_le hj
          · exact hx
          · exact h j hj hlt
        rw [if_neg (by simp)]
        by_cases hlast : i + 1 < 2 ^ 31
        · rw [if_pos hlast, ih (by omega) hlast (by omega), hhead]
        · rw [if_neg hlast, hhead]
          exact iff_of_true rfl fun j hj hlt => absurd hlt (by omega)
      · have hne : x.toNat ≠ 0 := fun h => hzero (UInt8.toNat_inj.mp h)
        rw [if_pos hne]
        refine iff_of_false (Option.some_ne_none _) fun h => hzero ?_
        have hat := h i (Nat.le_refl i) hi
        rw [hx, Option.some_inj] at hat
        exact hat
    · rw [if_neg hin]
      refine iff_of_false (Option.some_ne_none _) fun h => ?_
      have hat := h i (Nat.le_refl i) hi
      rw [List.getElem?_eq_none (by omega)] at hat
      cases hat

theorem paddingAt_eq_none_iff :
    paddingAt msg type len pos = none ↔ type = 0 ∧ len = 0 ∧ LongPadding msg pos := by
  unfold paddingAt
  split_ifs with hzero
  · rw [isPadding_eq_none_iff (by omega) (by norm_num) (Nat.zero_le _)]
    refine ⟨fun h => ⟨hzero.1, hzero.2, fun i hi => h i (Nat.zero_le i) hi⟩, fun h i _ hi => ?_⟩
    exact h.2.2 i hi
  · exact iff_of_false nofun fun h => hzero ⟨h.1, h.2.1⟩

end Padding

section Turn
variable {msg : Bytes} {s s' : WpsState}

/-- The header at `s.pos` is followed by so many zero octets that the search for another one
overflows. -/
def PaddingOverflow (msg : Bytes) (s : WpsState) : Prop :=
  s.pos + 4 ≤ msg.length ∧ msg.be16 s.pos = 0 ∧ msg.be16 (s.pos + 2) = 0 ∧
    LongPadding msg (s.pos + 4)

/-- A later position, and what has been stored. -/
def WpsTurn.After (msg : Bytes) (pos : ℕ) : WpsTurn → Prop
  | .done attr => Inside msg attr
  | .next s => Inside msg s.attr ∧ pos < s.pos ∧ s.pos ≤ msg.length

/-- A turn, unless the search for padding overflows: it ends or moves on, also where it steps back
behind the octet after a network key. -/
theorem wpsTurn_meets (h : Inside msg s.attr) (hno : ¬ PaddingOverflow msg s) :
    Meets (wpsTurn msg s) (Inside msg) (WpsTurn.After msg s.pos) := by
  unfold wpsTurn
  by_cases hin : s.pos < msg.length
  · rw [if_pos hin]
    by_cases hfour : msg.length - s.pos < 4
    · rw [if_pos hfour]
      exact .refuse h
    · rw [if_neg hfour]
      refine .bind_read (readBe16_eq (by omega)) (.bind_read (readBe16_eq (by omega)) ?_)
      by_cases hlong : msg.be16 (s.pos + 2) > msg.length - (s.pos + 4)
      · simp only [if_pos hlong]
        split_ifs
        · exact .ret ⟨h, by show s.pos < s.pos + 4 - 3; omega, by show s.pos + 4 - 3 ≤ _; omega⟩
        · exact .refuse h
      · simp only [if_neg hlong]
        obtain ⟨padding, hpadding⟩ : ∃ padding,
            paddingAt msg (msg.be16 s.pos) (msg.be16 (s.pos + 2)) (s.pos + 4) = some padding := by
          apply Option.ne_none_iff_exists'.mp
          intro hnone
          exact hno ⟨by omega, paddingAt_eq_none_iff.mp hnone⟩
        refine .bind_read hpadding ?_
        split_ifs
        · exact .ret h
        · refine .bind (setAttr_inside h (by omega)) fun attr hattr => .ret ⟨hattr, ?_, ?_⟩
          · show s.pos < s.pos + 4 + _
            omega
          · show s.pos + 4 + _ ≤ _
            omega
  · rw [if_neg hin]
    exact .ret h

/-- The search overflows. -/
theorem wpsTurn_eq_none (hover : PaddingOverflow msg s) : (wpsTurn msg s).run = none := by
  obtain ⟨hfour, htype, hlen, hpadding⟩ := hover
  have hread : readBe16 msg s.pos = some 0 := htype ▸ readBe16_eq (by omega)
  have hread' : readBe16 msg (s.pos + 2) = some 0 := hlen ▸ readBe16_eq (by omega)
  have hnone : paddingAt msg 0 0 (s.pos + 4) = none := paddingAt_eq_none_iff.mpr ⟨rfl, rfl, hpadding⟩
  unfold wpsTurn
  rw [if_pos (by omega), if_neg (by omega), hread, hread']
  show ((liftM (paddingAt msg 0 0 (s.pos + 4)) : ReadProg WpsParseAttr Bool) >>= _).run = none
  rw [hnone]
  rfl

end Turn

section Run
variable {msg : Bytes} {s s' : WpsState} {fuel : ℕ}

/-- The states at the head of the loop. -/
inductive Reached (msg : Bytes) : WpsState → Prop
  | start : Reached msg {}
  | next {s s' : WpsState} (hs : Reached msg s)
    (hturn : (wpsTurn msg s).run = some (.ok (.next s'))) : Reached msg s'

/-- The parser ends without a read outside of the message, and whatever it has stored then, with or
without an error, is inside. -/
def Sound (msg : Bytes) : Prop := Meets (wpsParseMsg msg) (Inside msg) (Inside msg)

/-- The loop comes to a header of type 0 and length 0 behind which `int i` overflows. -/
def Overruns (msg : Bytes) : Prop := ∃ s, Reached msg s ∧ PaddingOverflow msg s

theorem parseFrom_meets (hs : Reached msg s) (hno : ¬ Overruns msg) (h : Inside msg s.attr)
    (hfuel : msg.length - s.pos < fuel) :
    Meets (parseFrom msg fuel s) (Inside msg) (Inside msg) := by
  induction fuel generalizing s with
  | zero => exact absurd hfuel (Nat.not_lt_zero _)
  | succ fuel ih =>
    obtain ⟨r, hr, herr, hok⟩ := wpsTurn_meets h fun hover => hno ⟨s, hs, hover⟩
    have hrun : (parseFrom msg (fuel + 1) s).run = some r >>= fun r =>
        ExceptT.bindCont (fun
          | .done attr => return attr
          | .next s => parseFrom msg fuel s) r := by
      rw [← hr]
      rfl
    unfold Meets
    rw [hrun]
    cases r with
    | error attr => exact Meets.refuse (herr attr rfl)
    | ok turn =>
      have hafter := hok turn rfl
      cases turn with
      | done attr => exact Meets.ret hafter
      | next s' =>
        obtain ⟨hinside, hlater, hle⟩ := hafter
        exact ih (hs.next hr) hinside (by omega)

/-- A run from the start has no outcome if there is none from a state that it comes to. -/
theorem Reached.parseFrom_eq_none (hs : Reached msg s)
    (hnone : ∀ fuel, (parseFrom msg fuel s).run = none) (fuel : ℕ) :
    (parseFrom msg fuel {}).run = none := by
  induction hs generalizing fuel with
  | start => exact hnone fuel
  | @next s s' hs hturn ih =>
    refine ih (fun fuel => ?_) fuel
    cases fuel with
    | zero => rfl
    | succ fuel =>
      show (wpsTurn msg s >>= _).run = none
      rw [ExceptT.run_bind, hturn]
      exact hnone fuel

theorem PaddingOverflow.parseFrom_eq_none (hover : PaddingOverflow msg s) (fuel : ℕ) :
    (parseFrom msg fuel s).run = none := by
  cases fuel with
  | zero => rfl
  | succ fuel =>
    show (wpsTurn msg s >>= _).run = none
    rw [ExceptT.run_bind, wpsTurn_eq_none hover]
    rfl

theorem sound_iff (msg : Bytes) : Sound msg ↔ ¬ Overruns msg := by
  constructor
  · rintro ⟨r, hr, -⟩ ⟨s, hs, hover⟩
    rw [wpsParseMsg, hs.parseFrom_eq_none hover.parseFrom_eq_none] at hr
    cases hr
  · intro hno
    exact parseFrom_meets .start hno (Inside.empty msg) (Nat.lt_succ_self _)

/-- A message of fewer octets than that is parsed inside of it. -/
theorem sound_of_short (h : msg.length < 2 ^ 31) : Sound msg := by
  rw [sound_iff]
  rintro ⟨s, -, -, -, -, hpadding⟩
  have hat := hpadding (2 ^ 31 - 1) (by norm_num)
  rw [List.getElem?_eq_none (by omega)] at hat
  cases hat

end Run
end Wpa.Wps
