import Wpa.Radius.RoundTrip

/-! Verification of received messages. It overwrites the Message-Authenticator in place, sixteen
octets wherever that attribute stands, and puts back what was there. -/

namespace Wpa.RadiusMsg
open Lib Bytes

inductive Search where
  | multiple
  | found (attr : Option ℕ)
  deriving DecidableEq

/-- The loop that looks for the Message-Authenticator. -/
def searchMsgAuth (data : Bytes) : List ℕ → Option ℕ → Option Search
  | [], attr => some (.found attr)
  | pos :: rest, attr => do
    let type ← data[pos]?
    if type = attrMessageAuthenticator then
      if attr.isSome then return .multiple else searchMsgAuth data rest (some pos)
    else searchMsgAuth data rest attr

/-- The check of the Message-Authenticator at `attr`, computed with the authenticator `auth` in the
header, or with the one that is there. The second component tells whether the values are equal. -/
def checkMac (md5 : Md5) (msg : Msg) (secret : Bytes) (attr : ℕ) :
    Option Octets16 → Option (Msg × Bool)
  | none => do
    let orig ← msg.data.readSlice (attr + attrHdrLen) md5MacLen
    let msg ← msg.write (attr + attrHdrLen) zero16.val
    let mac := md5.hmac secret msg.data
    let msg ← msg.write (attr + attrHdrLen) orig
    return (msg, orig = mac.val)
  | some auth => do
    let orig ← msg.data.readSlice (attr + attrHdrLen) md5MacLen
    let msg ← msg.write (attr + attrHdrLen) zero16.val
    let origAuthenticator ← msg.data.readSlice authenticatorOff md5MacLen
    let msg ← msg.write authenticatorOff auth.val
    let mac := md5.hmac secret msg.data
    let msg ← msg.write (attr + attrHdrLen) orig
    let msg ← msg.write authenticatorOff origAuthenticator
    return (msg, orig = mac.val)

/-- What `radius_msg_verify_msg_auth` and `radius_msg_verify_das_req` have in common; `missing` is
the verdict on a message without a Message-Authenticator. -/
def checkMsgAuth (md5 : Md5) (msg : Msg) (secret : Bytes) (missing : Bool)
    (auth : Option Octets16) : Option (Msg × Bool) := do
  match ← searchMsgAuth msg.data msg.attrs.pos none with
  | .multiple => return (msg, false)
  | .found none => return (msg, missing)
  | .found (some attr) => checkMac md5 msg secret attr auth

/-- `radius_msg_verify_msg_auth`; the second component tells whether it returns zero. -/
def radiusMsgVerifyMsgAuth (md5 : Md5) (msg : Msg) (secret : Bytes) (reqAuth : Option Octets16) :
    Option (Msg × Bool) :=
  checkMsgAuth md5 msg secret false reqAuth

/-- The digest over a message with `auth` for its authenticator. -/
def digestWith (md5 : Md5) (msg : Msg) (secret : Bytes) (auth : Octets16) : Option Octets16 := do
  let start ← msg.data.readSlice 0 4
  let attributes ← msg.data.readSlice hdrLen (msg.data.length - hdrLen)
  return md5.vector (start ++ auth.val ++ attributes ++ secret)

/-- `radius_msg_verify` against the authenticator of the request, where there is one. -/
def radiusMsgVerify (md5 : Md5) (msg : Msg) (secret : Bytes) (sent : Option Octets16)
    (auth : Bool) : Option (Msg × Bool) :=
  match sent with
  | none => some (msg, false)
  | some sentAuthenticator => do
    let (msg, ok) ← if auth then radiusMsgVerifyMsgAuth md5 msg secret (some sentAuthenticator)
      else some (msg, true)
    if ok = false then return (msg, false)
    else
      let hash ← digestWith md5 msg secret sentAuthenticator
      let authenticator ← msg.data.readSlice authenticatorOff md5MacLen
      return (msg, hash.val = authenticator)

def radiusMsgVerifyAcctReq (md5 : Md5) (msg : Msg) (secret : Bytes) : Option Bool := do
  let hash ← digestWith md5 msg secret zero16
  let authenticator ← msg.data.readSlice authenticatorOff md5MacLen
  return authenticator = hash.val

def radiusMsgVerifyDasReq (md5 : Md5) (msg : Msg) (secret : Bytes)
    (requireMessageAuthenticator : Bool) : Option (Msg × Bool) := do
  let hash ← digestWith md5 msg secret zero16
  let authenticator ← msg.data.readSlice authenticatorOff md5MacLen
  if authenticator ≠ hash.val then return (msg, false)
  else checkMsgAuth md5 msg secret (!requireMessageAuthenticator) (some zero16)

/-- The offsets at which a message has a Message-Authenticator. -/
def Msg.msgAuths (msg : Msg) : List ℕ :=
  msg.attrs.pos.filter fun pos => msg.data[pos]? = some attrMessageAuthenticator

/-- A lone Message-Authenticator is followed by the sixteen octets of its value. -/
def MsgAuthFits (msg : Msg) : Prop :=
  ∀ attr, msg.msgAuths = [attr] → attr + attrHdrLen + md5MacLen ≤ msg.data.length

/-- The call stays inside the message and leaves it as it was. -/
def Unaltered (msg : Msg) (r : Option (Msg × Bool)) : Prop := ∃ ok, r = some (msg, ok)

section Search
variable {data : Bytes} {ps : List ℕ}

theorem searchMsgAuth_none (hps : ∀ pos ∈ ps, pos < data.length)
    (h : ps.filter (fun pos => data[pos]? = some attrMessageAuthenticator) = []) (attr : Option ℕ) :
    searchMsgAuth data ps attr = some (.found attr) := by
  induction ps with
  | nil => rfl
  | cons pos ps ih =>
    have hpos : pos < data.length := hps pos List.mem_cons_self
    have htype : ¬data[pos] = attrMessageAuthenticator := by
      intro htype
      simp [List.getElem?_eq_getElem hpos, htype] at h
    have hrest : ps.filter (fun pos => data[pos]? = some attrMessageAuthenticator) = [] := by
      simpa [List.getElem?_eq_getElem hpos, htype] using h
    rw [searchMsgAuth, List.getElem?_eq_getElem hpos, Option.bind_eq_bind, Option.bind_some,
      if_neg htype]
    exact ih (fun pos hmem => hps pos (List.mem_cons_of_mem _ hmem)) hrest

theorem searchMsgAuth_again (hps : ∀ pos ∈ ps, pos < data.length)
    (h : ps.filter (fun pos => data[pos]? = some attrMessageAuthenticator) ≠ []) (attr : ℕ) :
    searchMsgAuth data ps (some attr) = some .multiple := by
  induction ps with
  | nil => exact absurd rfl h
  | cons pos ps ih =>
    have hpos : pos < data.length := hps pos List.mem_cons_self
    rw [searchMsgAuth, List.getElem?_eq_getElem hpos, Option.bind_eq_bind, Option.bind_some]
    by_cases htype : data[pos] = attrMessageAuthenticator
    · rw [if_pos htype]
      rfl
    · have hrest : ps.filter (fun pos => data[pos]? = some attrMessageAuthenticator) ≠ [] := by
        simpa [List.getElem?_eq_getElem hpos, htype] using h
      rw [if_neg htype]
      exact ih (fun pos hmem => hps pos (List.mem_cons_of_mem _ hmem)) hrest

/-- The search finds a lone Message-Authenticator, and stops at a second one. -/
theorem searchMsgAuth_eq (hps : ∀ pos ∈ ps, pos < data.length) :
    searchMsgAuth data ps none =
      some (match ps.filter fun pos => data[pos]? = some attrMessageAuthenticator with
        | [] => .found none
        | [attr] => .found (some attr)
        | _ :: _ :: _ => .multiple) := by
  induction ps with
  | nil => rfl
  | cons pos ps ih =>
    have hpos : pos < data.length := hps pos List.mem_cons_self
    have hps' : ∀ pos ∈ ps, pos < data.length :=
      fun pos hmem => hps pos (List.mem_cons_of_mem _ hmem)
    rw [searchMsgAuth, List.getElem?_eq_getElem hpos, Option.bind_eq_bind, Option.bind_some,
      List.filter_cons, List.getElem?_eq_getElem hpos]
    by_cases htype : data[pos] = attrMessageAuthenticator
    · simp only [htype, if_true, Option.isSome_none, Bool.false_eq_true, if_false, decide_true]
      cases hrest : ps.filter fun pos => decide (data[pos]? = some attrMessageAuthenticator) with
      | nil => exact searchMsgAuth_none hps' hrest _
      | cons attr rest =>
        exact searchMsgAuth_again hps' (by rw [hrest]; exact List.cons_ne_nil _ _) _
    · have hne : ¬some data[pos] = some attrMessageAuthenticator := by
        rwa [Option.some_inj]
      rw [if_neg htype, decide_eq_false hne, ih hps']
      rfl

end Search

section Mac
variable (md5 : Md5) {msg : Msg} {secret : Bytes} {attr : ℕ}

theorem Msg.write_eq {msg : Msg} {off : ℕ} (src : Bytes) (h : off + src.length ≤ msg.data.length) :
    ∃ msg', msg.write off src = some msg' ∧ msg'.data = msg.data.writeAt off src ∧
      msg'.buf.size = msg.buf.size ∧ msg'.attrs = msg.attrs := by
  obtain ⟨buf, hover, hsize, hdata⟩ := msg.buf.overwrite_eq h
  refine ⟨{ msg with buf := buf }, ?_, hdata, hsize, rfl⟩
  rw [Msg.write, hover]
  rfl

theorem Msg.eq_of_data {msg msg' : Msg} (hdata : msg'.data = msg.data)
    (hsize : msg'.buf.size = msg.buf.size) (hattrs : msg'.attrs = msg.attrs) : msg' = msg := by
  obtain ⟨⟨size, data, fits⟩, attrs⟩ := msg
  obtain ⟨⟨size', data', fits'⟩, attrs'⟩ := msg'
  cases hdata
  cases hsize
  cases hattrs
  rfl

/-- The octets that a Message-Authenticator is checked over. -/
def checkInput (data : Bytes) (attr : ℕ) : Option Octets16 → Bytes
  | none => data.writeAt (attr + attrHdrLen) zero16.val
  | some auth => (data.writeAt (attr + attrHdrLen) zero16.val).writeAt authenticatorOff auth.val

/-- With sixteen octets behind its header a Message-Authenticator is checked in place, and
everything is put back. -/
theorem checkMac_eq (hattr : hdrLen ≤ attr)
    (h : attr + attrHdrLen + md5MacLen ≤ msg.data.length) (auth : Option Octets16) :
    checkMac md5 msg secret attr auth =
      some (msg, decide (msg.data.slice (attr + attrHdrLen) md5MacLen =
        (md5.hmac secret (checkInput msg.data attr auth)).val)) := by
  have horig := readSlice_eq h
  have hlen : (msg.data.slice (attr + attrHdrLen) md5MacLen).length = md5MacLen := by
    rw [slice_length]
    omega
  have hzero : zero16.val.length = md5MacLen := zero16.2
  obtain ⟨m₁, hw₁, hd₁, hs₁, ha₁⟩ := Msg.write_eq zero16.val
    (show attr + attrHdrLen + _ ≤ msg.data.length by rw [hzero]; exact h)
  have hl₁ : m₁.data.length = msg.data.length := by rw [hd₁, writeAt_length]
  have hundo : (msg.data.writeAt (attr + attrHdrLen) zero16.val).writeAt (attr + attrHdrLen)
      (msg.data.slice (attr + attrHdrLen) md5MacLen) = msg.data := writeAt_undo hzero h
  cases auth with
  | none =>
    obtain ⟨m₂, hw₂, hd₂, hs₂, ha₂⟩ := Msg.write_eq
      (msg.data.slice (attr + attrHdrLen) md5MacLen)
      (show attr + attrHdrLen + _ ≤ m₁.data.length by rw [hlen, hl₁]; exact h)
    have hback : m₂ = msg := by
      refine Msg.eq_of_data ?_ (hs₂.trans hs₁) (ha₂.trans ha₁)
      rw [hd₂, hd₁, hundo]
    simp only [checkMac, horig, hw₁, hw₂, Option.bind_eq_bind, Option.bind_some, hback, hd₁]
    rfl
  | some auth =>
    have hapart : authenticatorOff + auth.val.length ≤ attr + attrHdrLen := by
      rw [auth.2]
      simp only [hdrLen, authenticatorOff, md5MacLen] at *
      omega
    have hapart' : authenticatorOff + md5MacLen ≤ attr + attrHdrLen := by
      rw [← auth.2]
      exact hapart
    obtain ⟨m₂, hw₂, hd₂, hs₂, ha₂⟩ := Msg.write_eq auth.val
      (show authenticatorOff + _ ≤ m₁.data.length by rw [hl₁]; omega)
    have hl₂ : m₂.data.length = msg.data.length := by rw [hd₂, writeAt_length, hl₁]
    obtain ⟨m₃, hw₃, hd₃, hs₃, ha₃⟩ := Msg.write_eq
      (msg.data.slice (attr + attrHdrLen) md5MacLen)
      (show attr + attrHdrLen + _ ≤ m₂.data.length by rw [hlen, hl₂]; exact h)
    have hl₃ : m₃.data.length = msg.data.length := by rw [hd₃, writeAt_length, hl₂]
    have horigAuth : m₁.data.readSlice authenticatorOff md5MacLen =
        some (msg.data.slice authenticatorOff md5MacLen) := by
      rw [readSlice_eq (by rw [hl₁]; omega), hd₁, slice_writeAt_of_le hapart' (by rw [hzero]; exact h)]
    have hlen' : (msg.data.slice authenticatorOff md5MacLen).length = auth.val.length := by
      rw [slice_length, auth.2]
      omega
    obtain ⟨m₄, hw₄, hd₄, hs₄, ha₄⟩ := Msg.write_eq
      (msg.data.slice authenticatorOff md5MacLen)
      (show authenticatorOff + _ ≤ m₃.data.length by rw [hlen', hl₃]; omega)
    -- The two places are apart, so each write is undone by its own.
    have hback : m₄ = msg := by
      refine Msg.eq_of_data ?_ (hs₄.trans (hs₃.trans (hs₂.trans hs₁)))
        (ha₄.trans (ha₃.trans (ha₂.trans ha₁)))
      rw [hd₄, hd₃, hd₂, hd₁, writeAt_comm hapart (by rw [writeAt_length, hlen]; exact h), hundo]
      exact writeAt_undo auth.2 (by omega)
    simp only [checkMac, horig, hw₁, horigAuth, hw₂, hw₃, hw₄, Option.bind_eq_bind,
      Option.bind_some, hback]
    rw [hd₂, hd₁]
    rfl

theorem checkMac_eq_none (h : msg.data.length < attr + attrHdrLen + md5MacLen)
    (auth : Option Octets16) : checkMac md5 msg secret attr auth = none := by
  have horig := readSlice_eq_none h
  cases auth <;> simp only [checkMac, horig, Option.bind_eq_bind, Option.bind_none]

end Mac

section Verify
variable (md5 : Md5) {msg : Msg} {hdr : Bytes} {attrs : List Attr}

theorem exists_at {data : Bytes} {ps : List ℕ} (h : List.Forall₂ (At data) ps attrs) {pos : ℕ}
    (hpos : pos ∈ ps) : ∃ a, At data pos a := by
  induction h with
  | nil => cases hpos
  | @cons p a ps attrs hat _ ih =>
    rcases List.mem_cons.mp hpos with rfl | hpos
    · exact ⟨a, hat⟩
    · exact ih hpos

theorem le_of_mem_positions {start pos : ℕ} (hpos : pos ∈ positions start attrs) : start ≤ pos := by
  induction attrs generalizing start with
  | nil => cases hpos
  | cons a attrs ih =>
    rcases List.mem_cons.mp hpos with rfl | hpos
    · exact le_rfl
    · exact le_trans (Nat.le_add_right _ _) (ih hpos)

theorem Holds.search (h : Holds msg hdr attrs) :
    searchMsgAuth msg.data msg.attrs.pos none =
      some (match msg.msgAuths with
        | [] => .found none
        | [attr] => .found (some attr)
        | _ :: _ :: _ => .multiple) := by
  apply searchMsgAuth_eq
  intro pos hpos
  obtain ⟨a, hat⟩ := exists_at h.forall₂ hpos
  have hle := hat.le_length
  rw [attrHdrLen] at hle
  omega

theorem Holds.hdrLen_le (h : Holds msg hdr attrs) {attr : ℕ} (hattr : attr ∈ msg.msgAuths) :
    hdrLen ≤ attr := by
  have hmem := List.mem_of_mem_filter hattr
  rw [h.pos_eq] at hmem
  exact le_of_mem_positions hmem

/-- A check of the Message-Authenticator either leaves the message as it was, or there is no room
for the value and it goes outside. -/
theorem checkMsgAuth_cases (h : Holds msg hdr attrs) (secret : Bytes) (missing : Bool)
    (auth : Option Octets16) :
    (MsgAuthFits msg ∧ Unaltered msg (checkMsgAuth md5 msg secret missing auth)) ∨
      (¬MsgAuthFits msg ∧ checkMsgAuth md5 msg secret missing auth = none) := by
  unfold checkMsgAuth
  rw [h.search, Option.bind_eq_bind, Option.bind_some]
  rcases hauths : msg.msgAuths with _ | ⟨attr, _ | ⟨attr', rest⟩⟩
  · refine .inl ⟨fun attr hattr => ?_, missing, rfl⟩
    rw [hauths] at hattr
    cases hattr
  · have hmem : attr ∈ msg.msgAuths := by
      rw [hauths]
      exact List.mem_singleton_self _
    by_cases hroom : attr + attrHdrLen + md5MacLen ≤ msg.data.length
    · refine .inl ⟨fun attr' hattr => ?_, _, checkMac_eq md5 (h.hdrLen_le hmem) hroom auth⟩
      rw [hauths] at hattr
      cases hattr
      exact hroom
    · exact .inr ⟨fun hfits => hroom (hfits attr hauths),
        checkMac_eq_none md5 (not_le.mp hroom) auth⟩
  · refine .inl ⟨fun attr hattr => ?_, false, rfl⟩
    rw [hauths] at hattr
    cases hattr

theorem checkMsgAuth_unaltered (h : Holds msg hdr attrs) (secret : Bytes) (missing : Bool)
    (auth : Option Octets16) :
    Unaltered msg (checkMsgAuth md5 msg secret missing auth) ↔ MsgAuthFits msg := by
  rcases checkMsgAuth_cases md5 h secret missing auth with ⟨hfits, hsame⟩ | ⟨hfits, hnone⟩
  · exact iff_of_true hsame hfits
  · refine iff_of_false ?_ hfits
    rintro ⟨ok, hok⟩
    rw [hnone] at hok
    cases hok

theorem digestWith_eq (h : Holds msg hdr attrs) (secret : Bytes) (auth : Octets16) :
    digestWith md5 msg secret auth =
      some (md5.vector (digestInput hdr (encode attrs) secret auth)) := by
  simp only [digestWith, start_eq h, rest_eq h, Option.bind_eq_bind, Option.bind_some]
  rfl

theorem authenticator_eq (h : Holds msg hdr attrs) :
    msg.data.readSlice authenticatorOff md5MacLen = some (hdr.slice authenticatorOff md5MacLen) := by
  have hhdr : authenticatorOff + md5MacLen ≤ hdr.length := by
    rw [h.hdr_length]
    decide
  rw [readSlice_eq, h.data_eq, slice_append_left _ _ hhdr]
  rw [h.data_eq, List.length_append]
  omega

theorem verify_unaltered (h : Holds msg hdr attrs) (secret : Bytes) (sent : Option Octets16)
    (auth : Bool) :
    Unaltered msg (radiusMsgVerify md5 msg secret sent auth) ↔
      (sent.isSome ∧ auth → MsgAuthFits msg) := by
  cases sent with
  | none => exact ⟨fun _ hsent => absurd hsent.1 (by decide), fun _ => ⟨false, rfl⟩⟩
  | some sent =>
    have hrest := authenticator_eq h
    have hhash := digestWith_eq md5 h secret sent
    unfold radiusMsgVerify radiusMsgVerifyMsgAuth
    cases auth with
    | false =>
      refine ⟨fun _ hauth => absurd hauth.2 (by decide), fun _ => ?_⟩
      simp only [Bool.false_eq_true, if_false, Option.bind_eq_bind, Option.bind_some,
        Bool.true_eq_false, hhash, hrest]
      exact ⟨_, rfl⟩
    | true =>
      simp only [if_true, Option.bind_eq_bind]
      rcases checkMsgAuth_cases md5 h secret false (some sent) with ⟨hfits, ok, hok⟩ | ⟨hfits, hnone⟩
      · refine iff_of_true ?_ (fun _ => hfits)
        cases ok with
        | false =>
          simp only [hok, Option.bind_some, if_true]
          exact ⟨_, rfl⟩
        | true =>
          simp only [hok, Option.bind_some, Bool.true_eq_false, if_false, hhash, hrest]
          exact ⟨_, rfl⟩
      · refine iff_of_false ?_ (fun hall => hfits (hall ⟨rfl, trivial⟩))
        rintro ⟨ok, hok⟩
        rw [hnone] at hok
        cases hok

theorem verifyDasReq_unaltered (h : Holds msg hdr attrs) (secret : Bytes)
    (requireMessageAuthenticator : Bool) :
    Unaltered msg (radiusMsgVerifyDasReq md5 msg secret requireMessageAuthenticator) ↔
      (radiusMsgVerifyAcctReq md5 msg secret = some true → MsgAuthFits msg) := by
  have hrest := authenticator_eq h
  have hhash := digestWith_eq md5 h secret zero16
  simp only [radiusMsgVerifyDasReq, radiusMsgVerifyAcctReq, hrest, hhash, Option.bind_eq_bind,
    Option.bind_some]
  by_cases hauth : hdr.slice authenticatorOff md5MacLen =
      (md5.vector (digestInput hdr (encode attrs) secret zero16)).val
  · rw [if_neg (not_not.mpr hauth), checkMsgAuth_unaltered md5 h]
    refine ⟨fun hfits _ => hfits, fun hall => hall ?_⟩
    rw [decide_eq_true hauth]
    rfl
  · rw [if_pos hauth]
    refine iff_of_true ⟨_, rfl⟩ ?_
    intro hacct
    rw [decide_eq_false hauth] at hacct
    cases hacct

end Verify

section Respond
variable (md5 : Md5) {msg : Msg} {hdr : Bytes} {attrs : List Attr}

theorem filter_eq_nil_iff {data : Bytes} {ps : List ℕ} (h : List.Forall₂ (At data) ps attrs) :
    ps.filter (fun pos => data[pos]? = some attrMessageAuthenticator) = [] ↔
      ∀ a ∈ attrs, a.type ≠ attrMessageAuthenticator := by
  induction h with
  | nil => simp
  | @cons pos a ps attrs hat _ ih =>
    rw [List.filter_cons, hat.type, List.forall_mem_cons]
    by_cases htype : a.type = attrMessageAuthenticator
    · simp [htype]
    · simp [htype, ih]

/-- The Message-Authenticators of a message that one was appended to. -/
theorem Holds.msgAuths_eq {mac : Octets16} (h : Holds msg hdr (attrs ++ [msgAuth mac])) :
    ∃ auths, msg.msgAuths = auths ++ [hdrLen + (encode attrs).length] ∧
      (auths = [] ↔ ∀ a ∈ attrs, a.type ≠ attrMessageAuthenticator) := by
  have hdrop : msg.data.drop hdrLen = encode attrs ++ encode [msgAuth mac] := by
    rw [h.data_eq, List.drop_left' h.hdr_length, encode_append]
  have hfirst : List.Forall₂ (At msg.data) (positions hdrLen attrs) attrs := by
    apply forall₂_at
    rw [hdrop]
    exact List.prefix_append _ _
  have hlast : At msg.data (hdrLen + (encode attrs).length) (msgAuth mac) := by
    rw [At, ← List.drop_drop, hdrop, List.drop_left]
    exact List.prefix_append _ _
  refine ⟨_, ?_, filter_eq_nil_iff hfirst⟩
  rw [Msg.msgAuths, h.pos_eq, positions_append, List.filter_append]
  congr 1
  rw [positions, positions, List.filter_cons, hlast.type]
  rfl

/-- The receiver of a response checks the Message-Authenticator over what it was computed over. -/
theorem checkInput_eq {mac digest : Octets16}
    (h : Holds msg (closedHdr hdr (hdrLen + (encode attrs).length + 18) digest)
      (attrs ++ [msgAuth mac])) (hhdr : hdr.length = hdrLen) (auth : Octets16) :
    checkInput msg.data (hdrLen + (encode attrs).length) (some auth) = macInput hdr attrs auth := by
  have hlen := h.length_eq
  rw [encode_msgAuth_length] at hlen
  have hroom : hdrLen + (encode attrs).length + attrHdrLen + zero16.val.length ≤
      msg.data.length := by
    rw [hlen, zero16.2, attrHdrLen, md5MacLen]
    omega
  obtain ⟨m₁, hw₁, h₁⟩ := writeMac_holds h zero16
  obtain ⟨m₁', hw₁', hd₁, -, -⟩ := Msg.write_eq _ hroom
  rw [hw₁, Option.some_inj] at hw₁'
  subst hw₁'
  have hroom' : authenticatorOff + auth.val.length ≤ m₁.data.length := by
    rw [hd₁, writeAt_length, hlen, auth.2, authenticatorOff, md5MacLen, hdrLen]
    omega
  obtain ⟨m₂, hw₂, h₂⟩ := writeAuthenticator_holds h₁ auth
  obtain ⟨m₂', hw₂', hd₂, -, -⟩ := Msg.write_eq _ hroom'
  rw [hw₂, Option.some_inj] at hw₂'
  subst hw₂'
  rw [checkInput, ← hd₁, ← hd₂, h₂.data_eq, closedHdr_twice hhdr, macInput]

/-- The value at the last attribute is the one it was given. -/
theorem slice_msgAuth {mac : Octets16} (h : Holds msg hdr (attrs ++ [msgAuth mac])) :
    msg.data.slice (hdrLen + (encode attrs).length + attrHdrLen) md5MacLen = mac.val := by
  have hdrop : msg.data.drop (hdrLen + (encode attrs).length) = encode [msgAuth mac] := by
    rw [← List.drop_drop, h.data_eq, List.drop_left' h.hdr_length, encode_append, List.drop_left]
  have hat : At msg.data (hdrLen + (encode attrs).length) (msgAuth mac) := by
    rw [At, hdrop]
    exact List.prefix_append _ _
  have hvalue := hat.value
  have hmac : (msgAuth mac).value.length = md5MacLen := mac.2
  rw [readSlice_eq hat.le_length, hmac, Option.some_inj] at hvalue
  exact hvalue

/-- The receiver of a response accepts it unless the caller had put a Message-Authenticator of its
own in it, which is then refused as the first of two. -/
theorem verify_finishSrv (h : Holds msg hdr attrs) (secret : Bytes) (auth : Octets16) {sent : Msg}
    (hsent : (radiusMsgFinishSrv md5 msg secret auth).map Prod.fst = some sent)
    (hlen : sent.data.length ≤ 0xffff) :
    ∃ parsed, radiusMsgParse sent.data = some (some parsed) ∧
      (radiusMsgVerify md5 parsed secret (some auth) true = some (parsed, true) ↔
        ∀ a ∈ attrs, a.type ≠ attrMessageAuthenticator) := by
  obtain ⟨sent', mac, digest, hfinish, hmac, hdigest, h'⟩ := finishSrv_holds md5 h secret auth
  rw [hfinish, Option.map_some, Option.some_inj] at hsent
  subst hsent
  have hlen' : sent'.data.length = hdrLen + (encode attrs).length + 18 := by
    rw [h'.length_eq, encode_msgAuth_length, Nat.add_assoc]
  obtain ⟨parsed, hparse, hp⟩ := parse_encode h'.hdr_length _ (by
    rw [← h'.data_eq, be16_closedHdr h.hdr_length (by rw [← hlen']; exact hlen), hlen'])
  rw [← h'.data_eq] at hparse
  refine ⟨parsed, hparse, ?_⟩
  obtain ⟨auths, hauths, hnil⟩ := hp.msgAuths_eq
  rw [← hnil]
  cases auths with
  | cons attr rest =>
    refine iff_of_false ?_ (List.cons_ne_nil _ _)
    have hmultiple : checkMsgAuth md5 parsed secret false (some auth) = some (parsed, false) := by
      unfold checkMsgAuth
      rw [hp.search, hauths]
      cases rest <;> rfl
    simp only [radiusMsgVerify, radiusMsgVerifyMsgAuth, if_true, hmultiple, Option.bind_eq_bind,
      Option.bind_some]
    intro heq
    cases heq
  | nil =>
    refine iff_of_true ?_ rfl
    have hroom : hdrLen + (encode attrs).length + attrHdrLen + md5MacLen ≤ parsed.data.length := by
      rw [hp.length_eq, encode_msgAuth_length, attrHdrLen, md5MacLen]
      omega
    have hcheck : checkMsgAuth md5 parsed secret false (some auth) = some (parsed, true) := by
      unfold checkMsgAuth
      rw [hp.search, hauths]
      show checkMac md5 parsed secret _ (some auth) = _
      rw [checkMac_eq md5 (Nat.le_add_right _ _) hroom, checkInput_eq hp h.hdr_length,
        slice_msgAuth hp, hmac, decide_eq_true rfl]
    have hsame : (md5.vector (digestInput
        (closedHdr hdr (hdrLen + (encode attrs).length + 18) digest)
        (encode (attrs ++ [msgAuth mac])) secret auth)) = digest := by
      rw [hdigest, digestInput, digestInput, closedHdr_take h.hdr_length]
    have hauthenticator : (closedHdr hdr (hdrLen + (encode attrs).length + 18) digest).slice
        authenticatorOff md5MacLen = digest.val := by
      apply slice_writeAt digest.2
      rw [writeAt_length, h.hdr_length]
      decide
    simp only [radiusMsgVerify, radiusMsgVerifyMsgAuth, if_true, hcheck, Option.bind_eq_bind,
      Option.bind_some, Bool.true_eq_false, if_false, digestWith_eq md5 hp, authenticator_eq hp,
      hsame, hauthenticator, decide_true]
    rfl

end Respond

/-- Verification of a received message stays inside it and leaves it as it was exactly if a lone
Message-Authenticator that it comes to check has its sixteen octets in the message; and a response
is accepted by the client that sent the request exactly if the server put no Message-Authenticator
in it before closing it. -/
theorem verify_iff (md5 : Md5) (secret : Bytes) :
    (∀ data msg, radiusMsgParse data = some (some msg) →
      (∀ reqAuth, Unaltered msg (radiusMsgVerifyMsgAuth md5 msg secret reqAuth) ↔
        MsgAuthFits msg) ∧
      (∀ sent auth, Unaltered msg (radiusMsgVerify md5 msg secret sent auth) ↔
        (sent.isSome ∧ auth → MsgAuthFits msg)) ∧
      ∀ require, Unaltered msg (radiusMsgVerifyDasReq md5 msg secret require) ↔
        (radiusMsgVerifyAcctReq md5 msg secret = some true → MsgAuthFits msg)) ∧
    ∀ code identifier calls auth, ∃ sent,
      build md5 code identifier calls (.finishSrv secret auth) = some sent ∧
      (sent.data.length ≤ 0xffff → ∃ parsed, radiusMsgParse sent.data = some (some parsed) ∧
        (radiusMsgVerify md5 parsed secret (some auth) true = some (parsed, true) ↔
          ∀ a ∈ calls.flatMap Call.attrs, a.1 ≠ attrMessageAuthenticator)) := by
  constructor
  · intro data msg hparse
    obtain ⟨hdr, attrs, h⟩ := parse_holds hparse
    exact ⟨checkMsgAuth_unaltered md5 h secret false, verify_unaltered md5 h secret,
      verifyDasReq_unaltered md5 h secret⟩
  · intro code identifier calls auth
    obtain ⟨m₁, hnew, h₁⟩ := radiusMsgNew_holds code identifier
    obtain ⟨m₂, attrs, hcalls, h₂, hpairs⟩ := runCalls_holds h₁ calls
    rw [List.nil_append] at h₂
    obtain ⟨sent, mac, hfinish, -⟩ := finishSrv_closed md5 h₂ secret auth
    have hclose : (radiusMsgFinishSrv md5 m₂ secret auth).map Prod.fst = some sent := by
      rw [hfinish]
      rfl
    refine ⟨sent, ?_, fun hlen => ?_⟩
    · simp only [build, hnew, hcalls, Closing.run, hclose, Option.bind_eq_bind, Option.bind_some]
    · obtain ⟨parsed, hparse, hverify⟩ := verify_finishSrv md5 h₂ secret auth hclose hlen
      refine ⟨parsed, hparse, ?_⟩
      rw [hverify, ← hpairs, List.forall_mem_map]
      rfl

/-- An Access-Accept that ends in a Message-Authenticator of two octets. -/
def shortMsgAuth : Bytes := [2, 0, 0, 22] ++ zeros 16 ++ [80, 2]

theorem shortMsgAuth_parse :
    ∃ msg, radiusMsgParse shortMsgAuth = some (some msg) ∧ msg.msgAuths = [20] ∧
      msg.data.length = 22 := by
  obtain ⟨msg, hparse, h⟩ := parse_encode
    (show ([2, 0, 0, 22] ++ zeros 16).length = hdrLen by decide)
    [⟨attrMessageAuthenticator, [], by decide⟩] (by decide)
  have hdata : msg.data = shortMsgAuth := h.data_eq
  refine ⟨msg, hparse, ?_, ?_⟩
  · rw [Msg.msgAuths, h.pos_eq, hdata]
    decide
  · rw [hdata]
    decide

theorem verify_shortMsgAuth : ¬∀ md5 secret data msg,
    radiusMsgParse data = some (some msg) →
      ∀ sent, Unaltered msg (radiusMsgVerify md5 msg secret (some sent) true) := by
  intro hall
  obtain ⟨msg, hparse, hauths, hlen⟩ := shortMsgAuth_parse
  obtain ⟨hdr, attrs, h⟩ := parse_holds hparse
  have hfits := (verify_unaltered exampleMd5 h [] (some zero16) true).mp
    (hall exampleMd5 [] shortMsgAuth msg hparse zero16) ⟨rfl, rfl⟩ 20 hauths
  rw [hlen] at hfits
  exact absurd hfits (by decide)

theorem verify_iff_shortMsgAuth : ∃ msg, radiusMsgParse shortMsgAuth = some (some msg) ∧
    ¬Unaltered msg (radiusMsgVerifyMsgAuth exampleMd5 msg [] none) := by
  obtain ⟨msg, hparse, hauths, hlen⟩ := shortMsgAuth_parse
  have hiff := ((verify_iff exampleMd5 []).1 shortMsgAuth msg hparse).1 none
  refine ⟨msg, hparse, fun hsame => ?_⟩
  have hfits := hiff.mp hsame 20 hauths
  rw [hlen] at hfits
  exact absurd hfits (by decide)

end Wpa.RadiusMsg
