import Wpa.Radius.Finish

/-! Messages that are built with calls of `radius_msg_add_attr` and `radius_msg_add_eap`, closed in
any of the ways of `radius/radius.c` and parsed by the receiver. -/

namespace Wpa.RadiusMsg
open Lib Bytes

inductive Call where
  | addAttr (type : UInt8) (data : Bytes)
  | addEap (data : Bytes)
  deriving DecidableEq

/-- A call whose return value is not looked at. -/
def Call.run (msg : Msg) : Call → Option Msg
  | addAttr type data => (radiusMsgAddAttr msg type data).map Prod.fst
  | addEap data => (radiusMsgAddEap msg data).map Prod.fst

inductive Closing where
  | finish (secret : Option Bytes)
  | finishSrv (secret : Bytes) (reqAuthenticator : Octets16)
  | finishDasResp (secret : Bytes) (reqAuthenticator : Octets16)
  | finishAcct (secret : Bytes)
  | finishAcctResp (secret : Bytes) (reqAuthenticator : Octets16)

def Closing.run (md5 : Md5) (msg : Msg) : Closing → Option Msg
  | finish secret => (radiusMsgFinish md5 msg secret).map Prod.fst
  | finishSrv secret auth => (radiusMsgFinishSrv md5 msg secret auth).map Prod.fst
  | finishDasResp secret auth => (radiusMsgFinishDasResp md5 msg secret auth).map Prod.fst
  | finishAcct secret => radiusMsgFinishAcct md5 msg secret zero16
  | finishAcctResp secret auth => radiusMsgFinishAcct md5 msg secret auth

/-- The closings that append a Message-Authenticator. -/
def Closing.appends : Closing → Bool
  | finish secret => secret.isSome
  | finishSrv .. => true
  | finishDasResp .. => true
  | finishAcct _ => false
  | finishAcctResp .. => false

/-- An EAP packet in pieces of the size of an attribute. -/
def eapPieces (data : Bytes) : List Bytes :=
  if data = [] then [] else data.take maxAttrLen :: eapPieces (data.drop maxAttrLen)
termination_by data.length
decreasing_by
  have hpos := List.length_pos_iff.mpr ‹¬data = []›
  rw [List.length_drop, maxAttrLen, attrHdrLen]
  omega

/-- The attributes that a call stands for; data that no attribute can hold is refused. -/
def Call.attrs : Call → List (UInt8 × Bytes)
  | addAttr type data => if data.length ≤ maxAttrLen then [(type, data)] else []
  | addEap data => (eapPieces data).map fun piece => (attrEapMessage, piece)

def Call.eap : Call → Bytes
  | addAttr type data =>
    if data.length ≤ maxAttrLen then if type = attrEapMessage then data else [] else []
  | addEap data => data

theorem flatten_eapPieces (data : Bytes) : (eapPieces data).flatten = data := by
  rw [eapPieces]
  split
  · rename_i hempty
    rw [hempty]
    rfl
  · rw [List.flatten_cons, flatten_eapPieces, List.take_append_drop]
termination_by data.length
decreasing_by
  have hpos := List.length_pos_iff.mpr ‹¬data = []›
  rw [List.length_drop, maxAttrLen, attrHdrLen]
  omega

theorem eapOf_eapPieces (pieces : List Bytes) :
    eapOf (pieces.map fun piece => (attrEapMessage, piece)) = pieces.flatten := by
  induction pieces with
  | nil => rfl
  | cons piece pieces ih =>
    rw [List.map_cons, eapOf_cons, if_pos rfl, ih, List.flatten_cons]

theorem Call.eapOf_attrs (call : Call) : eapOf call.attrs = call.eap := by
  cases call with
  | addAttr type data =>
    simp only [attrs, eap]
    split
    · rw [eapOf_cons]
      exact List.append_nil _
    · rfl
  | addEap data => exact (eapOf_eapPieces _).trans (flatten_eapPieces data)

theorem eapOf_flatMap (calls : List Call) :
    eapOf (calls.flatMap Call.attrs) = calls.flatMap Call.eap := by
  induction calls with
  | nil => rfl
  | cons call calls ih =>
    rw [List.flatMap_cons, eapOf_append, call.eapOf_attrs, ih, List.flatMap_cons]

theorem addEap_holds {msg : Msg} {hdr : Bytes} {attrs : List Attr} (h : Holds msg hdr attrs)
    (data : Bytes) :
    ∃ msg' attrs', radiusMsgAddEap msg data = some (msg', true) ∧ Holds msg' hdr (attrs ++ attrs') ∧
      attrs'.map Attr.pair = (eapPieces data).map fun piece => (attrEapMessage, piece) := by
  rw [radiusMsgAddEap, eapPieces]
  by_cases hempty : data = []
  · rw [dif_pos hempty, if_pos hempty]
    refine ⟨msg, [], rfl, ?_, rfl⟩
    rw [List.append_nil]
    exact h
  · rw [dif_neg hempty, if_neg hempty]
    have hlen : ∀ n, n = (if data.length > maxAttrLen then maxAttrLen else data.length) →
        data.take n = data.take maxAttrLen ∧ data.drop n = data.drop maxAttrLen := by
      rintro n rfl
      split
      · exact ⟨rfl, rfl⟩
      · rename_i hshort
        rw [List.take_of_length_le le_rfl, List.drop_of_length_le le_rfl,
          List.take_of_length_le (not_lt.mp hshort), List.drop_of_length_le (not_lt.mp hshort)]
        exact ⟨rfl, rfl⟩
    have hfits : (data.take maxAttrLen).length ≤ maxAttrLen := by
      rw [List.length_take]
      exact Nat.min_le_left _ _
    obtain ⟨m₁, hadd, h₁⟩ := addAttr_holds h ⟨attrEapMessage, data.take maxAttrLen, hfits⟩
    obtain ⟨m₂, attrs₂, hnext, h₂, hpairs⟩ := addEap_holds h₁ (data.drop maxAttrLen)
    refine ⟨m₂, ⟨attrEapMessage, data.take maxAttrLen, hfits⟩ :: attrs₂, ?_, ?_, ?_⟩
    · simp only [(hlen _ rfl).1, (hlen _ rfl).2, hadd, Option.bind_eq_bind, Option.bind_some, hnext]
    · rw [List.append_assoc] at h₂
      exact h₂
    · rw [List.map_cons, hpairs, List.map_cons]
      rfl
termination_by data.length
decreasing_by
  have hpos := List.length_pos_iff.mpr hempty
  rw [List.length_drop, maxAttrLen, attrHdrLen]
  omega

section Build
variable {msg : Msg} {hdr : Bytes} {attrs : List Attr}

/-- A call appends its attributes. -/
theorem Call.run_holds (h : Holds msg hdr attrs) (call : Call) :
    ∃ msg' attrs', call.run msg = some msg' ∧ Holds msg' hdr (attrs ++ attrs') ∧
      attrs'.map Attr.pair = call.attrs := by
  cases call with
  | addAttr type data =>
    by_cases hfits : data.length ≤ maxAttrLen
    · obtain ⟨msg', hadd, h'⟩ := addAttr_holds h ⟨type, data, hfits⟩
      refine ⟨msg', [⟨type, data, hfits⟩], ?_, h', ?_⟩
      · rw [run, hadd]
        rfl
      · rw [Call.attrs, if_pos hfits]
        rfl
    · refine ⟨msg, [], ?_, ?_, ?_⟩
      · rw [run, addAttr_too_long (not_le.mp hfits)]
        rfl
      · rw [List.append_nil]
        exact h
      · rw [Call.attrs, if_neg hfits]
        rfl
  | addEap data =>
    obtain ⟨msg', attrs', hadd, h', hpairs⟩ := addEap_holds h data
    refine ⟨msg', attrs', ?_, h', hpairs⟩
    rw [run, hadd]
    rfl

/-- A sequence of calls appends the attributes of each. -/
theorem runCalls_holds (h : Holds msg hdr attrs) (calls : List Call) :
    ∃ msg' attrs', calls.foldlM Call.run msg = some msg' ∧ Holds msg' hdr (attrs ++ attrs') ∧
      attrs'.map Attr.pair = calls.flatMap Call.attrs := by
  induction calls generalizing msg attrs with
  | nil =>
    refine ⟨msg, [], rfl, ?_, rfl⟩
    rw [List.append_nil]
    exact h
  | cons call calls ih =>
    obtain ⟨m₁, attrs₁, hrun, h₁, hpairs₁⟩ := call.run_holds h
    obtain ⟨m₂, attrs₂, hruns, h₂, hpairs₂⟩ := ih h₁
    refine ⟨m₂, attrs₁ ++ attrs₂, ?_, ?_, ?_⟩
    · rw [List.foldlM_cons, hrun]
      exact hruns
    · rw [← List.append_assoc]
      exact h₂
    · rw [List.map_append, hpairs₁, hpairs₂, List.flatMap_cons]

theorem Closing.run_closed (md5 : Md5) (h : Holds msg hdr attrs) (closing : Closing) :
    ∃ msg' mac, closing.run md5 msg = some msg' ∧
      Closed msg' (attrs ++ if closing.appends then [msgAuth mac] else []) := by
  cases closing with
  | finish secret =>
    obtain ⟨msg', mac, hrun, hclosed⟩ := finish_closed md5 h secret
    exact ⟨msg', mac, by rw [run, hrun]; rfl, hclosed⟩
  | finishSrv secret auth =>
    obtain ⟨msg', mac, hrun, hclosed⟩ := finishSrv_closed md5 h secret auth
    exact ⟨msg', mac, by rw [run, hrun]; rfl, hclosed⟩
  | finishDasResp secret auth =>
    obtain ⟨msg', mac, hrun, hclosed⟩ := finishDasResp_closed md5 h secret auth
    exact ⟨msg', mac, by rw [run, hrun]; rfl, hclosed⟩
  | finishAcct secret =>
    obtain ⟨msg', hrun, hclosed⟩ := finishAcct_closed md5 h secret zero16
    exact ⟨msg', zero16, hrun, by simpa [appends] using hclosed⟩
  | finishAcctResp secret auth =>
    obtain ⟨msg', hrun, hclosed⟩ := finishAcct_closed md5 h secret auth
    exact ⟨msg', zero16, hrun, by simpa [appends] using hclosed⟩

end Build

/-- A new message after calls and a closing. -/
def build (md5 : Md5) (code identifier : UInt8) (calls : List Call) (closing : Closing) :
    Option Msg := do
  let msg ← radiusMsgNew code identifier
  let msg ← calls.foldlM Call.run msg
  closing.run md5 msg

/-- Whatever is built can be built, and unless it is too long for a packet, its receiver finds the
attributes in their order, a Message-Authenticator behind them if the closing appended one, and
the EAP packet that was added, where there is one. -/
theorem build_roundTrip (md5 : Md5) (code identifier : UInt8) (calls : List Call)
    (closing : Closing) :
    ∃ msg, build md5 code identifier calls closing = some msg ∧
      (msg.data.length ≤ 0xffff → ∃ parsed mac,
        radiusMsgParse msg.data = some (some parsed) ∧ parsed.data = msg.data ∧
        parsed.attributes = msg.attributes ∧
        msg.attributes = some (calls.flatMap Call.attrs ++
          if closing.appends then [(attrMessageAuthenticator, mac)] else []) ∧
        radiusMsgGetEap parsed = some (if calls.flatMap Call.eap = [] then none
          else some (calls.flatMap Call.eap))) := by
  obtain ⟨m₁, hnew, h₁⟩ := radiusMsgNew_holds code identifier
  obtain ⟨m₂, attrs, hcalls, h₂, hpairs⟩ := runCalls_holds h₁ calls
  obtain ⟨msg, mac, hclose, hdr, h₃, hlength⟩ := closing.run_closed md5 h₂
  refine ⟨msg, ?_, ?_⟩
  · simp only [build, hnew, hcalls, hclose, Option.bind_eq_bind, Option.bind_some]
  · intro hlen
    have hpairs' : ([] ++ attrs ++ if closing.appends then [msgAuth mac] else []).map Attr.pair =
        calls.flatMap Call.attrs ++
          if closing.appends then [(attrMessageAuthenticator, mac.val)] else [] := by
      rw [List.nil_append, List.map_append, hpairs]
      split <;> rfl
    obtain ⟨parsed, hparse, h₄⟩ := parse_encode h₃.hdr_length _
      (by rw [hlength hlen, h₃.data_eq])
    rw [← h₃.data_eq] at hparse
    refine ⟨parsed, mac.val, hparse, ?_, ?_, ?_, ?_⟩
    · rw [h₃.data_eq, h₄.data_eq]
    · rw [h₃.attributes, h₄.attributes]
    · rw [h₃.attributes, hpairs']
    · have heap : eapOf (calls.flatMap Call.attrs ++
          if closing.appends then [(attrMessageAuthenticator, mac.val)] else []) =
          calls.flatMap Call.eap := by
        rw [eapOf_append, eapOf_flatMap]
        split
        · exact List.append_nil _
        · exact List.append_nil _
      rw [h₄.getEap, hpairs', heap]

def exampleMd5 : Md5 where
  hmac _ _ := zero16
  vector _ := zero16

theorem build_roundTrip_example : ∃ msg parsed,
    build exampleMd5 1 0 [.addAttr 1 [0x61], .addAttr attrEapMessage [5, 6]] (.finish (some [])) =
      some msg ∧
    radiusMsgParse msg.data = some (some parsed) ∧
    radiusMsgGetEap parsed = some (some [5, 6]) := by
  obtain ⟨msg, hbuild, h⟩ := build_roundTrip exampleMd5 1 0
    [.addAttr 1 [0x61], .addAttr attrEapMessage [5, 6]] (.finish (some []))
  have hlen : (some msg).map (fun msg => msg.data.length) = some 45 := by
    rw [← hbuild]
    rfl
  have hshort : msg.data.length ≤ 0xffff := by
    have hlen' : msg.data.length = 45 := Option.some_inj.mp hlen
    omega
  obtain ⟨parsed, mac, hparse, -, -, -, heap⟩ := h hshort
  exact ⟨msg, parsed, hbuild, hparse, heap⟩

end Wpa.RadiusMsg
