import Wpa.Common.Kde
import Wpa.Lib.ReadProg

/-! WPS attributes (`wps/wps_attr_parse.c`). The pointers of `struct wps_parse_attr` are offsets into
the message; nothing is the outcome of a run that reads outside of the message. -/

namespace Wpa.Wps
open Lib Bytes

section Attributes

/-- The pointers with a fixed length. -/
inductive FixedField
  | version | version2 | msgType | enrolleeNonce | registrarNonce | uuidR | uuidE | authTypeFlags
  | encrTypeFlags | connTypeFlags | configMethods | selRegConfigMethods | primaryDevType | rfBands
  | assocState | configError | devPasswordId | osVersion | wpsState | authenticator | rHash1 | rHash2
  | eHash1 | eHash2 | rSnonce1 | rSnonce2 | eSnonce1 | eSnonce2 | keyWrapAuth | authType | encrType
  | networkIdx | networkKeyIdx | macAddr | selectedRegistrar | requestType | responseType
  | apSetupLocked | settingsDelayTime | networkKeyShareable | requestToEnroll | apChannel
  | registrarConfigurationMethods
  deriving DecidableEq

/-- The pointers with a length of their own. -/
inductive VarField
  | manufacturer | modelName | modelNumber | serialNumber | devName | publicKey | encrSettings | ssid
  | networkKey | authorizedMacs | secDevTypeList | oobDevPassword
  deriving DecidableEq

/-- `struct wps_parse_attr`; `num_cred`, `num_req_dev_type` and `num_vendor_ext` are the lengths of
the lists. -/
structure WpsParseAttr where
  fixed : FixedField → Option ℕ := fun _ => none
  var : VarField → Option Span := fun _ => none
  cred : List Span := []
  reqDevType : List ℕ := []
  vendorExt : List Span := []
  multiApExt : ℕ := 0

def maxCredCount : ℕ := 10
def maxReqDevTypeCount : ℕ := 10
def maxWpsParseVendorExt : ℕ := 10
def wpsMaxVendorExtLen : ℕ := 1024
def wpsVendorIdWfa : ℕ := 14122

def WpsParseAttr.setFixed (attr : WpsParseAttr) (field : FixedField) (pos : ℕ) : WpsParseAttr :=
  { attr with fixed := Function.update attr.fixed field (some pos) }

def WpsParseAttr.setVar (attr : WpsParseAttr) (field : VarField) (s : Span) : WpsParseAttr :=
  { attr with var := Function.update attr.var field (some s) }

theorem WpsParseAttr.setFixed_fixed (attr : WpsParseAttr) (field : FixedField) (pos : ℕ) :
    (attr.setFixed field pos).fixed = Function.update attr.fixed field (some pos) := rfl

theorem WpsParseAttr.setVar_var (attr : WpsParseAttr) (field : VarField) (s : Span) :
    (attr.setVar field s).var = Function.update attr.var field (some s) := rfl

end Attributes

section Tables

def wpsNonceLen : ℕ := 16
def wpsUuidLen : ℕ := 16
def wpsDevTypeLen : ℕ := 8
def wpsAuthenticatorLen : ℕ := 8
def wpsHashLen : ℕ := 32
def wpsSecretNonceLen : ℕ := 16
def wpsKwaLen : ℕ := 8
def macAddrLen : ℕ := 6
def wpsSecDevTypeMaxLen : ℕ := 128
def ssidMaxLen : ℕ := 32
def wpsOobPubkeyHashLen : ℕ := 20
def wpsOobDevicePasswordLen : ℕ := 32
def wpsOobDevicePasswordMinLen : ℕ := 16
def devPwNfcConnectionHandover : ℕ := 7

def attrNetworkKey : ℕ := 0x1027
def attrOobDevicePassword : ℕ := 0x102c
def attrCred : ℕ := 0x100e
def attrRequestedDevType : ℕ := 0x106a
def attrSecondaryDevTypeList : ℕ := 0x1055
def attrVendorExt : ℕ := 0x1049

/-- The attributes whose length has one value only: another one is an error. -/
def fixedAttrs : List (ℕ × FixedField × ℕ) := [
  (0x104a, .version, 1),
  (0x1022, .msgType, 1),
  (0x101a, .enrolleeNonce, wpsNonceLen),
  (0x1039, .registrarNonce, wpsNonceLen),
  (0x1047, .uuidE, wpsUuidLen),
  (0x1048, .uuidR, wpsUuidLen),
  (0x1004, .authTypeFlags, 2),
  (0x1010, .encrTypeFlags, 2),
  (0x100d, .connTypeFlags, 1),
  (0x1008, .configMethods, 2),
  (0x1053, .selRegConfigMethods, 2),
  (0x1054, .primaryDevType, wpsDevTypeLen),
  (0x103c, .rfBands, 1),
  (0x1002, .assocState, 2),
  (0x1009, .configError, 2),
  (0x1012, .devPasswordId, 2),
  (0x102d, .osVersion, 4),
  (0x1044, .wpsState, 1),
  (0x1005, .authenticator, wpsAuthenticatorLen),
  (0x103d, .rHash1, wpsHashLen),
  (0x103e, .rHash2, wpsHashLen),
  (0x1014, .eHash1, wpsHashLen),
  (0x1015, .eHash2, wpsHashLen),
  (0x103f, .rSnonce1, wpsSecretNonceLen),
  (0x1040, .rSnonce2, wpsSecretNonceLen),
  (0x1016, .eSnonce1, wpsSecretNonceLen),
  (0x1017, .eSnonce2, wpsSecretNonceLen),
  (0x101e, .keyWrapAuth, wpsKwaLen),
  (0x1003, .authType, 2),
  (0x100f, .encrType, 2),
  (0x1026, .networkIdx, 1),
  (0x1028, .networkKeyIdx, 1),
  (0x1020, .macAddr, macAddrLen),
  (0x1041, .selectedRegistrar, 1),
  (0x103a, .requestType, 1),
  (0x103b, .responseType, 1),
  (0x1057, .apSetupLocked, 1),
  (0x1001, .apChannel, 2)]

/-- The attributes of which a longer one is cut to its greatest length. -/
def cutAttrs : List (ℕ × VarField × ℕ) := [
  (0x1021, .manufacturer, 64),
  (0x1023, .modelName, 32),
  (0x1024, .modelNumber, 32),
  (0x1042, .serialNumber, 32)]

/-- The attributes that are ignored unless their length is in a range. -/
def rangedAttrs : List (ℕ × VarField × ℕ × ℕ) := [
  (0x1011, .devName, 0, 32),
  (0x1032, .publicKey, 190, 192),
  (0x1045, .ssid, 0, ssidMaxLen)]

/-- The attributes of any length. -/
def plainAttrs : List (ℕ × VarField) := [
  (0x1018, .encrSettings),
  (attrNetworkKey, .networkKey)]

/-- The subelements of a WFA vendor extension whose length has one value only. -/
def wfaElems : List (ℕ × FixedField × ℕ) := [
  (0x00, .version2, 1),
  (0x02, .networkKeyShareable, 1),
  (0x03, .requestToEnroll, 1),
  (0x04, .settingsDelayTime, 1),
  (0x05, .registrarConfigurationMethods, 2)]

def wfaElemAuthorizedMacs : ℕ := 0x01
def wfaElemMultiAp : ℕ := 0x06

end Tables

/-- A run of a function that fills the attributes; a failed one leaves what it has filled. -/
abbrev Parser := ReadProg WpsParseAttr WpsParseAttr

section Parser
variable (msg : Bytes)

def readBe16 (off : ℕ) : Option ℕ := do
  let hi ← msg.read8 off
  let lo ← msg.read8 (off + 1)
  return hi * 256 + lo

/-- `wps_set_vendor_ext_wfa_subelem`. -/
def setVendorExtWfaSubelem (attr : WpsParseAttr) (id len pos : ℕ) : Parser :=
  match wfaElems.lookup id with
  | some (field, n) => if len ≠ n then throw attr else return attr.setFixed field pos
  | none =>
    if id = wfaElemAuthorizedMacs then return attr.setVar .authorizedMacs ⟨pos, len⟩
    else if id = wfaElemMultiAp then
      if len ≠ 1 then throw attr
      else do
        let x ← msg.read8 pos
        return { attr with multiApExt := x }
    else return attr

/-- `wps_parse_vendor_ext_wfa` from `pos` to `stop`. Every turn moves on by two octets or more. -/
def parseVendorExtWfa (stop : ℕ) : ℕ → ℕ → WpsParseAttr → Parser
  | 0, _, _ => ExceptT.mk none
  | fuel + 1, pos, attr =>
    if stop - pos ≥ 2 then do
      let id ← msg.read8 pos
      let elen ← msg.read8 (pos + 1)
      if elen > stop - (pos + 2) then return attr
      else do
        let attr ← setVendorExtWfaSubelem msg attr id elen (pos + 2)
        parseVendorExtWfa stop fuel (pos + 2 + elen) attr
    else return attr

/-- `wps_parse_vendor_ext`. -/
def parseVendorExt (attr : WpsParseAttr) (pos len : ℕ) : Parser :=
  if len < 3 then return attr
  else do
    let vendorId ← msg.readBe24 pos
    if vendorId = wpsVendorIdWfa then parseVendorExtWfa msg (pos + len) len (pos + 3) attr
    else if len > wpsMaxVendorExtLen then throw attr
    else if attr.vendorExt.length ≥ maxWpsParseVendorExt then throw attr
    else return { attr with vendorExt := attr.vendorExt ++ [⟨pos, len⟩] }

/-- The check of `ATTR_OOB_DEVICE_PASSWORD`: the identifier is read of a short one only. -/
def oobInvalid (pos len : ℕ) : Option Bool :=
  if len < wpsOobPubkeyHashLen + 2 ∨ len > wpsOobPubkeyHashLen + 2 + wpsOobDevicePasswordLen then
    some true
  else if len < wpsOobPubkeyHashLen + 2 + wpsOobDevicePasswordMinLen then
    (readBe16 msg (pos + wpsOobPubkeyHashLen)).map fun id =>
      decide (id ≠ devPwNfcConnectionHandover)
  else some false

/-- The attributes of `wps_set_attr` that have a rule of their own. -/
def setOther (attr : WpsParseAttr) (type pos len : ℕ) : Parser :=
  if type = attrOobDevicePassword then do
    let invalid ← oobInvalid msg pos len
    if invalid then throw attr else return attr.setVar .oobDevPassword ⟨pos, len⟩
  else if type = attrCred then
    if attr.cred.length ≥ maxCredCount then return attr
    else return { attr with cred := attr.cred ++ [⟨pos, len⟩] }
  else if type = attrRequestedDevType then
    if len ≠ wpsDevTypeLen then throw attr
    else if attr.reqDevType.length ≥ maxReqDevTypeCount then return attr
    else return { attr with reqDevType := attr.reqDevType ++ [pos] }
  else if type = attrSecondaryDevTypeList then
    if len > wpsSecDevTypeMaxLen ∨ len % wpsDevTypeLen > 0 then throw attr
    else return attr.setVar .secDevTypeList ⟨pos, len⟩
  else if type = attrVendorExt then parseVendorExt msg attr pos len
  else return attr

/-- `wps_set_attr`. -/
def setAttr (attr : WpsParseAttr) (type pos len : ℕ) : Parser :=
  match fixedAttrs.lookup type with
  | some (field, n) => if len ≠ n then throw attr else return attr.setFixed field pos
  | none =>
    match cutAttrs.lookup type with
    | some (field, max) => return attr.setVar field ⟨pos, if len > max then max else len⟩
    | none =>
      match rangedAttrs.lookup type with
      | some (field, min, max) =>
        if len < min ∨ len > max then return attr else return attr.setVar field ⟨pos, len⟩
      | none =>
        match plainAttrs.lookup type with
        | some field => return attr.setVar field ⟨pos, len⟩
        | none => setOther msg attr type pos len

/-- The search for an octet that is not zero, from `pos` on, with an `int` for the index: whether
there is none. -/
def isPadding (pos : ℕ) : ℕ → ℕ → Option Bool
  | 0, _ => none
  | fuel + 1, i =>
    if i < msg.length - pos then
      (msg.read8 (pos + i)).bind fun x =>
        if x ≠ 0 then some false
        else if i + 1 < 2 ^ 31 then isPadding pos fuel (i + 1)
        else none
    else some true

/-- The check for padding behind the attributes. -/
def paddingAt (type len pos : ℕ) : Option Bool :=
  if type = 0 ∧ len = 0 then isPadding msg pos (msg.length + 1) 0 else some false

/-- The variables of `wps_parse_msg`. -/
structure WpsState where
  pos : ℕ := 0
  prevType : ℕ := 0
  attr : WpsParseAttr := {}

/-- What a turn of the loop comes to, unless it returns -1. -/
inductive WpsTurn
  | done (attr : WpsParseAttr)
  | next (s : WpsState)

/-- The head of the loop and one turn, with the workarounds. -/
def wpsTurn (s : WpsState) : ReadProg WpsParseAttr WpsTurn :=
  if s.pos < msg.length then
    if msg.length - s.pos < 4 then throw s.attr
    else do
      let type ← readBe16 msg s.pos
      let len ← readBe16 msg (s.pos + 2)
      let pos := s.pos + 4
      if len > msg.length - pos then
        if type &&& 0xff00 ≠ 0x1000 ∧ s.prevType = attrNetworkKey then
          return .next { s with pos := pos - 3 }
        else throw s.attr
      else do
        let padding ← paddingAt msg type len pos
        if padding then return .done s.attr
        else do
          let attr ← setAttr msg s.attr type pos len
          return .next ⟨pos + len, type, attr⟩
  else return .done s.attr

/-- The loop. -/
def parseFrom : ℕ → WpsState → Parser
  | 0, _ => ExceptT.mk none
  | fuel + 1, s => do
    match ← wpsTurn msg s with
    | .done attr => return attr
    | .next s => parseFrom fuel s

/-- `wps_parse_msg`. Every turn moves on by an octet or more. -/
def wpsParseMsg : Parser := parseFrom msg (msg.length + 1) {}

end Parser
end Wpa.Wps
