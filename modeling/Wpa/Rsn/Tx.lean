import Wpa.Rsn.Keys

/-! The EAPOL-Key frames that the supplicant sends. -/

namespace Wpa.Rsn
open Lib Bytes Prog

/-- An outgoing frame with the AES-SIV output in place of the plaintext Key Data; header length
and Key Data Length include the tag, and everything before the Key Data is authenticated. -/
def aeadFrame (cr : Crypto) (kek : Bytes) (f : EapolFrame) : Option Bytes :=
  let aad := [UInt8.ofNat f.version, UInt8.ofNat ieee8021xTypeEapolKey] ++
    ofBeNat (f.bodyLength + aesBlockSize) 2 ++ f.key.write ++
    ofBeNat (aesBlockSize + f.keyData.length) 2
  (cr.aesSivEncrypt kek f.keyData aad).map (aad ++ ·)

/-- The frame as it goes on air, or `none` where `wpa_eapol_key_send` gives up before sending. -/
def protectFrame (env : Env) (sm : Sm) (ptk : Ptk) (ver : ℕ) (f : EapolFrame) (keyMic : Bool) :
    Option Bytes :=
  if sm.micLen ≠ 0 then
    if keyMic then
      (wpaEapolKeyMic env.cr ptk.kck sm.keyMgmt ver f.write).map (f.write.writeAt micOffset ·)
    else some f.write
  else if ptk.kek.length = 0 ∨ ¬env.alloc .sivBuf then none
  else aeadFrame env.cr ptk.kek f

/-- The destination, with the BSSID asked for where a frame is sent before it is known. -/
def fetchBssid (dest : Bytes) : M Bytes := do
  let env ← ask
  let sm ← get
  if dest = zeros 6 ∧ sm.bssid = zeros 6 then
    match env.getBssid with
    | none => pure dest
    | some bssid => do
      update fun sm => { sm with bssid := bssid }
      pure bssid
  else pure dest

def sendProtected (ptk : Ptk) (ver : ℕ) (dest : Bytes) (f : EapolFrame) (keyMic : Bool) :
    M Bool := do
  let env ← ask
  let sm ← get
  when (sm.micLen ≠ 0 ∧ keyMic ∧ ptk.kck.length ≠ 0) (emit (.mic ptk.kck ver f.write))
  match protectFrame env sm ptk ver f keyMic with
  | none => pure false
  | some frame => do
    emit (.etherSend dest frame)
    pure env.etherSend

def wpaEapolKeySend (ptk : Ptk) (ver : ℕ) (dest : Bytes) (f : EapolFrame) (keyMic : Bool) :
    M Bool := do
  let dest ← fetchBssid dest
  sendProtected ptk ver dest f keyMic

/-- The header of a reply to the EAPOL-Key `key`. -/
def replyKey (sm : Sm) (key : EapolKey) (keyInfo : ℕ) (nonce : Bytes) : EapolKey where
  type := if sm.proto.isRsnOrOsen then eapolKeyTypeRsn else eapolKeyTypeWpa
  keyInfo := keyInfo
  keyLength := if sm.proto.isRsnOrOsen then 0 else key.keyLength
  replayCounter := key.replayCounter
  keyNonce := nonce
  keyIv := zeros 16
  keyRsc := zeros 8
  keyId := zeros 8

/-- `WPA_KEY_INFO_MIC` or, without a MIC field, `WPA_KEY_INFO_ENCR_KEY_DATA`. -/
def protectionBit (micLen : ℕ) : ℕ := if micLen ≠ 0 then keyInfoMic else keyInfoEncrKeyData

def replyFrame (env : Env) (sm : Sm) (key : EapolKey) (keyInfo : ℕ) (nonce keyData : Bytes) :
    EapolFrame where
  version := env.eapolVersion
  key := replyKey sm key keyInfo nonce
  mic := zeros sm.micLen
  keyData := keyData

def rsnSelectionElement (selection : UInt8) : Bytes :=
  [UInt8.ofNat eidVendorSpecific, 5] ++ ofBeNat rsnSelectionIeVendorType 4 ++ [selection]

/-- The elements of message 2/4: for FT with the PMKR1Name and the association response elements,
with RSN overriding with the RSN Selection element. -/
def msg2Of4Ies (env : Env) (sm : Sm) (wpaIe : Bytes) : Option Bytes := do
  let ies ←
    if wpaKeyMgmtFt sm.keyMgmt then
      if env.alloc .rsnIeBuf then
        (wpaInsertPmkid wpaIe sm.pmkR1Name).map (· ++ sm.assocRespIes.getD [])
      else none
    else some wpaIe
  match sm.rsnOverride with
  | .notUsed => some ies
  | .rsne => if env.alloc .overrideBuf then some (ies ++ rsnSelectionElement 0) else none
  | .rsneOverride => if env.alloc .overrideBuf then some (ies ++ rsnSelectionElement 1) else none
  | .rsneOverride2 => if env.alloc .overrideBuf then some (ies ++ rsnSelectionElement 2) else none

def wpaSupplicantSend2Of4 (dst : Bytes) (key : EapolKey) (ver : ℕ) (nonce wpaIe : Bytes)
    (ptk : Ptk) : M Bool := do
  let env ← ask
  let sm ← get
  match msg2Of4Ies env sm wpaIe with
  | none => pure false
  | some ies =>
    if ¬env.alloc .eapolFrame then pure false
    else
      let keyInfo := ver ||| keyInfoKeyType ||| protectionBit sm.micLen
      wpaEapolKeySend ptk ver dst (replyFrame env sm key keyInfo nonce ies) true

def wpaSupplicantSend4Of4 (dst : Bytes) (key : EapolKey) (ver keyInfo : ℕ) (ptk : Ptk) :
    M Bool := do
  let env ← ask
  let sm ← get
  if ¬env.alloc .eapolFrame then pure false
  else
    let keyInfo := keyInfo &&& keyInfoSecure ||| (ver ||| keyInfoKeyType) |||
      protectionBit sm.micLen
    wpaEapolKeySend ptk ver dst (replyFrame env sm key keyInfo (zeros 32) []) true

def wpaSupplicantSend2Of2 (key : EapolKey) (ver keyInfo : ℕ) : M Bool := do
  let env ← ask
  let sm ← get
  if ¬env.alloc .eapolFrame then pure false
  else
    let keyInfo := keyInfo &&& keyInfoKeyIndexMask ||| (ver ||| keyInfoSecure) |||
      protectionBit sm.micLen
    if wpaSmOcvEnabled sm then
      if ¬env.channelInfoInsert then pure false
      else
        match env.ocvInsertOciKde with
        | none => pure false
        | some oci =>
          wpaEapolKeySend sm.ptk ver sm.bssid (replyFrame env sm key keyInfo (zeros 32) oci) true
    else wpaEapolKeySend sm.ptk ver sm.bssid (replyFrame env sm key keyInfo (zeros 32) []) true

end Wpa.Rsn
