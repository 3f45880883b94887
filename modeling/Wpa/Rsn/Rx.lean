import Wpa.Rsn.Handshake

/-! `wpa_sm_rx_eapol`: the checks on a received EAPOL-Key frame, the verification of its MIC or
AEAD tag, the decryption of its Key Data and the dispatch to the message handlers. -/

namespace Wpa.Rsn
open Lib Bytes Prog

/-- The MIC length that the frame is read with: before the PMK is set, that of the current PMKSA
counts. -/
def Sm.rxMicLen (sm : Sm) : ℕ :=
  wpaMicLen sm.keyMgmt
    (if sm.pmk.length = 0 then (sm.curPmksa.map fun e => e.pmk.length).getD 0 else sm.pmk.length)

/-- The checks on lengths and types, up to the copy of the frame without trailing octets. The
error is the return value of `wpa_sm_rx_eapol`. -/
def checkFrame (env : Env) (micLen : ℕ) (buf : Bytes) : Except ℤ Bytes :=
  let plen := hdrLength buf
  let type := (EapolKey.read buf).type
  if buf.length < hdrSize + keyhdrlen micLen then .error 0
  else if hdrType buf ≠ ieee8021xTypeEapolKey then .error 0
  else if plen > buf.length - hdrSize ∨ plen < keyhdrlen micLen then .error 0
  else if ¬env.alloc .rxCopy then .error (-1)
  else if type ≠ eapolKeyTypeWpa ∧ type ≠ eapolKeyTypeRsn then .error 0
  else if keyDataLength buf micLen > plen - keyhdrlen micLen then .error (-1)
  else .ok (buf.take (hdrSize + plen))

/-- Whether the key descriptor version is one that the AKM and the ciphers allow. -/
def versionAcceptable (sm : Sm) (key : EapolKey) : Bool :=
  let ver := key.ver
  let akmDefined := wpaUseAkmDefined sm.keyMgmt
  if ver ≠ keyInfoTypeHmacMd5Rc4 ∧ ver ≠ keyInfoTypeAes128Cmac ∧ ver ≠ keyInfoTypeHmacSha1Aes ∧
      ¬akmDefined then false
  else if akmDefined ∧ ver ≠ keyInfoTypeAkmDefined then false
  else if wpaKeyMgmtFt sm.keyMgmt then ver == keyInfoTypeAes128Cmac || akmDefined
  else if wpaKeyMgmtSha256 sm.keyMgmt then ver == keyInfoTypeAes128Cmac || akmDefined
  else if sm.pairwiseCipher = cipherCcmp ∧ ¬akmDefined ∧ ver ≠ keyInfoTypeHmacSha1Aes then
    -- version 1 is let through for group keys of another cipher, and CMAC as an interop workaround
    (sm.groupCipher != cipherCcmp && !key.has keyInfoKeyType) || ver == keyInfoTypeAes128Cmac
  else if sm.pairwiseCipher = cipherGcmp ∧ ¬akmDefined ∧ ver ≠ keyInfoTypeHmacSha1Aes then false
  else true

def counterReplayed (sm : Sm) (key : EapolKey) : Bool :=
  sm.rxReplayCounterSet && decide (memcmp key.replayCounter sm.rxReplayCounter ≤ 0)

/-- The key_info bits that a frame from an authenticator must and must not have. -/
def flagsAcceptable (key : EapolKey) : Bool :=
  !key.has keyInfoSmkMessage && key.has keyInfoAck && !key.has keyInfoRequest

/-- Everything that `wpa_sm_rx_eapol` checks before it looks at the MIC. -/
def rxCheck (env : Env) (sm : Sm) (buf : Bytes) : Except ℤ Bytes := do
  let tmp ← checkFrame env sm.rxMicLen buf
  let key := EapolKey.read buf
  if ¬versionAcceptable sm key then .error (-1)
  else if counterReplayed sm key then .error (-1)
  else if ¬flagsAcceptable key then .error (-1)
  else .ok tmp

/-- The verified TPTK becomes the PTK; the SNonce it was derived from is used up. -/
def Sm.promoteTptk (sm : Sm) : Sm :=
  { sm with tptkSet := false, ptkSet := true, ptk := sm.tptk, tptk := {}, renewSnonce := true }

def Sm.acceptCounter (sm : Sm) (counter : Bytes) : Sm :=
  { sm with rxReplayCounter := counter, rxReplayCounterSet := true }

/-- The buffer on which the PTK is tried after the TPTK has failed: the failed attempt has
written its own MIC into it. -/
def retryBuf (env : Env) (sm : Sm) (ver : ℕ) (tmp : Bytes) : Bytes :=
  if sm.tptkSet then
    (withMic env.cr sm.tptk.kck sm.keyMgmt ver sm.micLen tmp).getD (zeroMic tmp sm.micLen)
  else tmp

/-- The MIC of the frame is that of the TPTK. -/
def tptkMic (env : Env) (sm : Sm) (ver : ℕ) (tmp : Bytes) : Bool :=
  sm.tptkSet && micMatches env.cr sm.tptk.kck sm.keyMgmt ver sm.micLen tmp
    (tmp.slice micOffset sm.micLen)

/-- The MIC of the frame is that of the PTK. -/
def ptkMic (env : Env) (sm : Sm) (ver : ℕ) (tmp : Bytes) : Bool :=
  sm.ptkSet && micMatches env.cr sm.ptk.kck sm.keyMgmt ver sm.micLen (retryBuf env sm ver tmp)
    (tmp.slice micOffset sm.micLen)

/-- `wpa_supplicant_verify_eapol_key_mic`; the result is the buffer with the MIC as recomputed,
or `none` if the frame is to be dropped. -/
def wpaSupplicantVerifyEapolKeyMic (key : EapolKey) (ver : ℕ) (tmp : Bytes) : M (Option Bytes) := do
  let env ← ask
  let sm ← get
  if tptkMic env sm ver tmp then do
    emit (.micVerified sm.tptk.kck key.replayCounter)
    update Sm.promoteTptk
    update (·.acceptCounter key.replayCounter)
    pure (withMic env.cr sm.tptk.kck sm.keyMgmt ver sm.micLen tmp)
  else if ptkMic env sm ver tmp then do
    emit (.micVerified sm.ptk.kck key.replayCounter)
    update (·.acceptCounter key.replayCounter)
    pure (withMic env.cr sm.ptk.kck sm.keyMgmt ver sm.micLen (retryBuf env sm ver tmp))
  else pure none

/-- The key data after the AES-SIV check of `wpa_supp_aead_decrypt`. -/
def aeadKeyData (env : Env) (kek : Bytes) (tmp : Bytes) (keyDataLen : ℕ) : Option Bytes :=
  if keyDataLen < aesBlockSize ∨ ¬env.alloc .aeadBuf then none
  else
    (env.cr.aesSivDecrypt kek (tmp.slice (keyDataOffset 0) keyDataLen)
      (tmp.take (keyDataOffset 0))).map (·.take (keyDataLen - aesBlockSize))

/-- On the AEAD path the TPTK takes the place of the PTK without a new SNonce being due. -/
def Sm.replacePtk (sm : Sm) : Sm :=
  { sm with tptkSet := false, ptkSet := true, ptk := sm.tptk, tptk := {} }

def wpaSuppAeadDecrypt (key : EapolKey) (tmp : Bytes) (keyDataLen : ℕ) : M (Option Bytes) := do
  let env ← ask
  let sm ← get
  if sm.tptkSet then
    match aeadKeyData env sm.tptk.kek tmp keyDataLen with
    | none => pure none
    | some plain => do
      emit (.aeadVerified sm.tptk.kek key.replayCounter)
      emit (.decrypted sm.tptk.kek plain)
      update Sm.replacePtk
      update (·.acceptCounter key.replayCounter)
      pure (some plain)
  else if sm.ptkSet then
    match aeadKeyData env sm.ptk.kek tmp keyDataLen with
    | none => pure none
    | some plain => do
      emit (.aeadVerified sm.ptk.kek key.replayCounter)
      emit (.decrypted sm.ptk.kek plain)
      update (·.acceptCounter key.replayCounter)
      pure (some plain)
  else pure none

/-- The plaintext of `wpa_supplicant_decrypt_key_data`. -/
def decryptedKeyData (env : Env) (sm : Sm) (key : EapolKey) (ver : ℕ) (keyData : Bytes) :
    Option Bytes :=
  if ¬sm.ptkSet then none
  else if ver = keyInfoTypeHmacMd5Rc4 ∧ sm.ptk.kek.length = 16 then
    env.cr.rc4Skip (key.keyIv ++ sm.ptk.kek) keyData
  else if ver = keyInfoTypeHmacSha1Aes ∨ ver = keyInfoTypeAes128Cmac ∨
      wpaUseAesKeyWrap sm.keyMgmt then
    if keyData.length < 8 ∨ keyData.length % 8 ≠ 0 ∨ ¬env.alloc .unwrapBuf then none
    else env.cr.aesUnwrap sm.ptk.kek keyData
  else none

def wpaSupplicantDecryptKeyData (key : EapolKey) (ver : ℕ) (keyData : Bytes) :
    M (Option Bytes) := do
  let env ← ask
  let sm ← get
  match decryptedKeyData env sm key ver keyData with
  | none => pure none
  | some plain => do
    emit (.decrypted sm.ptk.kek plain)
    pure (some plain)

/-- The message handlers, by the key_info bits. -/
def rxDispatch (key : EapolKey) (micLen : ℕ) (keyData : Bytes) : M ℤ := do
  if key.has keyInfoKeyType then
    if key.has keyInfoKeyIndexMask then pure (-1)
    else if key.has keyInfoMic || key.has keyInfoEncrKeyData then do
      wpaSupplicantProcess3Of4 key key.ver keyData
      pure 1
    else do
      wpaSupplicantProcess1Of4 key key.ver keyData
      pure 1
  else if (micLen ≠ 0 ∧ key.has keyInfoMic) ∨ (micLen = 0 ∧ key.has keyInfoEncrKeyData) then do
    wpaSupplicantProcess1Of2 key keyData key.ver
    pure 1
  else pure 1

/-- Decryption of encrypted key data that was not handled by the AEAD path, then dispatch. -/
def rxDecrypt (key : EapolKey) (micLen : ℕ) (keyData : Bytes) : M ℤ := do
  let sm ← get
  if sm.proto.isRsnOrOsen ∧ key.has keyInfoEncrKeyData ∧ micLen ≠ 0 then
    if ¬key.has keyInfoMic then pure (-1)
    else do
      let plain? ← wpaSupplicantDecryptKeyData key key.ver keyData
      match plain? with
      | none => pure (-1)
      | some plain => rxDispatch key micLen plain
  else rxDispatch key micLen keyData

/-- The AEAD step for AKMs without a MIC field. -/
def rxAead (key : EapolKey) (micLen keyDataLen : ℕ) (tmp : Bytes) : M ℤ := do
  if micLen = 0 ∧ key.has keyInfoEncrKeyData then do
    let plain? ← wpaSuppAeadDecrypt key tmp keyDataLen
    match plain? with
    | none => pure (-1)
    | some plain => rxDecrypt key micLen plain
  else rxDecrypt key micLen (tmp.slice (keyDataOffset micLen) keyDataLen)

/-- A frame that passed `rxCheck`: the MIC first, if its bit is set. -/
def rxAuthenticate (micLen : ℕ) (tmp : Bytes) : M ℤ := do
  let key := EapolKey.read tmp
  let keyDataLen := keyDataLength tmp micLen
  if key.has keyInfoMic then do
    let verified? ← wpaSupplicantVerifyEapolKeyMic key key.ver tmp
    match verified? with
    | none => pure (-1)
    | some tmp => rxAead key micLen keyDataLen tmp
  else rxAead key micLen keyDataLen tmp

def wpaSmRxEapol (buf : Bytes) : M ℤ := do
  update fun sm => { sm with ftCompleted := false }
  let env ← ask
  let sm ← get
  match rxCheck env sm buf with
  | .error ret => pure ret
  | .ok tmp => rxAuthenticate sm.rxMicLen tmp

end Wpa.Rsn
