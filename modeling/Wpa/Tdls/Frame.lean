import Wpa.Common.Kde

/-! TDLS frames: the elements that the handlers of the TPK handshake read out of a received frame,
and those that they put into one. The driver adds the Link Identifier. -/

namespace Wpa.Tdls
open Lib Bytes

abbrev StaAddr := { b : Bytes // b.length = ethAlen }

def tdlsRftype : ℕ := 2
def actionTdls : ℕ := 12
def setupRequest : ℕ := 0
def setupResponse : ℕ := 1
def setupConfirm : ℕ := 2
def tdlsTeardown : ℕ := 3
def discoveryRequest : ℕ := 10
def discoveryResponse : ℕ := 14

def statusSuccess : ℕ := 0
def statusUnspecifiedFailure : ℕ := 1
def statusSecurityDisabled : ℕ := 5
def statusUnacceptableLifetime : ℕ := 6
def statusNotInSameBss : ℕ := 7
def statusRequestDeclined : ℕ := 37
def statusInvalidParameters : ℕ := 38
def statusPairwiseCipherNotValid : ℕ := 42
def statusInvalidRsnIeCapab : ℕ := 45
def statusInvalidRsnie : ℕ := 72
def reasonTdlsTeardownUnspecified : ℕ := 26

def tpkLifetime : ℕ := 43200
def tdlsMaxIeLen : ℕ := 80
def tdlsMicLen : ℕ := 16
def tdlsNonceLen : ℕ := 32

/-- `sizeof(struct wpa_tdls_ftie)` and `sizeof(struct wpa_tdls_lnkid)`. -/
def ftieSize : ℕ := 2 + 2 + tdlsMicLen + 2 * tdlsNonceLen
def lnkidSize : ℕ := 2 + 3 * ethAlen

/-- The Fast BSS Transition element: its header, its fields and what follows them. -/
structure Ftie where
  hdr : Bytes
  micCtrl : Bytes
  mic : Bytes
  anonce : Bytes
  snonce : Bytes
  more : Bytes
  deriving DecidableEq

namespace Ftie

def read (ie : Bytes) : Ftie :=
  ⟨ie.slice 0 2, ie.slice 2 2, ie.slice 4 tdlsMicLen, ie.slice 20 tdlsNonceLen,
    ie.slice 52 tdlsNonceLen, ie.drop ftieSize⟩

def octets (ftie : Ftie) : Bytes :=
  ftie.hdr ++ ftie.micCtrl ++ ftie.mic ++ ftie.anonce ++ ftie.snonce ++ ftie.more

/-- The fields make up the element. -/
theorem octets_read (ie : Bytes) : (read ie).octets = ie := by
  have htail (n k : ℕ) : ie.slice n k ++ ie.drop (n + k) = ie.drop n := by
    rw [slice, ← List.drop_drop, List.take_append_drop]
  simp only [octets, read, List.append_assoc]
  exact calc
    ie.slice 0 2 ++ (ie.slice 2 2 ++ (ie.slice 4 16 ++ (ie.slice 20 32 ++
        (ie.slice 52 32 ++ ie.drop 84)))) = ie.drop 0 := by
      rw [htail 52 32, htail 20 32, htail 4 16, htail 2 2, htail 0 2]
    _ = ie := List.drop_zero

end Ftie

/-- Fields of the other elements, each with its two octets of header. -/
def lnkidBssid (lnkid : Bytes) : Bytes := lnkid.slice 2 ethAlen
def lnkidInitSta (lnkid : Bytes) : Bytes := lnkid.slice 8 ethAlen
def lnkidRespSta (lnkid : Bytes) : Bytes := lnkid.slice 14 ethAlen
def timeoutieValue (timeoutie : Bytes) : ℕ :=
  timeoutie.le16 3 + timeoutie.le16 5 * 65536

/-- The elements of a received frame. -/
structure TdlsIes where
  lnkid : Option Bytes := none
  rsnIe : Option Bytes := none
  ftie : Option Ftie := none
  keyLifetime : Option Bytes := none
  suppRates : Bool := false
  deriving DecidableEq

/-- What the handlers read of a frame: its length, the status or reason code, the dialog token and
the elements. -/
structure TdlsMsg where
  len : ℕ
  status : ℕ
  dtoken : ℕ
  ies : TdlsIes
  deriving DecidableEq

/-- The elements stored by `wpa_supplicant_parse_ies` up to the end or to the first malformed one:
the handlers go on with them when it reports failure. -/
def storedIesFrom (buf : Bytes) : ℕ → ℕ → EapolIeParse → EapolIeParse
  | 0, _, ie => ie
  | fuel + 1, pos, ie =>
    let len := buf.byteAt (pos + 1)
    if buf.length - pos ≤ 1 then ie
    else if buf.byteAt pos = 0xdd ∧ (pos = buf.length - 1 ∨ len = 0) then ie
    else if 2 + len > buf.length - pos then ie
    else if buf.byteAt pos = eidVendorSpecific then
      match wpaParseGeneric buf pos ie with
      | .endMark => ie
      | .parsed ie' => storedIesFrom buf fuel (pos + 2 + len) ie'
      | .unknown => storedIesFrom buf fuel (pos + 2 + len) (wpaParseVendorSpecific buf pos ie)
    else storedIesFrom buf fuel (pos + 2 + len) (wpaParseElement buf pos ie)

theorem storedIesFrom_eq {buf : Bytes} {fuel pos : ℕ} {ie ie' : EapolIeParse}
    (h : wpaParseKdeIesFrom buf fuel pos ie = some ie') : storedIesFrom buf fuel pos ie = ie' := by
  induction fuel generalizing pos ie with
  | zero => exact Option.some.inj h
  | succ fuel ih =>
    rw [wpaParseKdeIesFrom] at h
    rw [storedIesFrom]
    split_ifs at h ⊢
    · exact Option.some.inj h
    · exact Option.some.inj h
    · generalize wpaParseGeneric buf pos ie = found at h ⊢
      cases found with
      | endMark => exact Option.some.inj h
      | parsed next => exact ih h
      | unknown => exact ih h
    · exact ih h

def storedIes (buf : Bytes) : EapolIeParse := storedIesFrom buf buf.length 0 {}

/-- Where the parser succeeds, its result is what is used. -/
theorem storedIes_eq {buf : Bytes} {ie : EapolIeParse} (h : wpaSupplicantParseIes buf = some ie) :
    storedIes buf = ie :=
  storedIesFrom_eq h

def readIes (buf : Bytes) : TdlsIes :=
  let kde := storedIes buf
  { lnkid := (kde.lnkid.filter (·.len ≥ 3 * ethAlen)).map (Span.read buf)
    rsnIe := kde.rsnIe.map (Span.read buf)
    ftie := (kde.ftie.filter (·.len ≥ ftieSize)).map fun ie => Ftie.read (ie.read buf)
    keyLifetime := kde.keyLifetime.map fun off => buf.slice off (2 + buf.byteAt (off + 1))
    suppRates := kde.suppRates.isSome }

/-- Payload type, category and action come first; then the dialog token and the capabilities. -/
def readTpkM1 (buf : Bytes) : TdlsMsg := ⟨buf.length, 0, buf.byteAt 3, readIes (buf.drop 6)⟩

/-- The status code, the dialog token and the capabilities. -/
def readTpkM2 (buf : Bytes) : TdlsMsg :=
  ⟨buf.length, buf.le16 3, buf.byteAt 5, readIes (buf.drop 8)⟩

/-- The status code and the dialog token. -/
def readTpkM3 (buf : Bytes) : TdlsMsg :=
  ⟨buf.length, buf.le16 3, buf.byteAt 5, readIes (buf.drop 6)⟩

/-- The reason code. -/
def readTeardown (buf : Bytes) : TdlsMsg := ⟨buf.length, buf.le16 3, 0, readIes (buf.drop 5)⟩

/-- The dialog token. -/
def readDiscoveryRequest (buf : Bytes) : TdlsMsg :=
  ⟨buf.length, 0, buf.byteAt 3, readIes (buf.drop 4)⟩

/-- A frame handed to the driver: action code, dialog token, status code, whether this end is the
initiator, and the elements. -/
structure TdlsFrame where
  action : ℕ
  dtoken : ℕ
  status : ℕ
  initiator : Bool
  rsnIe : Option Bytes := none
  ftie : Option Ftie := none
  timeoutie : Option Bytes := none
  deriving DecidableEq

/-- The octets of `buf`: the elements one after the other. -/
def TdlsFrame.buf (f : TdlsFrame) : Bytes :=
  f.rsnIe.getD [] ++ (f.ftie.map Ftie.octets).getD [] ++ f.timeoutie.getD []

def wpaAddTdlsTimeoutie (tsecs : ℕ) : Bytes :=
  [56, 5, 2] ++ [UInt8.ofNat tsecs, UInt8.ofNat (tsecs / 2 ^ 8), UInt8.ofNat (tsecs / 2 ^ 16),
    UInt8.ofNat (tsecs / 2 ^ 24)]

/-- The Fast BSS Transition element with the given MIC and nonces. -/
def ftieWith (mic anonce snonce : Bytes) : Ftie := ⟨[55, 82], [0, 0], mic, anonce, snonce, []⟩

/-- The RSN element of M1: CCMP, no group cipher, the TPK handshake. -/
def rsnieTpk : Bytes :=
  [48, 20, 1, 0, 0x00, 0x0f, 0xac, 7, 1, 0, 0x00, 0x0f, 0xac, 4, 1, 0, 0x00, 0x0f, 0xac, 7,
    0x0c, 0x02]

end Wpa.Tdls
