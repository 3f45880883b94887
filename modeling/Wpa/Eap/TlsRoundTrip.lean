import Wpa.Eap.TlsServer
import Wpa.Lib.Reads

/-! A TLS message goes from the server to the peer, or from the peer to the server, in fragments that
the other side acknowledges, and arrives once and unchanged with the last of them. -/

namespace Wpa.Eap
open Lib Bytes

/-- What may differ from one exchange to the next. -/
structure Exchange where
  id : UInt8
  established : Bool

/-- A request through `eap_peer_tls_process_init` and `eap_peer_tls_data_reassemble`, with the reset
of `eap_tls_process_input` behind a message. -/
def peerReceive (workaround : Bool) (eapType : ℕ) (data : PeerSslData) (req : Bytes) :
    PeerSslData × Option Bytes :=
  match eapPeerTlsProcessInit false workaround eapType data req with
  | (data, none) => (data, none)
  | (data, some (_, payload)) =>
    match eapPeerTlsDataReassemble true data payload with
    | (data, .more) => (data, none)
    | (data, .failed) => (data, none)
    | (data, .message msg) => (data.resetInput, some msg)

section Loops
variable (workaround : Bool) (eapType : ℕ) (version : UInt8) (env : ℕ → Exchange)

/-- The server sends until nothing is left; what the peer delivers is recorded for every request.
The peer acknowledges all requests but the last. -/
def serverToPeer : ℕ → ServerSslData → PeerSslData →
    ServerSslData × PeerSslData × List (Option Bytes)
  | 0, server, peer => (server, peer, [])
  | fuel + 1, server, peer =>
    match eapServerTlsBuildMsg server eapType version (env fuel).id with
    | none => (server, peer, [])
    | some (server, req) =>
      let received := peerReceive workaround eapType peer req
      let server :=
        if server.tlsOut.isSome then
          (eapServerTlsProcess true server eapType
            (eapPeerTlsBuildAck (env fuel).id eapType version)).1
        else server
      let rest := serverToPeer fuel server received.1
      (rest.1, rest.2.1, received.2 :: rest.2.2)

/-- The same from the peer to the server. -/
def peerToServer : ℕ → PeerSslData → ServerSslData →
    PeerSslData × ServerSslData × List (Option Bytes)
  | 0, peer, server => (peer, server, [])
  | fuel + 1, peer, server =>
    match eapTlsProcessOutput (env fuel).established peer eapType version (env fuel).id with
    | none => (peer, server, [])
    | some (peer, resp) =>
      let received := eapServerTlsProcess true server eapType resp
      let peer :=
        if peer.tlsOut.isSome then
          (eapPeerTlsProcessInit false workaround eapType peer
            (eapServerTlsBuildAck (env fuel).id eapType version)).1
        else peer
      let rest := peerToServer fuel peer received.1
      (rest.1, rest.2.1, received.2 :: rest.2.2)

end Loops

section Frames
variable {eapType : ℕ} {version : UInt8} {more length : Bool}

theorem version_lt (h : version &&& versionMask = version) : version.toNat < 8 := by
  rw [← h, UInt8.toNat_and]
  exact lt_of_le_of_lt Nat.and_le_right (by decide)

theorem tlsFlags_bits (h : version &&& versionMask = version) (more length : Bool) :
    (tlsFlags version more length &&& flagsLengthIncluded ≠ 0 ↔ length = true) ∧
      (tlsFlags version more length &&& flagsMoreFragments ≠ 0 ↔ more = true) := by
  have hall : ∀ n < 8, ∀ m l : Bool,
      (tlsFlags (UInt8.ofNat n) m l &&& flagsLengthIncluded ≠ 0 ↔ l = true) ∧
        (tlsFlags (UInt8.ofNat n) m l &&& flagsMoreFragments ≠ 0 ↔ m = true) := by
    decide
  have := hall version.toNat (version_lt h) more length
  rwa [UInt8.ofNat_toNat] at this

/-- An EAP packet with a Flags octet and what follows it. -/
def tlsPacket (eapType : ℕ) (code id flags : UInt8) (body : Bytes) : Bytes :=
  eapTlsMsgAlloc eapType (flags :: body).length code id ++ flags :: body

/-- The length of the packet fits the Length field. -/
def Fits (eapType : ℕ) (body : Bytes) : Prop := eapTlsHdrLen eapType + 1 + body.length ≤ 65535

theorem hdrValidate_tlsPacket (htype : eapType < 256) {body : Bytes} (h : Fits eapType body)
    (code id flags : UInt8) :
    eapTlsHdrValidate eapType (tlsPacket eapType code id flags body) = some (flags :: body) := by
  apply eapTlsHdrValidate_built htype
  unfold Fits at h
  rw [List.length_cons]
  omega

theorem tlsFrame_tlsPacket (workaround : Bool) (htype : eapType < 256) {body : Bytes}
    (h : Fits eapType body) (code id flags : UInt8) :
    tlsFrame workaround eapType (tlsPacket eapType code id flags body) = some (flags, body) := by
  rw [tlsFrame, hdrValidate_tlsPacket htype h]

end Frames

section Peer
variable (workaround : Bool) {eapType : ℕ} (code id : UInt8) {flags : UInt8} {peer : PeerSslData}
  {frag : Bytes}

theorem processInit_plain (htype : eapType < 256) (hflags : ¬ flags &&& flagsLengthIncluded ≠ 0)
    (hfits : Fits eapType frag) :
    eapPeerTlsProcessInit false workaround eapType peer (tlsPacket eapType code id flags frag) =
      (peer, some (flags, frag)) := by
  rw [eapPeerTlsProcessInit, tlsFrame_tlsPacket workaround htype hfits]
  simp only [hflags, if_false, Bool.false_eq_true]

/-- A message in one request. -/
theorem peerReceive_single (htype : eapType < 256) (hflags : ¬ flags &&& flagsLengthIncluded ≠ 0)
    (hfits : Fits eapType frag) (hleft : peer.tlsInLeft = 0) (hin : peer.tlsIn = none) :
    peerReceive workaround eapType peer (tlsPacket eapType code id flags frag) =
      (peer.resetInput, some frag) := by
  simp only [peerReceive, processInit_plain workaround code id htype hflags hfits, eapPeerTlsDataReassemble, hleft,
    hin]
  rfl

/-- The first fragment of a message. -/
theorem peerReceive_first {n : ℕ} (htype : eapType < 256)
    (hflags : flags &&& flagsLengthIncluded ≠ 0) (hfits : Fits eapType (ofBeNat n 4 ++ frag))
    (hleft : peer.tlsInLeft = 0) (hpos : 0 < frag.length) (hlt : frag.length < n)
    (hmax : n ≤ maxTlsInLen) :
    peerReceive workaround eapType peer
        (tlsPacket eapType code id flags (ofBeNat n 4 ++ frag)) =
      ({ peer with tlsIn := some frag, tlsInLeft := n - frag.length, tlsInTotal := n }, none) := by
  have hmax' : maxTlsInLen = 65536 := rfl
  have hn : be32 (ofBeNat n 4 ++ frag) 0 = n := be32_ofBeNat (by omega) frag
  have hdrop : (ofBeNat n 4 ++ frag).drop 4 = frag := by
    rw [List.drop_append_of_le_length (by simp), List.drop_eq_nil_of_le (by simp), List.nil_append]
  have hshort : ¬ (ofBeNat n 4 ++ frag).length < 4 := by simp
  have hinit : eapPeerTlsProcessInit false workaround eapType peer
      (tlsPacket eapType code id flags (ofBeNat n 4 ++ frag)) =
        ({ peer with tlsIn := none, tlsInLeft := n, tlsInTotal := n }, some (flags, frag)) := by
    rw [eapPeerTlsProcessInit, tlsFrame_tlsPacket workaround htype hfits]
    simp only [if_true, hshort, if_false, Bool.false_eq_true, hleft, hn, hdrop,
      show ¬ frag.length > n by omega]
    exact if_pos hflags
  simp only [peerReceive, hinit, eapPeerTlsDataReassemble, eapPeerTlsReassembleFragment,
    Option.getD_none, List.length_nil, Nat.zero_add, List.nil_append]
  simp [show frag.length < n by omega, show ¬ maxTlsInLen < frag.length by omega,
    show ¬ n < frag.length by omega, List.ne_nil_of_length_pos hpos]

/-- A further fragment. -/
theorem peerReceive_next {buf : Bytes} (htype : eapType < 256)
    (hflags : ¬ flags &&& flagsLengthIncluded ≠ 0) (hfits : Fits eapType frag)
    (hin : peer.tlsIn = some buf) (hpos : 0 < frag.length) (hle : frag.length ≤ peer.tlsInLeft)
    (hmax : buf.length + frag.length ≤ maxTlsInLen) :
    peerReceive workaround eapType peer (tlsPacket eapType code id flags frag) =
      if frag.length = peer.tlsInLeft then (peer.resetInput, some (buf ++ frag))
      else ({ peer with tlsIn := some (buf ++ frag), tlsInLeft := peer.tlsInLeft - frag.length },
        none) := by
  simp only [peerReceive, processInit_plain workaround code id htype hflags hfits, eapPeerTlsDataReassemble,
    eapPeerTlsReassembleFragment, hin, Option.getD_some, Option.isSome_some, or_true, if_true]
  rw [if_neg (by omega), if_neg (by omega), if_neg (by omega), if_neg (by simp)]
  by_cases hlast : frag.length = peer.tlsInLeft
  · rw [if_pos hlast, if_neg (by omega)]
    rfl
  · rw [if_neg hlast, if_pos (by omega)]

end Peer

section ServerToPeer
variable {workaround : Bool} {eapType : ℕ} {version id : UInt8} {env : ℕ → Exchange}
  {server : ServerSslData} {peer : PeerSslData} {msg : Bytes}

/-- The server once the message is out. -/
def ServerSslData.sent (server : ServerSslData) : ServerSslData :=
  { server with tlsOut := none, tlsOutPos := 0, state := .msg }

/-- The octets of the next fragment, when it is not the first. -/
def serverNext (server : ServerSslData) (msg : Bytes) : ℕ :=
  if 1 + (msg.length - server.tlsOutPos) > server.tlsOutLimit then server.tlsOutLimit - 1
  else msg.length - server.tlsOutPos

theorem slice_length_of_le {b : Bytes} {off len : ℕ} (h : off + len ≤ b.length) :
    (b.slice off len).length = len := by
  rw [slice_length]
  omega

theorem buildMsg_next (eapType : ℕ) (version id : UInt8) (hout : server.tlsOut = some msg) (hpos : 0 < server.tlsOutPos)
    (hlt : server.tlsOutPos < msg.length) (hlimit : 6 ≤ server.tlsOutLimit) :
    ∃ more, eapServerTlsBuildMsg server eapType version id =
      some (if server.tlsOutPos + serverNext server msg = msg.length then server.sent
        else { server with
          tlsOutPos := server.tlsOutPos + serverNext server msg, state := .waitFragAck },
        tlsPacket eapType eapCodeRequest id (tlsFlags version more false)
          (msg.slice server.tlsOutPos (serverNext server msg))) := by
  have hle : server.tlsOutPos + serverNext server msg ≤ msg.length := by
    unfold serverNext
    split <;> omega
  refine ⟨decide (1 + (msg.length - server.tlsOutPos) > server.tlsOutLimit), ?_⟩
  simp only [eapServerTlsBuildMsg, hout, show ¬ server.tlsOutPos = 0 by omega, decide_false,
    Bool.and_false, Bool.false_eq_true, if_false, Nat.sub_zero, decide_eq_true_eq, Nat.add_zero,
    List.append_nil, tlsPacket, List.length_cons, slice_length_of_le hle]
  rw [← serverNext, Nat.add_comm 1 (serverNext server msg)]
  split <;> simp [ServerSslData.sent]

theorem serverProcess_ack (htype : eapType < 256) (hversion : version &&& versionMask = version)
    (hstate : server.state = .waitFragAck) :
    (eapServerTlsProcess true server eapType (eapPeerTlsBuildAck id eapType version)).1 =
      server := by
  have hfits : Fits eapType [] := by
    unfold Fits eapTlsHdrLen
    split <;> decide
  have hbits := (tlsFlags_bits hversion false false).1
  have hplain : ¬ version &&& flagsLengthIncluded ≠ 0 := by simpa [tlsFlags] using hbits
  have hval := hdrValidate_tlsPacket htype hfits eapCodeResponse id version
  have hack : eapPeerTlsBuildAck id eapType version =
      tlsPacket eapType eapCodeResponse id version [] := rfl
  rw [hack, eapServerTlsProcess, hval]
  simp only [eapServerTlsReassemble, eapServerTlsLength, hplain, if_false, hstate, if_true,
    List.length_nil, ne_eq, not_true_eq_false]

theorem serverNext_bounds (hpos : 0 < server.tlsOutPos) (hlt : server.tlsOutPos < msg.length)
    (hlimit : 6 ≤ server.tlsOutLimit) :
    0 < serverNext server msg ∧ server.tlsOutPos + serverNext server msg ≤ msg.length ∧
      1 + serverNext server msg ≤ min (1 + msg.length) server.tlsOutLimit := by
  unfold serverNext
  split <;> omega

theorem serverToPeer_turn {fuel : ℕ} {server' : ServerSslData} {peer' : PeerSslData} {req : Bytes}
    {got : Option Bytes}
    (hbuild : eapServerTlsBuildMsg server eapType version (env fuel).id = some (server', req))
    (hreceive : peerReceive workaround eapType peer req = (peer', got))
    (hack : server'.tlsOut.isSome → (eapServerTlsProcess true server' eapType
      (eapPeerTlsBuildAck (env fuel).id eapType version)).1 = server') :
    serverToPeer workaround eapType version env (fuel + 1) server peer =
      ((serverToPeer workaround eapType version env fuel server' peer').1,
        (serverToPeer workaround eapType version env fuel server' peer').2.1,
        got :: (serverToPeer workaround eapType version env fuel server' peer').2.2) := by
  have hserver : (if server'.tlsOut.isSome then (eapServerTlsProcess true server' eapType
      (eapPeerTlsBuildAck (env fuel).id eapType version)).1 else server') = server' := by
    split
    · rename_i h
      exact hack h
    · rfl
  simp only [serverToPeer, hbuild, hreceive, hserver]

theorem serverToPeer_done {fuel : ℕ} (h : server.tlsOut = none) :
    serverToPeer workaround eapType version env fuel server peer = (server, peer, []) := by
  cases fuel with
  | zero => rfl
  | succ fuel => simp [serverToPeer, eapServerTlsBuildMsg, h]

theorem serverToPeer_last {fuel : ℕ} {server' : ServerSslData} {peer' : PeerSslData} {req : Bytes}
    {got : Option Bytes}
    (hbuild : eapServerTlsBuildMsg server eapType version (env fuel).id = some (server', req))
    (hnone : server'.tlsOut = none)
    (hreceive : peerReceive workaround eapType peer req = (peer', got)) :
    serverToPeer workaround eapType version env (fuel + 1) server peer =
      (server', peer', [got]) := by
  rw [serverToPeer_turn hbuild hreceive fun h => absurd h (by simp [hnone]),
    serverToPeer_done hnone]

/-- Once the first fragment is across, the rest follows. The induction is on the fuel, which
covers the octets still missing. -/
theorem serverToPeer_rest (htype : eapType < 256) (hversion : version &&& versionMask = version)
    (hmax : msg.length ≤ maxTlsInLen) {fuel : ℕ} (hout : server.tlsOut = some msg)
    (hpos : 0 < server.tlsOutPos) (hlt : server.tlsOutPos < msg.length)
    (hlimit : 6 ≤ server.tlsOutLimit)
    (hfits : eapTlsHdrLen eapType + min (1 + msg.length) server.tlsOutLimit ≤ 65535)
    (hin : peer.tlsIn = some (msg.take server.tlsOutPos))
    (hleft : peer.tlsInLeft = msg.length - server.tlsOutPos)
    (hfuel : msg.length - server.tlsOutPos ≤ fuel) :
    ∃ k, serverToPeer workaround eapType version env fuel server peer =
      (server.sent, peer.resetInput, List.replicate k none ++ [some msg]) := by
  induction fuel generalizing server peer with
  | zero => omega
  | succ fuel ih =>
    obtain ⟨more, hbuild⟩ := buildMsg_next eapType version (env fuel).id hout hpos hlt hlimit
    obtain ⟨hk, hle, hk1⟩ := serverNext_bounds hpos hlt hlimit
    have hlen := slice_length_of_le hle
    have hgrow : msg.take server.tlsOutPos ++
        msg.slice server.tlsOutPos (serverNext server msg) =
          msg.take (server.tlsOutPos + serverNext server msg) := List.take_add.symm
    have hfits' : Fits eapType (msg.slice server.tlsOutPos (serverNext server msg)) := by
      unfold Fits
      omega
    have hbits := mt (tlsFlags_bits hversion more false).1.mp (by simp)
    have hreceive := peerReceive_next workaround eapCodeRequest (env fuel).id htype hbits hfits' hin
      (by omega) (by omega) (by rw [List.length_take]; omega)
    rw [hlen, hleft, hgrow] at hreceive
    by_cases hlast : server.tlsOutPos + serverNext server msg = msg.length
    · rw [if_pos (by omega), hlast, List.take_length] at hreceive
      rw [if_pos hlast] at hbuild
      exact ⟨0, serverToPeer_last hbuild rfl hreceive⟩
    · rw [if_neg (by omega)] at hreceive
      rw [if_neg hlast] at hbuild
      rw [serverToPeer_turn hbuild hreceive fun _ => serverProcess_ack htype hversion rfl]
      set server₁ : ServerSslData := { server with
        tlsOutPos := server.tlsOutPos + serverNext server msg, state := .waitFragAck }
      set peer₁ : PeerSslData := { peer with
        tlsIn := some (msg.take (server.tlsOutPos + serverNext server msg))
        tlsInLeft := msg.length - server.tlsOutPos - serverNext server msg }
      have hpos₁ : server₁.tlsOutPos = server.tlsOutPos + serverNext server msg := rfl
      have hrest : ∃ k, serverToPeer workaround eapType version env fuel server₁ peer₁ =
          (server₁.sent, peer₁.resetInput, List.replicate k none ++ [some msg]) :=
        ih hout (by omega) (by omega) hlimit hfits rfl (Nat.sub_sub _ _ _) (by omega)
      obtain ⟨k, hk⟩ := hrest
      refine ⟨k + 1, ?_⟩
      rw [hk]
      rfl

theorem buildMsg_single (eapType : ℕ) (version id : UInt8) (hout : server.tlsOut = some msg)
    (hpos : server.tlsOutPos = 0) (hlimit : 1 + msg.length ≤ server.tlsOutLimit) :
    eapServerTlsBuildMsg server eapType version id =
      some (server.sent,
        tlsPacket eapType eapCodeRequest id (tlsFlags version false false) msg) := by
  have hslice : msg.slice 0 msg.length = msg := by simp [slice]
  simp only [eapServerTlsBuildMsg, hout, hpos, Nat.sub_zero,
    show ¬ 1 + msg.length > server.tlsOutLimit by omega, decide_false, Bool.false_and,
    Bool.false_eq_true, if_false, Nat.add_zero, Nat.zero_add, if_true, List.append_nil, hslice,
    tlsPacket, List.length_cons]
  rw [Nat.add_comm 1 msg.length]
  simp [ServerSslData.sent]

theorem buildMsg_first (eapType : ℕ) (version id : UInt8) (hout : server.tlsOut = some msg)
    (hpos : server.tlsOutPos = 0) (hlimit : 6 ≤ server.tlsOutLimit)
    (hlong : 1 + msg.length > server.tlsOutLimit) :
    eapServerTlsBuildMsg server eapType version id =
      some ({ server with tlsOutPos := server.tlsOutLimit - 5, state := .waitFragAck },
        tlsPacket eapType eapCodeRequest id (tlsFlags version true true)
          (ofBeNat msg.length 4 ++ msg.slice 0 (server.tlsOutLimit - 5))) := by
  have hlen : (msg.slice 0 (server.tlsOutLimit - 5)).length = server.tlsOutLimit - 5 :=
    slice_length_of_le (by omega)
  simp only [eapServerTlsBuildMsg, hout, hpos, Nat.sub_zero, hlong, decide_true, Bool.true_and,
    if_true, Nat.zero_add, Nat.sub_sub, show 1 + 4 = 5 from rfl,
    show ¬ server.tlsOutLimit - 5 = msg.length by omega, if_false, tlsPacket, List.length_cons,
    List.length_append, ofBeNat_length, hlen]
  rw [show 1 + (server.tlsOutLimit - 5) + 4 = 4 + (server.tlsOutLimit - 5) + 1 by omega]
  simp

/-- From the server to the peer: the message arrives once, with the last request. -/
theorem serverToPeer_delivers (htype : eapType < 256)
    (hversion : version &&& versionMask = version) (h1 : 1 ≤ msg.length)
    (hmax : msg.length ≤ maxTlsInLen) {fuel : ℕ} (hout : server.tlsOut = some msg)
    (hpos : server.tlsOutPos = 0) (hlimit : 6 ≤ server.tlsOutLimit)
    (hfits : eapTlsHdrLen eapType + min (1 + msg.length) server.tlsOutLimit ≤ 65535)
    (hin : peer.resetInput = peer) (hfuel : msg.length ≤ fuel) :
    ∃ k, serverToPeer workaround eapType version env fuel server peer =
      (server.sent, peer, List.replicate k none ++ [some msg]) := by
  have hnone : peer.tlsIn = none := by rw [← hin]; rfl
  have hleft : peer.tlsInLeft = 0 := by rw [← hin]; rfl
  obtain _ | fuel := fuel
  · omega
  rcases Nat.lt_or_ge server.tlsOutLimit (1 + msg.length) with hlong | hshort
  · have hbuild := buildMsg_first eapType version (env fuel).id hout hpos hlimit hlong
    have hlen : (msg.slice 0 (server.tlsOutLimit - 5)).length = server.tlsOutLimit - 5 :=
      slice_length_of_le (by omega)
    have hfits' : Fits eapType (ofBeNat msg.length 4 ++ msg.slice 0 (server.tlsOutLimit - 5)) := by
      rw [Fits, List.length_append, ofBeNat_length, hlen]
      omega
    have hreceive := peerReceive_first workaround eapCodeRequest (env fuel).id htype
      ((tlsFlags_bits hversion true true).1.mpr rfl) hfits' hleft (by omega) (by omega) hmax
    rw [serverToPeer_turn hbuild hreceive fun _ => serverProcess_ack htype hversion rfl]
    set server₁ : ServerSslData := { server with
      tlsOutPos := server.tlsOutLimit - 5, state := .waitFragAck }
    set peer₁ : PeerSslData := { peer with
      tlsIn := some (msg.slice 0 (server.tlsOutLimit - 5))
      tlsInLeft := msg.length - (msg.slice 0 (server.tlsOutLimit - 5)).length
      tlsInTotal := msg.length }
    have hpos₁ : server₁.tlsOutPos = server.tlsOutLimit - 5 := rfl
    have hleft₁ : peer₁.tlsInLeft = msg.length - server₁.tlsOutPos := by rw [hpos₁, ← hlen]
    have hrest : ∃ k, serverToPeer workaround eapType version env fuel server₁ peer₁ =
        (server₁.sent, peer₁.resetInput, List.replicate k none ++ [some msg]) :=
      serverToPeer_rest htype hversion hmax hout (by omega) (by omega) hlimit hfits rfl hleft₁
        (by omega)
    obtain ⟨k, hk⟩ := hrest
    refine ⟨k + 1, ?_⟩
    rw [hk, show peer₁.resetInput = peer.resetInput from rfl, hin]
    rfl
  · have hbuild := buildMsg_single eapType version (env fuel).id hout hpos hshort
    have hfits' : Fits eapType msg := by
      unfold Fits
      omega
    have hreceive := peerReceive_single workaround eapCodeRequest (env fuel).id htype
      (mt (tlsFlags_bits hversion false false).1.mp (by simp)) hfits' hleft hnone
    rw [hin] at hreceive
    exact ⟨0, serverToPeer_last hbuild rfl hreceive⟩

end ServerToPeer

section Server
variable {eapType : ℕ} {version : UInt8} (code id : UInt8) {more length : Bool}
  {server : ServerSslData} {frag : Bytes} {n : ℕ}

/-- The body of a response: the length field, if it is included, and the fragment. -/
def responseBody (length : Bool) (n : ℕ) (frag : Bytes) : Bytes :=
  (if length then ofBeNat n 4 else []) ++ frag

theorem serverLength_response (hversion : version &&& versionMask = version) (more length : Bool)
    (hn : n ≤ maxTlsInLen) (hle : frag.length ≤ n) :
    eapServerTlsLength (tlsFlags version more length) (responseBody length n frag) =
      some (if length then n else 0, frag) := by
  have hmax : maxTlsInLen = 65536 := rfl
  have hbits := (tlsFlags_bits hversion more length).1
  unfold eapServerTlsLength responseBody
  cases length with
  | false => simp [hbits.not.mpr (by simp)]
  | true =>
    have hn' : be32 (ofBeNat n 4 ++ frag) 0 = n := be32_ofBeNat (by omega) frag
    have hdrop : (ofBeNat n 4 ++ frag).drop 4 = frag := by
      rw [List.drop_append_of_le_length (by simp), List.drop_eq_nil_of_le (by simp),
        List.nil_append]
    rw [if_pos (hbits.mpr rfl), if_pos rfl, if_neg (by simp), hdrop, hn', if_neg (by omega),
      if_pos rfl]

/-- A message in one response. -/
theorem serverProcess_single (htype : eapType < 256)
    (hversion : version &&& versionMask = version) (length : Bool) (hn : n ≤ maxTlsInLen)
    (hle : frag.length ≤ n) (hfits : Fits eapType (responseBody length n frag))
    (hin : server.tlsIn = none) (hstate : server.state = .msg) :
    eapServerTlsProcess true server eapType (tlsPacket eapType code id
      (tlsFlags version false length) (responseBody length n frag)) = (server, some frag) := by
  have hmore := (tlsFlags_bits hversion false length).2.not.mpr (by simp)
  rw [eapServerTlsProcess, hdrValidate_tlsPacket htype hfits]
  simp only [eapServerTlsReassemble, serverLength_response hversion false length hn hle, hstate, hin,
    hmore, if_false, reduceCtorEq]
  cases server
  simp_all

/-- The first fragment of a message. -/
theorem serverProcess_first (htype : eapType < 256)
    (hversion : version &&& versionMask = version) (hn : n ≤ maxTlsInLen) (hle : frag.length ≤ n)
    (hfits : Fits eapType (responseBody true n frag)) (hin : server.tlsIn = none)
    (hstate : server.state = .msg) :
    ∃ buf : Wpabuf, buf.data = frag ∧ buf.tailroom = n - frag.length ∧
      eapServerTlsProcess true server eapType (tlsPacket eapType code id
        (tlsFlags version true true) (responseBody true n frag)) =
          ({ server with tlsIn := some buf, state := .fragAck }, none) := by
  obtain ⟨hlength, hmore⟩ := tlsFlags_bits hversion true true
  obtain ⟨buf, hput, hext⟩ := Wpabuf.put_extends ⟨n, [], Nat.zero_le _⟩ frag
    (by simpa [Wpabuf.tailroom] using hle)
  have htail := hext.tailroom_eq
  refine ⟨buf, hext.data_eq, ?_, ?_⟩
  · simp only [Wpabuf.tailroom, List.length_nil, Nat.sub_zero] at htail ⊢
    omega
  · rw [eapServerTlsProcess, hdrValidate_tlsPacket htype hfits]
    simp only [eapServerTlsReassemble, serverLength_response hversion true true hn hle, hstate, hin,
      if_false, if_true, reduceCtorEq, eapServerTlsProcessFragment,
      show ¬ tlsFlags version true true &&& flagsLengthIncluded = 0 from hlength.mpr rfl,
      show ¬ n > maxTlsInLen by omega, show ¬ frag.length > n by omega, not_true_eq_false, hput]
    simp [hmore.mpr rfl]

/-- A further fragment; `more` tells whether the message goes on. -/
theorem serverProcess_next {buf : Wpabuf} (htype : eapType < 256)
    (hversion : version &&& versionMask = version) (more length : Bool) (hn : n ≤ maxTlsInLen)
    (hle : frag.length ≤ n) (hfits : Fits eapType (responseBody length n frag))
    (hin : server.tlsIn = some buf) (hstate : server.state = .fragAck)
    (hroom : frag.length ≤ buf.tailroom) :
    ∃ buf' : Wpabuf, buf.Extends buf' frag ∧
      eapServerTlsProcess true server eapType (tlsPacket eapType code id
        (tlsFlags version more length) (responseBody length n frag)) =
          if more then ({ server with tlsIn := some buf' }, none)
          else ({ server with tlsIn := none, state := .msg }, some buf'.data) := by
  have hmore := (tlsFlags_bits hversion more length).2
  obtain ⟨buf', hput, hext⟩ := buf.put_extends frag hroom
  refine ⟨buf', hext, ?_⟩
  have hcont : eapServerTlsProcessCont buf frag = some buf' := by
    rw [eapServerTlsProcessCont, if_neg (by omega), hput]
  rw [eapServerTlsProcess, hdrValidate_tlsPacket htype hfits]
  simp only [eapServerTlsReassemble, serverLength_response hversion more length hn hle, hstate, hin,
    hcont, Option.map_some, if_false, if_true, reduceCtorEq, eapServerTlsProcessFragment]
  cases more with
  | true =>
    rw [if_pos (hmore.mpr rfl)]
    rw [← hstate]
    rfl
  | false =>
    rw [if_neg (hmore.not.mpr (by simp))]
    rfl

end Server

section PeerToServer
variable {workaround : Bool} {eapType : ℕ} {version : UInt8} {env : ℕ → Exchange}
  {server : ServerSslData} {peer : PeerSslData} {msg : Bytes}

/-- The octets of the next fragment. -/
def peerNext (peer : PeerSslData) (msg : Bytes) : ℕ :=
  if msg.length - peer.tlsOutPos > peer.tlsOutLimit then peer.tlsOutLimit
  else msg.length - peer.tlsOutPos

/-- The response carries the length field. -/
def lengthIncluded (established : Bool) (peer : PeerSslData) (eapType : ℕ) (version : UInt8)
    (msg : Bytes) : Bool :=
  (decide (peer.tlsOutPos = 0) &&
    (decide (msg.length > peer.tlsOutLimit) || peer.includeTlsLength)) ||
  (decide (eapType = eapTypePeap) && version == 0 && !established)

theorem processOutput_eq (established : Bool) (eapType : ℕ) (version id : UInt8)
    (hout : peer.tlsOut = some msg) (hle : peer.tlsOutPos ≤ msg.length) :
    eapTlsProcessOutput established peer eapType version id =
      some (if msg.length - peer.tlsOutPos > peer.tlsOutLimit then
          { peer with tlsOutPos := peer.tlsOutPos + peerNext peer msg }
        else peer.resetOutput,
        tlsPacket eapType eapCodeResponse id
          (tlsFlags version (decide (msg.length - peer.tlsOutPos > peer.tlsOutLimit))
            (lengthIncluded established peer eapType version msg))
          (responseBody (lengthIncluded established peer eapType version msg) msg.length
            (msg.slice peer.tlsOutPos (peerNext peer msg)))) := by
  have hnext : peer.tlsOutPos + peerNext peer msg ≤ msg.length := by
    unfold peerNext
    split <;> omega
  have hslice := slice_length_of_le hnext
  simp only [eapTlsProcessOutput, hout, decide_eq_true_eq]
  rw [← peerNext, ← lengthIncluded]
  have hlen : (tlsFlags version (decide (msg.length - peer.tlsOutPos > peer.tlsOutLimit))
      (lengthIncluded established peer eapType version msg) ::
        responseBody (lengthIncluded established peer eapType version msg) msg.length
          (msg.slice peer.tlsOutPos (peerNext peer msg))).length =
      1 + (if lengthIncluded established peer eapType version msg then 4 else 0) +
        peerNext peer msg := by
    rw [List.length_cons, responseBody, List.length_append, hslice]
    split <;> simp <;> omega
  rw [tlsPacket, hlen, responseBody]
  simp [PeerSslData.resetOutput]

/-- The responses fit the EAP Length field, with the length field where it can be included. -/
def ResponsesFit (eapType : ℕ) (version : UInt8) (env : ℕ → Exchange) (limit : ℕ)
    (includeTlsLength : Bool) (n : ℕ) : Prop :=
  eapTlsHdrLen eapType + 1 + min n limit ≤ 65535 ∧
    (n > limit ∨ includeTlsLength = true ∨
        (eapType = eapTypePeap ∧ version = 0 ∧ ∃ j, (env j).established = false) →
      eapTlsHdrLen eapType + 5 + min n limit ≤ 65535)

theorem ResponsesFit.fits {frag : Bytes}
    (h : ResponsesFit eapType version env peer.tlsOutLimit peer.includeTlsLength msg.length)
    (hfrag : frag.length ≤ min msg.length peer.tlsOutLimit) (j : ℕ) :
    Fits eapType (responseBody (lengthIncluded (env j).established peer eapType version msg)
      msg.length frag) := by
  unfold Fits responseBody
  cases hl : lengthIncluded (env j).established peer eapType version msg with
  | false =>
    have := h.1
    simp
    omega
  | true =>
    have hwhy : msg.length > peer.tlsOutLimit ∨ peer.includeTlsLength = true ∨
        (eapType = eapTypePeap ∧ version = 0 ∧ ∃ j, (env j).established = false) := by
      simp only [lengthIncluded, Bool.or_eq_true, Bool.and_eq_true, decide_eq_true_eq, beq_iff_eq,
        Bool.not_eq_true'] at hl
      rcases hl with ⟨-, hlong | hinc⟩ | ⟨⟨htype, hversion⟩, hest⟩
      · exact Or.inl hlong
      · exact Or.inr (Or.inl hinc)
      · exact Or.inr (Or.inr ⟨htype, hversion, j, hest⟩)
    have := h.2 hwhy
    simp
    omega

theorem peerProcess_ack (id : UInt8) (htype : eapType < 256)
    (hversion : version &&& versionMask = version) :
    (eapPeerTlsProcessInit false workaround eapType peer
      (eapServerTlsBuildAck id eapType version)).1 = peer := by
  have hfits : Fits eapType [] := by
    unfold Fits eapTlsHdrLen
    split <;> decide
  have hbits := (tlsFlags_bits hversion false false).1
  have hplain : ¬ version &&& flagsLengthIncluded ≠ 0 := by simpa [tlsFlags] using hbits
  have hack : eapServerTlsBuildAck id eapType version =
      tlsPacket eapType eapCodeRequest id version [] := rfl
  rw [hack, processInit_plain workaround eapCodeRequest id htype hplain hfits]

theorem peerToServer_turn {fuel : ℕ} {server' : ServerSslData} {peer' : PeerSslData}
    {resp : Bytes} {got : Option Bytes} (htype : eapType < 256)
    (hversion : version &&& versionMask = version)
    (hbuild : eapTlsProcessOutput (env fuel).established peer eapType version (env fuel).id =
      some (peer', resp))
    (hreceive : eapServerTlsProcess true server eapType resp = (server', got)) :
    peerToServer workaround eapType version env (fuel + 1) peer server =
      ((peerToServer workaround eapType version env fuel peer' server').1,
        (peerToServer workaround eapType version env fuel peer' server').2.1,
        got :: (peerToServer workaround eapType version env fuel peer' server').2.2) := by
  have hpeer : (if peer'.tlsOut.isSome then (eapPeerTlsProcessInit false workaround eapType peer'
      (eapServerTlsBuildAck (env fuel).id eapType version)).1 else peer') = peer' := by
    split
    · exact peerProcess_ack _ htype hversion
    · rfl
  simp only [peerToServer, hbuild, hreceive, hpeer]

theorem peerToServer_done {fuel : ℕ} (h : peer.tlsOut = none) :
    peerToServer workaround eapType version env fuel peer server = (peer, server, []) := by
  cases fuel with
  | zero => rfl
  | succ fuel => simp [peerToServer, eapTlsProcessOutput, h]

theorem peerNext_bounds (hlt : peer.tlsOutPos < msg.length) (hlimit : 1 ≤ peer.tlsOutLimit) :
    0 < peerNext peer msg ∧ peer.tlsOutPos + peerNext peer msg ≤ msg.length ∧
      peerNext peer msg ≤ min msg.length peer.tlsOutLimit ∧
      (msg.length - peer.tlsOutPos > peer.tlsOutLimit ↔
        peer.tlsOutPos + peerNext peer msg < msg.length) := by
  unfold peerNext
  split <;> omega

/-- Once the first fragment is across, the rest follows. -/
theorem peerToServer_rest (htype : eapType < 256) (hversion : version &&& versionMask = version)
    (hmax : msg.length ≤ maxTlsInLen) {fuel : ℕ} {buf : Wpabuf} (hout : peer.tlsOut = some msg)
    (hlt : peer.tlsOutPos < msg.length) (hlimit : 1 ≤ peer.tlsOutLimit)
    (hfits : ResponsesFit eapType version env peer.tlsOutLimit peer.includeTlsLength msg.length)
    (hin : server.tlsIn = some buf) (hbuf : buf.data = msg.take peer.tlsOutPos)
    (hroom : buf.tailroom = msg.length - peer.tlsOutPos) (hstate : server.state = .fragAck)
    (hfuel : msg.length - peer.tlsOutPos ≤ fuel) :
    ∃ k, peerToServer workaround eapType version env fuel peer server =
      (peer.resetOutput, { server with tlsIn := none, state := .msg },
        List.replicate k none ++ [some msg]) := by
  induction fuel generalizing peer server buf with
  | zero => omega
  | succ fuel ih =>
    obtain ⟨hpos, hle, hmin, hmore⟩ := peerNext_bounds hlt hlimit
    have hlen := slice_length_of_le hle
    have hgrow : msg.take peer.tlsOutPos ++ msg.slice peer.tlsOutPos (peerNext peer msg) =
        msg.take (peer.tlsOutPos + peerNext peer msg) := List.take_add.symm
    have hbuild := processOutput_eq (env fuel).established eapType version (env fuel).id hout hlt.le
    have hshort : (msg.slice peer.tlsOutPos (peerNext peer msg)).length ≤
        min msg.length peer.tlsOutLimit := by omega
    have hroom' : (msg.slice peer.tlsOutPos (peerNext peer msg)).length ≤ buf.tailroom := by omega
    obtain ⟨buf', hext, hreceive⟩ := serverProcess_next eapCodeResponse (env fuel).id htype hversion
      (decide (msg.length - peer.tlsOutPos > peer.tlsOutLimit))
      (lengthIncluded (env fuel).established peer eapType version msg) hmax
      (hshort.trans (min_le_left _ _)) (hfits.fits hshort fuel) hin hstate hroom'
    have hdata : buf'.data = msg.take (peer.tlsOutPos + peerNext peer msg) := by
      rw [hext.data_eq, hbuf, hgrow]
    have htail := hext.tailroom_eq
    rw [hlen] at htail
    by_cases hlast : msg.length - peer.tlsOutPos > peer.tlsOutLimit
    · simp only [hlast, decide_true, if_true] at hbuild hreceive
      rw [peerToServer_turn htype hversion hbuild hreceive]
      set peer₁ : PeerSslData := { peer with
        tlsOutPos := peer.tlsOutPos + peerNext peer msg }
      set server₁ : ServerSslData := { server with tlsIn := some buf' }
      have hpos₁ : peer₁.tlsOutPos = peer.tlsOutPos + peerNext peer msg := rfl
      have hrest : ∃ k, peerToServer workaround eapType version env fuel peer₁ server₁ =
          (peer₁.resetOutput, { server₁ with tlsIn := none, state := .msg },
            List.replicate k none ++ [some msg]) :=
        ih hout (by omega) hlimit hfits rfl hdata (by omega) hstate (by omega)
      obtain ⟨k, hk⟩ := hrest
      refine ⟨k + 1, ?_⟩
      rw [hk]
      rfl
    · have hend : peer.tlsOutPos + peerNext peer msg = msg.length := by omega
      simp only [hlast, decide_false, Bool.false_eq_true, if_false] at hbuild hreceive
      rw [hdata, hend, List.take_length] at hreceive
      refine ⟨0, ?_⟩
      rw [peerToServer_turn htype hversion hbuild hreceive, peerToServer_done rfl]
      rfl

/-- From the peer to the server: the message arrives once, with the last response. -/
theorem peerToServer_delivers (htype : eapType < 256)
    (hversion : version &&& versionMask = version) (h1 : 1 ≤ msg.length)
    (hmax : msg.length ≤ maxTlsInLen) {fuel : ℕ} (hout : peer.tlsOut = some msg)
    (hpos : peer.tlsOutPos = 0) (hlimit : 1 ≤ peer.tlsOutLimit)
    (hfits : ResponsesFit eapType version env peer.tlsOutLimit peer.includeTlsLength msg.length)
    (hin : server.tlsIn = none) (hstate : server.state = .msg) (hfuel : msg.length ≤ fuel) :
    ∃ k, peerToServer workaround eapType version env fuel peer server =
      (peer.resetOutput, server, List.replicate k none ++ [some msg]) := by
  obtain _ | fuel := fuel
  · omega
  obtain ⟨hnext, hle, hmin, hmore⟩ := peerNext_bounds (by omega : peer.tlsOutPos < msg.length) hlimit
  have hlen := slice_length_of_le hle
  have hbuild := processOutput_eq (env fuel).established eapType version (env fuel).id hout
    (by omega)
  have hshort : (msg.slice peer.tlsOutPos (peerNext peer msg)).length ≤
      min msg.length peer.tlsOutLimit := by omega
  have hself : ({ server with tlsIn := none, state := .msg } : ServerSslData) = server := by
    cases server
    subst hin hstate
    rfl
  by_cases hlast : msg.length - peer.tlsOutPos > peer.tlsOutLimit
  · have hincluded : lengthIncluded (env fuel).established peer eapType version msg = true := by
      have hlong : msg.length > peer.tlsOutLimit := by omega
      simp [lengthIncluded, hpos, hlong]
    have hfits' := hfits.fits hshort fuel
    simp only [hlast, decide_true, if_true, hincluded] at hbuild hfits'
    obtain ⟨buf, hdata, htail, hreceive⟩ := serverProcess_first eapCodeResponse (env fuel).id htype
      hversion hmax (hshort.trans (min_le_left _ _)) hfits' hin hstate
    rw [peerToServer_turn htype hversion hbuild hreceive]
    set peer₁ : PeerSslData := { peer with
      tlsOutPos := peer.tlsOutPos + peerNext peer msg }
    set server₁ : ServerSslData := { server with tlsIn := some buf, state := .fragAck }
    have hpos₁ : peer₁.tlsOutPos = peer.tlsOutPos + peerNext peer msg := rfl
    have hdata₁ : buf.data = msg.take peer₁.tlsOutPos := by
      rw [hdata, hpos₁, hpos, Nat.zero_add]
      rfl
    have hrest : ∃ k, peerToServer workaround eapType version env fuel peer₁ server₁ =
        (peer₁.resetOutput, { server₁ with tlsIn := none, state := .msg },
          List.replicate k none ++ [some msg]) :=
      peerToServer_rest htype hversion hmax hout (by omega) hlimit hfits rfl hdata₁ (by omega) rfl
        (by omega)
    obtain ⟨k, hk⟩ := hrest
    refine ⟨k + 1, ?_⟩
    rw [hk]
    exact congrArg (fun s => (peer.resetOutput, s, _)) hself
  · have hall : msg.slice peer.tlsOutPos (peerNext peer msg) = msg := by
      have hend : peerNext peer msg = msg.length := by omega
      rw [hpos, hend]
      simp [slice]
    have hfits' := hfits.fits hshort fuel
    simp only [hlast, decide_false, if_false, hall] at hbuild hfits'
    have hreceive := serverProcess_single eapCodeResponse (env fuel).id htype hversion
      (lengthIncluded (env fuel).established peer eapType version msg) hmax le_rfl hfits' hin hstate
    refine ⟨0, ?_⟩
    rw [peerToServer_turn htype hversion hbuild hreceive, peerToServer_done rfl]
    rfl

end PeerToServer

/-- A message of up to 65536 octets crosses in both directions, for every fragment size with which
the EAP packets do not outgrow their Length field. -/
theorem tlsMessage_roundTrip {workaround : Bool} {eapType : ℕ} {version : UInt8}
    {env : ℕ → Exchange} {msg : Bytes} (htype : eapType < 256)
    (hversion : version &&& versionMask = version) (h1 : 1 ≤ msg.length)
    (hmax : msg.length ≤ 65536) :
    (∀ (server : ServerSslData) (peer : PeerSslData) (fuel : ℕ), server.tlsOut = some msg →
      server.tlsOutPos = 0 → 6 ≤ server.tlsOutLimit →
      eapTlsHdrLen eapType + min (1 + msg.length) server.tlsOutLimit ≤ 65535 →
      peer.resetInput = peer → msg.length ≤ fuel →
      ∃ k, serverToPeer workaround eapType version env fuel server peer =
        ({ server with tlsOut := none, tlsOutPos := 0, state := .msg }, peer,
          List.replicate k none ++ [some msg])) ∧
    ∀ (peer : PeerSslData) (server : ServerSslData) (fuel : ℕ), peer.tlsOut = some msg →
      peer.tlsOutPos = 0 → 1 ≤ peer.tlsOutLimit →
      ResponsesFit eapType version env peer.tlsOutLimit peer.includeTlsLength msg.length →
      server.tlsIn = none → server.state = .msg → msg.length ≤ fuel →
      ∃ k, peerToServer workaround eapType version env fuel peer server =
        (peer.resetOutput, server, List.replicate k none ++ [some msg]) := by
  constructor
  · intro server peer fuel hout hpos hlimit hfits hin hfuel
    exact serverToPeer_delivers htype hversion h1 hmax hout hpos hlimit hfits hin hfuel
  · intro peer server fuel hout hpos hlimit hfits hin hstate hfuel
    exact peerToServer_delivers htype hversion h1 hmax hout hpos hlimit hfits hin hstate hfuel

/-- Ten octets with a limit of six, and with a limit of four the other way. -/
theorem tlsMessage_roundTrip_ten :
    (∃ k, serverToPeer false eapTypeTls 0 (fun _ => ⟨1, false⟩) 10
        { tlsOut := some (zeros 10), tlsOutLimit := 6 } {} =
      ({ tlsOutLimit := 6 }, {}, List.replicate k none ++ [some (zeros 10)])) ∧
    ∃ k, peerToServer false eapTypePeap 0 (fun _ => ⟨1, false⟩) 10
        { tlsOut := some (zeros 10), tlsOutLimit := 4 } {} =
      ({ tlsOutLimit := 4 }, {}, List.replicate k none ++ [some (zeros 10)]) := by
  constructor
  · exact (tlsMessage_roundTrip (by decide) (by decide) (by decide) (by decide)).1
      { tlsOut := some (zeros 10), tlsOutLimit := 6 } {} 10 rfl rfl (by decide) (by decide) rfl
      (by decide)
  · exact (tlsMessage_roundTrip (by decide) (by decide) (by decide) (by decide)).2
      { tlsOut := some (zeros 10), tlsOutLimit := 4 } {} 10 rfl rfl (by decide)
      ⟨by decide, fun _ => by decide⟩ rfl rfl (by decide)

/-- A packet of 65536 octets has a Length field of zero and is ignored. -/
theorem hdrValidate_wrapped {eapType : ℕ} {body : Bytes}
    (h : eapTlsHdrLen eapType + (body.length + 1) = 65536) (code id flags : UInt8) :
    eapTlsHdrValidate eapType (tlsPacket eapType code id flags body) = none := by
  have hfield : be16 (tlsPacket eapType code id flags body) 2 = 0 := by
    rw [tlsPacket, be16_eapTlsMsgAlloc, List.length_cons, h]
  simp [eapTlsHdrValidate, eapHdrValidate, eapHdrLenValid, hfield, eapHdrSize]

theorem serverToPeer_wrapped {msg : Bytes} (hlen : msg.length = 65530) :
    serverToPeer false eapTypeTls 0 (fun _ => ⟨1, false⟩) 65530
        { tlsOut := some msg, tlsOutLimit := 70000 } {} =
      ({ tlsOutLimit := 70000 }, {}, [none]) := by
  have hbuild : eapServerTlsBuildMsg { tlsOut := some msg, tlsOutLimit := 70000 } eapTypeTls 0 1 =
      some ({ tlsOutLimit := 70000 },
        tlsPacket eapTypeTls eapCodeRequest 1 (tlsFlags 0 false false) msg) :=
    buildMsg_single eapTypeTls 0 1 rfl rfl (show 1 + msg.length ≤ 70000 by omega)
  have hwrap : eapTlsHdrLen eapTypeTls + (msg.length + 1) = 65536 := by
    rw [hlen]
    rfl
  have hval := hdrValidate_wrapped hwrap eapCodeRequest 1 (tlsFlags 0 false false)
  have hreceive : peerReceive false eapTypeTls {} (tlsPacket eapTypeTls eapCodeRequest 1
      (tlsFlags 0 false false) msg) = ({}, none) := by
    simp only [peerReceive, eapPeerTlsProcessInit, tlsFrame, hval]
    rfl
  exact serverToPeer_last hbuild rfl hreceive

theorem tlsMessage_not_delivered :
    1 ≤ (zeros 65530).length ∧ (zeros 65530).length ≤ 65536 ∧
      serverToPeer false eapTypeTls 0 (fun _ => ⟨1, false⟩) 65530
          { tlsOut := some (zeros 65530), tlsOutLimit := 70000 } {} =
        ({ tlsOutLimit := 70000 }, {}, [none]) := by
  have hlen : (zeros 65530).length = 65530 := zeros_length _
  refine ⟨?_, ?_, serverToPeer_wrapped hlen⟩
  · rw [hlen]
    omega
  · rw [hlen]
    omega

end Wpa.Eap
