import Wpa.Eap.TlsPeer
import Wpa.Lib.Runs

/-! Reassembly at the peer over any sequence of requests. `eap_peer_tls_process_init` stores the TLS
Message Length of a request before it compares it with the payload, so a request that it then
ignores can leave a length behind. -/

namespace Wpa.Eap.Reassembly
open Lib Bytes

structure Input where
  req : Bytes
  workaround : Bool
  eapType : ℕ
  tlsErrors : Bool
  allocOk : Bool

/-- The peer, and what was announced for the message it is receiving, if it is receiving one: the
TLS Message Length of the request the message began with. -/
structure Peer where
  data : PeerSslData
  current : Option (Option ℕ) := none

inductive Report where
  | ignored
  | more
  | failed
  | delivered (msg : Bytes) (announced : Option ℕ)
  deriving DecidableEq

def Input.frame (i : Input) : Option (UInt8 × Bytes) := tlsFrame i.workaround i.eapType i.req

def lengthField : Option (UInt8 × Bytes) → Option ℕ
  | some (flags, body) => if flags &&& flagsLengthIncluded ≠ 0 then some (body.be32 0) else none
  | none => none

/-- A request goes through `eap_peer_tls_process_init` and, unless it is ignored, to
`eap_peer_tls_data_reassemble`; the input is reset behind a message and behind an error. -/
def step (p : Peer) (i : Input) : Peer × List Report :=
  match eapPeerTlsProcessInit i.tlsErrors i.workaround i.eapType p.data i.req with
  | (data, none) => ({ p with data := data }, [.ignored])
  | (data, some (_, payload)) =>
    let announced := p.current.getD (lengthField i.frame)
    match eapPeerTlsDataReassemble i.allocOk data payload with
    | (data, .more) => (⟨data, some announced⟩, [.more])
    | (data, .failed) => (⟨data.resetInput, none⟩, [.failed])
    | (data, .message msg) => (⟨data.resetInput, none⟩, [.delivered msg announced])

def Good (t : Event Peer Input Report) : Prop :=
  (∀ msg n, Report.delivered msg (some n) ∈ t.out → msg.length = n) ∧
  (∀ msg announced, Report.delivered msg announced ∈ t.out → msg.length ≤ maxTlsInLen) ∧
  (∀ buf, t.post.data.tlsIn = some buf → buf.length ≤ maxTlsInLen) ∧
  (Report.ignored ∈ t.out → t.post.data.tlsIn = t.pre.data.tlsIn ∧
    t.post.data.tlsInLeft = t.pre.data.tlsInLeft ∧
    t.post.data.tlsInTotal = t.pre.data.tlsInTotal)

/-- The request begins a message and carries more data than the TLS Message Length it announces,
which is not zero. -/
def Overlong (p : Peer) (i : Input) : Prop :=
  i.tlsErrors = false ∧ p.data.tlsInLeft = 0 ∧ ∃ flags body, i.frame = some (flags, body) ∧
    flags &&& flagsLengthIncluded ≠ 0 ∧ 4 ≤ body.length ∧ 0 < body.be32 0 ∧
    body.be32 0 < body.length - 4

/-- Between requests either nothing of a message is there, or what is there and what is missing
make up the length announced. -/
inductive Consistent (p : Peer) : Prop
  | idle (hleft : p.data.tlsInLeft = 0) (htotal : p.data.tlsInTotal = 0)
      (hin : p.data.tlsIn = none) (hcur : p.current = none)
  | receiving (buf : Bytes) (hleft : 0 < p.data.tlsInLeft) (hin : p.data.tlsIn = some buf)
      (hcur : p.current = some (some (buf.length + p.data.tlsInLeft)))
      (hlen : buf.length ≤ maxTlsInLen)

section Step
variable {p : Peer} {i : Input}

theorem Consistent.tlsIn_le (h : Consistent p) {buf : Bytes} (hin : p.data.tlsIn = some buf) :
    buf.length ≤ maxTlsInLen := by
  cases h with
  | idle _ _ hnone _ => exact absurd (hnone.symm.trans hin) (by simp)
  | receiving buf' _ hin' _ hlen =>
    rw [hin'] at hin
    rw [← Option.some.inj hin]
    exact hlen

theorem Consistent.reset (data : PeerSslData) : Consistent ⟨data.resetInput, none⟩ :=
  .idle rfl rfl rfl rfl

/-- A request that is ignored without a trace. -/
theorem step_ignored (h : Consistent p)
    (hstep : eapPeerTlsProcessInit i.tlsErrors i.workaround i.eapType p.data i.req =
      (p.data, none)) :
    Good (Runs.event step p i) ∧ Consistent (step p i).1 := by
  have heq : step p i = (p, [.ignored]) := by rw [step, hstep]
  refine ⟨?_, by rwa [heq]⟩
  simp only [Good, Runs.event, heq]
  exact ⟨by simp, by simp, fun buf hin => h.tlsIn_le hin, fun _ => by simp⟩

/-- What holds when a payload is handed to the reassembly: the message is a single frame without a
length, or the length announced is what is there and what is missing. -/
structure Ready (data : PeerSslData) (announced : Option ℕ) (payload : Bytes) : Prop where
  length_le : payload.length ≤ maxTlsInLen
  counted : (data.tlsInLeft = 0 ∧ data.tlsIn = none ∧ announced = none) ∨
    announced = some ((data.tlsIn.getD []).length + data.tlsInLeft) ∧
      (data.tlsIn = none → payload.length ≤ data.tlsInLeft)

theorem reassembleFragment_spec {data : PeerSslData} {announced : Option ℕ} {payload : Bytes}
    (allocOk : Bool)
    (hcount : announced = some ((data.tlsIn.getD []).length + data.tlsInLeft)) :
    (∃ d, eapPeerTlsReassembleFragment allocOk data payload = (d, .failed)) ∨
    (∃ d, eapPeerTlsReassembleFragment allocOk data payload = (d, .more) ∧
      Consistent ⟨d, some announced⟩) ∨
    ∃ d msg, eapPeerTlsReassembleFragment allocOk data payload = (d, .message msg) ∧
      (∀ n, announced = some n → msg.length = n) ∧ msg.length ≤ maxTlsInLen := by
  unfold eapPeerTlsReassembleFragment
  generalize data.tlsIn.getD [] = buf at hcount ⊢
  by_cases h₁ : buf.length + payload.length = 0
  · exact Or.inl ⟨_, if_pos h₁⟩
  · by_cases h₂ : buf.length + payload.length > maxTlsInLen
    · exact Or.inl ⟨_, by simp only [h₁, h₂, if_true, if_false]; rfl⟩
    · by_cases h₃ : payload.length > data.tlsInLeft
      · exact Or.inl ⟨_, by simp only [h₁, h₂, h₃, if_true, if_false]; rfl⟩
      · cases allocOk with
        | false => exact Or.inl ⟨_, by simp [h₂, h₃]; rfl⟩
        | true =>
          simp only [h₁, h₂, h₃, if_false, not_true_eq_false]
          by_cases h₄ : data.tlsInLeft - payload.length > 0
          · refine Or.inr (Or.inl ⟨_, if_pos h₄, ?_⟩)
            refine .receiving (buf ++ payload) h₄ rfl ?_ ?_
            · rw [hcount, List.length_append]
              show some (some _) = some (some (_ + (data.tlsInLeft - payload.length)))
              congr 2
              omega
            · rw [List.length_append]
              omega
          · refine Or.inr (Or.inr ⟨_, _, if_neg h₄, ?_, ?_⟩)
            · intro n hn
              rw [hcount, Option.some.injEq] at hn
              rw [List.length_append]
              omega
            · rw [List.length_append]
              omega

theorem dataReassemble_spec {data : PeerSslData} {announced : Option ℕ} {payload : Bytes}
    (allocOk : Bool) (h : Ready data announced payload) :
    (∃ d, eapPeerTlsDataReassemble allocOk data payload = (d, .failed)) ∨
    (∃ d, eapPeerTlsDataReassemble allocOk data payload = (d, .more) ∧
      Consistent ⟨d, some announced⟩) ∨
    ∃ d msg, eapPeerTlsDataReassemble allocOk data payload = (d, .message msg) ∧
      (∀ n, announced = some n → msg.length = n) ∧ msg.length ≤ maxTlsInLen := by
  unfold eapPeerTlsDataReassemble
  by_cases hfrag : data.tlsInLeft > payload.length ∨ data.tlsIn.isSome = true
  · rw [if_pos hfrag]
    rcases h.counted with ⟨hleft, hin, -⟩ | ⟨hcount, -⟩
    · rw [hleft, hin] at hfrag
      simp at hfrag
    · exact reassembleFragment_spec allocOk hcount
  · rw [if_neg hfrag]
    rw [not_or, Bool.not_eq_true, Option.isSome_eq_false_iff, Option.isNone_iff_eq_none] at hfrag
    cases allocOk with
    | false => exact Or.inl ⟨_, if_pos (by simp)⟩
    | true =>
      refine Or.inr (Or.inr ⟨_, payload, if_neg (by simp), ?_, h.length_le⟩)
      intro n hn
      rcases h.counted with ⟨-, -, hnone⟩ | ⟨hcount, hle⟩
      · exact absurd (hnone.symm.trans hn) (by simp)
      · have := hle hfrag.2
        rw [hcount, hfrag.2, Option.some.injEq] at hn
        simp at hn
        omega

theorem step_payload {data : PeerSslData} {flags : UInt8} {payload : Bytes}
    (hinit : eapPeerTlsProcessInit i.tlsErrors i.workaround i.eapType p.data i.req =
      (data, some (flags, payload)))
    (h : Ready data (p.current.getD (lengthField i.frame)) payload) :
    Good (Runs.event step p i) ∧ Consistent (step p i).1 := by
  rcases dataReassemble_spec i.allocOk h with ⟨d, hd⟩ | ⟨d, hd, hcons⟩ | ⟨d, msg, hd, hlen, hmax⟩
  · have heq : step p i = (⟨d.resetInput, none⟩, [.failed]) := by simp only [step, hinit, hd]
    refine ⟨?_, by rw [heq]; exact .reset d⟩
    simp only [Good, Runs.event, heq]
    simp [PeerSslData.resetInput]
  · have heq : step p i =
        (⟨d, some (p.current.getD (lengthField i.frame))⟩, [.more]) := by
      simp only [step, hinit, hd]
    refine ⟨?_, by rwa [heq]⟩
    simp only [Good, Runs.event, heq]
    exact ⟨by simp, by simp, fun buf hin => hcons.tlsIn_le hin, by simp⟩
  · have heq : step p i = (⟨d.resetInput, none⟩,
        [.delivered msg (p.current.getD (lengthField i.frame))]) := by
      simp only [step, hinit, hd]
    refine ⟨?_, by rw [heq]; exact .reset d⟩
    simp only [Good, Runs.event, heq, List.mem_singleton, Report.delivered.injEq]
    refine ⟨?_, ?_, by simp [PeerSslData.resetInput], by simp⟩
    · rintro m n ⟨rfl, hn⟩
      exact hlen n hn.symm
    · rintro m a ⟨rfl, -⟩
      exact hmax

theorem resetInput_eq_self {data : PeerSslData} (hleft : data.tlsInLeft = 0)
    (htotal : data.tlsInTotal = 0) (hin : data.tlsIn = none) : data.resetInput = data := by
  cases data
  subst hleft htotal hin
  rfl

theorem step_overlong (h : Overlong p i) : ¬ Good (Runs.event step p i) := by
  obtain ⟨herr, hleft, flags, body, hframe, hflag, h4, hpos, hlt⟩ := h
  have hinit : eapPeerTlsProcessInit i.tlsErrors i.workaround i.eapType p.data i.req =
      ({ p.data with tlsInTotal := body.be32 0, tlsInLeft := body.be32 0, tlsIn := none },
        none) := by
    have hshort : ¬ body.length < 4 := by omega
    simp only [eapPeerTlsProcessInit, herr, show tlsFrame i.workaround i.eapType i.req =
      some (flags, body) from hframe, hshort, hleft, List.length_drop, gt_iff_lt, hlt]
    simpa using hflag
  have heq : step p i = ({ p with data := { p.data with
      tlsInTotal := body.be32 0, tlsInLeft := body.be32 0, tlsIn := none } }, [.ignored]) := by
    simp only [step, hinit]
  rintro ⟨-, -, -, hsame⟩
  have hchanged := (hsame (by simp [Runs.event, heq])).2.1
  simp only [Runs.event, heq, hleft] at hchanged
  omega

theorem step_consistent (hcons : Consistent p) (h : ¬ Overlong p i) :
    Good (Runs.event step p i) ∧ Consistent (step p i).1 := by
  rcases processInit_cases i.tlsErrors i.workaround i.eapType p.data i.req with
    ⟨-, hinit⟩ | ⟨flags, body, herr, hframe, ⟨hflag, hinit⟩ | ⟨-, -, hinit⟩ | ⟨hflag, h4, hinit⟩⟩
  · exact step_ignored hcons hinit
  · have hbody := tlsFrame_length_le hframe
    have hfield : lengthField i.frame = none := by
      rw [Input.frame, hframe]
      exact if_neg (not_not.mpr hflag)
    apply step_payload hinit
    refine ⟨by unfold maxTlsInLen; omega, ?_⟩
    cases hcons with
    | idle hleft _ hin hcur =>
      rw [hcur, hfield]
      exact Or.inl ⟨hleft, hin, rfl⟩
    | receiving buf hleft hin hcur hlen =>
      rw [hcur, hin]
      exact Or.inr ⟨rfl, fun hnone => absurd hnone (by simp)⟩
  · exact step_ignored hcons hinit
  · have hbody := tlsFrame_length_le hframe
    have hfield : lengthField i.frame = some (body.be32 0) := by
      rw [Input.frame, hframe]
      exact if_pos hflag
    have hdrop : (body.drop 4).length = body.length - 4 := List.length_drop
    cases hcons with
    | idle hleft htotal hin hcur =>
      rw [if_pos hleft] at hinit
      by_cases hlong : body.be32 0 < body.length - 4
      · -- only a zero length can be smaller than the payload here, and storing it changes nothing
        have hzero : body.be32 0 = 0 := by
          by_contra hne
          exact h ⟨herr, hleft, flags, body, hframe, hflag, h4, Nat.pos_of_ne_zero hne, hlong⟩
        apply step_ignored (.idle hleft htotal hin hcur)
        rw [hinit, if_pos hlong, hzero]
        exact congrArg (·, none) (resetInput_eq_self hleft htotal hin)
      · rw [if_neg hlong] at hinit
        apply step_payload hinit
        refine ⟨by unfold maxTlsInLen; omega, Or.inr ⟨?_, fun _ => ?_⟩⟩
        · rw [hcur, hfield]
          simp
        · show (body.drop 4).length ≤ body.be32 0
          omega
    | receiving buf hleft hin hcur hlen =>
      rw [if_neg (by omega)] at hinit
      by_cases hlong : body.be32 0 < body.length - 4
      · rw [if_pos hlong] at hinit
        exact step_ignored (.receiving buf hleft hin hcur hlen) hinit
      · rw [if_neg hlong] at hinit
        apply step_payload hinit
        refine ⟨by unfold maxTlsInLen; omega, Or.inr ⟨?_, fun hnone => ?_⟩⟩
        · rw [hcur, hin]
          rfl
        · exact absurd (hin.symm.trans hnone) (by simp)

end Step

/-- A peer without anything received yet. -/
def start (data : PeerSslData) : Peer := ⟨data.resetInput, none⟩

theorem reassembly_good_iff (data : PeerSslData) (is : List Input) :
    (∀ t ∈ Runs.trace step (start data) is, Good t) ↔
      ∀ t ∈ Runs.trace step (start data) is, ¬ Overlong t.pre t.input := by
  have hiff : ∀ p i, Consistent p → (Good (Runs.event step p i) ↔ ¬ Overlong p i) := by
    intro p i hcons
    constructor
    · exact fun hgood hlong => step_overlong hlong hgood
    · exact fun h => (step_consistent hcons h).1
  refine Runs.all_good_iff hiff (fun p i hcons hgood => ?_) (.reset data) is
  exact (step_consistent hcons ((hiff p i hcons).mp hgood)).2

/-- An EAP-TLS request with a TLS Message Length. -/
def request (length : UInt8) (payload : Bytes) : Input :=
  { req := eapTlsMsgAlloc eapTypeTls (5 + payload.length) eapCodeRequest 1 ++
      [flagsLengthIncluded, 0, 0, 0, length] ++ payload
    workaround := false, eapType := eapTypeTls, tlsErrors := false, allocOk := true }

/-- The first request announces 10 octets, carries 15 and is ignored; the second announces 30 and
carries 20, and these are delivered as the whole message. -/
theorem reassembly_leftover :
    Runs.outputs (Runs.trace step (start {}) [request 10 (zeros 15), request 30 (zeros 20)]) =
        [.ignored, .delivered (zeros 20) (some 30)] ∧
      ¬ ∀ t ∈ Runs.trace step (start {}) [request 10 (zeros 15), request 30 (zeros 20)],
        Good t := by
  have hout : Runs.outputs
      (Runs.trace step (start {}) [request 10 (zeros 15), request 30 (zeros 20)]) =
        [.ignored, .delivered (zeros 20) (some 30)] := by
    decide
  refine ⟨hout, fun hgood => ?_⟩
  have hmem : Report.delivered (zeros 20) (some 30) ∈ Runs.outputs
      (Runs.trace step (start {}) [request 10 (zeros 15), request 30 (zeros 20)]) := by
    rw [hout]
    simp
  obtain ⟨t, ht, hd⟩ := List.mem_flatMap.mp hmem
  exact absurd ((hgood t ht).1 _ _ hd) (by decide)

end Wpa.Eap.Reassembly
