import Wpa.Tls.Record

/-! Application data over the internal TLS: what `tlsv1_client_decrypt` makes of a stream of records
that arrives in pieces of any length (`tls/tlsv1_client.c`). -/

namespace Lib
variable {α : Type*}

/-- The front of a sequence of pieces: whole pieces, and a proper front of the next one. -/
def Cut (pieces : List (List α)) (part : List α) : Prop :=
  part = [] ∨ ∃ x ∈ pieces.head?, part <+: x ∧ part.length < x.length

theorem cut_flatten {pieces : List (List α)} {front : List α} (h : front <+: pieces.flatten) :
    ∃ k part, front = (pieces.take k).flatten ++ part ∧ Cut (pieces.drop k) part := by
  induction pieces generalizing front with
  | nil => exact ⟨0, [], List.prefix_nil.mp h, .inl rfl⟩
  | cons x pieces ih =>
    rw [List.flatten_cons] at h
    by_cases happ : front.length < x.length
    · have hx : front <+: x :=
        List.prefix_of_prefix_length_le h (List.prefix_append _ _) happ.le
      exact ⟨0, front, rfl, .inr ⟨x, rfl, hx, happ⟩⟩
    · obtain ⟨rest, rfl⟩ := List.prefix_of_prefix_length_le (List.prefix_append x _) h
        (Nat.le_of_not_lt happ)
      obtain ⟨k, part, hrest, hcut⟩ := ih ((List.prefix_append_right_inj x).mp h)
      exact ⟨k + 1, part, by rw [List.take_succ_cons, List.flatten_cons, hrest, List.append_assoc],
        hcut⟩

end Lib

namespace Wpa.Record
open Lib Bytes

section Model

/-- The part of `struct tlsv1_client` that application data uses. -/
structure TlsClient where
  rl : RecordLayer
  partialInput : Option Bytes := none

/-- What `tlsv1_client_decrypt` returns: its buffer, if it has one, with `need_more_data`, or the
alert that it sends. -/
inductive Decrypted where
  | data (buf : Option Bytes) (needMoreData : Bool)
  | alert (description : ℕ)
  deriving DecidableEq

def alertLevelWarning : ℕ := 1

/-- The loop of `tlsv1_client_decrypt` over the octets from `pos` on; each record takes at least
five of them. The buffer has room for all of `pos`. -/
def decryptLoop (cr : Crypto) :
    ℕ → RecordLayer → Bytes → Option Bytes → Decrypted × TlsClient
  | 0, rl, _, buf => (.data buf false, ⟨rl, none⟩)
  | turns + 1, rl, pos, buf =>
    if pos.length = 0 then (.data buf false, ⟨rl, none⟩)
    else
      let buf := buf.getD []
      match tlsv1RecordReceive cr rl pos pos.length with
      | .fail alert rl => (.alert alert, ⟨rl, none⟩)
      | .more => (.data (some buf) true, ⟨rl, some pos⟩)
      | .record used out rl =>
        if pos.getD 0 0 = contentTypeAlert then
          if out.length < 2 then (.alert alertDecodeError, ⟨rl, none⟩)
          else if out.byteAt 0 = alertLevelWarning then
            decryptLoop cr turns rl (pos.drop used) (some buf)
          else (.alert (out.byteAt 1), ⟨rl, none⟩)
        else if pos.getD 0 0 ≠ contentTypeApplicationData then
          (.alert alertUnexpectedMessage, ⟨rl, none⟩)
        else decryptLoop cr turns rl (pos.drop used) (some (buf ++ out))

/-- `tlsv1_client_decrypt`. -/
def tlsv1ClientDecrypt (cr : Crypto) (conn : TlsClient) (inData : Bytes) : Decrypted × TlsClient :=
  let pos := conn.partialInput.getD [] ++ inData
  decryptLoop cr pos.length conn.rl pos none

/-- One call after another; the data of all of them, or `none` if one of them fails. -/
def clientRun (cr : Crypto) : TlsClient → List Bytes → Option Bytes
  | _, [] => some []
  | conn, chunk :: chunks =>
    match tlsv1ClientDecrypt cr conn chunk with
    | (.alert _, _) => none
    | (.data buf _, conn) => (clientRun cr conn chunks).map (buf.getD [] ++ ·)

/-- What is given to the writer: a record's contents, the random octets that are drawn for it, and
the size of the buffer. -/
structure Message where
  contentType : UInt8 := contentTypeApplicationData
  payload : Bytes
  random : Bytes := []
  size : ℕ := 18432
  deriving DecidableEq

def Message.send (cr : Crypto) (rl : RecordLayer) (m : Message) : Option (Bytes × RecordLayer) :=
  tlsv1RecordSend cr rl m.contentType m.size m.payload m.random

/-- One message after another, and the records that are made of them. -/
def writeRun (cr : Crypto) : RecordLayer → List Message → Option (List Bytes × RecordLayer)
  | rl, [] => some ([], rl)
  | rl, m :: messages => do
    let (record, rl) ← m.send cr rl
    let (records, rl) ← writeRun cr rl messages
    some (record :: records, rl)

/-- Messages that `tlsv1_server_encrypt` can be given, of a length that a record can have. -/
def AppData (messages : List Message) : Prop :=
  ∀ m ∈ messages, m.contentType = contentTypeApplicationData ∧ m.payload.length ≤ 17403

end Model

section Delivery
variable {cr : Crypto} {w w' r : RecordLayer} {messages : List Message} {records : List Bytes}

theorem writeRun_cons {m : Message} :
    writeRun cr w (m :: messages) = some (records, w') ↔
      ∃ record w₁ rest, m.send cr w = some (record, w₁) ∧
        writeRun cr w₁ messages = some (rest, w') ∧ records = record :: rest := by
  simp only [writeRun, Option.bind_eq_bind, Option.bind_eq_some_iff, Option.some.injEq,
    Prod.mk.injEq, Prod.exists]
  constructor
  · rintro ⟨record, w₁, h₁, rest, w₂, h₂, rfl, rfl⟩
    exact ⟨record, w₁, rest, h₁, h₂, rfl⟩
  · rintro ⟨record, w₁, rest, h₁, h₂, rfl⟩
    exact ⟨record, w₁, h₁, rest, w', h₂, rfl, rfl⟩

/-- A run in two parts. -/
theorem writeRun_take (h : writeRun cr w messages = some (records, w')) (k : ℕ) :
    ∃ w₁, writeRun cr w (messages.take k) = some (records.take k, w₁) ∧
      writeRun cr w₁ (messages.drop k) = some (records.drop k, w') := by
  induction k generalizing w messages records with
  | zero => exact ⟨w, rfl, h⟩
  | succ k ih =>
    cases messages with
    | nil =>
      cases h
      exact ⟨w', rfl, rfl⟩
    | cons m messages =>
      obtain ⟨record, w₁, rest, hone, hrest, rfl⟩ := writeRun_cons.mp h
      obtain ⟨w₂, hfront, hback⟩ := ih hrest
      exact ⟨w₂, writeRun_cons.mpr ⟨record, w₁, _, hone, hfront, rfl⟩, hback⟩

theorem record_length {m : Message} {record : Bytes}
    (h : m.send cr w = some (record, w')) : 5 ≤ record.length := by
  obtain ⟨body, rfl, -⟩ := send_cases h
  rw [List.length_append, recordHeader_length]
  exact Nat.le_add_right _ _

theorem record_type {m : Message} {record : Bytes}
    (h : m.send cr w = some (record, w')) (rest : Bytes) :
    (record ++ rest).getD 0 0 = m.contentType := by
  obtain ⟨body, rfl, -⟩ := send_cases h
  rfl

/-- The loop over whole records and a front of the next one: it takes the payloads of all of them
and keeps that front. -/
theorem decryptLoop_records {front : List Bytes} {part : Bytes} (k : ℕ) (hm : Matched w r)
    (h : writeRun cr w messages = some (records, w')) (happ : AppData messages)
    (hfront : front = records.take k) (hcut : Cut (records.drop k) part) (turns : ℕ)
    (hturns : (front.flatten ++ part).length ≤ turns) (buf : Option Bytes) :
    ∃ w₁ r₁ buf' more, writeRun cr w (messages.take k) = some (front, w₁) ∧ Matched w₁ r₁ ∧
      decryptLoop cr turns r (front.flatten ++ part) buf =
        (.data buf' more, ⟨r₁, if part = [] then none else some part⟩) ∧
      buf'.getD [] = buf.getD [] ++ ((messages.take k).map Message.payload).flatten := by
  -- on the number of whole records; each turn takes one, which leaves the two ends matched
  induction k generalizing w r messages records front turns buf with
  | zero =>
    subst hfront
    refine ⟨w, r, ?_⟩
    show ∃ buf' more, _ ∧ _ ∧ decryptLoop cr turns r part buf = _ ∧ _
    obtain rfl | ⟨record, hhead, hpart, hlt⟩ := hcut
    · refine ⟨buf, false, rfl, hm, ?_, (List.append_nil _).symm⟩
      cases turns <;> rfl
    · cases messages with
      | nil =>
        cases h
        cases hhead
      | cons m messages =>
        obtain ⟨record', w₁, rest, hone, -, rfl⟩ := writeRun_cons.mp h
        obtain rfl : record' = record := Option.some.inj hhead
        -- the reader waits for the rest of a record that is cut short
        have hmore := receive_short part.length hm (happ m List.mem_cons_self).2 hone
          hpart hlt
        by_cases hnil : part = []
        · subst hnil
          refine ⟨buf, false, rfl, hm, ?_, (List.append_nil _).symm⟩
          cases turns <;> rfl
        · refine ⟨some (buf.getD []), true, rfl, hm, ?_, (List.append_nil _).symm⟩
          have hpos : part.length ≠ 0 := fun h0 => hnil (List.length_eq_zero_iff.mp h0)
          obtain ⟨turns, rfl⟩ : ∃ n, turns = n + 1 :=
            Nat.exists_eq_succ_of_ne_zero fun h0 => hpos (by
              rw [h0] at hturns
              exact Nat.le_zero.mp hturns)
          rw [decryptLoop, if_neg hpos, hmore, if_neg hnil]
  | succ k ih =>
    cases messages with
    | nil =>
      cases h
      subst hfront
      obtain rfl | ⟨record, hhead, -⟩ := hcut
      · refine ⟨w', r, buf, false, rfl, hm, ?_, (List.append_nil _).symm⟩
        cases turns <;> rfl
      · cases hhead
    | cons m messages =>
      obtain ⟨record, w₁, rest, hone, hrest, rfl⟩ := writeRun_cons.mp h
      rw [List.take_succ_cons] at hfront
      subst hfront
      -- a record takes more octets than the turn that it costs
      have hlen := record_length hone
      rw [List.flatten_cons, List.append_assoc] at hturns ⊢
      rw [List.length_append] at hturns
      obtain ⟨turns, rfl⟩ : ∃ n, turns = n + 1 := Nat.exists_eq_succ_of_ne_zero (by omega)
      obtain ⟨htype, hlength⟩ := happ m List.mem_cons_self
      obtain ⟨r₁, hreceive, hm₁⟩ := receive_send
        (record ++ ((rest.take k).flatten ++ part)).length hm (.inr (.inr (.inr htype))) hlength
        ((rest.take k).flatten ++ part) hone
        (by rw [List.length_append]; exact Nat.le_add_right _ _)
      obtain ⟨w₂, r₂, buf', more, hrun, hm₂, hloop, hbuf⟩ := ih hm₁ hrest
        (fun m hm => happ m (List.mem_cons_of_mem _ hm)) rfl hcut turns (by omega)
        (some (buf.getD [] ++ m.payload))
      refine ⟨w₂, r₂, buf', more, writeRun_cons.mpr ⟨record, w₁, _, hone, hrun, rfl⟩, hm₂, ?_, ?_⟩
      · have hpos : (record ++ ((rest.take k).flatten ++ part)).length ≠ 0 := by
          rw [List.length_append]
          omega
        rw [decryptLoop, if_neg hpos, hreceive]
        simp only [record_type hone, htype]
        rw [if_neg (by decide), if_neg (by simp), List.drop_left, hloop]
      · rw [hbuf, List.take_succ_cons, List.map_cons, List.flatten_cons, ← List.append_assoc]
        rfl

/-- The same for a client that has a front of the next record already. -/
theorem clientRun_records {chunks : List Bytes} (part : Bytes) (kept : Option Bytes)
    (hm : Matched w r) (h : writeRun cr w messages = some (records, w')) (happ : AppData messages)
    (hkept : kept.getD [] = part) (hcut : Cut records part)
    (hfront : part ++ chunks.flatten <+: records.flatten) :
    ∃ k last, part ++ chunks.flatten = (records.take k).flatten ++ last ∧
      Cut (records.drop k) last ∧
      clientRun cr ⟨r, kept⟩ chunks =
        some ((messages.take k).map Message.payload).flatten := by
  induction chunks generalizing w r messages records part kept with
  | nil =>
    exact ⟨0, part, List.append_nil _, hcut, rfl⟩
  | cons chunk chunks ih =>
    rw [List.flatten_cons, ← List.append_assoc] at hfront ⊢
    -- the first call ends in front of `next`, which it keeps for the one after
    obtain ⟨k, next, hfirst, hnext⟩ := cut_flatten ((List.prefix_append _ _).trans hfront)
    obtain ⟨w₁, r₁, buf, more, hrun, hm₁, hloop, hbuf⟩ :=
      decryptLoop_records k hm h happ rfl hnext _ le_rfl none
    obtain ⟨w₂, hrun₂, hrest⟩ := writeRun_take h k
    obtain rfl : w₁ = w₂ := congrArg Prod.snd (Option.some.inj (hrun.symm.trans hrun₂))
    have hsplit : records.flatten = (records.take k).flatten ++ (records.drop k).flatten := by
      rw [← List.flatten_append, List.take_append_drop]
    have hkeep : (if next = [] then none else some next).getD [] = next := by
      split
      case isTrue hnil => exact hnil.symm
      case isFalse => rfl
    rw [hfirst, List.append_assoc, hsplit] at hfront
    obtain ⟨n, last, hall, hlast, hclient⟩ := ih next
      (if next = [] then none else some next) hm₁ hrest
      (fun m hmem => happ m (List.mem_of_mem_drop hmem)) hkeep hnext
      ((List.prefix_append_right_inj _).mp hfront)
    refine ⟨k + n, last, ?_, ?_, ?_⟩
    · rw [hfirst, List.append_assoc, hall, ← List.append_assoc, ← List.flatten_append,
        List.take_add]
    · rwa [← List.drop_drop]
    · rw [clientRun, tlsv1ClientDecrypt]
      simp only [hkept, hfirst, hloop, hclient, hbuf]
      rw [List.take_add, List.map_append, List.flatten_append]
      rfl

/-- However the records of a server are cut into pieces on their way, and however many of their
octets have come in, no call of the client fails, and the calls together return the payloads of the
records that are complete, in their order. -/
theorem records_delivered {chunks : List Bytes} (hm : Matched w r)
    (h : writeRun cr w messages = some (records, w')) (happ : AppData messages)
    (hfront : chunks.flatten <+: records.flatten) :
    ∃ k last, chunks.flatten = (records.take k).flatten ++ last ∧ Cut (records.drop k) last ∧
      clientRun cr ⟨r, none⟩ chunks = some ((messages.take k).map Message.payload).flatten :=
  clientRun_records [] none hm h happ rfl (.inl rfl) hfront

/-- A server and a client of a session with AES, in the version 1.1. -/
def sampleCrypto : Crypto where
  aes := fun _ => some (.identity 16)
  des3 := fun _ => .identity 8
  des := fun _ => .identity 8
  hash := fun alg _ data => some (BlockCipher.fitted alg.macLen data)
  length_hash := fun alg _ data mac h => by
    cases h
    exact BlockCipher.length_fitted _ _

def sampleLayer : RecordLayer where
  tlsVersion := tlsVersion11

def sampleMessages : List Message :=
  [{ payload := [1, 2, 3], random := zeros 16 }, { payload := [4, 5], random := zeros 16 }]

def sampleWriter : RecordLayer :=
  (tlsv1RecordChangeWriteCipher sampleCrypto (tlsv1RecordSetCipherSuite sampleLayer 0x002f).1).1

def sampleReader : RecordLayer :=
  (tlsv1RecordChangeReadCipher sampleCrypto (tlsv1RecordSetCipherSuite sampleLayer 0x002f).1).1

theorem sample_matched : Matched sampleWriter sampleReader := by
  have hagreed : Agreed sampleLayer sampleLayer := ⟨rfl, by decide, rfl, rfl, rfl, by decide⟩
  have hdes : ¬DesSuite 0x002f := by
    unfold DesSuite
    decide
  exact matched_of_change hagreed hdes rfl rfl rfl rfl

theorem sample_writeRun : ∃ records w',
    writeRun sampleCrypto sampleWriter sampleMessages = some (records, w') := by
  have hsome : (writeRun sampleCrypto sampleWriter sampleMessages).isSome := by decide +kernel
  obtain ⟨⟨records, w'⟩, hrun⟩ := Option.isSome_iff_exists.mp hsome
  exact ⟨records, w', hrun⟩

theorem records_delivered_sample : ∃ records w',
    writeRun sampleCrypto sampleWriter sampleMessages = some (records, w') ∧
    ∃ k last, [records.flatten.take 9].flatten = (records.take k).flatten ++ last ∧
      Cut (records.drop k) last ∧
      clientRun sampleCrypto ⟨sampleReader, none⟩ [records.flatten.take 9] =
        some ((sampleMessages.take k).map Message.payload).flatten := by
  obtain ⟨records, w', hrun⟩ := sample_writeRun
  have hfront : [records.flatten.take 9].flatten <+: records.flatten := by
    rw [List.flatten_singleton]
    exact List.take_prefix 9 _
  exact ⟨records, w', hrun,
    records_delivered sample_matched hrun (by unfold AppData; decide) hfront⟩

theorem writeRun_length (h : writeRun cr w messages = some (records, w')) :
    messages.length = records.length := by
  induction messages generalizing w records with
  | nil =>
    cases h
    rfl
  | cons m messages ih =>
    obtain ⟨record, w₁, rest, -, hrest, rfl⟩ := writeRun_cons.mp h
    exact congrArg Nat.succ (ih hrest)

theorem writeRun_headers (h : writeRun cr w messages = some (records, w')) :
    ∀ record ∈ records, 5 ≤ record.length := by
  induction messages generalizing w records with
  | nil =>
    cases h
    exact fun _ hmem => absurd hmem List.not_mem_nil
  | cons m messages ih =>
    obtain ⟨record, w₁, rest, hone, hrest, rfl⟩ := writeRun_cons.mp h
    exact List.forall_mem_cons.mpr ⟨record_length hone, ih hrest⟩

/-- Once all the octets have come in, in whatever pieces, the client has returned all the data. -/
theorem stream_delivered {chunks : List Bytes} (hm : Matched w r)
    (h : writeRun cr w messages = some (records, w')) (happ : AppData messages)
    (hwhole : chunks.flatten = records.flatten) :
    clientRun cr ⟨r, none⟩ chunks = some (messages.map Message.payload).flatten := by
  have hfront : [] ++ chunks.flatten <+: records.flatten := by
    rw [List.nil_append, hwhole]
  obtain ⟨k, last, hall, hcut, hclient⟩ :=
    clientRun_records [] none hm h happ rfl (.inl rfl) hfront
  have hlast : (records.drop k).flatten = last := by
    rw [List.nil_append, hwhole, ← List.take_append_drop k records, List.flatten_append,
      List.take_append_drop] at hall
    exact List.append_cancel_left hall
  have hdone : records.drop k = [] := by
    cases hrest : records.drop k with
    | nil => rfl
    | cons record rest =>
      -- a record that is left would be longer than the part of it that has come in
      have hheader : 5 ≤ record.length :=
        writeRun_headers h record (List.mem_of_mem_drop (hrest ▸ List.mem_cons_self))
      have hlen := congrArg List.length hlast
      rw [hrest, List.flatten_cons, List.length_append] at hlen
      obtain rfl | ⟨x, hx, -, hshort⟩ := hcut
      · rw [List.length_nil] at hlen
        omega
      · rw [hrest] at hx
        obtain rfl : record = x := Option.some.inj hx
        omega
  have hk : messages.length ≤ k := by
    rw [writeRun_length h]
    exact List.drop_eq_nil_iff.mp hdone
  rw [hclient, List.take_of_length_le hk]

theorem stream_delivered_sample : ∃ records w',
    writeRun sampleCrypto sampleWriter sampleMessages = some (records, w') ∧
    clientRun sampleCrypto ⟨sampleReader, none⟩ (records.flatten.map fun x => [x]) =
      some [1, 2, 3, 4, 5] := by
  obtain ⟨records, w', hrun⟩ := sample_writeRun
  have hwhole : (records.flatten.map fun x => [x]).flatten = records.flatten := by
    rw [← List.flatMap_def, List.flatMap_singleton']
  exact ⟨records, w', hrun,
    stream_delivered sample_matched hrun (by unfold AppData; decide) hwhole⟩

end Delivery

section Des
variable {cr : Crypto} {w w' v v' rl : RecordLayer} {messages messages' : List Message}
variable {records records' : List Bytes} {suite : ℕ}

/-- Two record layers that write with DES, and differ in nothing that their ciphers read. -/
structure DesAlike (w v : RecordLayer) : Prop where
  left : w.writeCipherSuite ≠ tlsNullWithNullNull
  right : v.writeCipherSuite ≠ tlsNullWithNullNull
  version : w.tlsVersion = v.tlsVersion
  ivSize : w.ivSize = v.ivSize
  hashAlg : w.hashAlg = v.hashAlg
  cipher : ∃ key cbc x y, w.writeCbc = some (.des key cbc x) ∧ v.writeCbc = some (.des key cbc y)

/-- A text of the same length gives the same octets. -/
theorem des_encrypt_alike {key : BlockCipher 8} {cbc x y plain plain' crypt crypt' : Bytes}
    {c c' : CryptoCipher} (hlen : plain.length = plain'.length)
    (h : (CryptoCipher.des key cbc x).encrypt plain = some (crypt, c))
    (h' : (CryptoCipher.des key cbc y).encrypt plain' = some (crypt', c')) :
    crypt = crypt' ∧ ∃ next x' y', c = .des key next x' ∧ c' = .des key next y' := by
  obtain ⟨hout, hcbc⟩ := desEncrypt_eq key (plain.length / 8) cbc x y plain plain'
  simp only [CryptoCipher.encrypt, Option.ite_none_left_eq_some] at h h'
  obtain ⟨-, h⟩ := h
  obtain ⟨-, h'⟩ := h'
  rw [← hlen] at h'
  cases h
  cases h'
  refine ⟨hout, _, _, (desEncrypt key (plain.length / 8) cbc y plain').2.2, rfl, ?_⟩
  rw [hcbc]

theorem protect_alike {ct : UInt8} {room room' : ℕ} {iv iv' payload payload' body body' : Bytes}
    {c c' : CryptoCipher} (hw : DesAlike w v) (hiv : iv.length = iv'.length)
    (hlen : payload.length = payload'.length) (h : protect cr w ct room iv payload = some (body, c))
    (h' : protect cr v ct room' iv' payload' = some (body', c')) :
    body = body' ∧ ∃ key next x y, c = .des key next x ∧ c' = .des key next y := by
  obtain ⟨key, cbc, x, y, hwc, hvc⟩ := hw.cipher
  obtain ⟨mac, d, hmac, hd, henc⟩ := protect_cases h
  obtain ⟨mac', d', hmac', hd', henc'⟩ := protect_cases h'
  obtain rfl := Option.some.inj (hd.symm.trans hwc)
  obtain rfl := Option.some.inj (hd'.symm.trans hvc)
  have hmaclen : mac.length = mac'.length := by
    rw [cr.length_hash _ _ _ _ hmac, cr.length_hash _ _ _ _ hmac', hw.hashAlg]
  have hlong : (iv ++ payload ++ mac).length = (iv' ++ payload' ++ mac').length := by
    simp only [List.length_append, hiv, hlen, hmaclen]
  have hplain : (iv ++ (payload ++ mac) ++
        if w.ivSize ≠ 0 then padding w.ivSize (iv ++ payload ++ mac).length else []).length =
      (iv' ++ (payload' ++ mac') ++
        if v.ivSize ≠ 0 then padding v.ivSize (iv' ++ payload' ++ mac').length else []).length := by
    rw [← hw.ivSize, ← hlong]
    simp only [List.length_append, hiv, hlen, hmaclen]
  -- the texts differ, but only their lengths go into what is sent
  obtain ⟨hbody, next, x', y', hc, hc'⟩ := des_encrypt_alike hplain henc henc'
  exact ⟨hbody, key, next, x', y', hc, hc'⟩

/-- One record each: the same octets, and the two layers stay alike. -/
theorem send_alike {m m' : Message} {record record' : Bytes} (hw : DesAlike w v)
    (htype : m.contentType = m'.contentType) (hlen : m.payload.length = m'.payload.length)
    (h : m.send cr w = some (record, w')) (h' : m'.send cr v = some (record', v')) :
    record = record' ∧ DesAlike w' v' := by
  obtain ⟨body, rfl, ⟨hnull, -⟩ | ⟨-, iv, c, hiv, hprotect, rfl⟩⟩ := send_cases h
  · exact absurd hnull hw.left
  obtain ⟨body', rfl, ⟨hnull, -⟩ | ⟨-, iv', c', hiv', hprotect', rfl⟩⟩ := send_cases h'
  · exact absurd hnull hw.right
  rw [hw.ivSize, hw.version] at hiv
  rw [← htype] at hprotect'
  obtain ⟨rfl, key, next, x, y, rfl, rfl⟩ :=
    protect_alike hw (hiv.trans hiv'.symm) hlen hprotect hprotect'
  refine ⟨by rw [hw.version, htype], ?_⟩
  exact ⟨hw.left, hw.right, hw.version, hw.ivSize, hw.hashAlg, key, next, x, y, rfl, rfl⟩

theorem writeRun_alike (hw : DesAlike w v)
    (hlen : messages.map (fun m => (m.contentType, m.payload.length)) =
      messages'.map fun m => (m.contentType, m.payload.length))
    (h : writeRun cr w messages = some (records, w'))
    (h' : writeRun cr v messages' = some (records', v')) : records = records' := by
  induction messages generalizing w v messages' records records' with
  | nil =>
    obtain rfl : messages' = [] := List.map_eq_nil_iff.mp hlen.symm
    cases h
    cases h'
    rfl
  | cons m messages ih =>
    cases messages' with
    | nil => cases hlen
    | cons m' messages' =>
      obtain ⟨hhead, htail⟩ := List.cons.inj hlen
      obtain ⟨record, w₁, rest, hone, hrest, rfl⟩ := writeRun_cons.mp h
      obtain ⟨record', v₁, rest', hone', hrest', rfl⟩ := writeRun_cons.mp h'
      obtain ⟨rfl, hnext⟩ :=
        send_alike hw (congrArg Prod.fst hhead) (congrArg Prod.snd hhead) hone hone'
      rw [ih hnext htail hrest hrest']

/-- A suite of DES that is in use writes with DES. -/
theorem desAlike_of_change (hdes : DesSuite suite)
    (hset : tlsv1RecordSetCipherSuite rl suite = (v, true))
    (hchange : tlsv1RecordChangeWriteCipher cr v = (w, true)) : DesAlike w w := by
  obtain ⟨alg, hsize, rfl⟩ : ∃ alg size, v = { rl with
      cipherSuite := suite
      hashAlg := alg
      hashSize := size
      keyMaterialLen := 8
      ivSize := 8
      cipherAlg := .des } := by
    obtain rfl | rfl | rfl := hdes <;> exact ⟨_, _, (congrArg Prod.fst hset).symm⟩
  have hnull : suite ≠ tlsNullWithNullNull := by
    obtain rfl | rfl | rfl := hdes <;> decide
  cases hchange
  exact ⟨hnull, hnull, rfl, rfl, rfl, _, _, _, _, rfl, rfl⟩

/-- Under a suite of DES what is sent does not depend on the payloads: two runs of records of the
same types and lengths are the same octets, so that no reader can tell the one from the other. -/
theorem des_records (hdes : DesSuite suite)
    (hset : tlsv1RecordSetCipherSuite rl suite = (v, true))
    (hchange : tlsv1RecordChangeWriteCipher cr v = (w, true))
    (hlen : messages.map (fun m => (m.contentType, m.payload.length)) =
      messages'.map fun m => (m.contentType, m.payload.length))
    (h : writeRun cr w messages = some (records, w'))
    (h' : writeRun cr w messages' = some (records', v')) : records = records' :=
  writeRun_alike (desAlike_of_change hdes hset hchange) hlen h h'

def desMessages (x : UInt8) : List Message := [{ payload := [x, 2, 3], random := zeros 8 }]

theorem des_records_sample : ∃ w records w' v',
    tlsv1RecordChangeWriteCipher sampleCrypto (tlsv1RecordSetCipherSuite sampleLayer 0x0009).1 =
      (w, true) ∧
    writeRun sampleCrypto w (desMessages 1) = some (records, w') ∧
    writeRun sampleCrypto w (desMessages 7) = some (records, v') := by
  let rl := (tlsv1RecordSetCipherSuite sampleLayer 0x0009).1
  let w := (tlsv1RecordChangeWriteCipher sampleCrypto rl).1
  have hset : tlsv1RecordSetCipherSuite sampleLayer 0x0009 = (rl, true) := rfl
  have hchange : tlsv1RecordChangeWriteCipher sampleCrypto rl = (w, true) := rfl
  have hdes : DesSuite 0x0009 := .inl rfl
  have hlen : (desMessages 1).map (fun m => (m.contentType, m.payload.length)) =
      (desMessages 7).map fun m => (m.contentType, m.payload.length) := rfl
  have hleft : (writeRun sampleCrypto w (desMessages 1)).isSome := by decide +kernel
  have hright : (writeRun sampleCrypto w (desMessages 7)).isSome := by decide +kernel
  obtain ⟨⟨records, w'⟩, hrun⟩ := Option.isSome_iff_exists.mp hleft
  obtain ⟨⟨records', v'⟩, hrun'⟩ := Option.isSome_iff_exists.mp hright
  have heq : records = records' := des_records hdes hset hchange hlen hrun hrun'
  exact ⟨w, records, w', v', hchange, hrun, heq ▸ hrun'⟩

end Des

end Wpa.Record
