import Wpa.Lib.Wpabuf
import Wpa.Sim.Attributes

/-! Building EAP-SIM messages: `eap_sim_msg_add` and its kin, and the encrypted block. A call that
reports failure gives `none`. -/

namespace Wpa.Sim
open Lib Bytes

def simInitLen : ℕ := 128
def simHdrLen : ℕ := 8

/-- `struct eap_sim_msg`. -/
structure SimMsg where
  buf : Wpabuf
  iv : ℕ
  encr : ℕ

/-- AES-128-CBC with key, initialisation vector and data. -/
structure Cbc where
  encrypt : Bytes → Bytes → Bytes → Option Bytes
  decrypt : Bytes → Bytes → Bytes → Option Bytes

structure Cbc.Invertible (cbc : Cbc) : Prop where
  length_eq {key iv plain cipher : Bytes} (h : cbc.encrypt key iv plain = some cipher) :
    cipher.length = plain.length
  decrypt_eq {key iv plain cipher : Bytes} (h : cbc.encrypt key iv plain = some cipher) :
    cbc.decrypt key iv cipher = some plain

/-- What the calls meet: whether there is memory for a buffer of the size, and the random octets. -/
structure SimEnv where
  memory : ℕ → Bool
  random : Option { iv : Bytes // iv.length = ivLen }

def wpabufResize (memory : ℕ → Bool) (buf : Wpabuf) (n : ℕ) : Option Wpabuf :=
  if n ≤ buf.tailroom ∨ memory (buf.data.length + n) then some (buf.resize n) else none

def eapSimMsgInit (env : SimEnv) (code id type subtype : UInt8) : Option SimMsg := do
  if !env.memory simInitLen then none
  else
    let buf : Wpabuf := ⟨simInitLen, [], Nat.zero_le _⟩
    -- the length stays zero until `eap_sim_msg_finish`
    let buf ← buf.put [code, id, 0, 0]
    let buf ← buf.put [type, subtype, 0, 0]
    return ⟨buf, 0, 0⟩

/-- The message with the attribute behind it, and where the attribute starts. -/
def eapSimMsgAddFull (env : SimEnv) (msg : SimMsg) (attr : UInt8) (data : Bytes) :
    Option (SimMsg × ℕ) := do
  let attrLen := 2 + data.length
  let padLen := (4 - attrLen % 4) % 4
  let attrLen := attrLen + padLen
  let buf ← wpabufResize env.memory msg.buf attrLen
  let start := buf.data.length
  let buf ← buf.put [attr]
  let buf ← buf.putU8 (attrLen / 4)
  let buf ← buf.put data
  let buf ← buf.put (zeros padLen)
  return ({ msg with buf }, start)

/-- Where the source passes a null `data`, `data` holds the octets that the space is given next. -/
def eapSimMsgAdd (env : SimEnv) (msg : SimMsg) (attr : UInt8) (value : ℕ) (data : Bytes) :
    Option (SimMsg × ℕ) := do
  let attrLen := 4 + data.length
  let padLen := (4 - attrLen % 4) % 4
  let attrLen := attrLen + padLen
  let buf ← wpabufResize env.memory msg.buf attrLen
  let start := buf.data.length
  let buf ← buf.put [attr]
  let buf ← buf.putU8 (attrLen / 4)
  let buf ← buf.put (ofBeNat value 2)
  let buf ← buf.put data
  let buf ← buf.put (zeros padLen)
  return ({ msg with buf }, start)

def eapSimMsgAddEncrStart (env : SimEnv) (msg : SimMsg) (attrIv attrEncr : UInt8) :
    Option SimMsg := do
  let (msg, pos) ← eapSimMsgAdd env msg attrIv 0 (zeros ivLen)
  let iv := pos + 4
  let random ← env.random
  let buf ← msg.buf.overwrite iv random.1
  let (msg, pos) ← eapSimMsgAdd env { msg with buf } attrEncr 0 []
  return { msg with iv := iv, encr := pos }

/-- Pad the block to the cipher's block size. -/
def padBlock (env : SimEnv) (msg : SimMsg) (encrLen : ℕ) (attrPad : UInt8) : Option (SimMsg × ℕ) :=
  if encrLen % 16 ≠ 0 then do
    let padLen := 16 - encrLen % 16
    if padLen < 4 then none
    else
      let (msg, _) ← eapSimMsgAdd env msg attrPad 0 (zeros (padLen - 4))
      return (msg, encrLen + padLen)
  else some (msg, encrLen)

def eapSimMsgAddEncrEnd (env : SimEnv) (cbc : Cbc) (msg : SimMsg) (kEncr : Option Bytes)
    (attrPad : UInt8) : Option SimMsg := do
  let key ← kEncr
  if msg.iv = 0 ∨ msg.encr = 0 then none
  else
    let (msg, encrLen) ← padBlock env msg (msg.buf.data.length - msg.encr - 4) attrPad
    let buf ← msg.buf.overwrite (msg.encr + 1) [UInt8.ofNat (encrLen / 4 + 1)]
    let cipher ← cbc.encrypt key (buf.data.slice msg.iv ivLen) (buf.data.slice (msg.encr + 4) encrLen)
    let buf ← buf.overwrite (msg.encr + 4) cipher
    return { msg with buf }

/-- The decrypted octets and what was found in them. -/
def eapSimParseEncr (cbc : Cbc) (kEncr encrData : Bytes) (iv : Option Bytes) (aka : ℕ) :
    Option (Bytes × SimAttrs) := do
  let iv ← iv
  let decrypted ← cbc.decrypt kEncr iv encrData
  match eapSimParseAttr decrypted aka true with
  | some (true, attr) => return (decrypted, attr)
  | _ => none

/-- One call that adds an attribute. -/
inductive SimCall where
  | addFull (attr : UInt8) (data : Bytes)
  | add (attr : UInt8) (value : ℕ) (data : Bytes)

namespace SimCall

def run (env : SimEnv) (msg : SimMsg) : SimCall → Option SimMsg
  | addFull attr data => (eapSimMsgAddFull env msg attr data).map (·.1)
  | add attr value data => (eapSimMsgAdd env msg attr value data).map (·.1)

def attr : SimCall → UInt8
  | addFull attr _ => attr
  | add attr _ _ => attr

def kind (call : SimCall) : SimAt := simAt call.attr.toNat

/-- What stands behind type and length, without the padding. -/
def content : SimCall → Bytes
  | addFull _ data => data
  | add _ value data => ofBeNat value 2 ++ data

/-- The length of the attribute with its padding. -/
def attrLen (call : SimCall) : ℕ := (2 + call.content.length + 3) / 4 * 4

def encode (call : SimCall) : Bytes :=
  [call.attr, UInt8.ofNat (call.attrLen / 4)] ++ call.content ++
    zeros (call.attrLen - 2 - call.content.length)

end SimCall

def runCalls (env : SimEnv) (msg : SimMsg) (calls : List SimCall) : Option SimMsg :=
  calls.foldlM (SimCall.run env) msg

def atIv : UInt8 := 129
def atEncrData : UInt8 := 130
def atPadding : UInt8 := 6

/-- A message as its sender builds it: attributes, at most one encrypted block, attributes. -/
structure SimScript where
  before : List SimCall
  block : Option (List SimCall)
  after : List SimCall

/-- The encrypted block, if there is one: opened, filled and closed. -/
def runBlock (env : SimEnv) (cbc : Cbc) (key : Bytes) (msg : SimMsg) :
    Option (List SimCall) → Option SimMsg
  | none => some msg
  | some inner => do
    let msg ← eapSimMsgAddEncrStart env msg atIv atEncrData
    let msg ← runCalls env msg inner
    eapSimMsgAddEncrEnd env cbc msg (some key) atPadding

/-- Every call reports success. -/
def SimScript.build (env : SimEnv) (cbc : Cbc) (key : Bytes) (msg : SimMsg) (script : SimScript) :
    Option SimMsg := do
  let msg ← runCalls env msg script.before
  let msg ← runBlock env cbc key msg script.block
  runCalls env msg script.after

def encodeCalls (calls : List SimCall) : Bytes := calls.flatMap SimCall.encode

section Built
variable {env : SimEnv} {msg msg' : SimMsg} {start : ℕ}

theorem wpabufResize_data {memory : ℕ → Bool} {buf buf' : Wpabuf} {n : ℕ}
    (h : wpabufResize memory buf n = some buf') : buf'.data = buf.data := by
  unfold wpabufResize at h
  split at h
  · cases h
    exact Wpabuf.resize_data buf n
  · cases h

theorem eapSimMsgInit_length {code id type subtype : UInt8}
    (h : eapSimMsgInit env code id type subtype = some msg) : msg.buf.data.length = simHdrLen := by
  unfold eapSimMsgInit at h
  split at h
  · cases h
  · simp only [Option.bind_eq_bind, Option.bind_eq_some_iff, Option.pure_def,
      Option.some.injEq] at h
    obtain ⟨buf, hbuf, buf', hbuf', rfl⟩ := h
    rw [Wpabuf.put_data hbuf', Wpabuf.put_data hbuf]
    rfl

/-- An added attribute stands behind what was there. -/
theorem eapSimMsgAddFull_data {attr : UInt8} {data : Bytes}
    (h : eapSimMsgAddFull env msg attr data = some (msg', start)) :
    start = msg.buf.data.length ∧ msg'.iv = msg.iv ∧ msg'.encr = msg.encr ∧
      msg'.buf.data = msg.buf.data ++ (SimCall.addFull attr data).encode := by
  unfold eapSimMsgAddFull at h
  simp only [Option.bind_eq_bind, Option.bind_eq_some_iff, Option.pure_def, Option.some.injEq,
    Prod.mk.injEq] at h
  obtain ⟨b₀, h₀, b₁, h₁, b₂, h₂, b₃, h₃, b₄, h₄, rfl, rfl⟩ := h
  have hlen : 2 + data.length + (4 - (2 + data.length) % 4) % 4 =
      (SimCall.addFull attr data).attrLen := by
    simp only [SimCall.attrLen, SimCall.content]
    omega
  have hpad : (4 - (2 + data.length) % 4) % 4 =
      (SimCall.addFull attr data).attrLen - 2 - data.length := by omega
  refine ⟨by rw [wpabufResize_data h₀], rfl, rfl, ?_⟩
  rw [hlen] at h₂
  rw [hpad] at h₄
  rw [Wpabuf.put_data h₄, Wpabuf.put_data h₃, Wpabuf.put_data h₂, Wpabuf.put_data h₁,
    wpabufResize_data h₀]
  simp only [SimCall.encode, SimCall.attr, SimCall.content, List.append_assoc, List.cons_append,
    List.nil_append]

/-- Both ways to add an attribute write the same octets. -/
theorem eapSimMsgAdd_eq (attr : UInt8) (value : ℕ) (data : Bytes) :
    eapSimMsgAdd env msg attr value data =
      eapSimMsgAddFull env msg attr (ofBeNat value 2 ++ data) := by
  have hlen : 2 + (ofBeNat value 2 ++ data).length = 4 + data.length := by
    rw [List.length_append, ofBeNat_length]
    omega
  unfold eapSimMsgAdd eapSimMsgAddFull
  simp only [hlen, Option.bind_eq_bind, Wpabuf.put_bind_put, List.append_assoc]

theorem eapSimMsgAdd_data {attr : UInt8} {value : ℕ} {data : Bytes}
    (h : eapSimMsgAdd env msg attr value data = some (msg', start)) :
    start = msg.buf.data.length ∧ msg'.iv = msg.iv ∧ msg'.encr = msg.encr ∧
      msg'.buf.data = msg.buf.data ++ (SimCall.add attr value data).encode := by
  rw [eapSimMsgAdd_eq] at h
  exact eapSimMsgAddFull_data h

theorem SimCall.run_data {call : SimCall} (h : call.run env msg = some msg') :
    msg'.iv = msg.iv ∧ msg'.encr = msg.encr ∧
      msg'.buf.data = msg.buf.data ++ call.encode := by
  cases call with
  | addFull attr data =>
    obtain ⟨⟨added, start⟩, hadd, rfl⟩ := Option.map_eq_some_iff.mp h
    exact (eapSimMsgAddFull_data hadd).2
  | add attr value data =>
    obtain ⟨⟨added, start⟩, hadd, rfl⟩ := Option.map_eq_some_iff.mp h
    exact (eapSimMsgAdd_data hadd).2

theorem SimCall.four_dvd_attrLen (call : SimCall) : 4 ∣ call.attrLen :=
  Nat.dvd_mul_left _ _

@[simp] theorem SimCall.encode_length (call : SimCall) : call.encode.length = call.attrLen := by
  simp only [encode, attrLen, List.length_append, List.length_cons, List.length_nil, zeros_length]
  omega

@[simp] theorem encodeCalls_nil : encodeCalls [] = [] := rfl

theorem encodeCalls_cons (call : SimCall) (calls : List SimCall) :
    encodeCalls (call :: calls) = call.encode ++ encodeCalls calls := rfl

theorem four_dvd_encodeCalls (calls : List SimCall) : 4 ∣ (encodeCalls calls).length := by
  induction calls with
  | nil => exact dvd_zero 4
  | cons call calls ih =>
    rw [encodeCalls_cons, List.length_append, SimCall.encode_length]
    exact dvd_add call.four_dvd_attrLen ih

theorem encodeCalls_append (calls calls' : List SimCall) :
    encodeCalls (calls ++ calls') = encodeCalls calls ++ encodeCalls calls' :=
  List.flatMap_append

theorem runCalls_data {calls : List SimCall} (h : runCalls env msg calls = some msg') :
    msg'.iv = msg.iv ∧ msg'.encr = msg.encr ∧
      msg'.buf.data = msg.buf.data ++ encodeCalls calls := by
  induction calls generalizing msg with
  | nil =>
    cases h
    exact ⟨rfl, rfl, (List.append_nil _).symm⟩
  | cons call calls ih =>
    rw [runCalls, List.foldlM_cons] at h
    obtain ⟨between, hcall, hcalls⟩ := Option.bind_eq_some_iff.mp h
    obtain ⟨hiv, hencr, hdata⟩ := SimCall.run_data hcall
    obtain ⟨hiv', hencr', hdata'⟩ := ih hcalls
    refine ⟨hiv'.trans hiv, hencr'.trans hencr, ?_⟩
    rw [hdata', hdata, List.append_assoc]
    rfl

/-- The padding attribute of a block, if it needs one. -/
def padding (encrLen : ℕ) : List SimCall :=
  if encrLen % 16 ≠ 0 then [.add atPadding 0 (zeros (16 - encrLen % 16 - 4))] else []

/-- The attributes of a block with its padding. -/
def padded (inner : List SimCall) : List SimCall := inner ++ padding (encodeCalls inner).length

theorem padBlock_data {encrLen encrLen' : ℕ} (hwords : 4 ∣ encrLen)
    (h : padBlock env msg encrLen atPadding = some (msg', encrLen')) :
    msg'.iv = msg.iv ∧ msg'.encr = msg.encr ∧ 16 ∣ encrLen' ∧
      encrLen' = encrLen + (encodeCalls (padding encrLen)).length ∧
      msg'.buf.data = msg.buf.data ++ encodeCalls (padding encrLen) := by
  unfold padBlock at h
  unfold padding
  split at h
  · rename_i hrest
    simp only [Option.bind_eq_bind, Option.pure_def] at h
    split at h
    · cases h
    · rename_i hroom
      obtain ⟨⟨added, start⟩, hadd, heq⟩ := Option.bind_eq_some_iff.mp h
      cases heq
      obtain ⟨-, hiv, hencr, hdata⟩ := eapSimMsgAdd_data hadd
      rw [if_pos hrest]
      have hsingle (call : SimCall) : encodeCalls [call] = call.encode := by
        simp [encodeCalls]
      refine ⟨hiv, hencr, by omega, ?_, by rw [hsingle, hdata]⟩
      rw [hsingle, SimCall.encode_length]
      simp only [SimCall.attrLen, SimCall.content, List.length_append, zeros_length, ofBeNat_length]
      omega
  · rename_i hrest
    cases h
    rw [if_neg hrest]
    exact ⟨rfl, rfl, by omega, rfl, (List.append_nil _).symm⟩

/-- No padding stands behind whole words. -/
theorem SimCall.encode_add_of_dvd (attr : UInt8) {data : Bytes} (hwords : 4 ∣ data.length) :
    (SimCall.add attr 0 data).encode =
      [attr, UInt8.ofNat (data.length / 4 + 1), 0, 0] ++ data := by
  have hlen : (SimCall.add attr 0 data).attrLen = data.length + 4 := by
    simp only [attrLen, content, List.length_append, ofBeNat_length]
    omega
  have hunits : (data.length + 4) / 4 = data.length / 4 + 1 := by omega
  have hpad : data.length + 4 - 2 - (SimCall.add attr 0 data).content.length = 0 := by
    simp only [content, List.length_append, ofBeNat_length]
    omega
  rw [encode, hlen, hunits, hpad]
  simp [content, SimCall.attr, zeros, ofBeNat]

theorem eapSimMsgAddEncrStart_data
    (h : eapSimMsgAddEncrStart env msg atIv atEncrData = some msg') :
    ∃ random, env.random = some random ∧ msg'.iv = msg.buf.data.length + 4 ∧
      msg'.encr = msg.buf.data.length + 20 ∧
      msg'.buf.data =
        msg.buf.data ++ (SimCall.add atIv 0 random.1).encode ++ [atEncrData, 1, 0, 0] := by
  unfold eapSimMsgAddEncrStart at h
  simp only [Option.bind_eq_bind, Option.bind_eq_some_iff, Option.pure_def, Option.some.injEq] at h
  obtain ⟨⟨withIv, pos⟩, hiv, random, hrandom, buf, hbuf, ⟨withEncr, pos'⟩, hencr, rfl⟩ := h
  obtain ⟨rfl, -, -, hdata⟩ := eapSimMsgAdd_data hiv
  obtain ⟨rfl, -, -, hdata'⟩ := eapSimMsgAdd_data hencr
  have hlen : random.1.length = 16 := random.2
  have hblank : (SimCall.add atIv 0 (zeros ivLen)).encode = [atIv, 5, 0, 0] ++ zeros 16 := by
    decide
  have hfilled : (SimCall.add atIv 0 random.1).encode = [atIv, 5, 0, 0] ++ random.1 := by
    rw [SimCall.encode_add_of_dvd atIv (by rw [hlen]; decide), hlen]
    rfl
  have hwritten : buf.data = msg.buf.data ++ (SimCall.add atIv 0 random.1).encode := by
    have hfront : msg.buf.data.length + 4 = (msg.buf.data ++ [atIv, 5, 0, 0]).length := by simp
    rw [Wpabuf.overwrite_data hbuf, hdata, hblank, hfilled, ← List.append_assoc, hfront,
      writeAt_fill _ _ (by rw [hlen, zeros_length]), hlen]
    simp [zeros]
  refine ⟨random, hrandom, rfl, ?_, ?_⟩
  · rw [hwritten, List.length_append, hfilled, List.length_append, random.2]
    rfl
  · rw [hdata', hwritten]
    rfl

/-- A closed block is the attribute of its cipher text, behind the vector it was encrypted with. -/
theorem eapSimMsgAddEncrEnd_data {cbc : Cbc} {key iv pre : Bytes} {inner : List SimCall}
    (hinv : cbc.Invertible) (hlen : iv.length = 16) (hiv : msg.iv = pre.length + 4)
    (hencr : msg.encr = pre.length + 20)
    (hdata : msg.buf.data =
      pre ++ (SimCall.add atIv 0 iv).encode ++ [atEncrData, 1, 0, 0] ++ encodeCalls inner)
    (h : eapSimMsgAddEncrEnd env cbc msg (some key) atPadding = some msg') :
    ∃ cipher, cbc.encrypt key iv (encodeCalls (padded inner)) = some cipher ∧
      msg'.buf.data =
        pre ++ encodeCalls [SimCall.add atIv 0 iv, SimCall.add atEncrData 0 cipher] := by
  have hivenc : (SimCall.add atIv 0 iv).encode = [atIv, 5, 0, 0] ++ iv := by
    rw [SimCall.encode_add_of_dvd atIv (by rw [hlen]; decide), hlen]
    rfl
  have hfront : (pre ++ (SimCall.add atIv 0 iv).encode).length = pre.length + 20 := by
    rw [hivenc, List.length_append, List.length_append, hlen]
    rfl
  have hopen : msg.buf.data.length - msg.encr - 4 = (encodeCalls inner).length := by
    rw [hdata, hencr, List.length_append, List.length_append, hfront, List.length_cons,
      List.length_cons, List.length_cons, List.length_cons, List.length_nil]
    omega
  unfold eapSimMsgAddEncrEnd at h
  simp only [Option.bind_eq_bind, Option.bind_some, Option.pure_def] at h
  split at h
  · cases h
  rw [hopen] at h
  simp only [Option.bind_eq_some_iff, Option.some.injEq] at h
  obtain ⟨⟨withPad, encrLen⟩, hpad, buf, hbuf, cipher, hcipher, buf', hbuf', rfl⟩ := h
  obtain ⟨hiv', hencr', hblock, hlenPad, hdataPad⟩ :=
    padBlock_data (four_dvd_encodeCalls inner) hpad
  have hencrLen : encrLen = (encodeCalls (padded inner)).length := by
    rw [hlenPad, padded, encodeCalls_append, List.length_append]
  generalize hplain : encodeCalls (padded inner) = plain at *
  -- the length octet
  have hsized : buf.data = (pre ++ (SimCall.add atIv 0 iv).encode) ++
      ([atEncrData, UInt8.ofNat (encrLen / 4 + 1), 0, 0] ++ plain) := by
    have hwhole : withPad.buf.data = (pre ++ (SimCall.add atIv 0 iv).encode) ++
        ([atEncrData, 1, 0, 0] ++ plain) := by
      rw [hdataPad, hdata, ← hplain, padded, encodeCalls_append]
      simp only [List.append_assoc]
    have hat : withPad.encr + 1 = (pre ++ (SimCall.add atIv 0 iv).encode).length + 1 := by
      rw [hencr', hencr, hfront]
    rw [Wpabuf.overwrite_data hbuf, hwhole]
    simp only [hat]
    rw [writeAt_append_right _ _ _ (by simp), writeAt_append_left _ (by simp)]
    rfl
  have hvector : buf.data.slice withPad.iv ivLen = iv := by
    rw [hsized, hiv', hiv, hivenc, slice_append_left _ _ (by simp [hlen, ivLen]),
      slice_append_right _ _ (by omega), Nat.add_sub_cancel_left]
    show (iv.take 16) = iv
    exact List.take_of_length_le hlen.le
  have hslice : buf.data.slice (withPad.encr + 4) encrLen = plain := by
    rw [hsized, hencr', hencr, slice_append_right _ _ (by rw [hfront]; omega), hfront,
      show pre.length + 20 + 4 - (pre.length + 20) = 4 by omega,
      slice_append_right _ _ (Nat.le_refl 4)]
    show plain.take encrLen = plain
    exact List.take_of_length_le hencrLen.ge
  rw [hvector, hslice] at hcipher
  have hcipherLen := hinv.length_eq hcipher
  refine ⟨cipher, hcipher, ?_⟩
  -- the cipher text takes the place of the block
  have hplace : withPad.encr + 4 =
      (pre ++ (SimCall.add atIv 0 iv).encode ++
        [atEncrData, UInt8.ofNat (encrLen / 4 + 1), 0, 0]).length := by
    rw [hencr', hencr, List.length_append, hfront]
    rfl
  rw [Wpabuf.overwrite_data hbuf', hsized, hplace, ← List.append_assoc,
    writeAt_fill _ _ hcipherLen.le, hcipherLen, List.drop_length, List.append_nil]
  have hwords : 4 ∣ cipher.length := by
    rw [hcipherLen, ← hencrLen]
    omega
  have hencoded := SimCall.encode_add_of_dvd atEncrData hwords
  rw [encodeCalls_cons, encodeCalls_cons, encodeCalls_nil, List.append_nil, hencoded, hcipherLen, ← hencrLen]
  simp only [List.append_assoc]

/-- The attributes that the message of a script consists of. -/
inductive SimScript.Builds (env : SimEnv) (cbc : Cbc) (key : Bytes) (script : SimScript) :
    List SimCall → Prop where
  | plain (h : script.block = none) : Builds env cbc key script (script.before ++ script.after)
  | encrypted (inner : List SimCall) (random : { iv : Bytes // iv.length = ivLen })
      (cipher : Bytes) (hblock : script.block = some inner) (hrandom : env.random = some random)
      (hcipher : cbc.encrypt key random.1 (encodeCalls (padded inner)) = some cipher) :
      Builds env cbc key script (script.before ++
        [.add atIv 0 random.1, .add atEncrData 0 cipher] ++ script.after)

theorem SimScript.build_data {cbc : Cbc} {key : Bytes} {script : SimScript}
    (hinv : cbc.Invertible) (h : script.build env cbc key msg = some msg') :
    ∃ calls, script.Builds env cbc key calls ∧
      msg'.buf.data = msg.buf.data ++ encodeCalls calls := by
  unfold SimScript.build at h
  simp only [Option.bind_eq_bind, Option.bind_eq_some_iff] at h
  obtain ⟨msg₁, hbefore, msg₂, hblock, hafter⟩ := h
  obtain ⟨-, -, hdata₁⟩ := runCalls_data hbefore
  obtain ⟨-, -, hdata₃⟩ := runCalls_data hafter
  cases hscript : script.block with
  | none =>
    rw [hscript] at hblock
    cases hblock
    refine ⟨_, .plain hscript, ?_⟩
    rw [hdata₃, hdata₁, encodeCalls_append, List.append_assoc]
  | some inner =>
    rw [hscript] at hblock
    simp only [runBlock, Option.bind_eq_bind, Option.bind_eq_some_iff] at hblock
    obtain ⟨opened, hstart, filled, hinner, hend⟩ := hblock
    obtain ⟨random, hrandom, hiv, hencr, hdataStart⟩ := eapSimMsgAddEncrStart_data hstart
    obtain ⟨hivFilled, hencrFilled, hdataFilled⟩ := runCalls_data hinner
    rw [hdataStart] at hdataFilled
    obtain ⟨cipher, hcipher, hdata₂⟩ := eapSimMsgAddEncrEnd_data hinv random.2
      (hivFilled.trans hiv) (hencrFilled.trans hencr) hdataFilled hend
    refine ⟨_, .encrypted inner random cipher hscript hrandom hcipher, ?_⟩
    rw [hdata₃, hdata₂, hdata₁, encodeCalls_append, encodeCalls_append]
    simp only [List.append_assoc]

end Built

end Wpa.Sim
