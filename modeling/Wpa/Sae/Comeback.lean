import Wpa.Common.Crypto
import Wpa.Lib.Runs

/-! Anti-clogging tokens: `auth_build_token_req` and `check_comeback_token` of `ap/ieee802_11.c`.
A token carries an index in its first two octets and an HMAC over the address and the index behind
it. Of each slot of a table of 256 at most one index is pending. -/

namespace Wpa.Comeback
open Lib Bytes

abbrev Addr := { b : Bytes // b.length = ethAlen }

structure Reltime where
  sec : ℕ
  usec : ℕ
  deriving DecidableEq

def Reltime.initialized (t : Reltime) : Bool := t.sec != 0 || t.usec != 0

/-- `os_reltime_expired`, with the unsigned subtraction of `os_reltime_sub`. -/
def Reltime.expired (now ts : Reltime) (timeoutSecs : ℕ) : Bool :=
  let borrow : ℤ := if now.usec < ts.usec then 1 else 0
  let sec : ℤ := ((now.sec : ℤ) - ts.sec - borrow) % 2 ^ 64
  decide (sec > timeoutSecs) || (decide (sec = timeoutSecs) && decide (now.usec ≠ ts.usec))

structure Hapd where
  comebackKey : Bytes
  lastComebackKeyUpdate : Reltime
  comebackIdx : ℕ
  comebackPendingIdx : UInt8 → ℕ

def Hapd.init : Hapd :=
  { comebackKey := zeros 8, lastComebackKeyUpdate := ⟨0, 0⟩, comebackIdx := 0,
    comebackPendingIdx := fun _ => 0 }

def sha256MacLen : ℕ := 32
def eidExtension : UInt8 := 255
def eidExtAntiCloggingToken : UInt8 := 93

/-- What happened, in order: keys that were drawn, tokens that were handed out (`fresh` if the
index was taken for it), and tokens that were presented. -/
inductive Entry where
  | rotated (old new : Bytes) (ok : Bool)
  | issued (key : Bytes) (addr : Addr) (idx : ℕ) (fresh : Bool) (token : Bytes)
  | checked (key : Bytes) (addr : Addr) (token : Bytes) (accepted : Bool)

/-- What `random_get_bytes` leaves in the buffer and whether it reports success. -/
structure Random where
  ok : Bool
  bytes : Bytes

structure TokenReq where
  now : Reltime
  random : Random
  group : ℕ
  addr : Addr
  h2e : Bool
  alloc : Bool
  hashOk : Bool
  macOk : Bool

structure TokenCheck where
  addr : Addr
  token : Bytes
  hashOk : Bool
  macOk : Bool

section Model
variable (cr : Crypto)

def hmac (ok : Bool) (key msg : Bytes) : Option Bytes :=
  if ok then cr.mac .hmacSha256 key msg else none

def comebackTokenHash (ok : Bool) (h : Hapd) (addr : Addr) : Option UInt8 :=
  (hmac cr ok h.comebackKey addr.1).map fun hash => hash.headD 0

/-- What the HMAC of a token is computed over. -/
def message (addr : Addr) (idx : Bytes) : Bytes := addr.1 ++ idx

def checkComebackToken (a : TokenCheck) (h : Hapd) : Hapd × Bool :=
  match comebackTokenHash cr a.hashOk h a.addr with
  | none => (h, false)
  | some idx =>
    let tokenIdx := h.comebackPendingIdx idx
    if a.token.length ≠ sha256MacLen then (h, false)
    else if tokenIdx = 0 ∨ tokenIdx ≠ a.token.be16 0 then (h, false)
    else
      match hmac cr a.macOk h.comebackKey (message a.addr (a.token.take 2)) with
      | none => (h, false)
      | some mac =>
        if a.token.drop 2 ≠ mac.drop 2 then (h, false)
        else
          ({ h with comebackPendingIdx := Function.update h.comebackPendingIdx idx 0 }, true)

def needsKey (now : Reltime) (h : Hapd) : Bool :=
  !h.lastComebackKeyUpdate.initialized || now.expired h.lastComebackKeyUpdate 60 ||
    h.comebackIdx == 0xffff

/-- A failed draw returns early, with whatever it left in the key. -/
def rotateKey (a : TokenReq) (h : Hapd) : Hapd :=
  if a.random.ok then
    { comebackKey := a.random.bytes, lastComebackKeyUpdate := a.now, comebackIdx := 0,
      comebackPendingIdx := fun _ => 0 }
  else { h with comebackKey := a.random.bytes }

/-- The index for a slot: the pending one, or the next one. -/
def takeIndex (slot : UInt8) (h : Hapd) : Hapd :=
  if h.comebackPendingIdx slot = 0 then
    let comebackIdx := (h.comebackIdx + 1) % 2 ^ 16
    { h with
      comebackIdx
      comebackPendingIdx := Function.update h.comebackPendingIdx slot comebackIdx }
  else h

/-- The part of `auth_build_token_req` behind the key update: the state, the buffer and what was
issued. -/
def putToken (a : TokenReq) (h : Hapd) : Hapd × Option Bytes × List Entry :=
  if !a.alloc then (h, none, [])
  else
    match comebackTokenHash cr a.hashOk h a.addr with
    | none => (h, none, [])
    | some slot =>
      let h' := takeIndex slot h
      let tokenIdx := h'.comebackPendingIdx slot
      match hmac cr a.macOk h'.comebackKey (message a.addr (ofBeNat tokenIdx 2)) with
      | none => (h', none, [])
      | some mac =>
        let token := ofBeNat tokenIdx 2 ++ mac.drop 2
        let group := if a.group = 0 then [] else (ofBeNat a.group 2).reverse
        let container :=
          if a.h2e then [eidExtension, UInt8.ofNat (1 + sha256MacLen), eidExtAntiCloggingToken]
          else []
        (h', some (group ++ container ++ token),
          [.issued h.comebackKey a.addr tokenIdx (h.comebackPendingIdx slot == 0) token])

def authBuildTokenReq (a : TokenReq) (h : Hapd) : Hapd × Option Bytes × List Entry :=
  if needsKey a.now h then
    let h' := rotateKey a h
    let log := [Entry.rotated h.comebackKey a.random.bytes a.random.ok]
    if a.random.ok then
      let r := putToken cr a h'
      (r.1, r.2.1, log ++ r.2.2)
    else (h', none, log)
  else putToken cr a h

inductive Call where
  | build (req : TokenReq)
  | check (args : TokenCheck)

def step (h : Hapd) : Call → Hapd × List Entry
  | .build a => ((authBuildTokenReq cr a h).1, (authBuildTokenReq cr a h).2.2)
  | .check a =>
    ((checkComebackToken cr a h).1,
      [.checked h.comebackKey a.addr a.token (checkComebackToken cr a h).2])

end Model

/-! What is asked of the keys and of HMAC, about the keys and messages of one run. -/

def Entry.key : Entry → Bytes
  | rotated _ new _ => new
  | issued key _ _ _ _ => key
  | checked key _ _ _ => key

/-- A drawn key was not in use before; a failed draw may leave the old one. -/
def FreshKeys (log : List Entry) : Prop :=
  ∀ q old new ok, q ++ [.rotated old new ok] <+: log →
    (ok = false ∧ new = old) ∨ ∀ e ∈ q, e.key ≠ new

/-- Who presents a tag for a message has seen one for it under that key. -/
def Unforgeable (cr : Crypto) (log : List Entry) : Prop :=
  ∀ q key addr token accepted mac, q ++ [.checked key addr token accepted] <+: log →
    cr.mac .hmacSha256 key (message addr (token.take 2)) = some mac →
    token.drop 2 = mac.drop 2 →
    ∃ addr' idx fresh token', Entry.issued key addr' idx fresh token' ∈ q ∧
      message addr' (ofBeNat idx 2) = message addr (token.take 2)

/-- No two messages that were tagged have the same tag. -/
def CollisionFree (cr : Crypto) (log : List Entry) : Prop :=
  ∀ key addr idx fresh token key' addr' idx' fresh' token',
    Entry.issued key addr idx fresh token ∈ log →
    Entry.issued key' addr' idx' fresh' token' ∈ log →
    (cr.mac .hmacSha256 key (message addr (ofBeNat idx 2))).map (List.drop 2) =
      (cr.mac .hmacSha256 key' (message addr' (ofBeNat idx' 2))).map (List.drop 2) →
    key = key' ∧ message addr (ofBeNat idx 2) = message addr' (ofBeNat idx' 2)

/-- The token, for an accepted one. -/
def Entry.acceptedToken : Entry → Option Bytes
  | checked _ _ token true => some token
  | _ => none

def Entry.acceptedIdx : Entry → Option (Bytes × ℕ)
  | checked key _ token true => some (key, token.be16 0)
  | _ => none

/-- The key and the index, for a token that took a new index. -/
def Entry.freshIdx : Entry → Option (Bytes × ℕ)
  | issued key _ idx true _ => some (key, idx)
  | _ => none

/-- An index that was accepted is pending nowhere and lies behind `comebackIdx`, as long as the
key is the same. -/
structure Inv (cr : Crypto) (log : List Entry) (h : Hapd) : Prop where
  idx_le : h.comebackIdx ≤ 0xffff
  pending_le : ∀ p, h.comebackPendingIdx p ≤ h.comebackIdx
  pending_inj : ∀ p q, h.comebackPendingIdx p ≠ 0 →
    h.comebackPendingIdx p = h.comebackPendingIdx q → p = q
  issued_le : ∀ addr idx fresh token,
    .issued h.comebackKey addr idx fresh token ∈ log → idx ≤ h.comebackIdx
  used : ∀ addr token, .checked h.comebackKey addr token true ∈ log →
    token.be16 0 ≠ 0 ∧ token.be16 0 ≤ h.comebackIdx ∧
      ∀ p, h.comebackPendingIdx p ≠ token.be16 0
  form : ∀ key addr idx fresh token, .issued key addr idx fresh token ∈ log →
    idx ≤ 0xffff ∧ ∃ mac, cr.mac .hmacSha256 key (message addr (ofBeNat idx 2)) = some mac ∧
      token = ofBeNat idx 2 ++ mac.drop 2
  origin : ∀ q key addr token, q ++ [.checked key addr token true] <+: log →
    ∃ idx fresh, .issued key addr idx fresh token ∈ q
  once : (log.filterMap Entry.acceptedIdx).Pairwise fun a b => a.1 = b.1 → a.2 ≠ b.2
  increasing : (log.filterMap Entry.freshIdx).Pairwise fun a b => a.1 = b.1 → a.2 < b.2

variable {cr : Crypto} {log : List Entry} {h : Hapd}

theorem inv_init : Inv cr [] Hapd.init := by
  constructor <;> simp [Hapd.init]

/-- Entries that neither issue nor accept a token leave the invariant alone. -/
theorem Inv.append_neutral (hi : Inv cr log h) {e : Entry}
    (hissued : ∀ key addr idx fresh token, e ≠ .issued key addr idx fresh token)
    (haccepted : ∀ key addr token, e ≠ .checked key addr token true) : Inv cr (log ++ [e]) h := by
  have hmem : ∀ {x : Entry}, x ∈ log ++ [e] → x ≠ e → x ∈ log := by
    intro x hx hne
    rw [List.mem_append, List.mem_singleton] at hx
    exact hx.resolve_right hne
  have haccept : e.acceptedIdx = none := by
    unfold Entry.acceptedIdx
    split
    · rename_i key addr token
      exact absurd rfl (haccepted key addr token)
    · rfl
  have hfresh : e.freshIdx = none := by
    unfold Entry.freshIdx
    split
    · rename_i key addr idx token
      exact absurd rfl (hissued key addr idx true token)
    · rfl
  exact
    { hi with
      issued_le := fun addr idx fresh token hx =>
        hi.issued_le addr idx fresh token (hmem hx (hissued _ _ _ _ _).symm)
      used := fun addr token hx => hi.used addr token (hmem hx (haccepted _ _ _).symm)
      form := fun key addr idx fresh token hx =>
        hi.form key addr idx fresh token (hmem hx (hissued _ _ _ _ _).symm)
      origin := by
        intro q key addr token hq
        rcases List.prefix_concat_iff.mp hq with heq | hpre
        · have hlast := (List.append_inj' heq rfl).2
          exact absurd (List.singleton_injective hlast).symm (haccepted key addr token)
        · exact hi.origin q key addr token hpre
      once := by
        simpa [List.filterMap_append, haccept] using hi.once
      increasing := by
        simpa [List.filterMap_append, hfresh] using hi.increasing }

/-- Under a key that no entry has, nothing is pending on the past. -/
theorem Inv.newKey (hi : Inv cr log h) {h' : Hapd} (hkey : ∀ e ∈ log, e.key ≠ h'.comebackKey)
    (hidx : h'.comebackIdx ≤ 0xffff) (hle : ∀ p, h'.comebackPendingIdx p ≤ h'.comebackIdx)
    (hinj : ∀ p q, h'.comebackPendingIdx p ≠ 0 →
      h'.comebackPendingIdx p = h'.comebackPendingIdx q → p = q) : Inv cr log h' :=
  { hi with
    idx_le := hidx
    pending_le := hle
    pending_inj := hinj
    issued_le := fun _ _ _ _ hx => absurd rfl (hkey _ hx)
    used := fun _ _ hx => absurd rfl (hkey _ hx) }

theorem Inv.rotateKey (hi : Inv cr log h) (a : TokenReq)
    (hfresh : FreshKeys (log ++ [.rotated h.comebackKey a.random.bytes a.random.ok])) :
    Inv cr (log ++ [.rotated h.comebackKey a.random.bytes a.random.ok]) (rotateKey a h) := by
  refine Inv.append_neutral ?_ (by simp) (by simp)
  rcases hfresh log _ _ _ List.prefix_rfl with ⟨hok, hsame⟩ | hnew
  · have heq : Comeback.rotateKey a h = h := by
      simp [Comeback.rotateKey, hok, hsame]
    rw [heq]
    exact hi
  · unfold Comeback.rotateKey
    split
    · exact hi.newKey hnew (by simp) (by simp) (by simp)
    · exact hi.newKey hnew hi.idx_le hi.pending_le hi.pending_inj

@[simp] theorem takeIndex_comebackKey (slot : UInt8) (h : Hapd) :
    (takeIndex slot h).comebackKey = h.comebackKey := by
  unfold takeIndex
  split <;> rfl

/-- The next index is larger than all that were given out under the key. -/
theorem Inv.takeIndex (hi : Inv cr log h) (hroom : h.comebackIdx ≠ 0xffff) (slot : UInt8) :
    Inv cr log (takeIndex slot h) ∧ (Comeback.takeIndex slot h).comebackPendingIdx slot ≠ 0 ∧
      h.comebackIdx ≤ (Comeback.takeIndex slot h).comebackIdx ∧
      (h.comebackPendingIdx slot = 0 →
        h.comebackIdx < (Comeback.takeIndex slot h).comebackPendingIdx slot) := by
  by_cases hfree : h.comebackPendingIdx slot = 0
  · have hidx := hi.idx_le
    have hnext : (h.comebackIdx + 1) % 2 ^ 16 = h.comebackIdx + 1 := by omega
    have htake : Comeback.takeIndex slot h =
        { h with
          comebackIdx := h.comebackIdx + 1
          comebackPendingIdx :=
            Function.update h.comebackPendingIdx slot (h.comebackIdx + 1) } := by
      simp only [Comeback.takeIndex, if_pos hfree, hnext]
    have hother : ∀ p, p ≠ slot →
        Function.update h.comebackPendingIdx slot (h.comebackIdx + 1) p =
          h.comebackPendingIdx p := fun p hp => Function.update_of_ne hp _ _
    rw [htake]
    refine ⟨?_, by simp, Nat.le_succ _, by simp⟩
    refine { hi with idx_le := ?_, pending_le := ?_, pending_inj := ?_, issued_le := ?_, used := ?_ }
    · exact Nat.lt_of_le_of_ne hidx hroom
    · intro p
      by_cases hp : p = slot
      · simp [hp]
      · simp only [hother p hp]
        exact (hi.pending_le p).trans (Nat.le_succ _)
    · intro p q hp hpq
      have hle := hi.pending_le
      by_cases hps : p = slot <;> by_cases hqs : q = slot
      · exact hps.trans hqs.symm
      · subst hps
        simp only [Function.update_self, hother q hqs] at hpq
        have := hle q
        omega
      · subst hqs
        simp only [Function.update_self, hother p hps] at hpq
        have := hle p
        omega
      · simp only [hother p hps, hother q hqs] at hp hpq
        exact hi.pending_inj p q hp hpq
    · intro addr idx fresh token hx
      exact (hi.issued_le addr idx fresh token hx).trans (Nat.le_succ _)
    · intro addr token hx
      obtain ⟨hzero, hle, hne⟩ := hi.used addr token hx
      refine ⟨hzero, hle.trans (Nat.le_succ _), fun p => ?_⟩
      by_cases hp : p = slot
      · subst hp
        simp only [Function.update_self]
        omega
      · simp only [hother p hp]
        exact hne p
  · have htake : Comeback.takeIndex slot h = h := by simp [Comeback.takeIndex, hfree]
    rw [htake]
    exact ⟨hi, hfree, le_rfl, fun h0 => absurd h0 hfree⟩

theorem Inv.issue (hi : Inv cr log h) {addr : Addr} {idx : ℕ} (fresh : Bool) {mac : Bytes}
    (hidx : idx ≤ h.comebackIdx)
    (hfresh : fresh = true → ∀ a i f t, .issued h.comebackKey a i f t ∈ log → i < idx)
    (hmac : cr.mac .hmacSha256 h.comebackKey (message addr (ofBeNat idx 2)) = some mac) :
    Inv cr (log ++ [.issued h.comebackKey addr idx fresh (ofBeNat idx 2 ++ mac.drop 2)]) h := by
  refine { hi with issued_le := ?_, used := ?_, form := ?_, origin := ?_, once := ?_, increasing := ?_ }
  · intro a i f t hx
    rw [List.mem_append, List.mem_singleton] at hx
    rcases hx with hx | hx
    · exact hi.issued_le a i f t hx
    · cases hx
      exact hidx
  · intro a t hx
    rw [List.mem_append, List.mem_singleton] at hx
    exact hi.used a t (hx.resolve_right (by simp))
  · intro k a i f t hx
    rw [List.mem_append, List.mem_singleton] at hx
    rcases hx with hx | hx
    · exact hi.form k a i f t hx
    · cases hx
      exact ⟨hidx.trans hi.idx_le, mac, hmac, rfl⟩
  · intro q k a t hq
    rcases List.prefix_concat_iff.mp hq with heq | hpre
    · have hlast := (List.append_inj' heq rfl).2
      cases List.singleton_injective hlast
    · exact hi.origin q k a t hpre
  · simpa [List.filterMap_append, List.filterMap_cons, Entry.acceptedIdx] using hi.once
  · rw [List.filterMap_append]
    cases fresh with
    | false => simpa [List.filterMap_cons, Entry.freshIdx] using hi.increasing
    | true =>
      refine List.pairwise_append.mpr
        ⟨hi.increasing, by simp [Entry.freshIdx], ?_⟩
      rintro ⟨k, i⟩ hki b hb hk
      obtain ⟨e, he, heki⟩ := List.mem_filterMap.mp hki
      obtain rfl : b = (h.comebackKey, idx) := by
        simpa [List.filterMap_cons, Entry.freshIdx] using hb
      unfold Entry.freshIdx at heki
      split at heki
      · cases heki
        cases hk
        exact hfresh rfl _ _ _ _ he
      · cases heki

theorem Inv.putToken (hi : Inv cr log h) (hroom : h.comebackIdx ≠ 0xffff) (a : TokenReq) :
    Inv cr (log ++ (putToken cr a h).2.2) (Comeback.putToken cr a h).1 := by
  have hstop : ∀ {h' : Hapd}, Inv cr log h' → Inv cr (log ++ []) h' := fun hh => by simpa using hh
  unfold Comeback.putToken
  split
  · exact hstop hi
  · split
    · exact hstop hi
    · rename_i slot hslot
      obtain ⟨htake, hne, hmono, hnew⟩ := hi.takeIndex hroom slot
      simp only
      split
      · exact hstop htake
      · rename_i mac hm
        have hmac : cr.mac .hmacSha256 (Comeback.takeIndex slot h).comebackKey
            (message a.addr (ofBeNat ((Comeback.takeIndex slot h).comebackPendingIdx slot) 2)) =
              some mac := by
          unfold Comeback.hmac at hm
          split at hm
          · exact hm
          · cases hm
        have hissue := htake.issue (h.comebackPendingIdx slot == 0)
          (htake.pending_le slot) (fun hfresh a' i f t hx => ?_) hmac
        · rw [takeIndex_comebackKey] at hissue
          exact hissue
        · rw [takeIndex_comebackKey] at hx
          exact (hi.issued_le a' i f t hx).trans_lt (hnew (beq_iff_eq.mp hfresh))

theorem Inv.build (hi : Inv cr log h) (a : TokenReq)
    (hfresh : ∀ q, q <+: log ++ (authBuildTokenReq cr a h).2.2 → FreshKeys q) :
    Inv cr (log ++ (authBuildTokenReq cr a h).2.2) (authBuildTokenReq cr a h).1 := by
  unfold authBuildTokenReq at hfresh ⊢
  split
  · rename_i hneed
    simp only [hneed, if_true] at hfresh
    simp only
    split
    · rename_i hok
      simp only [hok, if_true, ← List.append_assoc] at hfresh ⊢
      have hrotated := hi.rotateKey a (by
        rw [hok]
        exact hfresh _ (List.prefix_append _ _))
      rw [hok] at hrotated
      refine hrotated.putToken ?_ a
      simp [Comeback.rotateKey, hok]
    · rename_i hok
      simp only [if_neg hok] at hfresh
      exact hi.rotateKey a (hfresh _ List.prefix_rfl)
  · rename_i hneed
    refine hi.putToken ?_ a
    simp only [needsKey, Bool.or_eq_true, not_or] at hneed
    simpa using hneed.2

/-- A check changes nothing, or accepts a token with the pending index of a slot and frees the
slot. -/
theorem checkComebackToken_cases (cr : Crypto) (a : TokenCheck) (h : Hapd) :
    checkComebackToken cr a h = (h, false) ∨
    ∃ slot mac, h.comebackPendingIdx slot ≠ 0 ∧ h.comebackPendingIdx slot = a.token.be16 0 ∧
      a.token.length = sha256MacLen ∧
      cr.mac .hmacSha256 h.comebackKey (message a.addr (a.token.take 2)) = some mac ∧
      a.token.drop 2 = mac.drop 2 ∧
      checkComebackToken cr a h =
        ({ h with comebackPendingIdx := Function.update h.comebackPendingIdx slot 0 }, true) := by
  unfold checkComebackToken
  split
  · exact .inl rfl
  · rename_i slot hslot
    simp only
    split
    · exact .inl rfl
    · rename_i hlen
      split
      · exact .inl rfl
      · rename_i hidx
        rw [not_or, not_not] at hidx
        split
        · exact .inl rfl
        · rename_i mac hm
          split
          · exact .inl rfl
          · rename_i htag
            refine .inr ⟨slot, mac, hidx.1, hidx.2, not_not.mp hlen, ?_, not_not.mp htag, rfl⟩
            unfold hmac at hm
            split at hm
            · exact hm
            · cases hm

theorem message_injective {addr addr' : Addr} {x y : Bytes} (h : message addr x = message addr' y) :
    addr = addr' ∧ x = y := by
  have hlen : addr.1.length = addr'.1.length := addr.2.trans addr'.2.symm
  obtain ⟨haddr, hrest⟩ := List.append_inj h hlen
  exact ⟨Subtype.ext haddr, hrest⟩

/-- An accepted token is one that was handed out: the index and the tag are those of the message,
and the message is that of the address. -/
theorem Inv.accept_origin (hi : Inv cr log h) {addr : Addr} {token mac : Bytes}
    (hunf : Unforgeable cr (log ++ [.checked h.comebackKey addr token true]))
    (hmac : cr.mac .hmacSha256 h.comebackKey (message addr (token.take 2)) = some mac)
    (htag : token.drop 2 = mac.drop 2) :
    ∃ idx fresh, .issued h.comebackKey addr idx fresh token ∈ log := by
  obtain ⟨addr', idx, fresh, token', hmem, hmsg⟩ :=
    hunf log _ _ _ _ mac List.prefix_rfl hmac htag
  obtain ⟨rfl, hidx⟩ := message_injective hmsg
  obtain ⟨-, mac', hmac', rfl⟩ := hi.form _ _ _ _ _ hmem
  rw [hidx, hmac] at hmac'
  cases hmac'
  have htoken : ofBeNat idx 2 ++ mac.drop 2 = token := by
    rw [hidx, ← htag, List.take_append_drop]
  exact ⟨idx, fresh, htoken ▸ hmem⟩

theorem Inv.check (hi : Inv cr log h) (a : TokenCheck)
    (hunf : Unforgeable cr
      (log ++ [.checked h.comebackKey a.addr a.token (checkComebackToken cr a h).2])) :
    Inv cr (log ++ [.checked h.comebackKey a.addr a.token (checkComebackToken cr a h).2])
      (checkComebackToken cr a h).1 := by
  rcases checkComebackToken_cases cr a h with
    hno | ⟨slot, mac, hne, hidx, hlen, hmac, htag, hyes⟩
  · rw [hno]
    exact hi.append_neutral (by simp) (by simp)
  · rw [hyes] at hunf ⊢
    have horigin := hi.accept_origin hunf hmac htag
    have hother : ∀ p, Function.update h.comebackPendingIdx slot 0 p ≠ 0 →
        Function.update h.comebackPendingIdx slot 0 p = h.comebackPendingIdx p ∧ p ≠ slot := by
      intro p hp
      have hps : p ≠ slot := fun hps => hp (by rw [hps, Function.update_self])
      exact ⟨Function.update_of_ne hps _ _, hps⟩
    refine ⟨hi.idx_le, ?_, ?_, ?_, ?_, ?_, ?_, ?_, ?_⟩
    · intro p
      by_cases hp : p = slot
      · simp [hp]
      · simpa [Function.update_of_ne hp] using hi.pending_le p
    · intro p q hp hpq
      simp only at hp hpq
      obtain ⟨hp', -⟩ := hother p hp
      obtain ⟨hq', -⟩ := hother q (hpq ▸ hp)
      rw [hp'] at hp hpq
      rw [hq'] at hpq
      exact hi.pending_inj p q hp hpq
    · intro addr idx fresh token hx
      rw [List.mem_append, List.mem_singleton] at hx
      exact hi.issued_le addr idx fresh token (hx.resolve_right (by simp))
    · -- the slot that held the index is free now, and no other slot held it
      intro addr token hx
      have hfree : ∀ i, i ≠ 0 → (∀ p, h.comebackPendingIdx p = i → p = slot) →
          ∀ p, Function.update h.comebackPendingIdx slot 0 p ≠ i := by
        intro i hi0 honly p hp
        obtain ⟨hp', hps⟩ := hother p (hp ▸ hi0)
        exact hps (honly p (hp' ▸ hp))
      rw [List.mem_append, List.mem_singleton] at hx
      rcases hx with hx | hx
      · obtain ⟨hzero, hle, hdead⟩ := hi.used addr token hx
        exact ⟨hzero, hle, hfree _ hzero fun p hp => absurd hp (hdead p)⟩
      · cases hx
        have hzero : a.token.be16 0 ≠ 0 := hidx ▸ hne
        refine ⟨hzero, hidx ▸ hi.pending_le slot, hfree _ hzero fun p hp => ?_⟩
        exact (hi.pending_inj slot p hne (hidx.trans hp.symm)).symm
    · intro key addr idx fresh token hx
      rw [List.mem_append, List.mem_singleton] at hx
      exact hi.form key addr idx fresh token (hx.resolve_right (by simp))
    · intro q key addr token hq
      rcases List.prefix_concat_iff.mp hq with heq | hpre
      · obtain ⟨rfl, hlast⟩ := List.append_inj' heq rfl
        cases List.singleton_injective hlast
        exact horigin
      · exact hi.origin q key addr token hpre
    · rw [List.filterMap_append]
      refine List.pairwise_append.mpr ⟨hi.once, by simp [Entry.acceptedIdx], ?_⟩
      rintro ⟨k, i⟩ hki b hb hk
      obtain ⟨e, he, heki⟩ := List.mem_filterMap.mp hki
      obtain rfl : b = (h.comebackKey, a.token.be16 0) := by
        simpa [List.filterMap_cons, Entry.acceptedIdx] using hb
      unfold Entry.acceptedIdx at heki
      split at heki
      · cases heki
        cases hk
        exact fun heq => (hi.used _ _ he).2.2 slot (hidx.trans heq.symm)
      · cases heki
    · simpa [List.filterMap_append, List.filterMap_cons, Entry.freshIdx] using hi.increasing

theorem FreshKeys.of_prefix {log q : List Entry} (h : FreshKeys log) (hq : q <+: log) :
    FreshKeys q :=
  fun p old new ok hp => h p old new ok (hp.trans hq)

theorem Unforgeable.of_prefix {log q : List Entry} (h : Unforgeable cr log) (hq : q <+: log) :
    Unforgeable cr q :=
  fun p key addr token accepted mac hp => h p key addr token accepted mac (hp.trans hq)

def runLog (cr : Crypto) (calls : List Call) : List Entry :=
  Runs.outputs (Runs.trace (step cr) Hapd.init calls)

theorem run_inv (cr : Crypto) (calls : List Call) (hfresh : FreshKeys (runLog cr calls))
    (hunf : Unforgeable cr (runLog cr calls)) :
    Inv cr (runLog cr calls) (Runs.final (step cr) Hapd.init calls) := by
  refine Runs.outputs_invariant (H := fun q => FreshKeys q ∧ Unforgeable cr q) inv_init
    (fun out s i hi hH => ?_) calls
    fun q hq => ⟨hfresh.of_prefix hq, hunf.of_prefix hq⟩
  cases i with
  | build a => exact hi.build a fun q hq => (hH q hq).1
  | check a => exact hi.check a (hH _ List.prefix_rfl).2

/-- Equal tokens have equal tags, so that they stem from one key. -/
theorem Inv.issued_key_eq (hi : Inv cr log h) (hcoll : CollisionFree cr log) {key key' : Bytes}
    {addr addr' : Addr} {idx idx' : ℕ} {fresh fresh' : Bool} {token : Bytes}
    (hx : .issued key addr idx fresh token ∈ log)
    (hy : .issued key' addr' idx' fresh' token ∈ log) : key = key' := by
  obtain ⟨-, mac, hmac, htoken⟩ := hi.form _ _ _ _ _ hx
  obtain ⟨-, mac', hmac', htoken'⟩ := hi.form _ _ _ _ _ hy
  have htags := (List.append_inj (htoken.symm.trans htoken') (by simp)).2
  refine (hcoll key addr idx fresh token key' addr' idx' fresh' token hx hy ?_).1
  rw [hmac, hmac', Option.map_some, Option.map_some, htags]

theorem Inv.accepted_nodup (hi : Inv cr log h) (hcoll : CollisionFree cr log) :
    (log.filterMap Entry.acceptedToken).Nodup := by
  have honce := hi.once
  rw [List.pairwise_filterMap] at honce
  rw [List.Nodup, List.pairwise_filterMap]
  refine honce.imp_of_mem ?_
  intro a b ha hb hab token htoken token' htoken' heq
  subst heq
  have hchecked : ∀ e ∈ log, e.acceptedToken = some token →
      ∃ key addr, e = .checked key addr token true ∧
        ∃ addr idx fresh, Entry.issued key addr idx fresh token ∈ log := by
    intro e he htok
    unfold Entry.acceptedToken at htok
    split at htok
    · rename_i key addr token'
      cases htok
      obtain ⟨q, rest, hsplit⟩ := List.append_of_mem he
      have hpre : q ++ [.checked key addr token true] <+: log :=
        ⟨rest, by rw [hsplit, List.append_assoc]; rfl⟩
      obtain ⟨idx, fresh, hmem⟩ := hi.origin q key addr token hpre
      exact ⟨key, addr, rfl, addr, idx, fresh, hpre.subset (List.mem_append_left _ hmem)⟩
    · cases htok
  obtain ⟨key, addr, rfl, addr₁, idx₁, fresh₁, h₁⟩ := hchecked a ha htoken
  obtain ⟨key', addr', rfl, addr₂, idx₂, fresh₂, h₂⟩ := hchecked b hb htoken'
  have hkey := hi.issued_key_eq hcoll h₁ h₂
  exact hab _ rfl _ rfl hkey rfl

/-- Over every run of the two functions: what is accepted was issued to that address under the
key then in use, no token is accepted twice, and indices grow for as long as a key is used. -/
theorem comeback_token_single_use (cr : Crypto) (calls : List Call)
    (hfresh : FreshKeys (runLog cr calls)) (hunf : Unforgeable cr (runLog cr calls))
    (hcoll : CollisionFree cr (runLog cr calls)) :
    (∀ q key addr token, q ++ [.checked key addr token true] <+: runLog cr calls →
      ∃ idx fresh, .issued key addr idx fresh token ∈ q) ∧
    ((runLog cr calls).filterMap Entry.acceptedToken).Nodup ∧
    ((runLog cr calls).filterMap Entry.freshIdx).Pairwise fun a b => a.1 = b.1 → a.2 < b.2 := by
  have hinv := run_inv cr calls hfresh hunf
  exact ⟨hinv.origin, hinv.accepted_nodup hcoll, hinv.increasing⟩

/-- A keyed function of key and message, for a run that can be followed by hand. -/
def plainMac : Crypto :=
  { (default : Crypto) with
    mac := fun alg key msg => some ((key ++ msg ++ zeros alg.size).take alg.size)
    mac_length := by
      rintro alg k m out h
      cases h
      simp only [List.length_take, List.length_append, zeros_length]
      omega }

def station : Addr := ⟨[2, 0, 0, 0, 0, 1], rfl⟩

def tokenKey : Bytes := [1, 2, 3, 4, 5, 6, 7, 8]

def firstToken : Bytes :=
  [0, 1] ++ [3, 4, 5, 6, 7, 8] ++ [2, 0, 0, 0, 0, 1] ++ [0, 1] ++ zeros 16

/-- A token is requested and presented twice. -/
def tokenRun : List Call :=
  [.build
      { now := ⟨5, 0⟩, random := ⟨true, tokenKey⟩, group := 19, addr := station, h2e := true,
        alloc := true, hashOk := true, macOk := true },
    .check { addr := station, token := firstToken, hashOk := true, macOk := true },
    .check { addr := station, token := firstToken, hashOk := true, macOk := true }]

theorem tokenRun_log : runLog plainMac tokenRun =
    [.rotated (zeros 8) tokenKey true, .issued tokenKey station 1 true firstToken,
      .checked tokenKey station firstToken true, .checked tokenKey station firstToken false] := by
  rfl

theorem tokenRun_single_use :
    ((runLog plainMac tokenRun).filterMap Entry.acceptedToken).Nodup ∧
      (runLog plainMac tokenRun).filterMap Entry.acceptedToken = [firstToken] := by
  refine ⟨(comeback_token_single_use plainMac tokenRun ?_ ?_ ?_).2.1, rfl⟩
  · rw [tokenRun_log]
    rintro q old new ok ⟨rest, hq⟩
    right
    rcases q with _ | ⟨a, _ | ⟨b, _ | ⟨c, _ | ⟨d, q⟩⟩⟩⟩ <;> simp at hq ⊢
  · rw [tokenRun_log]
    rintro q key addr token accepted mac ⟨rest, hq⟩ - -
    rcases q with _ | ⟨a, _ | ⟨b, _ | ⟨c, _ | ⟨d, q⟩⟩⟩⟩ <;> simp at hq
    · obtain ⟨rfl, rfl, ⟨rfl, rfl, rfl, rfl⟩, -⟩ := hq
      exact ⟨station, 1, true, firstToken, by simp, rfl⟩
    · obtain ⟨rfl, rfl, rfl, ⟨rfl, rfl, rfl, rfl⟩, -⟩ := hq
      exact ⟨station, 1, true, firstToken, by simp, rfl⟩
  · rw [tokenRun_log]
    intro key addr idx fresh token key' addr' idx' fresh' token' hx hy _
    simp only [List.mem_cons, reduceCtorEq, List.not_mem_nil, Entry.issued.injEq, or_false,
      false_or] at hx hy
    obtain ⟨rfl, rfl, rfl, -, -⟩ := hx
    obtain ⟨rfl, rfl, rfl, -, -⟩ := hy
    exact ⟨rfl, rfl⟩

end Wpa.Comeback
