import Wpa.Ft.Sequence

/-! Which runs of the replay protection accept every number at most once. -/

namespace Wpa.FtSequence
open Lib Lib.Runs Lib.Serial

section Sender

/-- A message of a sender that counts from `first` on, in one domain, and has sent less than
`2 ^ 30` messages. -/
def Sent (dom first : UInt32) (msg : FtRrbSeq) : Prop :=
  msg.dom = dom ∧ (msg.seq - first).toNat < 1073741824

/-- A response that resets goes back behind no number that was accepted, apart from its own. -/
def Retains (accepted : List UInt32) (rx : FtRemoteSeqRx) : Input → Prop
  | .response nonce msg calls _ =>
    findItem nonce calls.search rx.queue.zipIdx ≠ none → seqChk rx calls.check msg true ≠ .ok →
      ∀ x ∈ accepted, x = msg.seq ∨ (resetBase rx msg - x).toNat < 2147483648
  | _ => True

instance (dom first : UInt32) (msg : FtRrbSeq) : Decidable (Sent dom first msg) :=
  inferInstanceAs (Decidable (_ ∧ _))

/-- What a run keeps: a number that was accepted is one of the last or lies before the base. -/
structure Tracks (dom first : UInt32) (accepted : List UInt32) (rx : FtRemoteSeqRx) : Prop where
  idx : rx.offsetidx = 0
  near : ∀ x ∈ rx.last, -116 ≤ place first x ∧ place first x < 1073741824
  length : rx.queue.length ≤ ftRRBmaxQueueLen
  waiting : ∀ item ∈ rx.queue, ∀ msg ∈ item.msg, Sent dom first msg
  sent : ∀ x ∈ accepted, 0 ≤ place first x ∧ place first x < 1073741824
  known : ∀ x ∈ accepted, x ∈ rx.last ∨ rx.last ≠ [] ∧ place first x < place first rx.base
  once : accepted.Nodup

variable {dom first : UInt32} {accepted : List UInt32} {rx : FtRemoteSeqRx} {msg : FtRrbSeq}

theorem Sent.place (h : Sent dom first msg) :
    0 ≤ place first msg.seq ∧ place first msg.seq < 1073741824 := by
  have hplace := place_of_lt (lt_trans h.2 (by decide))
  have hlt := h.2
  omega

theorem tracks_init : Tracks dom first [] .init where
  idx := rfl
  near := fun _ hx => nomatch hx
  length := Nat.zero_le _
  waiting := fun _ hitem => nomatch hitem
  sent := fun _ hx => nomatch hx
  known := fun _ hx => nomatch hx
  once := List.nodup_nil

end Sender

section Accept
variable {dom first : UInt32} {accepted : List UInt32} {rx : FtRemoteSeqRx} {msg : FtRrbSeq}

/-- What the check has found of a number that is to be accepted. -/
theorem seqChk_ok {now : Option OsReltime} {noDefer : Bool} (h : seqChk rx now msg noDefer = .ok) :
    rx.last ≠ [] ∧ (msg.seq - rx.base).toNat ≤ 1073741824 ∧ msg.seq ∉ rx.last := by
  have hdefer : (if noDefer then SeqRet.drop else .defer) ≠ .ok := by
    cases noDefer <;> simp
  unfold seqChk at h
  dsimp only at h
  split at h
  · exact absurd h hdefer
  rename_i hempty
  split at h
  · exact absurd h hdefer
  split at h
  · exact absurd h hdefer
  split at h
  · cases h
  split at h
  · rename_i hoff
    split at h
    · cases h
    · rename_i hnew
      exact ⟨fun hlast => hempty (congrArg List.length hlast), hoff, hnew⟩
  · exact absurd h hdefer

/-- The loop starts at the base, which is nearest to itself. -/
theorem minIdx_eq_zero (h : rx.offsetidx = 0) : minIdx rx = 0 := by
  have hbase : rx.base = rx.last.getD 0 0 := congrArg (rx.last.getD · 0) h
  have hloop : ∀ l : List ℕ, l.foldl (fun minidx i =>
      if rx.last.getD i 0 - rx.base < rx.last.getD minidx 0 - rx.base ∧ i ≠ rx.offsetidx then i
      else minidx) 0 = 0 := by
    intro l
    induction l with
    | nil => rfl
    | cons i l ih =>
      rw [List.foldl_cons, if_neg, ih]
      rintro ⟨hlt, -⟩
      rw [← hbase, UInt32.sub_self] at hlt
      exact UInt32.not_lt_zero hlt
  exact hloop _

theorem base_of_cons {base : UInt32} {last : List UInt32} (h : rx.offsetidx = 0)
    (hcons : rx.last = base :: last) : rx.base = base := by
  unfold FtRemoteSeqRx.base
  rw [h, hcons]
  rfl

/-- A number that the check lets through is not before the base. -/
theorem Tracks.base_le (h : Tracks dom first accepted rx) (hsent : Sent dom first msg)
    (hlast : rx.last ≠ []) (hoff : (msg.seq - rx.base).toNat ≤ 1073741824) :
    place first rx.base ≤ place first msg.seq := by
  obtain ⟨base, last, hcons⟩ := List.exists_cons_of_ne_nil hlast
  have hbase : rx.base ∈ rx.last := by
    rw [base_of_cons h.idx hcons, hcons]
    exact List.mem_cons_self ..
  obtain ⟨hlow, hhigh⟩ := h.near _ hbase
  obtain ⟨hzero, hmax⟩ := hsent.place
  by_contra hlt
  rw [not_le] at hlt
  have hsub := toNat_sub_of_lt hlt (by omega)
  omega

/-- The number is new. -/
theorem Tracks.fresh (h : Tracks dom first accepted rx) (hsent : Sent dom first msg)
    (hlast : rx.last ≠ []) (hoff : (msg.seq - rx.base).toNat ≤ 1073741824)
    (hnew : msg.seq ∉ rx.last) : msg.seq ∉ accepted := by
  intro hmem
  rcases h.known _ hmem with hin | ⟨-, hlt⟩
  · exact hnew hin
  · have hle := h.base_le hsent hlast hoff
    omega

/-- The number of a message becomes the last one, or takes the place of the base. -/
theorem seqAccept_cases (h : rx.offsetidx = 0) :
    seqAccept rx msg = { rx with last := rx.last ++ [msg.seq] } ∨
      seqAccept rx msg = { rx with last := rx.last.set 0 msg.seq } := by
  unfold seqAccept
  split
  · exact .inl rfl
  · right
    rw [minIdx_eq_zero h, h]

/-- The last numbers may change as long as the new number is among them, and every number that was
accepted stays there or falls behind the base. -/
theorem Tracks.with_last (h : Tracks dom first accepted rx) (hsent : Sent dom first msg)
    (hfresh : msg.seq ∉ accepted) {base : UInt32} {last : List UInt32}
    (hnear : ∀ x ∈ base :: last, x ∈ rx.last ∨ x = msg.seq) (hmem : msg.seq ∈ base :: last)
    (hknown : ∀ x ∈ accepted, x ∈ base :: last ∨ place first x < place first base) :
    Tracks dom first (accepted ++ [msg.seq]) { rx with last := base :: last } where
  idx := h.idx
  near := by
    intro x hx
    rcases hnear x hx with hin | rfl
    · exact h.near x hin
    · obtain ⟨hzero, hmax⟩ := hsent.place
      exact ⟨by omega, hmax⟩
  length := h.length
  waiting := h.waiting
  sent := by
    intro x hx
    rcases List.mem_append.mp hx with hx | hx
    · exact h.sent x hx
    · rw [List.mem_singleton.mp hx]
      exact hsent.place
  known := by
    intro x hx
    have hsame : FtRemoteSeqRx.base { rx with last := base :: last } = base :=
      base_of_cons h.idx rfl
    rw [hsame]
    rcases List.mem_append.mp hx with hx | hx
    · exact (hknown x hx).imp_right fun hlt => ⟨List.cons_ne_nil _ _, hlt⟩
    · left
      rwa [List.mem_singleton.mp hx]
  once := by
    refine List.nodup_append.mpr ⟨h.once, List.pairwise_singleton .., ?_⟩
    intro x hx y hy heq
    apply hfresh
    rwa [← List.mem_singleton.mp hy, ← heq]

theorem Tracks.accept (h : Tracks dom first accepted rx) (hsent : Sent dom first msg)
    {now : Option OsReltime} {noDefer : Bool} (hok : seqChk rx now msg noDefer = .ok) :
    Tracks dom first (accepted ++ [msg.seq]) (seqAccept rx msg) := by
  obtain ⟨hlast, hoff, hnew⟩ := seqChk_ok hok
  have hfresh := h.fresh hsent hlast hoff hnew
  have hle := h.base_le hsent hlast hoff
  obtain ⟨base, last, hcons⟩ := List.exists_cons_of_ne_nil hlast
  have hbehind : ∀ x ∈ accepted, x ∈ base :: last ∨ place first x < place first base := by
    intro x hx
    have hx := h.known x hx
    rw [base_of_cons h.idx hcons, hcons] at hx
    exact hx.imp_right And.right
  rw [base_of_cons h.idx hcons] at hle
  rw [hcons] at hnew
  have hcases : seqAccept rx msg = _ ∨ _ := seqAccept_cases h.idx
  rcases hcases with heq | heq <;> rw [heq, hcons]
  · refine h.with_last hsent hfresh ?_ ?_ ?_
    · intro x hx
      rw [hcons]
      have hx : x ∈ (base :: last) ++ [msg.seq] := hx
      exact (List.mem_append.mp hx).imp_right List.mem_singleton.mp
    · exact List.mem_append_right (base :: last) (List.mem_singleton_self _)
    · intro x hx
      exact (hbehind x hx).imp_left (List.mem_append_left [msg.seq])
  · -- the old base gives way to a number behind it
    have hlt : place first base < place first msg.seq := by
      refine lt_of_le_of_ne hle fun heq => hnew ?_
      rw [← place_injective first heq]
      exact List.mem_cons_self ..
    refine h.with_last hsent hfresh ?_ ?_ ?_
    · intro x hx
      rw [hcons]
      rcases List.mem_cons.mp hx with rfl | hx
      · exact .inr rfl
      · exact .inl (List.mem_cons_of_mem _ hx)
    · exact List.mem_cons_self ..
    · intro x hx
      rcases hbehind x hx with hin | hbefore
      · rcases List.mem_cons.mp hin with rfl | hin
        · exact .inr hlt
        · exact .inl (List.mem_cons_of_mem _ hin)
      · exact .inr (hbefore.trans hlt)

end Accept

section Receive
variable {dom first : UInt32} {accepted : List UInt32} {rx : FtRemoteSeqRx} {msg : FtRrbSeq}

theorem Tracks.with_queue (h : Tracks dom first accepted rx) {queue : List FtRemoteItem}
    (hlength : queue.length ≤ ftRRBmaxQueueLen)
    (hwaiting : ∀ item ∈ queue, ∀ msg ∈ item.msg, Sent dom first msg) :
    Tracks dom first accepted { rx with queue := queue } :=
  ⟨h.idx, h.near, hlength, hwaiting, h.sent, h.known, h.once⟩

theorem Tracks.request (h : Tracks dom first accepted rx) (calls : ReqCalls)
    {msg : Option FtRrbSeq} (hsent : ∀ m ∈ msg, Sent dom first m) :
    Tracks dom first accepted (seqReq rx calls msg) := by
  unfold seqReq
  split
  · exact h
  rename_i hlength
  split
  · exact h
  split
  · split
    · exact h
    · apply h.with_queue
      · exact Nat.lt_of_not_le hlength
      · intro item hitem
        rcases List.mem_cons.mp hitem with rfl | hitem
        · exact hsent
        · exact h.waiting item hitem
  · exact h

/-- Only a number that the check lets through is accepted. -/
theorem rxMessage_cases (rx : FtRemoteSeqRx) (now : Option OsReltime) (msg : FtRrbSeq)
    (found : Found) (noDefer : Bool) (calls : ReqCalls) :
    rxMessage rx now msg found noDefer calls = (rx, []) ∨
      rxMessage rx now msg found noDefer calls = (seqReq rx calls (some msg), []) ∨
      seqChk rx now msg noDefer = .ok ∧
        rxMessage rx now msg found noDefer calls = (seqAccept rx msg, [msg.seq]) := by
  unfold rxMessage
  dsimp only
  generalize hret : (if !noDefer && found.wildcard then SeqRet.defer
    else seqChk rx now msg noDefer) = ret
  split
  · exact .inl rfl
  rename_i hdrop
  split
  · exact .inl rfl
  split
  · exact .inr (.inl rfl)
  rename_i hdefer
  refine .inr (.inr ⟨?_, rfl⟩)
  split at hret
  · exact absurd hret.symm hdefer
  · rw [hret]
    cases ret with
    | ok => rfl
    | drop => exact absurd rfl hdrop
    | defer => exact absurd rfl hdefer

theorem Tracks.message (h : Tracks dom first accepted rx) (hsent : Sent dom first msg)
    (now : Option OsReltime) (found : Found) (noDefer : Bool) (calls : ReqCalls) :
    Tracks dom first (accepted ++ (rxMessage rx now msg found noDefer calls).2)
      (rxMessage rx now msg found noDefer calls).1 := by
  rcases rxMessage_cases rx now msg found noDefer calls with heq | heq | ⟨hok, heq⟩ <;> rw [heq]
  · rwa [List.append_nil]
  · rw [List.append_nil]
    apply h.request
    intro m hm
    rwa [← Option.mem_some.mp hm]
  · exact h.accept hsent hok

/-- A loop over waiting messages each of which is called back or left out. -/
theorem Tracks.loop {items : List (FtRemoteItem × ℕ)}
    {back : FtRemoteSeqRx × List UInt32 → FtRemoteItem × ℕ → FtRemoteSeqRx × List UInt32}
    (hback : ∀ s, ∀ item ∈ items, back s item = s ∨ ∃ msg now found noDefer calls,
      Sent dom first msg ∧ back s item = ((rxMessage s.1 now msg found noDefer calls).1,
        s.2 ++ (rxMessage s.1 now msg found noDefer calls).2))
    {start s : FtRemoteSeqRx × List UInt32} (h : Tracks dom first (accepted ++ start.2) start.1)
    (hloop : items.foldl back start = s) : Tracks dom first (accepted ++ s.2) s.1 := by
  induction items generalizing start with
  | nil => rwa [← hloop]
  | cons item items ih =>
    refine ih (fun s i hi => hback s i (List.mem_cons_of_mem _ hi)) ?_ hloop
    obtain heq | ⟨msg, now, found, noDefer, calls, hsent, heq⟩ :=
      hback start item (List.mem_cons_self ..)
    · rwa [heq]
    · rw [heq, ← List.append_assoc]
      exact h.message hsent now found noDefer calls

/-- Every message that waits is called back once. -/
theorem Tracks.flush (h : Tracks dom first accepted rx) (clock : ℕ → Option OsReltime)
    (found : ℕ → Found) (calls : ReqCalls) :
    Tracks dom first (accepted ++ (seqFlush rx clock found calls).2)
      (seqFlush rx clock found calls).1 := by
  unfold seqFlush
  split
  rename_i s more hloop
  have hstart : Tracks dom first (accepted ++ (rx, ([] : List UInt32)).2) rx := by
    rwa [List.append_nil]
  refine Tracks.with_queue (Tracks.loop ?_ hstart hloop) (Nat.zero_le _) fun _ hi => nomatch hi
  rintro s ⟨item, i⟩ hitem
  have hwaiting := h.waiting item (List.fst_mem_of_mem_zipIdx hitem)
  cases hmsg : item.msg with
  | none =>
    left
    simp only [hmsg]
  | some msg =>
    right
    refine ⟨msg, clock i, found i, true, calls, hwaiting msg hmsg, ?_⟩
    simp only [hmsg]

end Receive

section Reset
variable {dom first : UInt32} {accepted : List UInt32} {rx : FtRemoteSeqRx} {msg : FtRrbSeq}

theorem place_resetBase (hsent : Sent dom first msg)
    (hlength : rx.queue.length ≤ ftRRBmaxQueueLen) :
    place first (resetBase rx msg) = place first msg.seq - (16 + rx.queue.length) := by
  have hlength : rx.queue.length ≤ 100 := hlength
  have hback : (UInt32.ofNat (16 + rx.queue.length)).toNat = 16 + rx.queue.length := by
    rw [UInt32.toNat_ofNat']
    exact Nat.mod_eq_of_lt (by omega)
  obtain ⟨hzero, hmax⟩ := hsent.place
  have hsub : resetBase rx msg = msg.seq - UInt32.ofNat (16 + rx.queue.length) := by
    apply UInt32.toNat_inj.mp
    unfold resetBase ftRemoteSeqBacklog
    simp only [UInt32.toNat_sub, UInt32.toNat_ofNat']
    omega
  rw [hsub, place_sub (by omega) hzero hmax, hback]
  omega

/-- The numbers that were accepted and are forgotten lie before the new base. -/
theorem Tracks.reset (h : Tracks dom first accepted rx) (hsent : Sent dom first msg)
    (now : OsReltime)
    (hretains : ∀ x ∈ accepted, x = msg.seq ∨ (resetBase rx msg - x).toNat < 2147483648) :
    Tracks dom first accepted (seqReset rx now msg) where
  idx := rfl
  near := by
    have hplace := place_resetBase hsent h.length
    have hlength : rx.queue.length ≤ 100 := h.length
    obtain ⟨hzero, hmax⟩ := hsent.place
    intro x hx
    simp only [seqReset, List.mem_cons, List.not_mem_nil, or_false] at hx
    rcases hx with rfl | rfl <;> omega
  length := h.length
  waiting := h.waiting
  sent := h.sent
  known := by
    have hplace := place_resetBase hsent h.length
    have hlength : rx.queue.length ≤ 100 := h.length
    obtain ⟨hzero, hmax⟩ := hsent.place
    intro x hx
    obtain ⟨hlow, hhigh⟩ := h.sent x hx
    rcases hretains x hx with rfl | hback
    · exact .inl (List.mem_cons_of_mem _ (List.mem_singleton_self _))
    have hle : place first x ≤ place first (resetBase rx msg) := by
      by_contra hlt
      rw [not_le] at hlt
      have hsub := toNat_sub_of_lt hlt (by omega)
      omega
    rcases hle.eq_or_lt with heq | hlt
    · left
      rw [place_injective first heq]
      exact List.mem_cons_self ..
    · exact .inr ⟨List.cons_ne_nil _ _, hlt⟩
  once := h.once

theorem Tracks.response (h : Tracks dom first accepted rx) (hsent : Sent dom first msg)
    {nonce : List UInt8} {calls : RespCalls} {req : ReqCalls}
    (hretains : Retains accepted rx (.response nonce msg calls req)) :
    Tracks dom first (accepted ++ (rxSeqResp rx nonce msg calls req).2)
      (rxSeqResp rx nonce msg calls req).1 := by
  unfold rxSeqResp
  cases hfind : findItem nonce calls.search rx.queue.zipIdx with
  | none => simpa using h
  | some now =>
    have hfound : findItem nonce calls.search rx.queue.zipIdx ≠ none := by
      rw [hfind]
      exact Option.some_ne_none now
    by_cases hok : seqChk rx calls.check msg true = .ok
    · simp only [if_pos hok]
      rw [← List.append_assoc]
      exact (h.accept hsent hok).flush ..
    · simp only [if_neg hok, List.nil_append]
      exact (h.reset hsent now (hretains hfound hok)).flush ..

theorem Tracks.step (h : Tracks dom first accepted rx) {i : Input}
    (hsent : ∀ msg ∈ i.msg, Sent dom first msg) (hretains : Retains accepted rx i) :
    Tracks dom first (accepted ++ (step rx i).2) (step rx i).1 := by
  cases i with
  | message msg now found calls => exact h.message (hsent msg rfl) ..
  | request calls =>
    by_cases hlast : rx.last.length = 0
    · simp only [FtSequence.step, if_pos hlast, List.append_nil]
      exact h.request calls fun _ hm => nomatch hm
    · simpa only [FtSequence.step, if_neg hlast, List.append_nil] using h
  | response nonce msg calls req => exact h.response (hsent msg rfl) hretains
  | timeout i =>
    have hqueue := List.eraseIdx_sublist rx.queue i
    change Tracks dom first (accepted ++ []) { rx with queue := rx.queue.eraseIdx i }
    rw [List.append_nil]
    apply h.with_queue
    · exact hqueue.length_le.trans h.length
    · exact fun item hitem => h.waiting item (hqueue.subset hitem)

end Reset

section Runs

/-- In a run whose resets go back behind no accepted number, every number is accepted once. -/
theorem numbers_once (dom first : UInt32) (inputs : List Input)
    (hsent : ∀ i ∈ inputs, ∀ msg ∈ i.msg, Sent dom first msg)
    (hretains : ∀ js i ks, inputs = js ++ i :: ks →
      Retains (outputs (trace step .init js)) (final step .init js) i) :
    (outputs (trace step .init inputs)).Nodup := by
  have hrun : Tracks dom first (outputs (trace step .init inputs)) (final step .init inputs) := by
    refine past_induction (I := fun past rx => Tracks dom first (outputs past) rx)
      (p := fun past rx i => (∀ msg ∈ i.msg, Sent dom first msg) ∧ Retains (outputs past) rx i)
      tracks_init ?_ inputs ?_
    · rintro past rx i h ⟨hmsg, hback⟩
      rw [outputs_concat]
      exact h.step hmsg hback
    · intro js i ks hinputs
      refine ⟨hsent i ?_, hretains js i ks hinputs⟩
      rw [hinputs]
      exact List.mem_append_right _ (List.mem_cons_self ..)
  exact hrun.once

/-- The calls of a run in which nothing fails; a request has this nonce. -/
def allDone (nonce : UInt8) (sec : ℤ) : ReqCalls := ⟨true, some [nonce], some ⟨sec, 0⟩, true, true⟩

def pushAt (sec : ℤ) (nonce : UInt8) (seq ts : UInt32) : Input :=
  .message ⟨1, seq, ts⟩ (some ⟨sec, 0⟩) ⟨false, true⟩ (allDone nonce sec)

def responseAt (sec : ℤ) (nonce : UInt8) (seq ts : UInt32) : Input :=
  .response [nonce] ⟨1, seq, ts⟩
    ⟨fun _ => some ⟨sec, 0⟩, some ⟨sec, 0⟩, fun _ => some ⟨sec, 0⟩, fun _ => ⟨false, true⟩⟩
    (allDone nonce sec)

/-- The first message waits for a response; a copy of it is dropped later. -/
theorem numbers_once_push :
    outputs (trace step .init [pushAt 50 1 1000 50, responseAt 50 1 1001 50, pushAt 51 2 1000 50]) =
        [1000] ∧
      (outputs (trace step .init
        [pushAt 50 1 1000 50, responseAt 50 1 1001 50, pushAt 51 2 1000 50])).Nodup := by
  refine ⟨by decide, numbers_once 1 1000 _ (by decide) ?_⟩
  intro js i ks hinputs
  rcases js with _ | ⟨_, _ | ⟨_, _ | ⟨_, js⟩⟩⟩
  · obtain ⟨rfl, -⟩ := List.cons.inj hinputs
    trivial
  · obtain ⟨hfirst, hinputs⟩ := List.cons.inj hinputs
    obtain ⟨rfl, -⟩ := List.cons.inj hinputs
    have hnone : outputs (trace step .init [pushAt 50 1 1000 50]) = [] := by
      decide
    intro _ _ x hx
    rw [← hfirst, hnone] at hx
    nomatch hx
  · obtain ⟨-, hinputs⟩ := List.cons.inj hinputs
    obtain ⟨-, hinputs⟩ := List.cons.inj hinputs
    obtain ⟨rfl, -⟩ := List.cons.inj hinputs
    trivial
  · simp at hinputs

/-- A copy of the first message comes fifteen seconds late and asks for a response, which arrives
after the messages that were sent behind it and moves the base back. -/
def lateResponse : List Input :=
  [pushAt 50 1 1000 50, responseAt 50 1 1001 50, pushAt 65 2 1000 50] ++
    ((List.range 14).map fun k => pushAt 65 3 (1003 + UInt32.ofNat k) 65) ++
    [responseAt 65 2 1002 65, pushAt 65 4 1003 65]

theorem lateResponse_twice :
    (∀ i ∈ lateResponse, ∀ msg ∈ i.msg, Sent 1 1000 msg) ∧
      ¬(outputs (trace step .init lateResponse)).Nodup := by
  decide +kernel

end Runs
end Wpa.FtSequence
