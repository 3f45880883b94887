import Wpa.Lib.Runs
import Wpa.Radius.Timer

/-! Runs of the client. Every operation but one keeps the counter `num_msgs` and the list in step:
`radius_client_get_id` does not count what it removes. -/

namespace Wpa.Radius

open Lib.Runs

section Operations
variable {c : Client}

theorem uncounted_eq_zero {gone : List Removal} :
    uncounted gone = 0 ↔ ∀ g ∈ gone, g.reason ≠ .idReused := by
  simp [uncounted, List.countP_eq_zero]

theorem flush_evolves (onlyAuth : Bool) (hwf : c.WF) :
    Evolves c (c.flush onlyAuth).1 (c.flush onlyAuth).2 := by
  have hperm : ((c.flush onlyAuth).1.refs ++ (c.flush onlyAuth).2.map Removal.ref).Perm c.refs := by
    simp only [Client.refs, Client.flush, List.map_map]
    show ((c.msgs.filter _).map Entry.ref ++ (c.msgs.filter _).map Entry.ref).Perm _
    rw [← List.map_append]
    apply List.Perm.map
    exact List.perm_append_comm.trans (List.filter_append_perm _ _)
  have hlen := hperm.length_eq
  simp only [Client.refs, List.length_append, List.length_map] at hlen
  have hcount := hwf.count
  have hzero : uncounted (c.flush onlyAuth).2 = 0 := by
    rw [uncounted_eq_zero]
    intro g hg
    obtain ⟨x, -, rfl⟩ := List.mem_map.mp hg
    simp
  refine ⟨hperm, ?_, rfl, fun hids => hids.sublist (List.filter_sublist.map Entry.id)⟩
  have hnum : (c.flush onlyAuth).1.numMsgs = c.numMsgs - (c.flush onlyAuth).2.length := by
    simp [Client.flush]
  rw [hnum, hzero]
  omega

theorem receive_evolves (auth : Bool) (id : UInt8) (hwf : c.WF) :
    Evolves c (c.receive auth id).1 (c.receive auth id).2 ∧
      (∀ g ∈ (c.receive auth id).2, g.reason = .answered) ∧
      (c.receive auth id).1.msgs.Sublist c.msgs := by
  simp only [Client.receive]
  split
  next => exact ⟨Evolves.refl c, by simp, List.Sublist.refl _⟩
  next e hfind =>
    obtain ⟨hmatch, before, ahead, hmsgs, hbefore⟩ := List.find?_eq_some_iff_append.mp hfind
    have herase : (c.msgs.eraseP fun e => e.msgType.isAuth == auth && e.id == id) =
        before ++ ahead := by
      rw [hmsgs, List.eraseP_append_right, List.eraseP_cons, hmatch, cond_true]
      intro x hx
      have hother := hbefore x hx
      rw [Bool.not_eq_true'] at hother
      simp only [hother]
      decide
    have hanswered : Reason.answered ≠ .idReused := by decide
    have hev := removed_evolves hwf hmsgs hanswered
    refine ⟨?_, by simp, ?_⟩
    · rw [herase]
      exact hev
    · exact List.eraseP_sublist

/-- What `radius_client_send` can do: the sockets change, or the message is stored as well. -/
theorem send_cases (q : Request) (id : UInt8) (c : Client) :
    ∃ c₁ : Client, c₁.msgs = c.msgs ∧ c₁.numMsgs = c.numMsgs ∧ c₁.nextRef = c.nextRef ∧
      (c.send q id = (c₁, []) ∨ c.send q id = c₁.listAdd q id) := by
  simp only [Client.send]
  set c₁ := if q.hasServer = true ∧ ¬ c.sock q.msgType.isAuth = true then
    c.setSock q.msgType.isAuth q.initOk else c with hc₁
  have h₁ : c₁.msgs = c.msgs ∧ c₁.numMsgs = c.numMsgs ∧ c₁.nextRef = c.nextRef := by
    rw [hc₁]
    split <;> simp
  obtain ⟨hm, hn, hr⟩ := h₁
  split_ifs
  · exact ⟨c₁, hm, hn, hr, Or.inl rfl⟩
  · exact ⟨c₁.setSock q.msgType.isAuth q.reinitOk, by simp [hm], by simp [hn], by simp [hr],
      Or.inr rfl⟩
  · exact ⟨c₁, hm, hn, hr, Or.inr rfl⟩
  · exact ⟨c₁.setSock q.msgType.isAuth q.reinitOk, by simp [hm], by simp [hn], by simp [hr],
      Or.inl rfl⟩
  · exact ⟨c₁, hm, hn, hr, Or.inl rfl⟩

theorem listAdd_wf (q : Request) (id : UInt8) (hwf : c.WF) : (c.listAdd q id).1.WF := by
  have hnew : ∀ l : List Entry, l.Sublist c.msgs →
      (c.nextRef :: l.map Entry.ref).Nodup ∧ ∀ r ∈ c.nextRef :: l.map Entry.ref, r < c.nextRef + 1 := by
    intro l hl
    have hfresh : ∀ r ∈ l.map Entry.ref, r < c.nextRef := fun r hr =>
      hwf.fresh r ((hl.map Entry.ref).subset hr)
    refine ⟨List.nodup_cons.mpr ⟨fun hmem => ?_, hwf.refs_nodup.sublist (hl.map Entry.ref)⟩, ?_⟩
    · exact absurd (hfresh _ hmem) (Nat.lt_irrefl _)
    · intro r hr
      rcases List.mem_cons.mp hr with rfl | hr
      · exact Nat.lt_succ_self _
      · exact Nat.lt_succ_of_lt (hfresh r hr)
  have hcount := hwf.count
  unfold Client.listAdd
  dsimp only
  split
  next hfull =>
    obtain ⟨hnodup, hfresh⟩ := hnew c.msgs.dropLast (List.dropLast_sublist _)
    refine ⟨hnodup, ?_, hfresh⟩
    unfold maxEntries at hfull
    simp only [List.length_cons, List.length_dropLast]
    omega
  next =>
    obtain ⟨hnodup, hfresh⟩ := hnew c.msgs (List.Sublist.refl _)
    refine ⟨hnodup, ?_, hfresh⟩
    simp only [List.length_cons]
    omega

end Operations

theorem init_wf (authSock acctSock : Bool) : (Client.init authSock acctSock).WF :=
  ⟨List.nodup_nil, Nat.le_refl _, fun r hr => absurd hr (by simp [Client.init, Client.refs])⟩

section Steps
variable {conf : Conf} {s s' : Session} {op : Op}

theorem Client.WF.of_same {c c' : Client} (hwf : c.WF) (hmsgs : c'.msgs = c.msgs)
    (hnum : c'.numMsgs = c.numMsgs) (href : c'.nextRef = c.nextRef) : c'.WF := by
  refine ⟨?_, ?_, ?_⟩
  · rw [Client.refs, hmsgs]
    exact hwf.refs_nodup
  · rw [hmsgs, hnum]
    exact hwf.count
  · rw [Client.refs, hmsgs, href]
    exact hwf.fresh

/-- One call keeps the list well formed, whatever identifiers are drawn. -/
theorem step_wf (hwf : s.client.WF) (hstep : (step conf (some s) op).1 = some s') :
    s'.client.WF := by
  cases op with
  | getId =>
    obtain rfl := Option.some.inj hstep
    exact (getId_evolves s.client).wf hwf
  | send q =>
    simp only [step] at hstep
    cases hdrawn : s.drawn with
    | none =>
      rw [hdrawn] at hstep
      obtain rfl := Option.some.inj hstep
      exact hwf
    | some id =>
      rw [hdrawn] at hstep
      obtain rfl := Option.some.inj hstep
      obtain ⟨c₁, hm, hn, hr, hsend | hsend⟩ := send_cases q id s.client
      · rw [hsend]
        exact hwf.of_same hm hn hr
      · rw [hsend]
        exact listAdd_wf q id (hwf.of_same hm hn hr)
  | receive auth id =>
    obtain rfl := Option.some.inj hstep
    exact (receive_evolves auth id hwf).1.wf hwf
  | timer i =>
    rcases timer_spec conf i hwf with ⟨hfault, -⟩ | ⟨c', gone, hfinished, -, hev, -, -⟩
    · simp only [step, hfault] at hstep
      cases hstep
    · simp only [step, hfinished] at hstep
      obtain rfl := Option.some.inj hstep
      exact hev.wf hwf
  | flush onlyAuth =>
    obtain rfl := Option.some.inj hstep
    exact (flush_evolves onlyAuth hwf).wf hwf

theorem final_wf {start : Client} (hwf : start.WF) (ops : List Op) :
    ∀ s, final (step conf) (some ⟨start, none⟩) ops = some s → s.client.WF := by
  induction ops using List.reverseRecOn with
  | nil =>
    intro s hs
    obtain rfl := Option.some.inj hs
    exact hwf
  | append_singleton ops op ih =>
    intro s hs
    rw [final_append] at hs
    cases hpre : final (step conf) (some ⟨start, none⟩) ops with
    | none =>
      rw [hpre] at hs
      cases hs
    | some s₀ =>
      rw [hpre] at hs
      exact step_wf (ih s₀ hpre) hs

end Steps

/-- The accounts after a call: the counter is the number of pending requests, of which there are at
most so many, no two of them with one identifier, and every request that is gone is gone for one of
the reasons allowed. -/
def Balanced (t : Lib.Event (Option Session) Op Removal) : Prop :=
  ∃ s', t.post = some s' ∧ s'.client.numMsgs = s'.client.msgs.length ∧
    s'.client.msgs.length ≤ maxEntries ∧ s'.client.ids.Nodup ∧
    (∀ g ∈ t.out, g.reason.Allowed) ∧
    ∀ s, t.pre = some s → ∀ r ∈ s.client.refs, r ∈ s'.client.refs ∨ r ∈ t.out.map Removal.ref

/-- The call draws no identifier of a pending request, and a run of the timer drops no request for
want of a socket. -/
def Counted (conf : Conf) (s : Session) : Op → Prop
  | .getId => s.client.nextRadiusIdentifier ∉ s.client.ids
  | .timer i => TimerTurns (Undisturbed conf i.now) conf i s.client
  | _ => True

structure Session.Inv (s : Session) : Prop where
  wf : s.client.WF
  num : s.client.numMsgs = s.client.msgs.length
  bound : s.client.msgs.length ≤ maxEntries
  ids : s.client.ids.Nodup
  drawn : ∀ d, s.drawn = some d → d ∉ s.client.ids

section Balance
variable {conf : Conf} {s s' : Session} {op : Op} {gone : List Removal}

theorem balanced_iff_of_evolves (s' : Session) (h : s.Inv) (hev : Evolves s.client s'.client gone) :
    Balanced ⟨some s, op, some s', gone⟩ ↔
      ∀ g ∈ gone, g.reason ≠ .idReused ∧ g.reason.Allowed := by
  have hdrift := hev.drift h.wf
  rw [h.num, Nat.sub_self, Nat.zero_add] at hdrift
  constructor
  · rintro ⟨s₁, hpost, hnum, -, -, hallowed, -⟩ g hg
    obtain rfl := Option.some.inj hpost
    have hzero : uncounted gone = 0 := by
      rw [← hdrift, hnum, Nat.sub_self]
    exact ⟨uncounted_eq_zero.mp hzero g hg, hallowed g hg⟩
  · intro hgone
    have hzero : uncounted gone = 0 := uncounted_eq_zero.mpr fun g hg => (hgone g hg).1
    have hcount := (hev.wf h.wf).count
    refine ⟨s', rfl, by omega, Nat.le_trans hev.length_le h.bound, hev.ids h.ids,
      fun g hg => (hgone g hg).2, fun s₁ hs₁ r hr => ?_⟩
    obtain rfl := Option.some.inj hs₁
    exact List.mem_append.mp (hev.refs.symm.subset hr)

/-- Storing a message whose identifier no pending request has. -/
theorem listAdd_balanced {c₁ : Client} {q : Request} {id : UInt8} (h : s.Inv)
    (hfresh : id ∉ s.client.ids) (hmsgs : c₁.msgs = s.client.msgs)
    (hnum : c₁.numMsgs = s.client.numMsgs) :
    Balanced ⟨some s, op, some ⟨(c₁.listAdd q id).1, none⟩, (c₁.listAdd q id).2⟩ := by
  have hnumlen := h.num
  have hbound := h.bound
  unfold maxEntries at hbound
  unfold Client.listAdd
  simp only [hmsgs, hnum]
  split
  next hfull =>
    have hnil : s.client.msgs ≠ [] := by
      intro hnil
      unfold maxEntries at hfull
      rw [hnumlen, hnil, List.length_nil] at hfull
      omega
    have hsub := (List.dropLast_sublist s.client.msgs).map Entry.id
    unfold maxEntries at hfull
    have hpos := List.length_pos_of_ne_nil hnil
    refine ⟨_, rfl, ?_, ?_, ?_, ?_, ?_⟩
    · simp only [List.length_cons, List.length_dropLast]
      omega
    · unfold maxEntries
      simp only [List.length_cons, List.length_dropLast]
      omega
    · exact List.nodup_cons.mpr ⟨fun hmem => hfresh (hsub.subset hmem), h.ids.sublist hsub⟩
    · intro g hg
      obtain ⟨x, -, rfl⟩ := List.mem_map.mp hg
      show s.client.msgs.length = maxEntries
      unfold maxEntries
      omega
    · intro s₁ hs₁ r hr
      obtain rfl := Option.some.inj hs₁
      obtain ⟨x, hx, rfl⟩ := List.mem_map.mp hr
      rw [← List.dropLast_append_getLast hnil, List.mem_append, List.mem_singleton] at hx
      rcases hx with hx | rfl
      · exact Or.inl (List.mem_cons_of_mem _ (List.mem_map_of_mem hx))
      · refine Or.inr ?_
        simp [List.getLast?_eq_some_getLast hnil]
  next hroom =>
    unfold maxEntries at hroom
    refine ⟨_, rfl, ?_, ?_, ?_, ?_, ?_⟩
    · simp only [List.length_cons, hnumlen]
    · unfold maxEntries
      simp only [List.length_cons]
      omega
    · exact List.nodup_cons.mpr ⟨hfresh, h.ids⟩
    · simp
    · intro s₁ hs₁ r hr
      obtain rfl := Option.some.inj hs₁
      exact Or.inl (List.mem_cons_of_mem _ hr)

theorem Evolves.of_same_msgs {c c' : Client} (hmsgs : c'.msgs = c.msgs)
    (hnum : c'.numMsgs = c.numMsgs) (href : c'.nextRef = c.nextRef) : Evolves c c' [] :=
  .of_same (by rw [Client.refs, hmsgs]; rfl) (by rw [Client.ids, hmsgs]; rfl) hnum href

/-- From balanced accounts a call leaves balanced accounts exactly if it counts what it removes. -/
theorem balanced_iff (h : s.Inv) :
    Balanced (event (step conf) (some s) op) ↔ Counted conf s op := by
  cases op with
  | getId =>
    have hev : Evolves s.client s.client.getId.1 s.client.getId.2.2 := getId_evolves _
    refine (balanced_iff_of_evolves ⟨_, _⟩ h hev).trans ?_
    show _ ↔ s.client.nextRadiusIdentifier ∉ s.client.ids
    rw [← getId_gone_eq_nil, List.eq_nil_iff_forall_not_mem]
    refine ⟨fun hall g hg => (hall g hg).1 (getId_reason hg), fun hnone g hg => ?_⟩
    exact absurd hg (hnone g)
  | send q =>
    refine iff_of_true ?_ trivial
    unfold event
    simp only [step]
    cases hdrawn : s.drawn with
    | none =>
      refine (balanced_iff_of_evolves _ h (Evolves.refl _)).mpr ?_
      simp
    | some id =>
      dsimp only
      obtain ⟨c₁, hm, hn, hr, hsend | hsend⟩ := send_cases q id s.client
      · rw [hsend]
        refine (balanced_iff_of_evolves _ h (Evolves.of_same_msgs hm hn hr)).mpr ?_
        simp
      · rw [hsend]
        exact listAdd_balanced h (h.drawn id hdrawn) hm hn
  | receive auth id =>
    obtain ⟨hev, hreason, -⟩ := receive_evolves auth id h.wf
    refine iff_of_true ((balanced_iff_of_evolves ⟨_, _⟩ h hev).mpr fun g hg => ?_) trivial
    rw [hreason g hg]
    exact ⟨by decide, trivial⟩
  | timer i =>
    unfold event
    show _ ↔ TimerTurns (Undisturbed conf i.now) conf i s.client
    rcases timer_spec conf i h.wf with ⟨hfault, hunsafe⟩ |
      ⟨c', gone, hfinished, -, hev, hreasons, hundisturbed⟩
    · simp only [step, hfault]
      refine iff_of_false ?_ fun hu => hunsafe fun hne => ?_
      · rintro ⟨s', hs', -⟩
        cases hs'
      · exact AllTurns.mono (fun _ _ _ => Undisturbed.safe) _ _ (hu hne)
    · simp only [step, hfinished]
      rw [balanced_iff_of_evolves _ h hev, ← hundisturbed]
      refine forall₂_congr fun g hg => and_congr_right fun _ => ⟨fun hallowed hno => ?_, fun hno => ?_⟩
      · rw [hno] at hallowed
        exact hallowed
      · exact (hreasons g hg).resolve_left hno
  | flush onlyAuth =>
    refine iff_of_true ((balanced_iff_of_evolves ⟨_, _⟩ h
      (flush_evolves onlyAuth h.wf)).mpr fun g hg => ?_) trivial
    obtain ⟨x, -, rfl⟩ := List.mem_map.mp hg
    exact ⟨by simp, trivial⟩

theorem drawn_fresh_after (h : s.Inv) (hstep : (step conf (some s) op).1 = some s') :
    ∀ d, s'.drawn = some d → d ∉ s'.client.ids := by
  intro d hd
  cases op with
  | getId =>
    obtain rfl := Option.some.inj hstep
    obtain rfl := Option.some.inj hd
    intro hmem
    obtain ⟨x, hx, hxid⟩ := List.mem_map.mp hmem
    have := (List.mem_filter.mp hx).2
    simp [hxid, Client.getId] at this
  | send q =>
    simp only [step] at hstep
    cases hdrawn : s.drawn with
    | none =>
      rw [hdrawn] at hstep
      obtain rfl := Option.some.inj hstep
      exact absurd (hdrawn.symm.trans hd) (by simp)
    | some id =>
      rw [hdrawn] at hstep
      obtain rfl := Option.some.inj hstep
      cases hd
  | receive auth id =>
    obtain rfl := Option.some.inj hstep
    have hsub := (receive_evolves auth id h.wf).2.2.map Entry.id
    exact fun hmem => h.drawn d hd (hsub.subset hmem)
  | timer i =>
    simp only [step] at hstep
    cases hrun : s.client.timer conf i with
    | finished c gone =>
      rw [hrun] at hstep
      obtain rfl := Option.some.inj hstep
      cases hd
    | fault =>
      rw [hrun] at hstep
      cases hstep
    | running =>
      rw [hrun] at hstep
      cases hstep
  | flush onlyAuth =>
    obtain rfl := Option.some.inj hstep
    have hsub : ((s.client.flush onlyAuth).1.ids).Sublist s.client.ids :=
      List.filter_sublist.map Entry.id
    exact fun hmem => h.drawn d hd (hsub.subset hmem)

theorem inv_step (h : s.Inv) (hbalanced : Balanced (event (step conf) (some s) op)) :
    ∃ s', (step conf (some s) op).1 = some s' ∧ s'.Inv := by
  obtain ⟨s', hpost, hnum, hbound, hids, -, -⟩ := hbalanced
  exact ⟨s', hpost, step_wf h.wf hpost, hnum, hbound, hids, drawn_fresh_after h hpost⟩

end Balance

theorem init_inv (authSock acctSock : Bool) : Session.Inv ⟨Client.init authSock acctSock, none⟩ :=
  ⟨init_wf authSock acctSock, rfl, Nat.zero_le _, List.nodup_nil, fun d hd => by cases hd⟩

/-- The accounts of a run stay balanced exactly if no call draws an identifier of a pending request
and no request is dropped for want of a socket. -/
theorem accounts_balanced_iff (conf : Conf) (authSock acctSock : Bool) (ops : List Op) :
    (∀ t ∈ trace (step conf) (some ⟨Client.init authSock acctSock, none⟩) ops, Balanced t) ↔
      ∀ t ∈ trace (step conf) (some ⟨Client.init authSock acctSock, none⟩) ops,
        ∀ s, t.pre = some s → Counted conf s t.input := by
  refine all_good_iff (I := fun o => ∃ s : Session, o = some s ∧ s.Inv)
    (p := fun o op => ∀ s, o = some s → Counted conf s op) ?_ ?_ ⟨_, rfl, init_inv _ _⟩ ops
  · rintro _ op ⟨s, rfl, hinv⟩
    rw [balanced_iff hinv]
    refine ⟨fun h s' hs' => ?_, fun h => h s rfl⟩
    obtain rfl := Option.some.inj hs'
    exact h
  · rintro _ op ⟨s, rfl, hinv⟩ hbalanced
    exact inv_step hinv hbalanced

/-- A server that is always there, for the examples below. -/
def oneServer : Conf := ⟨⟨1, fun _ => 0⟩, ⟨1, fun _ => 0⟩⟩

def acctRequest : Request :=
  { msgType := .acct
    delayTime := true
    now := 0
    hasServer := true
    hasSecret := true
    initOk := true
    send := .ok
    reinitOk := true
    stored := true }

/-- An accounting request with identifier 0, and 255 further identifiers drawn. -/
def wrappedOps : List Op := .getId :: .send acctRequest :: List.replicate 255 .getId

/-- The next identifier is 0 again: drawing it removes the request, and the counter stays 1. -/
theorem accounts_unbalanced_after_wrap :
    ¬ ∀ t ∈ trace (step oneServer) (some ⟨Client.init true true, none⟩) (wrappedOps ++ [.getId]),
      Balanced t := by
  intro h
  rw [trace_append] at h
  have hfinal : ((step oneServer (final (step oneServer) (some ⟨Client.init true true, none⟩)
      wrappedOps) .getId).1.map fun s => (s.client.numMsgs, s.client.msgs.length)) = some (1, 0) := by
    decide +kernel
  generalize final (step oneServer) (some ⟨Client.init true true, none⟩) wrappedOps = o at h hfinal
  obtain ⟨s', hpost, hnum, -⟩ := h (event (step oneServer) o .getId)
    (List.mem_append_right _ (List.mem_singleton_self _))
  have hpost' : (step oneServer o .getId).1 = some s' := hpost
  rw [hpost', Option.map_some, Option.some.injEq, hnum, Prod.mk.injEq] at hfinal
  exact absurd (hfinal.1.symm.trans hfinal.2) (by decide)

/-- In every reachable state a run of the timer finishes, following only pointers to entries of the
list, exactly if no turn draws the identifier of the entry it is about or, giving that entry up, of
the one in front of it. -/
theorem timer_finishes_iff (conf : Conf) (authSock acctSock : Bool) (ops : List Op) (s : Session)
    (hs : final (step conf) (some ⟨Client.init authSock acctSock, none⟩) ops = some s)
    (i : TimerInput) :
    (∃ c gone, s.client.timer conf i = .finished c gone) ↔
      TimerTurns (SafeDraw conf i.now) conf i s.client := by
  have hwf := final_wf (init_wf authSock acctSock) ops s hs
  rcases timer_spec conf i hwf with ⟨hfault, hunsafe⟩ | ⟨c, gone, hfinished, hsafe, -⟩
  · refine iff_of_false ?_ hunsafe
    rintro ⟨c, gone, h⟩
    rw [hfault] at h
    cases h
  · exact iff_of_true ⟨c, gone, hfinished⟩ hsafe

def upTurn : Turn := ⟨true, true, .ok, true⟩

/-- A run of the timer when the request is due, with the socket up. -/
def dueTimer : TimerInput := ⟨3, true, true, fun _ => upTurn⟩

theorem timer_finishes_iff_one_request :
    ∃ s, final (step oneServer) (some ⟨Client.init true true, none⟩) [.getId, .send acctRequest] =
        some s ∧ TimerTurns (SafeDraw oneServer dueTimer.now) oneServer dueTimer s.client :=
  ⟨_, rfl, (timer_finishes_iff oneServer true true [.getId, .send acctRequest] _ rfl dueTimer).mp
    ⟨_, _, rfl⟩⟩

/-- The identifier drawn for the retransmission is the request's own: the request is freed while it
is being retransmitted. -/
theorem timer_faults_after_wrap :
    ∃ s, final (step oneServer) (some ⟨Client.init true true, none⟩) wrappedOps = some s ∧
      s.client.timer oneServer dueTimer = .fault := by
  have hrun : ((final (step oneServer) (some ⟨Client.init true true, none⟩) wrappedOps).map
      fun s => s.client.timer oneServer dueTimer) = some .fault := by
    decide +kernel
  rw [Option.map_eq_some_iff] at hrun
  exact hrun

end Wpa.Radius
