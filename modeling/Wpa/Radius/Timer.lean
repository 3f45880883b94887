import Wpa.Radius.Client

/-! One run of `radius_client_timer`. Its pointers divide the list into the entries behind and the
entries ahead. They are invalidated only by `radius_client_get_id`, which the loop does not notice
because the counter it watches does not change. -/

namespace Wpa.Radius

def Client.refs (c : Client) : List ℕ := c.msgs.map Entry.ref

def Client.ids (c : Client) : List UInt8 := c.msgs.map Entry.id

structure Client.WF (c : Client) : Prop where
  refs_nodup : c.refs.Nodup
  count : c.msgs.length ≤ c.numMsgs
  fresh : ∀ r ∈ c.refs, r < c.nextRef

/-- Removals that `radius_client_get_id` did not count. -/
def uncounted (gone : List Removal) : ℕ := gone.countP fun g => g.reason = .idReused

/-- What the removals `gone` have done to a client. -/
structure Evolves (c c' : Client) (gone : List Removal) : Prop where
  refs : (c'.refs ++ gone.map Removal.ref).Perm c.refs
  num : c'.numMsgs + gone.length = c.numMsgs + uncounted gone
  nextRef : c'.nextRef = c.nextRef
  ids : c.ids.Nodup → c'.ids.Nodup

section Evolves
variable {c c' c'' : Client} {gone gone' : List Removal}

theorem Evolves.refl (c : Client) : Evolves c c [] := ⟨by simp, by simp [uncounted], rfl, id⟩

theorem Evolves.trans (h : Evolves c c' gone) (h' : Evolves c' c'' gone') :
    Evolves c c'' (gone ++ gone') := by
  refine ⟨?_, ?_, h'.nextRef.trans h.nextRef, fun hids => h'.ids (h.ids hids)⟩
  · rw [List.map_append]
    calc (c''.refs ++ (gone.map Removal.ref ++ gone'.map Removal.ref)).Perm
          (c''.refs ++ (gone'.map Removal.ref ++ gone.map Removal.ref)) :=
        List.Perm.append_left _ List.perm_append_comm
      _ = c''.refs ++ gone'.map Removal.ref ++ gone.map Removal.ref := by
        rw [List.append_assoc]
      List.Perm _ (c'.refs ++ gone.map Removal.ref) := List.Perm.append_right _ h'.refs
      List.Perm _ c.refs := h.refs
  · have h₁ := h.num
    have h₂ := h'.num
    simp only [uncounted, List.length_append, List.countP_append] at *
    omega

theorem Evolves.length (h : Evolves c c' gone) :
    c'.msgs.length + gone.length = c.msgs.length := by
  have := h.refs.length_eq
  simpa [Client.refs] using this

theorem uncounted_le (gone : List Removal) : uncounted gone ≤ gone.length := List.countP_le_length

theorem Evolves.wf (h : Evolves c c' gone) (hwf : c.WF) : c'.WF := by
  have hnodup := h.refs.nodup_iff.mpr hwf.refs_nodup
  refine ⟨(List.nodup_append.mp hnodup).1, ?_, fun r hr => ?_⟩
  · have hnum := h.num
    have hlen := h.length
    have hcount := hwf.count
    omega
  · rw [h.nextRef]
    exact hwf.fresh r (h.refs.subset (List.mem_append_left _ hr))

/-- What the counter is ahead of the list by grows by what was not counted. -/
theorem Evolves.drift (h : Evolves c c' gone) (hwf : c.WF) :
    c'.numMsgs - c'.msgs.length = c.numMsgs - c.msgs.length + uncounted gone := by
  have hnum := h.num
  have hlen := h.length
  have hcount := hwf.count
  omega

end Evolves

section Servers
variable {c : Client} {conf : Conf}

/-- A change of an entry that keeps what tells the entries apart and decides their fate. -/
structure Keeps (f : Entry → Entry) : Prop where
  ref : ∀ e, (f e).ref = e.ref
  id : ∀ e, (f e).id = e.id
  msgType : ∀ e, (f e).msgType = e.msgType
  delayTime : ∀ e, (f e).delayTime = e.delayTime
  accuAttempts : ∀ e, (f e).accuAttempts = e.accuAttempts

/-- What setting up sockets and changing servers can do: the authentication messages are flushed or
nothing is, and of the entries that stay only the retry times change. -/
structure Reopened (c c' : Client) (flushAuth : Bool) (gone : List Removal) (f : Entry → Entry) :
    Prop where
  keeps : Keeps f
  msgs : c'.msgs = (c.msgs.filter fun e => !(flushAuth && e.msgType.isAuth)).map f
  gone_eq : gone = (c.msgs.filter fun e => flushAuth && e.msgType.isAuth).map
    fun e => ⟨e.ref, .flushed⟩
  num : c'.numMsgs = c.numMsgs - gone.length
  nextId : c'.nextRadiusIdentifier = c.nextRadiusIdentifier
  nextRef : c'.nextRef = c.nextRef

theorem Reopened.evolves {c' : Client} {flushAuth : Bool} {gone : List Removal}
    {f : Entry → Entry} (h : Reopened c c' flushAuth gone f) (hwf : c.WF) : Evolves c c' gone := by
  have hflushed : uncounted gone = 0 := by
    rw [uncounted, List.countP_eq_zero, h.gone_eq]
    intro g hg
    obtain ⟨e, -, rfl⟩ := List.mem_map.mp hg
    simp
  have hrefs : c'.refs = (c.msgs.filter fun e => !(flushAuth && e.msgType.isAuth)).map Entry.ref := by
    rw [Client.refs, h.msgs, List.map_map]
    exact List.map_congr_left fun e _ => h.keeps.ref e
  have hgone : gone.map Removal.ref =
      (c.msgs.filter fun e => flushAuth && e.msgType.isAuth).map Entry.ref := by
    rw [h.gone_eq, List.map_map]
    rfl
  have hperm : (c'.refs ++ gone.map Removal.ref).Perm c.refs := by
    rw [hrefs, hgone, ← List.map_append]
    apply List.Perm.map
    exact (List.perm_append_comm).trans (List.filter_append_perm _ _)
  have hle : gone.length ≤ c.numMsgs := by
    have := hperm.length_eq
    simp only [Client.refs, List.length_append, List.length_map] at this
    have := hwf.count
    omega
  refine ⟨hperm, ?_, h.nextRef, fun hids => ?_⟩
  · rw [h.num, hflushed]
    omega
  · have hsub : c'.ids = (c.msgs.filter fun e => !(flushAuth && e.msgType.isAuth)).map Entry.id := by
      rw [Client.ids, h.msgs, List.map_map]
      exact List.map_congr_left fun e _ => h.keeps.id e
    rw [hsub]
    exact hids.sublist (List.filter_sublist.map Entry.id)

theorem resetRetries_keeps (auth : Bool) : Keeps fun e =>
    if (if auth then e.msgType = .auth else e.msgType = .acct) then
      { e with nextTry := e.firstTry + firstWait, attempts := 0, nextWait := firstWait * 2 }
    else e := by
  constructor <;> intro e <;> split_ifs <;> rfl

theorem keeps_id : Keeps id := by
  constructor <;> intro e <;> rfl

@[simp] theorem setSock_msgs (auth ok : Bool) : (c.setSock auth ok).msgs = c.msgs := by
  cases auth <;> rfl

@[simp] theorem setSock_numMsgs (auth ok : Bool) : (c.setSock auth ok).numMsgs = c.numMsgs := by
  cases auth <;> rfl

@[simp] theorem setSock_nextId (auth ok : Bool) :
    (c.setSock auth ok).nextRadiusIdentifier = c.nextRadiusIdentifier := by
  cases auth <;> rfl

@[simp] theorem setSock_nextRef (auth ok : Bool) : (c.setSock auth ok).nextRef = c.nextRef := by
  cases auth <;> rfl

@[simp] theorem setServer_msgs (auth : Bool) (i : ℕ) : (c.setServer auth i).msgs = c.msgs := by
  cases auth <;> rfl

@[simp] theorem setServer_numMsgs (auth : Bool) (i : ℕ) :
    (c.setServer auth i).numMsgs = c.numMsgs := by
  cases auth <;> rfl

@[simp] theorem setServer_nextId (auth : Bool) (i : ℕ) :
    (c.setServer auth i).nextRadiusIdentifier = c.nextRadiusIdentifier := by
  cases auth <;> rfl

@[simp] theorem setServer_nextRef (auth : Bool) (i : ℕ) :
    (c.setServer auth i).nextRef = c.nextRef := by
  cases auth <;> rfl

theorem Reopened.of_same {c₁ c' : Client} {flushAuth : Bool} {gone : List Removal}
    {f : Entry → Entry} (h : Reopened c₁ c' flushAuth gone f) (hmsgs : c₁.msgs = c.msgs)
    (hnum : c₁.numMsgs = c.numMsgs) (hid : c₁.nextRadiusIdentifier = c.nextRadiusIdentifier)
    (href : c₁.nextRef = c.nextRef) : Reopened c c' flushAuth gone f := by
  refine ⟨h.keeps, ?_, ?_, ?_, ?_, ?_⟩
  · rw [h.msgs, hmsgs]
  · rw [h.gone_eq, hmsgs]
  · rw [h.num, hnum]
  · rw [h.nextId, hid]
  · rw [h.nextRef, href]

theorem reopened_self (c : Client) : Reopened c c false [] id :=
  ⟨keeps_id, by simp, by simp, by simp, rfl, rfl⟩

/-- Flushing or not, resetting the retry counters and connecting. -/
theorem reopened_flush (auth ok flushAuth : Bool) (c : Client) :
    let flushed := if flushAuth then c.flush true else (c, [])
    Reopened c (if ok then (flushed.1.resetRetries auth).setSock auth true
      else flushed.1.resetRetries auth) flushAuth flushed.2 fun e =>
        if (if auth then e.msgType = .auth else e.msgType = .acct) then
          { e with nextTry := e.firstTry + firstWait, attempts := 0, nextWait := firstWait * 2 }
        else e := by
  refine ⟨resetRetries_keeps auth, ?_, ?_, ?_, ?_, ?_⟩
  · cases flushAuth <;> cases ok <;> simp [Client.flush, Client.resetRetries]
  · cases flushAuth <;> simp [Client.flush]
  · cases flushAuth <;> cases ok <;> simp [Client.flush, Client.resetRetries]
  · cases flushAuth <;> cases ok <;> simp [Client.flush, Client.resetRetries]
  · cases flushAuth <;> cases ok <;> simp [Client.flush, Client.resetRetries]

theorem failover_reopened (conf : Conf) (auth ok : Bool) (c : Client) :
    ∃ flushAuth f, (auth = false → flushAuth = false) ∧
      Reopened c (c.failover conf auth ok).1 flushAuth (c.failover conf auth ok).2 f := by
  simp only [Client.failover, Client.changeServer]
  generalize (if c.server auth + 1 > (conf.servers auth).num - 1 then 0
    else c.server auth + 1) = new
  have hsame : ∀ flushAuth, Reopened c _ flushAuth _ _ := fun flushAuth =>
    (reopened_flush auth ok flushAuth (c.setServer auth new)).of_same (by simp) (by simp) (by simp)
      (by simp)
  by_cases hflush : auth = true ∧ (c.server auth = new ∨
      (conf.servers auth).secret new ≠ (conf.servers auth).secret (c.server auth))
  · simp only [if_pos hflush]
    exact ⟨true, _, fun h => absurd hflush.1 (by simp [h]), hsame true⟩
  · simp only [if_neg hflush]
    exact ⟨false, _, fun _ => rfl, hsame false⟩

theorem openSock_reopened (conf : Conf) (t : Turn) (auth : Bool) (c : Client) :
    ∃ flushAuth f, (auth = false → flushAuth = false) ∧
      Reopened c (c.openSock conf t auth).1 flushAuth (c.openSock conf t auth).2 f := by
  have hinit : Reopened c (if c.sock auth then c else c.setSock auth t.initOk) false [] id := by
    split
    · exact reopened_self c
    · exact (reopened_self _).of_same (by simp) (by simp) (by simp) (by simp)
  unfold Client.openSock
  generalize (if c.sock auth then c else c.setSock auth t.initOk) = c₁ at hinit ⊢
  dsimp only
  split
  · obtain ⟨flushAuth, f, hacct, h⟩ := failover_reopened conf auth t.connectOk c₁
    refine ⟨flushAuth, f, hacct, h.of_same ?_ ?_ hinit.nextId hinit.nextRef⟩
    · simpa using hinit.msgs
    · simpa using hinit.num
  · exact ⟨false, id, fun _ => rfl, hinit⟩

end Servers

section Position
variable {c : Client} {before ahead : List Entry} {e : Entry}

theorem ref_ne_of_mem_before (hnodup : ((before ++ e :: ahead).map Entry.ref).Nodup) {x : Entry}
    (hx : x ∈ before) : x.ref ≠ e.ref := by
  rw [List.map_append, List.nodup_append] at hnodup
  exact hnodup.2.2 _ (List.mem_map_of_mem hx) _ (by simp)

theorem ref_ne_of_mem_ahead (hnodup : ((before ++ e :: ahead).map Entry.ref).Nodup) {x : Entry}
    (hx : x ∈ ahead) : x.ref ≠ e.ref := by
  rw [List.map_append, List.nodup_append, List.map_cons, List.nodup_cons] at hnodup
  intro h
  exact hnodup.2.1.1 (h ▸ List.mem_map_of_mem hx)

theorem dropWhile_at (hnodup : ((before ++ e :: ahead).map Entry.ref).Nodup) :
    ((before ++ e :: ahead).dropWhile fun x => x.ref ≠ e.ref) = e :: ahead := by
  rw [List.dropWhile_append_of_pos]
  · simp
  · intro x hx
    simpa using ref_ne_of_mem_before hnodup hx

theorem find_at (hnodup : ((before ++ e :: ahead).map Entry.ref).Nodup)
    (hmsgs : c.msgs = before ++ e :: ahead) : c.find e.ref = some e := by
  rw [Client.find, hmsgs, List.find?_append, List.find?_eq_none.mpr]
  · simp
  · intro x hx
    simpa using ref_ne_of_mem_before hnodup hx

theorem nextOf_at (hnodup : ((before ++ e :: ahead).map Entry.ref).Nodup) :
    nextOf (before ++ e :: ahead) e.ref = ahead.head?.map Entry.ref := by
  rw [nextOf, dropWhile_at hnodup, List.tail_cons]

theorem unlink_at (hnodup : ((before ++ e :: ahead).map Entry.ref).Nodup) :
    unlink (before ++ e :: ahead) (before.getLast?.map Entry.ref) e.ref = before ++ ahead := by
  unfold unlink
  rw [dropWhile_at hnodup, List.tail_cons]
  rcases List.eq_nil_or_concat before with rfl | ⟨init, p, rfl⟩
  · rfl
  · rw [List.concat_eq_append] at hnodup ⊢
    have hsplit : init ++ [p] ++ e :: ahead = init ++ p :: e :: ahead := by simp
    rw [hsplit] at hnodup ⊢
    rw [List.getLast?_concat, Option.map_some]
    have hinit : ∀ x ∈ init, x.ref ≠ p.ref := fun x hx => ref_ne_of_mem_before hnodup hx
    have hahead : ∀ x ∈ e :: ahead, x.ref ≠ p.ref := fun x hx => ref_ne_of_mem_ahead hnodup hx
    have htake : ((init ++ p :: e :: ahead).takeWhile fun x => x.ref ≠ p.ref) = init := by
      rw [List.takeWhile_append_of_pos]
      · simp
      · intro x hx
        simpa using hinit x hx
    have hfilter : ((init ++ p :: e :: ahead).filter fun x => x.ref = p.ref) = [p] := by
      rw [List.filter_append, List.filter_eq_nil_iff.mpr, List.filter_cons_of_pos (by simp),
        List.filter_eq_nil_iff.mpr]
      · rfl
      · intro x hx
        simpa using hahead x hx
      · intro x hx
        simpa using hinit x hx
    show (init ++ p :: e :: ahead).takeWhile _ ++ (init ++ p :: e :: ahead).filter _ ++ ahead = _
    rw [htake, hfilter]

theorem Evolves.of_same {c' : Client} (hrefs : c'.refs = c.refs) (hids : c'.ids = c.ids)
    (hnum : c'.numMsgs = c.numMsgs) (href : c'.nextRef = c.nextRef) : Evolves c c' [] :=
  ⟨by simp [hrefs], by simp [hnum, uncounted], href, fun h => hids ▸ h⟩

theorem update_at (hnodup : ((before ++ e :: ahead).map Entry.ref).Nodup)
    (hmsgs : c.msgs = before ++ e :: ahead) (f : Entry → Entry) :
    (c.update e.ref f).msgs = before ++ f e :: ahead := by
  have hsame : ∀ l : List Entry, (∀ x ∈ l, x.ref ≠ e.ref) →
      (l.map fun x => if x.ref = e.ref then f x else x) = l := by
    intro l hl
    rw [List.map_congr_left fun x hx => if_neg (hl x hx)]
    exact List.map_id l
  simp only [Client.update, hmsgs, List.map_append, List.map_cons, if_true]
  rw [hsame _ fun x hx => ref_ne_of_mem_before hnodup hx,
    hsame _ fun x hx => ref_ne_of_mem_ahead hnodup hx]

theorem getId_evolves (c : Client) : Evolves c c.getId.1 c.getId.2.2 := by
  refine ⟨?_, ?_, rfl, fun h => ?_⟩
  · simp only [Client.refs, Client.getId, List.map_map]
    show ((c.msgs.filter _).map Entry.ref ++ (c.msgs.filter _).map Entry.ref).Perm _
    rw [← List.map_append]
    apply List.Perm.map
    refine List.perm_append_comm.trans ?_
    simpa using List.filter_append_perm (fun e : Entry => decide (e.id = c.nextRadiusIdentifier)) c.msgs
  · have hall : uncounted c.getId.2.2 = c.getId.2.2.length := by
      rw [uncounted, List.countP_eq_length]
      intro g hg
      obtain ⟨e, -, rfl⟩ := List.mem_map.mp hg
      simp
    rw [hall]
    rfl
  · exact h.sublist (List.filter_sublist.map Entry.id)

/-- Renumbering an entry that is not removed by it. -/
theorem renumber_at (hnodup : ((before ++ e :: ahead).map Entry.ref).Nodup)
    (hmsgs : c.msgs = before ++ e :: ahead) (hid : e.id ≠ c.nextRadiusIdentifier) :
    ∃ c', c.renumber e.ref = some (c', c.getId.2.2) ∧
      c'.msgs = before.filter (fun x => x.id ≠ c.nextRadiusIdentifier) ++
        { e with id := c.nextRadiusIdentifier } ::
          ahead.filter (fun x => x.id ≠ c.nextRadiusIdentifier) ∧
      c'.numMsgs = c.numMsgs ∧ Evolves c c' c.getId.2.2 := by
  set k := c.nextRadiusIdentifier with hk
  have hdrawn : c.getId.1.msgs = before.filter (fun x => x.id ≠ k) ++
      e :: ahead.filter (fun x => x.id ≠ k) := by
    simp only [Client.getId, hmsgs, List.filter_append]
    rw [List.filter_cons_of_pos (by simpa using hid)]
  have hnodup' : ((before.filter (fun x => x.id ≠ k) ++
      e :: ahead.filter (fun x => x.id ≠ k)).map Entry.ref).Nodup := by
    refine hnodup.sublist (List.Sublist.map Entry.ref ?_)
    exact List.filter_sublist.append (List.filter_sublist.cons_cons e)
  have hfind := find_at hnodup' hdrawn
  have hupdate := update_at hnodup' hdrawn fun x => { x with id := k }
  refine ⟨_, by simp only [Client.renumber, hfind]; rfl, hupdate, rfl, ?_⟩
  have hgone := getId_evolves c
  refine ⟨?_, hgone.num, rfl, fun hids => ?_⟩
  · have hrefs : (c.getId.1.update e.ref fun x => { x with id := k }).refs = c.getId.1.refs := by
      rw [Client.refs, Client.refs, hupdate, hdrawn]
      simp
    show (Client.refs (c.getId.1.update e.ref fun x => { x with id := k }) ++ _).Perm _
    rw [hrefs]
    exact hgone.refs
  · -- the identifier drawn is nobody else's
    have hnone : ∀ l : List Entry, k ∉ (l.filter fun x => x.id ≠ k).map Entry.id := by
      intro l hmem
      obtain ⟨x, hx, hxk⟩ := List.mem_map.mp hmem
      simp [hxk] at hx
    have hold := hgone.ids hids
    rw [Client.ids, hdrawn] at hold
    rw [Client.ids, hupdate]
    simp only [List.map_append, List.map_cons, List.nodup_append, List.nodup_cons] at hold ⊢
    refine ⟨hold.1, ⟨hnone ahead, hold.2.1.2⟩, ?_⟩
    intro a ha x hx
    rcases List.mem_cons.mp hx with rfl | hx
    · rintro rfl
      exact hnone before ha
    · exact hold.2.2 a ha x (List.mem_cons_of_mem _ hx)

theorem renumber_self (hnodup : ((before ++ e :: ahead).map Entry.ref).Nodup)
    (hmsgs : c.msgs = before ++ e :: ahead) (hid : e.id = c.nextRadiusIdentifier) :
    c.renumber e.ref = none := by
  have hnone : c.getId.1.find e.ref = none := by
    rw [Client.find, List.find?_eq_none]
    intro x hx
    obtain ⟨hx, hxid⟩ := List.mem_filter.mp hx
    rw [hmsgs, List.mem_append, List.mem_cons] at hx
    rcases hx with hx | rfl | hx
    · simpa using ref_ne_of_mem_before hnodup hx
    · simp [hid] at hxid
    · simpa using ref_ne_of_mem_ahead hnodup hx
  simp only [Client.renumber, hnone]

end Position

/-- The retransmission of an accounting message with a delay time gets as far as drawing a new
identifier. -/
def Draws (conf : Conf) (t : Turn) (c : Client) (e : Entry) : Prop :=
  e.msgType = .acct ∧ e.delayTime = true ∧ (c.openSock conf t false).1.sock false = true

/-- No more retransmissions for this message. -/
def Exhausted (conf : Conf) (e : Entry) : Prop :=
  e.accuAttempts ≥ maxFailover * numFailover * (conf.servers e.msgType.isAuth).num

/-- There is no socket to retransmit the message over. -/
def NoSocket (conf : Conf) (t : Turn) (c : Client) (e : Entry) : Prop :=
  e.msgType ≠ .acctInterim ∧
    (c.openSock conf t e.msgType.isAuth).1.numMsgs = c.numMsgs ∧
    (c.openSock conf t e.msgType.isAuth).1.sock e.msgType.isAuth = false

instance (conf : Conf) (t : Turn) (c : Client) (e : Entry) : Decidable (Draws conf t c e) :=
  inferInstanceAs (Decidable (_ ∧ _ ∧ _))

instance (conf : Conf) (e : Entry) : Decidable (Exhausted conf e) :=
  inferInstanceAs (Decidable (_ ≥ _))

/-- Everything `radius_client_retransmit` can do with the entry `e` between `before` and `ahead`. -/
inductive Retransmitted (conf : Conf) (t : Turn) (c : Client) (before : List Entry) (e : Entry)
    (ahead : List Entry) : Option (Client × Option Reason × List Removal) → Prop
  | flushed (c' : Client) (gone : List Removal) (hnum : c'.numMsgs ≠ c.numMsgs)
      (hev : Evolves c c' gone) (hreason : ∀ g ∈ gone, g.reason = .flushed)
      (hdraws : ¬ Draws conf t c e) (hsock : ¬ NoSocket conf t c e) :
      Retransmitted conf t c before e ahead (some (c', none, gone))
  | fault (hdraws : Draws conf t c e) (hid : e.id = c.nextRadiusIdentifier) :
      Retransmitted conf t c before e ahead none
  | kept (c' : Client) (reason : Option Reason) (before' : List Entry) (e' : Entry)
      (ahead' : List Entry) (hmsgs : c'.msgs = before' ++ e' :: ahead')
      (hbefore : before'.map Entry.ref = before.map Entry.ref) (href : e'.ref = e.ref)
      (hahead : ahead'.map Entry.ref = ahead.map Entry.ref) (hnum : c'.numMsgs = c.numMsgs)
      (hev : Evolves c c' []) (hdraws : ¬ Draws conf t c e)
      (hsock : reason = some .noSocket ↔ NoSocket conf t c e)
      (hreason : ∀ q ∈ reason, q = .interim ∨ q = .noSocket ∨ q = .retryLimit) :
      Retransmitted conf t c before e ahead (some (c', reason, []))
  | drawn (c' : Client) (before' : List Entry) (e' : Entry) (ahead' : List Entry)
      (hmsgs : c'.msgs = before' ++ e' :: ahead')
      (hbefore : before'.map Entry.ref =
        (before.filter fun x => x.id ≠ c.nextRadiusIdentifier).map Entry.ref)
      (href : e'.ref = e.ref)
      (hahead : ahead'.map Entry.ref =
        (ahead.filter fun x => x.id ≠ c.nextRadiusIdentifier).map Entry.ref)
      (hnum : c'.numMsgs = c.numMsgs) (hev : Evolves c c' c.getId.2.2)
      (hdraws : Draws conf t c e) (hid : e.id ≠ c.nextRadiusIdentifier)
      (hsock : ¬ NoSocket conf t c e) :
      Retransmitted conf t c before e ahead
        (some (c', if Exhausted conf e then some .retryLimit else none, c.getId.2.2))

section Retransmit
variable {conf : Conf} {t : Turn} {now : ℕ} {c : Client} {before ahead : List Entry} {e : Entry}

theorem resend_spec (t : Turn) (now : ℕ) (e₀ : Entry)
    (hnodup : ((before ++ e :: ahead).map Entry.ref).Nodup)
    (hmsgs : c.msgs = before ++ e :: ahead) :
    ∃ e', e'.ref = e.ref ∧ (c.resend t now e.ref e₀).msgs = before ++ e' :: ahead ∧
      (c.resend t now e.ref e₀).numMsgs = c.numMsgs ∧ Evolves c (c.resend t now e.ref e₀) [] := by
  set e₁ : Entry := { e with attempts := e.attempts + 1, accuAttempts := e.accuAttempts + 1 } with he₁
  set c₁ := c.update e.ref fun e =>
    { e with attempts := e.attempts + 1, accuAttempts := e.accuAttempts + 1 } with hc₁
  set c₂ := if t.send = .notConnected then c₁.setSock e₀.msgType.isAuth t.reinitOk else c₁ with hc₂
  have hmsgs₂ : c₂.msgs = before ++ e₁ :: ahead := by
    have hmsgs₁ : c₁.msgs = before ++ e₁ :: ahead := update_at hnodup hmsgs _
    rw [hc₂]
    split
    · rw [setSock_msgs, hmsgs₁]
    · exact hmsgs₁
  have hnum₂ : c₂.numMsgs = c.numMsgs ∧ c₂.nextRef = c.nextRef := by
    rw [hc₂]
    split
    · exact ⟨setSock_numMsgs _ _, setSock_nextRef _ _⟩
    · exact ⟨rfl, rfl⟩
  have hresend : c.resend t now e.ref e₀ =
      if t.send = .notConnected ∧ e₀.msgType.isAuth then c₂
      else c₂.update e.ref fun e =>
        { e with nextTry := now + e.nextWait, nextWait := min (e.nextWait * 2) maxWait } := rfl
  have hfinal : ∃ e', e'.ref = e.ref ∧ e'.id = e.id ∧
      (c.resend t now e.ref e₀).msgs = before ++ e' :: ahead := by
    rw [hresend]
    split
    · exact ⟨e₁, rfl, rfl, hmsgs₂⟩
    · have hnodup₂ : ((before ++ e₁ :: ahead).map Entry.ref).Nodup := by simpa [he₁] using hnodup
      refine ⟨_, ?_, ?_, update_at hnodup₂ hmsgs₂ _⟩
      · rfl
      · rfl
  obtain ⟨e', href, hid, hmsgs'⟩ := hfinal
  have hnum' : (c.resend t now e.ref e₀).numMsgs = c.numMsgs ∧
      (c.resend t now e.ref e₀).nextRef = c.nextRef := by
    rw [hresend]
    split
    · exact hnum₂
    · exact hnum₂
  refine ⟨e', href, hmsgs', hnum'.1, Evolves.of_same ?_ ?_ hnum'.1 hnum'.2⟩
  · simp [Client.refs, hmsgs', hmsgs, href]
  · simp [Client.ids, hmsgs', hmsgs, hid]

theorem retransmit_spec (hwf : c.WF) (hmsgs : c.msgs = before ++ e :: ahead) :
    Retransmitted conf t c before e ahead (c.retransmit conf t now e.ref) := by
  have hnodup : ((before ++ e :: ahead).map Entry.ref).Nodup := by
    rw [← hmsgs]
    exact hwf.refs_nodup
  have hfind := find_at hnodup hmsgs
  obtain ⟨flushAuth, f, hacct, hopen⟩ := openSock_reopened conf t e.msgType.isAuth c
  have hev := hopen.evolves hwf
  have hsockOf : e.msgType = .acct →
      (c.openSock conf t false).1.sock false =
        (c.openSock conf t e.msgType.isAuth).1.sock e.msgType.isAuth := by
    intro h
    rw [h]
    rfl
  simp only [Client.retransmit, hfind]
  cases flushAuth with
  | true =>
    -- the entry itself is among the messages that are flushed
    have hauth : e.msgType.isAuth = true := by
      by_contra h
      exact absurd (hacct (by simpa using h)) (by decide)
    have hnum : (c.openSock conf t e.msgType.isAuth).1.numMsgs ≠ c.numMsgs := by
      have hmem : (⟨e.ref, .flushed⟩ : Removal) ∈ (c.openSock conf t e.msgType.isAuth).2 := by
        rw [hopen.gone_eq, List.mem_map]
        exact ⟨e, by simp [hmsgs, hauth], rfl⟩
      have hpos := List.length_pos_of_mem hmem
      have hlen := hev.length
      have hcount := hwf.count
      rw [hopen.num]
      omega
    rw [if_pos hnum]
    refine .flushed _ _ hnum hev ?_ (fun h => ?_) (fun h => hnum h.2.1)
    · intro g hg
      rw [hopen.gone_eq] at hg
      obtain ⟨x, -, rfl⟩ := List.mem_map.mp hg
      rfl
    · rw [h.1] at hauth
      exact absurd hauth (by decide)
  | false =>
    have hgone : (c.openSock conf t e.msgType.isAuth).2 = [] := by simp [hopen.gone_eq]
    have hnum : (c.openSock conf t e.msgType.isAuth).1.numMsgs = c.numMsgs := by
      rw [hopen.num, hgone]
      rfl
    have hid := hopen.nextId
    have hmsgs' : (c.openSock conf t e.msgType.isAuth).1.msgs =
        before.map f ++ f e :: ahead.map f := by
      simp [hopen.msgs, hmsgs]
    rw [hgone] at hev
    have hkeep : ∀ l : List Entry, (l.map f).map Entry.ref = l.map Entry.ref := by
      intro l
      rw [List.map_map]
      exact List.map_congr_left fun x _ => hopen.keeps.ref x
    have hnodup' : ((before.map f ++ f e :: ahead.map f).map Entry.ref).Nodup := by
      rw [← hmsgs']
      exact (hev.wf hwf).refs_nodup
    have hnoSocket : e.msgType ≠ .acctInterim →
        (NoSocket conf t c e ↔
          (c.openSock conf t e.msgType.isAuth).1.sock e.msgType.isAuth = false) := by
      intro htype
      exact ⟨fun h => h.2.2, fun h => ⟨htype, hnum, h⟩⟩
    generalize (c.openSock conf t e.msgType.isAuth) = opened at *
    obtain ⟨o, gone⟩ := opened
    subst hgone
    dsimp only at hnum hid hmsgs' hev hsockOf hnoSocket ⊢
    have hfind' : o.find e.ref = some (f e) := by
      have := find_at hnodup' hmsgs'
      rwa [hopen.keeps.ref] at this
    rw [if_neg (not_not.mpr hnum), hfind']
    dsimp only
    rw [hopen.keeps.msgType, hopen.keeps.delayTime, hopen.keeps.accuAttempts]
    by_cases hinterim : e.msgType = .acctInterim
    · rw [if_pos hinterim]
      refine .kept _ _ _ _ _ hmsgs' (hkeep before) (hopen.keeps.ref e) (hkeep ahead) hnum hev ?_ ?_ ?_
      · exact fun h => absurd (h.1.symm.trans hinterim) (by decide)
      · exact ⟨fun h => absurd h (by decide), fun h => absurd hinterim h.1⟩
      · rintro q ⟨⟩
        exact Or.inl rfl
    · rw [if_neg hinterim]
      have hns := hnoSocket hinterim
      cases hsock : o.sock e.msgType.isAuth with
      | false =>
        rw [hsock] at hns hsockOf
        rw [if_pos (by simp)]
        refine .kept _ _ _ _ _ hmsgs' (hkeep before) (hopen.keeps.ref e) (hkeep ahead) hnum hev ?_ ?_ ?_
        · intro h
          exact absurd (h.2.2.symm.trans (hsockOf h.1)) (by decide)
        · exact ⟨fun _ => hns.mpr rfl, fun _ => rfl⟩
        · rintro q ⟨⟩
          exact Or.inr (Or.inl rfl)
      | true =>
        rw [hsock] at hns hsockOf
        have hns' : ¬ NoSocket conf t c e := fun h => absurd (hns.mp h) (by decide)
        rw [if_neg (by simp)]
        by_cases hdelay : e.msgType = .acct ∧ e.delayTime = true
        · have hdraws : Draws conf t c e := ⟨hdelay.1, hdelay.2, hsockOf hdelay.1⟩
          have hgetId : o.getId.2.2 = c.getId.2.2 := by
            simp only [Client.getId, hid, hmsgs', hmsgs, ← List.map_cons, ← List.map_append,
              List.filter_map, List.map_map]
            simp only [Function.comp_def, hopen.keeps.ref, hopen.keeps.id]
          rw [if_pos hdelay]
          by_cases hown : e.id = c.nextRadiusIdentifier
          · have hnone := renumber_self hnodup' hmsgs' (by rw [hopen.keeps.id, hid, hown])
            rw [hopen.keeps.ref] at hnone
            rw [hnone]
            exact .fault hdraws hown
          · obtain ⟨c', hrenumber, hmsgs₁, hnum₁, hev₁⟩ := renumber_at hnodup' hmsgs'
              (by rw [hopen.keeps.id, hid]; exact hown)
            rw [hopen.keeps.ref, hgetId] at hrenumber
            rw [hgetId] at hev₁
            have hev' : Evolves c c' c.getId.2.2 := hev.trans hev₁
            have hfilter : ∀ l : List Entry,
                ((l.map f).filter fun x => x.id ≠ o.nextRadiusIdentifier).map Entry.ref =
                  (l.filter fun x => x.id ≠ c.nextRadiusIdentifier).map Entry.ref := by
              intro l
              rw [List.filter_map, List.map_map, hid]
              simp only [Function.comp_def, hopen.keeps.ref, hopen.keeps.id]
            rw [hrenumber]
            dsimp only
            rw [List.nil_append]
            have hdrawn : ∀ (c'' : Client) (e' : Entry) (hm : c''.msgs = _ ++ e' :: _),
                e'.ref = e.ref → c''.numMsgs = c.numMsgs → Evolves c c'' c.getId.2.2 →
                Retransmitted conf t c before e ahead (some (c'',
                  if Exhausted conf e then some .retryLimit else none, c.getId.2.2)) :=
              fun c'' e' hm href hn hv => .drawn c'' _ e' _ hm (hfilter before) href
                (hfilter ahead) hn hv hdraws hown hns'
            by_cases hex : Exhausted conf e
            · have hthis := hdrawn c' _ hmsgs₁ (hopen.keeps.ref e) (hnum₁.trans hnum) hev'
              rw [if_pos hex] at hthis
              exact (if_pos hex).symm ▸ hthis
            · obtain ⟨e', href, hmsgs₂, hnum₂, hev₂⟩ := resend_spec t now (f e)
                (hmsgs₁ ▸ (hev'.wf hwf).refs_nodup) hmsgs₁
              have hv := hev'.trans hev₂
              rw [List.append_nil] at hv
              have hthis := hdrawn _ e' hmsgs₂ (href.trans (hopen.keeps.ref e))
                (hnum₂.trans (hnum₁.trans hnum)) hv
              rw [if_neg hex] at hthis
              have href' : ({ f e with id := o.nextRadiusIdentifier } : Entry).ref = e.ref :=
                hopen.keeps.ref e
              rw [href'] at hthis
              exact (if_neg hex).symm ▸ hthis
        · rw [if_neg hdelay]
          dsimp only
          have hdraws : ¬ Draws conf t c e := fun h => hdelay ⟨h.1, h.2.1⟩
          rw [List.append_nil]
          by_cases hex : Exhausted conf e
          · refine (if_pos hex).symm ▸ .kept _ _ _ _ _ hmsgs' (hkeep before) (hopen.keeps.ref e)
              (hkeep ahead) hnum hev hdraws ?_ ?_
            · exact ⟨fun h => absurd h (by decide), fun h => absurd h hns'⟩
            · rintro q ⟨⟩
              exact Or.inr (Or.inr rfl)
          · obtain ⟨e', href, hmsgs₂, hnum₂, hev₂⟩ := resend_spec t now (f e) hnodup' hmsgs'
            rw [hopen.keeps.ref] at href hmsgs₂ hnum₂ hev₂
            refine (if_neg hex).symm ▸ .kept _ _ _ _ _ hmsgs₂ (hkeep before) href (hkeep ahead)
              (hnum₂.trans hnum) (hev.trans hev₂) hdraws ?_ ?_
            · exact ⟨fun h => absurd h (by decide), fun h => absurd h hns'⟩
            · rintro q ⟨⟩

end Retransmit

/-- The reasons for which a request may leave the list. -/
def Reason.Allowed : Reason → Prop
  | .noSocket => False
  | .oldest pending => pending = maxEntries
  | _ => True

/-- The pointers of the loop stand between `before` and `todo`. -/
structure At (l : Loop) (before todo : List Entry) : Prop where
  wf : l.client.WF
  msgs : l.client.msgs = before ++ todo
  prev : l.prev = before.getLast?.map Entry.ref
  entry : l.entry = todo.head?.map Entry.ref

/-- The turn for the entry `r` does not remove an entry that it goes on to use: an identifier drawn
is not the one of `r`, and if `r` is given up, not the one of the entry before it. -/
def SafeDraw (conf : Conf) (now : ℕ) (t : Turn) (r : ℕ) (l : Loop) : Prop :=
  ∀ e, l.client.find r = some e → now ≥ e.nextTry → Draws conf t l.client e →
    e.id ≠ l.client.nextRadiusIdentifier ∧
    (Exhausted conf e → ∀ p e', l.prev = some p → l.client.find p = some e' →
      e'.id ≠ l.client.nextRadiusIdentifier)

/-- The turn for the entry `r` draws no identifier of a pending request and does not drop the
request because there is no socket. -/
def Undisturbed (conf : Conf) (now : ℕ) (t : Turn) (r : ℕ) (l : Loop) : Prop :=
  ∀ e, l.client.find r = some e → now ≥ e.nextTry →
    (Draws conf t l.client e → l.client.nextRadiusIdentifier ∉ l.client.ids) ∧
    ¬ NoSocket conf t l.client e

/-- What holds of every turn of the loop. -/
def AllTurns (P : Turn → ℕ → Loop → Prop) (conf : Conf) (turns : ℕ → Turn) (now : ℕ) :
    ℕ → Loop → Prop
  | fuel, l =>
    match l.entry with
    | none => True
    | some r =>
      match fuel with
      | 0 => True
      | fuel + 1 => P (turns fuel) r l ∧
        ∀ l' more, l.turn conf (turns fuel) now r = some (l', more) →
          AllTurns P conf turns now fuel l'

/-- Bounds the turns that are left. -/
def weight (c : Client) (todo : List Entry) : ℕ := c.msgs.length * (c.msgs.length + 1) + todo.length

section Turns
variable {conf : Conf} {t : Turn} {now : ℕ} {c : Client} {l : Loop}
  {before ahead : List Entry} {e : Entry}

theorem remove_at (hwf : c.WF) (hmsgs : c.msgs = before ++ e :: ahead) (ent : Option ℕ)
    (reason : Reason) :
    Loop.remove ⟨c, before.getLast?.map Entry.ref, ent⟩ e.ref reason =
      some (⟨{ c with msgs := before ++ ahead, numMsgs := c.numMsgs - 1 },
        before.getLast?.map Entry.ref, ahead.head?.map Entry.ref⟩, [⟨e.ref, reason⟩]) := by
  have hnodup : ((before ++ e :: ahead).map Entry.ref).Nodup := hmsgs ▸ hwf.refs_nodup
  have hfind := find_at hnodup hmsgs
  have hunlink := unlink_at hnodup
  have hnext := nextOf_at hnodup
  rw [← hmsgs] at hunlink hnext
  rcases List.eq_nil_or_concat before with rfl | ⟨init, p, rfl⟩
  · simp only [List.getLast?_nil, Option.map_none] at hunlink ⊢
    simp only [Loop.remove, hfind, hunlink, hnext, Option.map_none]
  · have hsplit : init.concat p ++ e :: ahead = init ++ p :: (e :: ahead) := by simp
    have hprev : c.find p.ref = some p := find_at (hsplit ▸ hnodup) (hmsgs.trans hsplit)
    rw [List.concat_eq_append, List.getLast?_concat, Option.map_some] at hunlink ⊢
    simp only [Loop.remove, hfind, hunlink, hnext, Option.map_some, hprev]

theorem remove_stale {p r : ℕ} (hp : c.find p = none) (ent : Option ℕ) (reason : Reason) :
    Loop.remove ⟨c, some p, ent⟩ r reason = none := by
  unfold Loop.remove
  cases hr : c.find r with
  | none => rfl
  | some x => simp [hp]

theorem removed_evolves (hwf : c.WF) (hmsgs : c.msgs = before ++ e :: ahead) {reason : Reason}
    (hreason : reason ≠ .idReused) :
    Evolves c { c with msgs := before ++ ahead, numMsgs := c.numMsgs - 1 } [⟨e.ref, reason⟩] := by
  have hcount := hwf.count
  refine ⟨?_, ?_, rfl, fun hids => ?_⟩
  · rw [Client.refs, Client.refs, hmsgs]
    show ((before ++ ahead).map Entry.ref ++ [e].map Entry.ref).Perm _
    rw [← List.map_append]
    apply List.Perm.map
    refine List.perm_append_comm.trans ?_
    rw [List.singleton_append]
    exact List.perm_middle.symm
  · have hpos : 0 < c.msgs.length := by
      rw [hmsgs, List.length_append, List.length_cons]
      omega
    have hnone : uncounted [⟨e.ref, reason⟩] = 0 := by simp [uncounted, hreason]
    rw [hnone, List.length_singleton]
    show c.numMsgs - 1 + 1 = c.numMsgs
    omega
  · have hsub : (before ++ ahead).Sublist c.msgs := by
      rw [hmsgs]
      exact (List.Sublist.refl _).append (List.sublist_cons_self ..)
    exact hids.sublist (hsub.map Entry.id)

theorem advance_at (hwf : c.WF) (hmsgs : c.msgs = before ++ e :: ahead) (prev ent : Option ℕ) :
    Loop.advance ⟨c, prev, ent⟩ e.ref =
      some (⟨c, some e.ref, ahead.head?.map Entry.ref⟩, []) := by
  have hnodup : ((before ++ e :: ahead).map Entry.ref).Nodup := hmsgs ▸ hwf.refs_nodup
  have hnext := nextOf_at hnodup
  rw [← hmsgs] at hnext
  simp only [Loop.advance, find_at hnodup hmsgs, hnext]

/-- Both pointers behind the entry `e`. -/
theorem at_next (hwf : c.WF) (hmsgs : c.msgs = before ++ e :: ahead) :
    At ⟨c, some e.ref, ahead.head?.map Entry.ref⟩ (before ++ [e]) ahead :=
  ⟨hwf, by simpa using hmsgs, by simp, rfl⟩

theorem weight_lt {c' : Client} {todo todo' : List Entry}
    (hlen : c'.msgs.length ≤ c.msgs.length) (htodo : todo'.length < todo.length) :
    weight c' todo' < weight c todo := by
  have hmul := Nat.mul_le_mul hlen (Nat.add_le_add_right hlen 1)
  unfold weight
  omega

theorem weight_start_lt {c' : Client} (hlen : c'.msgs.length < c.msgs.length)
    (todo : List Entry) : weight c' c'.msgs < weight c todo := by
  have hmul := Nat.mul_le_mul (Nat.succ_le_of_lt hlen) (Nat.add_le_add_right (Nat.le_of_lt hlen) 1)
  rw [Nat.succ_mul] at hmul
  unfold weight
  omega

theorem mem_ids_iff {k : UInt8} : k ∈ c.ids ↔ ∃ x ∈ c.msgs, x.id = k := List.mem_map

theorem getId_reason {g : Removal} (hg : g ∈ c.getId.2.2) : g.reason = .idReused := by
  obtain ⟨x, -, rfl⟩ := List.mem_map.mp hg
  rfl

theorem getId_gone_eq_nil : c.getId.2.2 = [] ↔ c.nextRadiusIdentifier ∉ c.ids := by
  simp [Client.getId, Client.ids, List.filter_eq_nil_iff]

theorem safeDraw_iff {r : ℕ} (hfind : l.client.find r = some e) :
    SafeDraw conf now t r l ↔ (now ≥ e.nextTry → Draws conf t l.client e →
      e.id ≠ l.client.nextRadiusIdentifier ∧
      (Exhausted conf e → ∀ p e', l.prev = some p → l.client.find p = some e' →
        e'.id ≠ l.client.nextRadiusIdentifier)) := by
  constructor
  · exact fun h => h e hfind
  · intro h e' he'
    obtain rfl : e = e' := Option.some.inj (hfind.symm.trans he')
    exact h

theorem undisturbed_iff {r : ℕ} (hfind : l.client.find r = some e) :
    Undisturbed conf now t r l ↔ (now ≥ e.nextTry →
      (Draws conf t l.client e → l.client.nextRadiusIdentifier ∉ l.client.ids) ∧
      ¬ NoSocket conf t l.client e) := by
  constructor
  · exact fun h => h e hfind
  · intro h e' he'
    obtain rfl : e = e' := Option.some.inj (hfind.symm.trans he')
    exact h

theorem find_mem {r : ℕ} (hfind : c.find r = some e) : e ∈ c.msgs :=
  List.mem_of_find?_eq_some hfind

theorem Undisturbed.safe {r : ℕ} (h : Undisturbed conf now t r l) : SafeDraw conf now t r l := by
  intro e he hdue hdraws
  have hfresh := ((h e he hdue).1 hdraws)
  refine ⟨fun hid => hfresh (mem_ids_iff.mpr ⟨e, find_mem he, hid⟩), ?_⟩
  intro _ p e' _ he' hid
  exact hfresh (mem_ids_iff.mpr ⟨e', find_mem he', hid⟩)

/-- What a turn that does not fault does. -/
structure Turned (conf : Conf) (now : ℕ) (t : Turn) (l : Loop) (r : ℕ) (todo : List Entry)
    (l' : Loop) (more : List Removal) : Prop where
  safe : SafeDraw conf now t r l
  evolves : Evolves l.client l'.client more
  progress : ∃ before' todo', At l' before' todo' ∧ weight l'.client todo' < weight l.client todo
  reasons : ∀ g ∈ more, g.reason = .noSocket ∨ g.reason.Allowed
  undisturbed : (∀ g ∈ more, g.reason ≠ .idReused ∧ g.reason ≠ .noSocket) ↔
    Undisturbed conf now t r l

theorem At.found (h : At l before (e :: ahead)) : l.client.find e.ref = some e :=
  find_at (h.msgs ▸ h.wf.refs_nodup) h.msgs

theorem turn_notDue (h : At l before (e :: ahead)) (hdue : ¬ now ≥ e.nextTry) :
    ∃ l', l.turn conf t now e.ref = some (l', []) ∧
      Turned conf now t l e.ref (e :: ahead) l' [] := by
  refine ⟨⟨l.client, some e.ref, ahead.head?.map Entry.ref⟩, ?_,
    (safeDraw_iff h.found).mpr fun hd => absurd hd hdue, Evolves.refl _, ?_, ?_, ?_⟩
  · simp only [Loop.turn, h.found, if_neg hdue]
    exact advance_at h.wf h.msgs l.prev l.entry
  · exact ⟨_, _, at_next h.wf h.msgs, weight_lt (Nat.le_refl _) (Nat.lt_succ_self _)⟩
  · intro g hg
    cases hg
  · refine ⟨fun _ => (undisturbed_iff h.found).mpr fun hd => absurd hd hdue, fun _ g hg => ?_⟩
    cases hg

theorem Evolves.length_le {c' : Client} {gone : List Removal} (h : Evolves c c' gone) :
    c'.msgs.length ≤ c.msgs.length := by
  have := h.length
  omega

theorem turn_kept (h : At l before (e :: ahead)) (hdue : now ≥ e.nextTry)
    {c' : Client} {reason : Option Reason} {before' ahead' : List Entry} {e' : Entry}
    (hretransmit : l.client.retransmit conf t now e.ref = some (c', reason, []))
    (hmsgs : c'.msgs = before' ++ e' :: ahead')
    (hbefore : before'.map Entry.ref = before.map Entry.ref) (href : e'.ref = e.ref)
    (hahead : ahead'.map Entry.ref = ahead.map Entry.ref) (hnum : c'.numMsgs = l.client.numMsgs)
    (hev : Evolves l.client c' []) (hdraws : ¬ Draws conf t l.client e)
    (hsock : reason = some .noSocket ↔ NoSocket conf t l.client e)
    (hreason : ∀ q ∈ reason, q = .interim ∨ q = .noSocket ∨ q = .retryLimit) :
    ∃ l' more, l.turn conf t now e.ref = some (l', more) ∧
      Turned conf now t l e.ref (e :: ahead) l' more := by
  have hwf' := hev.wf h.wf
  have hlen : ahead'.length = ahead.length := by
    have := congrArg List.length hahead
    simpa using this
  have hsafe : SafeDraw conf now t e.ref l :=
    (safeDraw_iff h.found).mpr fun _ hd => absurd hd hdraws
  have hundisturbed : Undisturbed conf now t e.ref l ↔ ¬ NoSocket conf t l.client e := by
    rw [undisturbed_iff h.found]
    exact ⟨fun hu => (hu hdue).2, fun hn _ => ⟨fun hd => absurd hd hdraws, hn⟩⟩
  have hless : ahead'.length < (e :: ahead).length := by
    rw [hlen]
    exact Nat.lt_succ_self _
  cases reason with
  | none =>
    refine ⟨_, _, ?_, hsafe, hev, ⟨_, _, at_next hwf' hmsgs, weight_lt hev.length_le hless⟩, ?_, ?_⟩
    · have hadvance := advance_at hwf' hmsgs l.prev l.entry
      rw [href] at hadvance
      simp only [Loop.turn, h.found, if_pos hdue, hretransmit, if_neg (not_not.mpr hnum.symm),
        hadvance, href]
      rfl
    · intro g hg
      cases hg
    · rw [hundisturbed]
      refine ⟨fun _ hn => absurd (hsock.mpr hn) (by simp), fun _ g hg => ?_⟩
      cases hg
  | some q =>
    have hq := hreason q rfl
    have hqid : q ≠ .idReused := by
      rcases hq with rfl | rfl | rfl <;> decide
    have hprev : l.prev = before'.getLast?.map Entry.ref := by
      rw [h.prev, ← List.getLast?_map, ← List.getLast?_map, hbefore]
    have hremove := remove_at hwf' hmsgs l.entry q
    rw [href, ← hprev] at hremove
    have hev' := hev.trans (removed_evolves hwf' hmsgs hqid)
    rw [href] at hev'
    refine ⟨⟨_, l.prev, ahead'.head?.map Entry.ref⟩, _, ?_, hsafe, hev',
      ⟨before', ahead', ⟨hev'.wf h.wf, rfl, hprev, rfl⟩, ?_⟩, ?_, ?_⟩
    · simp only [Loop.turn, h.found, if_pos hdue, hretransmit, hremove]
      rfl
    · exact weight_lt hev'.length_le hless
    · intro g hg
      obtain rfl := List.mem_singleton.mp hg
      rcases hq with rfl | rfl | rfl
      · exact Or.inr trivial
      · exact Or.inl rfl
      · exact Or.inr trivial
    · rw [hundisturbed, ← hsock]
      simp only [List.nil_append, List.mem_singleton, forall_eq, Option.some.injEq]
      exact ⟨fun hn => hn.2, fun hn => ⟨hqid, hn⟩⟩

/-- The entry in front is still there after a draw exactly if its identifier was not drawn. -/
theorem prev_drawn (h : At l before (e :: ahead)) {c' : Client} {before' : List Entry}
    (hbefore : before'.map Entry.ref =
      (before.filter fun x => x.id ≠ l.client.nextRadiusIdentifier).map Entry.ref)
    (hev : Evolves l.client c' l.client.getId.2.2) :
    (∃ p x, l.prev = some p ∧ l.client.find p = some x ∧ x.id = l.client.nextRadiusIdentifier ∧
      c'.find p = none) ∨
    ((∀ p x, l.prev = some p → l.client.find p = some x →
      x.id ≠ l.client.nextRadiusIdentifier) ∧ l.prev = before'.getLast?.map Entry.ref) := by
  have hmsgs₀ := h.msgs
  have hprev := h.prev
  rcases List.eq_nil_or_concat before with rfl | ⟨init, p, rfl⟩
  · refine Or.inr ⟨fun p x hp => ?_, ?_⟩
    · rw [hprev] at hp
      cases hp
    · rw [hprev]
      have hnil : before' = [] := by simpa using hbefore
      rw [hnil]
  · rw [List.concat_eq_append] at hmsgs₀ hprev hbefore
    rw [List.getLast?_concat, Option.map_some] at hprev
    have hsplit : l.client.msgs = init ++ p :: e :: ahead := by simpa using hmsgs₀
    have hfind : l.client.find p.ref = some p := find_at (hsplit ▸ h.wf.refs_nodup) hsplit
    by_cases hid : p.id = l.client.nextRadiusIdentifier
    · refine Or.inl ⟨p.ref, p, hprev, hfind, hid, ?_⟩
      rw [Client.find, List.find?_eq_none]
      intro x hx hxp
      -- the reference of `p` is among the removed ones
      have hgone : p.ref ∈ l.client.getId.2.2.map Removal.ref := by
        rw [List.mem_map]
        refine ⟨⟨p.ref, .idReused⟩, List.mem_map.mpr ⟨p, ?_, rfl⟩, rfl⟩
        simp [hsplit, hid]
      have hnodup := hev.refs.nodup_iff.mpr h.wf.refs_nodup
      have hx' : p.ref ∈ c'.refs := List.mem_map.mpr ⟨x, hx, by simpa using hxp⟩
      exact (List.nodup_append.mp hnodup).2.2 _ hx' _ hgone rfl
    · refine Or.inr ⟨fun q x hq hx => ?_, ?_⟩
      · rw [hprev, Option.some.injEq] at hq
        subst hq
        obtain rfl : p = x := Option.some.inj (hfind.symm.trans hx)
        exact hid
      · rw [hprev, ← List.getLast?_map, hbefore, List.filter_append,
          List.filter_cons_of_pos (by simpa using hid)]
        simp

theorem turn_drawn (h : At l before (e :: ahead)) (hdue : now ≥ e.nextTry) {c' : Client}
    {before' ahead' : List Entry} {e' : Entry}
    (hretransmit : l.client.retransmit conf t now e.ref = some (c',
      if Exhausted conf e then some .retryLimit else none, l.client.getId.2.2))
    (hmsgs : c'.msgs = before' ++ e' :: ahead')
    (hbefore : before'.map Entry.ref =
      (before.filter fun x => x.id ≠ l.client.nextRadiusIdentifier).map Entry.ref)
    (href : e'.ref = e.ref)
    (hahead : ahead'.map Entry.ref =
      (ahead.filter fun x => x.id ≠ l.client.nextRadiusIdentifier).map Entry.ref)
    (hnum : c'.numMsgs = l.client.numMsgs) (hev : Evolves l.client c' l.client.getId.2.2)
    (hdraws : Draws conf t l.client e) (hid : e.id ≠ l.client.nextRadiusIdentifier)
    (hsock : ¬ NoSocket conf t l.client e) :
    (l.turn conf t now e.ref = none ∧ ¬ SafeDraw conf now t e.ref l) ∨
    ∃ l' more, l.turn conf t now e.ref = some (l', more) ∧
      Turned conf now t l e.ref (e :: ahead) l' more := by
  have hwf' := hev.wf h.wf
  have hless : ahead'.length < (e :: ahead).length := by
    have hlen := congrArg List.length hahead
    rw [List.length_map, List.length_map] at hlen
    rw [hlen]
    exact Nat.lt_succ_of_le (List.length_filter_le _ _)
  have hundisturbed : Undisturbed conf now t e.ref l ↔ l.client.getId.2.2 = [] := by
    rw [undisturbed_iff h.found, getId_gone_eq_nil]
    exact ⟨fun hu => (hu hdue).1 hdraws, fun hn _ => ⟨fun _ => hn, hsock⟩⟩
  have hreused : ∀ g ∈ l.client.getId.2.2, g.reason = .noSocket ∨ g.reason.Allowed := by
    intro g hg
    rw [getId_reason hg]
    exact Or.inr trivial
  have hclean : (∀ g ∈ l.client.getId.2.2, g.reason ≠ .idReused ∧ g.reason ≠ .noSocket) ↔
      l.client.getId.2.2 = [] := by
    refine ⟨fun hall => List.eq_nil_iff_forall_not_mem.mpr fun g hg => ?_, fun hnil g hg => ?_⟩
    · exact (hall g hg).1 (getId_reason hg)
    · rw [hnil] at hg
      cases hg
  by_cases hex : Exhausted conf e
  · rw [if_pos hex] at hretransmit
    rcases prev_drawn h hbefore hev with ⟨p, x, hp, hx, hxid, hnone⟩ | ⟨hsafe, hprev⟩
    · refine Or.inl ⟨?_, fun hs => ?_⟩
      · simp only [Loop.turn, h.found, if_pos hdue, hretransmit, hp, remove_stale hnone]
        rfl
      · exact ((safeDraw_iff h.found).mp hs hdue hdraws).2 hex p x hp hx hxid
    · have hlimit : Reason.retryLimit ≠ .idReused := by decide
      have hremove := remove_at hwf' hmsgs l.entry .retryLimit
      rw [href, ← hprev] at hremove
      have hev' := hev.trans (removed_evolves hwf' hmsgs hlimit)
      rw [href] at hev'
      refine Or.inr ⟨⟨_, l.prev, ahead'.head?.map Entry.ref⟩, _, ?_,
        (safeDraw_iff h.found).mpr fun _ _ => ⟨hid, fun _ => hsafe⟩, hev',
        ⟨before', ahead', ⟨hev'.wf h.wf, rfl, hprev, rfl⟩, weight_lt hev'.length_le hless⟩, ?_, ?_⟩
      · simp only [Loop.turn, h.found, if_pos hdue, hretransmit, hremove]
        rfl
      · intro g hg
        rcases List.mem_append.mp hg with hg | hg
        · exact hreused g hg
        · obtain rfl := List.mem_singleton.mp hg
          exact Or.inr trivial
      · rw [hundisturbed, ← hclean, List.forall_mem_append]
        simp
  · rw [if_neg hex] at hretransmit
    refine Or.inr ⟨_, _, ?_, (safeDraw_iff h.found).mpr fun _ _ => ⟨hid, fun hx => absurd hx hex⟩,
      hev, ⟨_, _, at_next hwf' hmsgs, weight_lt hev.length_le hless⟩, hreused,
      hclean.trans hundisturbed.symm⟩
    have hadvance := advance_at hwf' hmsgs l.prev l.entry
    rw [href] at hadvance
    simp only [Loop.turn, h.found, if_pos hdue, hretransmit, if_neg (not_not.mpr hnum.symm),
      hadvance, href]
    simp

theorem turn_spec (conf : Conf) (t : Turn) (now : ℕ) (h : At l before (e :: ahead)) :
    (l.turn conf t now e.ref = none ∧ ¬ SafeDraw conf now t e.ref l) ∨
    ∃ l' more, l.turn conf t now e.ref = some (l', more) ∧
      Turned conf now t l e.ref (e :: ahead) l' more := by
  by_cases hdue : now ≥ e.nextTry
  swap
  · refine Or.inr ?_
    obtain ⟨l', hturn, hspec⟩ := turn_notDue h hdue
    exact ⟨l', [], hturn, hspec⟩
  have hspec : Retransmitted conf t l.client before e ahead
      (l.client.retransmit conf t now e.ref) := retransmit_spec h.wf h.msgs
  generalize hres : l.client.retransmit conf t now e.ref = res at hspec
  cases hspec with
  | fault hdraws hid =>
    refine Or.inl ⟨?_, fun hs => ((safeDraw_iff h.found).mp hs hdue hdraws).1 hid⟩
    simp only [Loop.turn, h.found, if_pos hdue, hres]
  | flushed c' gone hnum hev hreason hdraws hsock =>
    have hshort : c'.msgs.length < l.client.msgs.length := by
      have hlen := hev.length
      have hcount := hev.num
      have hle := uncounted_le gone
      have hpos : gone.length ≠ 0 := by
        intro hzero
        rw [List.length_eq_zero_iff.mp hzero] at hcount
        exact hnum (by simpa [uncounted] using hcount)
      omega
    refine Or.inr ⟨Loop.start c', gone, ?_, ?_, hev, ⟨[], c'.msgs, ?_, weight_start_lt hshort _⟩,
      ?_, ?_⟩
    · simp only [Loop.turn, h.found, if_pos hdue, hres, if_pos hnum.symm]
    · exact (safeDraw_iff h.found).mpr fun _ hd => absurd hd hdraws
    · exact ⟨hev.wf h.wf, rfl, rfl, rfl⟩
    · intro g hg
      rw [hreason g hg]
      exact Or.inr trivial
    · refine ⟨fun _ => (undisturbed_iff h.found).mpr fun _ => ⟨fun hd => absurd hd hdraws, hsock⟩,
        fun _ g hg => ?_⟩
      rw [hreason g hg]
      decide
  | kept c' reason before' e' ahead' hmsgs hbefore href hahead hnum hev hdraws hsock hreason =>
    exact Or.inr (turn_kept h hdue hres hmsgs hbefore href hahead hnum hev hdraws hsock hreason)
  | drawn c' before' e' ahead' hmsgs hbefore href hahead hnum hev hdraws hid hsock =>
    exact turn_drawn h hdue hres hmsgs hbefore href hahead hnum hev hdraws hid hsock

end Turns

section Run
variable {conf : Conf} {turns : ℕ → Turn} {now : ℕ}

theorem AllTurns.mono {P Q : Turn → ℕ → Loop → Prop} (hPQ : ∀ t r l, P t r l → Q t r l) :
    ∀ (fuel : ℕ) (l : Loop), AllTurns P conf turns now fuel l → AllTurns Q conf turns now fuel l := by
  intro fuel
  induction fuel with
  | zero =>
    intro l _
    unfold AllTurns
    cases l.entry <;> trivial
  | succ fuel ih =>
    intro l h
    unfold AllTurns at h ⊢
    cases hentry : l.entry with
    | none => trivial
    | some r =>
      simp only [hentry] at h
      exact ⟨hPQ _ _ _ h.1, fun l' more hturn => ih l' (h.2 l' more hturn)⟩

theorem allTurns_step {P : Turn → ℕ → Loop → Prop} {fuel r : ℕ} {l l' : Loop}
    {more : List Removal} (hentry : l.entry = some r)
    (hturn : l.turn conf (turns fuel) now r = some (l', more)) :
    AllTurns P conf turns now (fuel + 1) l ↔
      P (turns fuel) r l ∧ AllTurns P conf turns now fuel l' := by
  rw [AllTurns]
  simp only [hentry, hturn, Option.some.injEq, Prod.mk.injEq]
  refine and_congr_right fun _ => ⟨fun h => h l' more ⟨rfl, rfl⟩, ?_⟩
  rintro h _ _ ⟨rfl, rfl⟩
  exact h

/-- What a run that does not fault does. -/
structure Ran (conf : Conf) (turns : ℕ → Turn) (now fuel : ℕ) (l : Loop) (c' : Client)
    (more : List Removal) : Prop where
  safe : AllTurns (SafeDraw conf now) conf turns now fuel l
  evolves : Evolves l.client c' more
  reasons : ∀ g ∈ more, g.reason = .noSocket ∨ g.reason.Allowed
  undisturbed : (∀ g ∈ more, g.reason ≠ .idReused ∧ g.reason ≠ .noSocket) ↔
    AllTurns (Undisturbed conf now) conf turns now fuel l

/-- A run with enough fuel faults or finishes, and it faults exactly if some turn is unsafe. -/
theorem runLoop_spec (conf : Conf) (turns : ℕ → Turn) (now : ℕ) :
    ∀ (fuel : ℕ) (l : Loop) (before todo : List Entry) (gone : List Removal),
    At l before todo → weight l.client todo ≤ fuel →
    (runLoop conf turns now fuel l gone = .fault ∧
      ¬ AllTurns (SafeDraw conf now) conf turns now fuel l) ∨
    ∃ c' more, runLoop conf turns now fuel l gone = .finished c' (gone ++ more) ∧
      Ran conf turns now fuel l c' more := by
  intro fuel
  induction fuel with
  | zero =>
    intro l before todo gone hat hfuel
    have hnil : todo = [] := List.length_eq_zero_iff.mp (by unfold weight at hfuel; omega)
    have hentry : l.entry = none := by rw [hat.entry, hnil]; rfl
    have hall : ∀ P, AllTurns P conf turns now 0 l := by
      intro P
      unfold AllTurns
      simp only [hentry]
    refine Or.inr ⟨l.client, [], ?_, hall _, Evolves.refl _, ?_, ?_⟩
    · unfold runLoop
      simp [hentry]
    · simp
    · simp [hall]
  | succ fuel ih =>
    intro l before todo gone hat hfuel
    cases todo with
    | nil =>
      have hentry : l.entry = none := hat.entry
      have hall : ∀ P, AllTurns P conf turns now (fuel + 1) l := by
        intro P
        unfold AllTurns
        simp only [hentry]
      refine Or.inr ⟨l.client, [], ?_, hall _, Evolves.refl _, ?_, ?_⟩
      · unfold runLoop
        simp [hentry]
      · simp
      · simp [hall]
    | cons e ahead =>
      have hentry : l.entry = some e.ref := hat.entry
      rcases turn_spec conf (turns fuel) now hat with ⟨hnone, hunsafe⟩ | ⟨l', more, hturn, hspec⟩
      · refine Or.inl ⟨?_, fun hall => hunsafe ?_⟩
        · unfold runLoop
          simp only [hentry, hnone]
        · unfold AllTurns at hall
          simp only [hentry] at hall
          exact hall.1
      · obtain ⟨before', todo', hat', hweight⟩ := hspec.progress
        have hrun : runLoop conf turns now (fuel + 1) l gone =
            runLoop conf turns now fuel l' (gone ++ more) := by
          rw [runLoop]
          simp only [hentry, hturn]
        have hstep := fun P => allTurns_step (P := P) hentry hturn
        rw [hrun, hstep]
        rcases ih l' before' todo' (gone ++ more) hat' (by omega) with
          ⟨hfault, hunsafe⟩ | ⟨c', rest, hfinished, hran⟩
        · exact Or.inl ⟨hfault, fun h => hunsafe h.2⟩
        · refine Or.inr ⟨c', more ++ rest, ?_, ?_, hspec.evolves.trans hran.evolves, ?_, ?_⟩
          · rw [hfinished, List.append_assoc]
          · exact (hstep _).mpr ⟨hspec.safe, hran.safe⟩
          · rw [List.forall_mem_append]
            exact ⟨hspec.reasons, hran.reasons⟩
          · rw [List.forall_mem_append, hspec.undisturbed, hran.undisturbed, hstep]

theorem weight_start (c : Client) : weight c c.msgs ≤ turnBound c.msgs.length := by
  have hsplit : turnBound c.msgs.length =
      c.msgs.length * (c.msgs.length + 1) + (c.msgs.length + 1) := Nat.succ_mul _ _
  unfold weight
  omega

end Run

section Timer
variable {conf : Conf} {i : TimerInput} {c : Client}

/-- The failovers before the loop. -/
theorem timerFailover_spec (conf : Conf) (i : TimerInput) (hwf : c.WF) :
    Evolves c (c.timerFailover conf i).1 (c.timerFailover conf i).2 ∧
      ∀ g ∈ (c.timerFailover conf i).2, g.reason = .flushed := by
  have hone : ∀ (p auth ok : Bool) (c : Client), c.WF →
      let x := if p then c.failover conf auth ok else (c, [])
      Evolves c x.1 x.2 ∧ ∀ g ∈ x.2, g.reason = .flushed := by
    intro p auth ok c hwf
    cases p with
    | false => exact ⟨Evolves.refl c, by simp⟩
    | true =>
      obtain ⟨flushAuth, f, -, h⟩ := failover_reopened conf auth ok c
      refine ⟨h.evolves hwf, fun g hg => ?_⟩
      simp only [if_true] at hg
      rw [h.gone_eq] at hg
      obtain ⟨x, -, rfl⟩ := List.mem_map.mp hg
      rfl
  have hauth := hone (c.msgs.any fun e => needsFailover c i.now e && e.msgType.isAuth) true
    i.authConnectOk c hwf
  have hacct := hone (c.msgs.any fun e => needsFailover c i.now e && !e.msgType.isAuth) false
    i.acctConnectOk _ (hauth.1.wf hwf)
  refine ⟨hauth.1.trans hacct.1, ?_⟩
  show ∀ g ∈ _ ++ _, _
  rw [List.forall_mem_append]
  exact ⟨hauth.2, hacct.2⟩

/-- What holds of every turn of the timer, from the failovers on. -/
def TimerTurns (P : Turn → ℕ → Loop → Prop) (conf : Conf) (i : TimerInput) (c : Client) : Prop :=
  c.msgs ≠ [] → AllTurns P conf i.turns i.now (turnBound (c.timerFailover conf i).1.msgs.length)
    (Loop.start (c.timerFailover conf i).1)

/-- A run of the timer faults exactly if it draws the identifier of an entry that it goes on to use,
and it finishes otherwise. -/
theorem timer_spec (conf : Conf) (i : TimerInput) (hwf : c.WF) :
    (c.timer conf i = .fault ∧ ¬ TimerTurns (SafeDraw conf i.now) conf i c) ∨
    ∃ c' gone, c.timer conf i = .finished c' gone ∧ TimerTurns (SafeDraw conf i.now) conf i c ∧
      Evolves c c' gone ∧ (∀ g ∈ gone, g.reason = .noSocket ∨ g.reason.Allowed) ∧
      ((∀ g ∈ gone, g.reason ≠ .idReused ∧ g.reason ≠ .noSocket) ↔
        TimerTurns (Undisturbed conf i.now) conf i c) := by
  by_cases hempty : c.msgs = []
  · refine Or.inr ⟨c, [], by rw [Client.timer, if_pos hempty], fun h => absurd hempty h,
      Evolves.refl c, by simp, ?_⟩
    exact ⟨fun _ h => absurd hempty h, fun _ g hg => absurd hg (by simp)⟩
  · have htimer : c.timer conf i = runLoop conf i.turns i.now
        (turnBound (c.timerFailover conf i).1.msgs.length)
        (Loop.start (c.timerFailover conf i).1) (c.timerFailover conf i).2 := by
      rw [Client.timer, if_neg hempty]
    have hturns : ∀ P, TimerTurns P conf i c ↔ AllTurns P conf i.turns i.now
        (turnBound (c.timerFailover conf i).1.msgs.length)
        (Loop.start (c.timerFailover conf i).1) :=
      fun P => ⟨fun h => h hempty, fun h _ => h⟩
    obtain ⟨hev, hflushed⟩ := timerFailover_spec conf i hwf
    have hat : At (Loop.start (c.timerFailover conf i).1) [] (c.timerFailover conf i).1.msgs :=
      ⟨hev.wf hwf, rfl, rfl, rfl⟩
    rw [htimer, hturns, hturns]
    rcases runLoop_spec conf i.turns i.now _ _ _ _ (c.timerFailover conf i).2 hat
        (weight_start _) with hfault | ⟨c', more, hfinished, hran⟩
    · exact Or.inl hfault
    · refine Or.inr ⟨c', _, hfinished, hran.safe, hev.trans hran.evolves, ?_, ?_⟩
      · rw [List.forall_mem_append]
        refine ⟨fun g hg => ?_, hran.reasons⟩
        rw [hflushed g hg]
        exact Or.inr trivial
      · rw [List.forall_mem_append, hran.undisturbed]
        refine and_iff_right fun g hg => ?_
        rw [hflushed g hg]
        decide

end Timer

end Wpa.Radius
