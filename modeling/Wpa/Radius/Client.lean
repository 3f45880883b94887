import Mathlib.Data.List.Nodup

/-! The retransmission list of `radius/radius_client.c`. A pending request is known by the address
`ref` of its list entry; an entry is freed when it leaves the list, so a pointer may be followed
exactly while its entry is in the list, and following it otherwise is a fault (`none`). What sockets
and servers do is input. Counters of statistics and the shared secrets kept in the entries play no
part in which requests are pending and are left out. -/

namespace Wpa.Radius

inductive MsgType where
  | auth
  | acct
  | acctInterim
  deriving DecidableEq

def MsgType.isAuth : MsgType → Bool
  | .auth => true
  | _ => false

/-- `struct radius_msg_list`; `delayTime` tells whether the message has an Acct-Delay-Time attribute
of four octets. -/
structure Entry where
  ref : ℕ
  id : UInt8
  msgType : MsgType
  delayTime : Bool
  firstTry : ℕ
  nextTry : ℕ
  attempts : ℕ
  accuAttempts : ℕ
  nextWait : ℕ
  deriving DecidableEq

def firstWait : ℕ := 3
def maxWait : ℕ := 120
def maxFailover : ℕ := 3
def maxEntries : ℕ := 30
def numFailover : ℕ := 4

/-- The servers configured for one kind of message and their shared secrets. -/
structure Servers where
  num : ℕ
  secret : ℕ → ℕ

structure Conf where
  auth : Servers
  acct : Servers

def Conf.servers (conf : Conf) (auth : Bool) : Servers := if auth then conf.auth else conf.acct

/-- `struct radius_client_data` with the current servers of `conf`; a socket is there or not.
`nextRef` is an address that no entry has yet. -/
structure Client where
  msgs : List Entry := []
  numMsgs : ℕ := 0
  nextRadiusIdentifier : UInt8 := 0
  authSock : Bool := false
  acctSock : Bool := false
  authServer : ℕ := 0
  acctServer : ℕ := 0
  nextRef : ℕ := 0
  deriving DecidableEq

/-- Why an entry left the list. -/
inductive Reason where
  | answered
  | flushed
  | retryLimit
  | interim
  | noSocket
  | idReused
  | oldest (pending : ℕ)
  deriving DecidableEq

structure Removal where
  ref : ℕ
  reason : Reason
  deriving DecidableEq

namespace Client

def sock (c : Client) (auth : Bool) : Bool := if auth then c.authSock else c.acctSock

def setSock (c : Client) (auth ok : Bool) : Client :=
  if auth then { c with authSock := ok } else { c with acctSock := ok }

def server (c : Client) (auth : Bool) : ℕ := if auth then c.authServer else c.acctServer

def setServer (c : Client) (auth : Bool) (i : ℕ) : Client :=
  if auth then { c with authServer := i } else { c with acctServer := i }

/-- Follow a pointer to an entry. -/
def find (c : Client) (r : ℕ) : Option Entry := c.msgs.find? fun e => e.ref = r

def update (c : Client) (r : ℕ) (f : Entry → Entry) : Client :=
  { c with msgs := c.msgs.map fun e => if e.ref = r then f e else e }

/-- `radius_client_get_id`: entries that have the identifier leave the list, and `num_msgs` stays
as it is. -/
def getId (c : Client) : Client × UInt8 × List Removal :=
  let id := c.nextRadiusIdentifier
  ({ c with msgs := c.msgs.filter fun e => e.id ≠ id, nextRadiusIdentifier := id + 1 }, id,
    (c.msgs.filter fun e => e.id = id).map fun e => ⟨e.ref, .idReused⟩)

def flush (c : Client) (onlyAuth : Bool) : Client × List Removal :=
  let gone := c.msgs.filter fun e => !onlyAuth || e.msgType.isAuth
  ({ c with
      msgs := c.msgs.filter fun e => !(!onlyAuth || e.msgType.isAuth)
      numMsgs := c.numMsgs - gone.length },
    gone.map fun e => ⟨e.ref, .flushed⟩)

/-- Retry counters start again for the messages that the new server gets. -/
def resetRetries (c : Client) (auth : Bool) : Client :=
  { c with msgs := c.msgs.map fun e =>
      if (if auth then e.msgType = .auth else e.msgType = .acct) then
        { e with nextTry := e.firstTry + firstWait, attempts := 0, nextWait := firstWait * 2 }
      else e }

/-- `radius_change_server` from an old to a new server. -/
def changeServer (conf : Conf) (auth connectOk : Bool) (old new : ℕ) (c : Client) :
    Client × List Removal :=
  let flushed :=
    if auth ∧ (old = new ∨ (conf.servers auth).secret new ≠ (conf.servers auth).secret old) then
      c.flush true
    else (c, [])
  let c := flushed.1.resetRetries auth
  (if connectOk then c.setSock auth true else c, flushed.2)

/-- `radius_client_auth_failover` and `radius_client_acct_failover`. -/
def failover (conf : Conf) (auth connectOk : Bool) (c : Client) : Client × List Removal :=
  let old := c.server auth
  let new := if old + 1 > (conf.servers auth).num - 1 then 0 else old + 1
  (c.setServer auth new).changeServer conf auth connectOk old new

end Client

/-- What the sockets do while one entry is looked at: the result of setting them up, of the connect
of a failover, and of `send`, with the result of setting them up again. -/
inductive SendResult where
  | ok
  | failed
  | notConnected
  deriving DecidableEq

structure Turn where
  initOk : Bool
  connectOk : Bool
  send : SendResult
  reinitOk : Bool
  deriving DecidableEq

namespace Client

/-- The first part of `radius_client_retransmit`: set up the socket, or change the server. -/
def openSock (conf : Conf) (t : Turn) (auth : Bool) (c : Client) : Client × List Removal :=
  let c := if c.sock auth then c else c.setSock auth t.initOk
  if ¬ c.sock auth ∧ (conf.servers auth).num > 1 then c.failover conf auth t.connectOk
  else (c, [])

/-- The new identifier for a message whose Acct-Delay-Time changes. -/
def renumber (c : Client) (r : ℕ) : Option (Client × List Removal) :=
  let drawn := c.getId
  match drawn.1.find r with
  | none => none
  | some _ => some (drawn.1.update r fun e => { e with id := drawn.2.1 }, drawn.2.2)

/-- The last part: send again. An error that took the socket down leaves the retry time of an
authentication message as it is. -/
def resend (t : Turn) (now : ℕ) (r : ℕ) (e : Entry) (c : Client) : Client :=
  let c := c.update r fun e =>
    { e with attempts := e.attempts + 1, accuAttempts := e.accuAttempts + 1 }
  let c := if t.send = .notConnected then c.setSock e.msgType.isAuth t.reinitOk else c
  if t.send = .notConnected ∧ e.msgType.isAuth then c
  else c.update r fun e =>
    { e with nextTry := now + e.nextWait, nextWait := min (e.nextWait * 2) maxWait }

/-- `radius_client_retransmit`. With a reason the caller is to remove the entry. -/
def retransmit (conf : Conf) (t : Turn) (now r : ℕ) (c : Client) :
    Option (Client × Option Reason × List Removal) :=
  match c.find r with
  | none => none
  | some e =>
    let opened := c.openSock conf t e.msgType.isAuth
    if opened.1.numMsgs ≠ c.numMsgs then some (opened.1, none, opened.2)
    else
      match opened.1.find r with
      | none => none
      | some e =>
        if e.msgType = .acctInterim then some (opened.1, some .interim, opened.2)
        else if ¬ opened.1.sock e.msgType.isAuth then some (opened.1, some .noSocket, opened.2)
        else
          match (if e.msgType = .acct ∧ e.delayTime then opened.1.renumber r
            else some (opened.1, [])) with
          | none => none
          | some drawn =>
            if e.accuAttempts ≥
                maxFailover * numFailover * (conf.servers e.msgType.isAuth).num then
              some (drawn.1, some .retryLimit, opened.2 ++ drawn.2)
            else some (drawn.1.resend t now r e, none, opened.2 ++ drawn.2)

end Client

/-- The pointers of the loop in `radius_client_timer`. -/
structure Loop where
  client : Client
  prev : Option ℕ
  entry : Option ℕ
  deriving DecidableEq

/-- The entry behind `r`. -/
def nextOf (msgs : List Entry) (r : ℕ) : Option ℕ :=
  ((msgs.dropWhile fun e => e.ref ≠ r).tail.head?).map Entry.ref

/-- `prev->next = entry->next`, or the same for the head of the list. -/
def unlink (msgs : List Entry) (prev : Option ℕ) (r : ℕ) : List Entry :=
  match prev with
  | none => (msgs.dropWhile fun e => e.ref ≠ r).tail
  | some p => msgs.takeWhile (fun e => e.ref ≠ p) ++ (msgs.filter fun e => e.ref = p) ++
      (msgs.dropWhile fun e => e.ref ≠ r).tail

def Loop.start (c : Client) : Loop := ⟨c, none, c.msgs.head?.map Entry.ref⟩

/-- Remove the entry that was given up; `prev` is followed if there is one. -/
def Loop.remove (l : Loop) (r : ℕ) (reason : Reason) : Option (Loop × List Removal) :=
  match l.client.find r, l.prev.map l.client.find with
  | none, _ => none
  | some _, some none => none
  | some _, _ =>
    some (⟨{ l.client with
        msgs := unlink l.client.msgs l.prev r
        numMsgs := l.client.numMsgs - 1 }, l.prev, nextOf l.client.msgs r⟩, [⟨r, reason⟩])

/-- Go on to the next entry. -/
def Loop.advance (l : Loop) (r : ℕ) : Option (Loop × List Removal) :=
  match l.client.find r with
  | none => none
  | some _ => some (⟨l.client, some r, nextOf l.client.msgs r⟩, [])

/-- One turn of the loop for the entry `r`. -/
def Loop.turn (conf : Conf) (t : Turn) (now r : ℕ) (l : Loop) : Option (Loop × List Removal) :=
  match l.client.find r with
  | none => none
  | some e =>
    if now ≥ e.nextTry then
      match l.client.retransmit conf t now r with
      | none => none
      | some (c, some reason, gone) =>
        (Loop.remove { l with client := c } r reason).map fun x => (x.1, gone ++ x.2)
      | some (c, none, gone) =>
        if l.client.numMsgs ≠ c.numMsgs then some (Loop.start c, gone)
        else (Loop.advance { l with client := c } r).map fun x => (x.1, gone ++ x.2)
    else l.advance r

inductive TimerResult where
  | fault
  | running
  | finished (c : Client) (gone : List Removal)
  deriving DecidableEq

/-- The loop, for at most `fuel` turns. -/
def runLoop (conf : Conf) (turns : ℕ → Turn) (now : ℕ) : ℕ → Loop → List Removal → TimerResult
  | fuel, l, gone =>
    match l.entry with
    | none => .finished l.client gone
    | some r =>
      match fuel with
      | 0 => .running
      | fuel + 1 =>
        match l.turn conf (turns fuel) now r with
        | none => .fault
        | some (l, more) => runLoop conf turns now fuel l (gone ++ more)

/-- The answers of the outside world during one run of the timer. -/
structure TimerInput where
  now : ℕ
  authConnectOk : Bool
  acctConnectOk : Bool
  turns : ℕ → Turn

/-- An entry whose server has not answered often enough to change the server. -/
def needsFailover (c : Client) (now : ℕ) (e : Entry) : Bool :=
  decide (now ≥ e.nextTry) && (decide (e.attempts ≥ numFailover) ||
    (!c.sock e.msgType.isAuth && decide (e.attempts > 0)))

/-- The failovers at the start of `radius_client_timer`. -/
def Client.timerFailover (conf : Conf) (i : TimerInput) (c : Client) : Client × List Removal :=
  let authFailover := c.msgs.any fun e => needsFailover c i.now e && e.msgType.isAuth
  let acctFailover := c.msgs.any fun e => needsFailover c i.now e && !e.msgType.isAuth
  let x := if authFailover then c.failover conf true i.authConnectOk else (c, [])
  let y := if acctFailover then x.1.failover conf false i.acctConnectOk else (x.1, [])
  (y.1, x.2 ++ y.2)

/-- Turns that are enough for a list of `n` entries. -/
def turnBound (n : ℕ) : ℕ := (n + 1) * (n + 1)

def Client.timer (conf : Conf) (i : TimerInput) (c : Client) : TimerResult :=
  if c.msgs = [] then .finished c []
  else
    let x := c.timerFailover conf i
    runLoop conf i.turns i.now (turnBound x.1.msgs.length) (Loop.start x.1) x.2

/-- A message to send, and what the outside world answers: whether there is a current server and a
secret for it, the sockets, and whether the message can be stored, which it is not once the event
loop is terminated or memory is out. -/
structure Request where
  msgType : MsgType
  delayTime : Bool
  now : ℕ
  hasServer : Bool
  hasSecret : Bool
  initOk : Bool
  send : SendResult
  reinitOk : Bool
  stored : Bool
  deriving DecidableEq

namespace Client

/-- `radius_client_list_add`. With the counter at its limit the last entry of the list is removed,
unless it is the new one. -/
def listAdd (q : Request) (id : UInt8) (c : Client) : Client × List Removal :=
  let entry : Entry :=
    { ref := c.nextRef
      id := id
      msgType := q.msgType
      delayTime := q.delayTime
      firstTry := q.now
      nextTry := q.now + firstWait
      attempts := 1
      accuAttempts := 1
      nextWait := min (firstWait * 2) maxWait }
  if c.numMsgs ≥ maxEntries then
    ({ c with msgs := entry :: c.msgs.dropLast, nextRef := c.nextRef + 1 },
      c.msgs.getLast?.toList.map fun e => ⟨e.ref, .oldest c.msgs.length⟩)
  else
    ({ c with msgs := entry :: c.msgs, numMsgs := c.numMsgs + 1, nextRef := c.nextRef + 1 }, [])

/-- `radius_client_send`. -/
def send (q : Request) (id : UInt8) (c : Client) : Client × List Removal :=
  let auth := q.msgType.isAuth
  let c := if q.hasServer ∧ ¬ c.sock auth then c.setSock auth q.initOk else c
  if ¬ q.hasServer ∨ ¬ c.sock auth ∨ ¬ q.hasSecret then (c, [])
  else
    let c := if q.send = .notConnected then c.setSock auth q.reinitOk else c
    if q.stored then c.listAdd q id else (c, [])

/-- `radius_client_receive` for a message that could be parsed, from the authentication or the
accounting socket. -/
def receive (auth : Bool) (id : UInt8) (c : Client) : Client × List Removal :=
  let matching := fun e : Entry => e.msgType.isAuth == auth && e.id == id
  match c.msgs.find? matching with
  | none => (c, [])
  | some e =>
    ({ c with msgs := c.msgs.eraseP matching, numMsgs := c.numMsgs - 1 }, [⟨e.ref, .answered⟩])

/-- A client from `radius_client_init`. -/
def init (authSock acctSock : Bool) : Client := { authSock, acctSock }

end Client

/-- A client and the identifier last returned for a message that is not sent yet. -/
structure Session where
  client : Client
  drawn : Option UInt8 := none
  deriving DecidableEq

inductive Op where
  | getId
  | send (q : Request)
  | receive (auth : Bool) (id : UInt8)
  | timer (i : TimerInput)
  | flush (onlyAuth : Bool)

/-- One call into the client. A message is sent with the identifier that was just returned for it;
nothing is defined after a fault. -/
def step (conf : Conf) : Option Session → Op → Option Session × List Removal
  | none, _ => (none, [])
  | some s, .getId =>
    let x := s.client.getId
    (some ⟨x.1, some x.2.1⟩, x.2.2)
  | some s, .send q =>
    match s.drawn with
    | none => (some s, [])
    | some id =>
      let x := s.client.send q id
      (some ⟨x.1, none⟩, x.2)
  | some s, .receive auth id =>
    let x := s.client.receive auth id
    (some ⟨x.1, s.drawn⟩, x.2)
  | some s, .timer i =>
    match s.client.timer conf i with
    | .finished c gone => (some ⟨c, none⟩, gone)
    | _ => (none, [])
  | some s, .flush onlyAuth =>
    let x := s.client.flush onlyAuth
    (some ⟨x.1, s.drawn⟩, x.2)

end Wpa.Radius
