/-
  File:      RocketMQ/Remoting/Client.lean
  Subject:   The remoting client: connections, the in-flight table and everybody who uses them.

  After `remoting/client.rs`. A step of the machine is one section under the lock of the tables, or
  one load or store of an atomic; between the steps of one party every other party may go on.

  * `Call`: `invoke_impl` (synchronous and asynchronous calls), and `write_frame` on its own (one-way
    requests and responses);
  * `Closer`: `close_channel`, the idle sweep and the tasks of a connection that has gone.

  The tasks of a connection may end at any time, whether or not they were aborted, and the sweep may
  find any connection idle. What a response needs between the table and its receiver touches nothing
  shared; that the receiver gave up meanwhile is covered by timeouts, which do not look first.
-/
import RocketMQ.Remoting.Command
import RocketMQ.Lib.Machine
import RocketMQ.Lib.Pool
import RocketMQ.Lib.Table

namespace RocketMQ.RemotingClient

/-! ## 1. What is shared -/

/-- `Pending`: an entry of the in-flight table. The sender is named by its call and attempt. -/
structure Pending where
  sender : Nat × Nat
  addr : String
  connId : Option Nat
  deriving DecidableEq, Repr

/-- `Connection`. Its identity is its place in the list of connections. -/
structure Connection where
  addr : String
  alive : Bool
  /-- the write lane takes frames -/
  lane : Bool
  /-- one of its tasks has found out that it is gone (history) -/
  lost : Bool
  /-- its in-flight requests have been failed (history) -/
  handled : Bool
  deriving DecidableEq, Repr

/-- The state behind the locks and atomics of `Inner`. -/
structure Shared where
  running : Bool
  conns : Std.ExtTreeMap String Nat
  pending : Std.ExtTreeMap Int32 Pending
  /-- who holds the connect gate of an address -/
  gates : Std.ExtTreeMap String Nat
  links : List Connection

namespace Shared

def isAlive (s : Shared) (conn : Nat) : Bool := s.links[conn]?.any (·.alive)

/-- `WriterHandle::send` would succeed. -/
def takes (s : Shared) (conn : Nat) : Bool := s.links[conn]?.any (·.lane)

def existing (s : Shared) (addr : String) : Option Nat := s.conns[addr]?.filter fun c => s.isAlive c

/-- The sender of this call and attempt has not been dropped. -/
def waits (s : Shared) (sender : Nat × Nat) : Bool :=
  s.pending.toList.any fun e => e.2.sender == sender

end Shared

/-- What one section does to the shared state. -/
inductive Op where
  | idle
  /-- `register_pending` -/
  | register (requestId : Int32) (entry : Pending)
  /-- `attach_pending_conn` -/
  | attach (requestId : Int32) (conn : Nat)
  /-- `cancel` -/
  | cancel (requestId : Int32)
  /-- the connect gate is locked and unlocked -/
  | lock (addr : String) (call : Nat)
  | unlock (addr : String)
  /-- `Connection::new`, with its tasks -/
  | create (addr : String)
  /-- the connection becomes the one of its address, and the gate is unlocked -/
  | publish (addr : String) (conn : Nat)
  /-- `conns.remove` -/
  | remove (addr : String)
  /-- `mark_dead` -/
  | markDead (conn : Nat)
  /-- `fail_pending_for` -/
  | fail (conn : Nat)
  /-- `pending.clear` -/
  | clear
  deriving DecidableEq, Repr

/-- The section is carried out. -/
def Op.apply (s : Shared) : Op → Shared
  | .idle => s
  | .register requestId entry => { s with pending := s.pending.insert requestId entry }
  | .attach requestId conn =>
    { s with pending := s.pending.modify requestId fun p => { p with connId := some conn } }
  | .cancel requestId => { s with pending := s.pending.erase requestId }
  | .lock addr call => { s with gates := s.gates.insert addr call }
  | .unlock addr => { s with gates := s.gates.erase addr }
  | .create addr => { s with links := s.links ++ [⟨addr, true, true, false, false⟩] }
  | .publish addr conn =>
    { s with conns := s.conns.insert addr conn, gates := s.gates.erase addr }
  | .remove addr => { s with conns := s.conns.erase addr }
  | .markDead conn => { s with links := s.links.modify conn fun l => { l with alive := false } }
  | .fail conn =>
    { s with
      pending := s.pending.filter fun _ p => p.connId != some conn
      links := s.links.modify conn fun l => { l with handled := true } }
  | .clear => { s with pending := ∅ }

/-! ## 2. Calls -/

/-- Why a call closes the channel of its address. -/
inductive Why where
  | failedWrite
  | goAway
  | timedOut
  deriving DecidableEq, Repr

/-- Where a call is: the section it runs next. -/
inductive Phase where
  | register (requestId : Int32)
  /-- `get_or_create`: the running flag -/
  | check
  | look
  | gate
  | lookAgain
  | connect
  | publish (conn : Nat)
  /-- `write_frame` -/
  | send (conn : Nat)
  | markDead (conn : Nat)
  /-- `close_channel`, on account of the connection `own` -/
  | close (own : Nat) (why : Why)
  | kill (conn own : Nat) (why : Why)
  | fail (conn own : Nat) (why : Why)
  | attach (conn : Nat)
  | wait (conn : Nat)
  /-- `cancel`; then the channel is closed on account of a timeout, or the call returns -/
  | cancel (error : Error) (own : Option Nat)
  | retry
  | done
  deriving DecidableEq, Repr

/-- What a call returns. -/
inductive Outcome where
  | response (command : RemotingCommand)
  | written
  | error (e : Error)
  deriving DecidableEq, Repr

structure Call where
  /-- `invoke_impl`; otherwise a frame is only written -/
  invoke : Bool
  addr : String
  timeout : Int
  phase : Phase
  /-- the request ids of its attempts, the latest first -/
  used : List Int32
  /-- what its receiver has got -/
  answer : Option RemotingCommand
  /-- how many frames it has written (history) -/
  written : Nat
  /-- the connection that the frame of this attempt was written on (history) -/
  wroteOn : Option Nat
  outcome : Option Outcome
  deriving DecidableEq, Repr

/-- What the world contributes to a section. -/
inductive Input where
  | go
  | refused (error : Error)
  /-- the time is up; whether `close_socket_on_sync_timeout` is set -/
  | timedOut (close : Bool)
  /-- `next_opaque`, and the time that has passed -/
  | retry (requestId : Int32) (spent : Int)
  deriving DecidableEq, Repr

namespace Call

/-- The call goes on to this section. -/
def goTo (k : Call) (phase : Phase) : Call := { k with phase }

def finish (k : Call) (outcome : Outcome) : Call :=
  { k with phase := .done, outcome := some outcome }

/-- `send_request` has failed: an invocation cancels its entry first. -/
def failWith (k : Call) (error : Error) : Call :=
  if k.invoke then k.goTo (.cancel error none) else k.finish (.error error)

/-- The rule of `close_socket_on_timeout`. -/
def closesOnTimeout (k : Call) (close : Bool) : Bool :=
  close && decide (k.timeout > 100 ∨ k.timeout > k.timeout / 4)

/-- `close_channel` is over. -/
def closed (k : Call) : Why → Call
  | .failedWrite => k.failWith (.sendRequest k.addr "connection closed")
  | .goAway => k.goTo .retry
  | .timedOut => k.finish (.error (.timeout k.addr k.timeout))

/-- `response_code::GO_AWAY`. -/
def goAwayCode : Int32 := 1500

/-- A response has arrived for a request that was written on `conn`. -/
def answered (reconnect : Bool) (k : Call) (conn : Nat) (response : RemotingCommand) : Call :=
  if response.code ≠ goAwayCode then k.finish (.response response)
  else if 2 ≤ k.used.length then
    k.finish (.error (.sendRequest k.addr
      ("Receive GO_AWAY twice in request from channel " ++ k.addr)))
  else if reconnect then k.goTo (.close conn .goAway)
  else k.finish (.error (.sendRequest k.addr ("Receive GO_AWAY from channel " ++ k.addr)))

/-- The next section of a call: what it does, and the call after it. -/
def next (reconnect : Bool) (s : Shared) (i : Nat) (k : Call) (x : Input) : Option (Op × Call) :=
  match k.phase, x with
  | .register requestId, .go =>
    some (.register requestId ⟨(i, k.used.length + 1), k.addr, none⟩,
      { k with used := requestId :: k.used, answer := none, wroteOn := none, phase := .check })
  | .check, .go =>
    if s.running then some (.idle, k.goTo .look)
    else some (.idle, k.failWith (.sendRequest k.addr "client already shutdown"))
  | .look, .go =>
    match s.existing k.addr with
    | some conn => some (.idle, k.goTo (.send conn))
    | none => some (.idle, k.goTo .gate)
  | .gate, .go => if k.addr ∈ s.gates then none else some (.lock k.addr i, k.goTo .lookAgain)
  | .lookAgain, .go =>
    match s.existing k.addr with
    | some conn => some (.unlock k.addr, k.goTo (.send conn))
    | none => some (.idle, k.goTo .connect)
  | .connect, .go => some (.create k.addr, k.goTo (.publish s.links.length))
  | .connect, .refused error => some (.unlock k.addr, k.failWith error)
  | .publish conn, .go =>
    match s.existing k.addr with
    | some other => some (.unlock k.addr, k.goTo (.send other))
    | none => some (.publish k.addr conn, k.goTo (.send conn))
  | .send conn, .go =>
    if s.takes conn then
      let k := { k with written := k.written + 1, wroteOn := some conn }
      some (.idle, if k.invoke then k.goTo (.attach conn) else k.finish .written)
    else some (.idle, k.goTo (.markDead conn))
  | .markDead conn, .go => some (.markDead conn, k.goTo (.close conn .failedWrite))
  | .close own why, .go =>
    match s.conns[k.addr]? with
    | some conn => some (.remove k.addr, k.goTo (.kill conn own why))
    | none => some (.idle, k.closed why)
  | .kill conn own why, .go => some (.markDead conn, k.goTo (.fail conn own why))
  | .fail conn _ why, .go => some (.fail conn, k.closed why)
  | .attach conn, .go => some (.attach (k.used.headD 0) conn, k.goTo (.wait conn))
  | .wait conn, .go =>
    match k.answer with
    | some response => some (.idle, k.answered reconnect conn response)
    | none =>
      if s.waits (i, k.used.length) then none
      else some (.idle, k.goTo (.cancel (.sendRequest k.addr "connection closed") none))
  | .wait conn, .timedOut close =>
    some (.idle, k.goTo (.cancel (.timeout k.addr k.timeout)
      (if k.closesOnTimeout close then some conn else none)))
  | .cancel error own, .go =>
    some (.cancel (k.used.headD 0),
      match own with
      | some conn => k.goTo (.close conn .timedOut)
      | none => k.finish (.error error))
  | .retry, .retry requestId spent =>
    some (.idle, { k with phase := .register requestId, timeout := max (k.timeout - spent) 1 })
  | _, _ => none

end Call

/-! ## 3. Everybody -/

/-- The rest of a close: the connection has left the table or was not in it. -/
structure Closer where
  conn : Nat
  /-- it is already dead -/
  marked : Bool
  deriving DecidableEq, Repr

/-- Where a `shutdown` is, after it has cleared the running flag. -/
inductive Shutting where
  | collect
  | next (todo : List String)
  | kill (conn : Nat) (todo : List String)
  | fail (conn : Nat) (todo : List String)
  | done
  deriving DecidableEq, Repr

structure Client where
  shared : Shared
  calls : List Call
  closers : List Closer
  shutdowns : List Shutting
  /-- a shutdown has collected its addresses since the running flag was last changed (history) -/
  collected : Bool

/-- `RemotingClient::new`. -/
def Client.new : Client := ⟨⟨true, ∅, ∅, ∅, []⟩, [], [], [], false⟩

/-- The parameters of a client, and of what it calls. -/
structure Env where
  lib : StdLib
  /-- arithmetic overflow is checked for -/
  checked : Bool
  /-- there is a processor for this request code -/
  processor : Int32 → Bool
  /-- `enable_reconnect_for_go_away` -/
  reconnect : Bool

/-- What becomes of a frame. -/
inductive Dispatched where
  | panics
  /-- the stream cannot be trusted any more -/
  | undecodable
  /-- a call is completed -/
  | completed (sender : Nat × Nat) (command : RemotingCommand)
  /-- a response that nobody waits for -/
  | dropped (command : RemotingCommand)
  | noProcessor (command : RemotingCommand)
  | processed (command : RemotingCommand) (wantsReply : Bool)
  deriving DecidableEq, Repr

/-- `dispatch`: the table first, whatever the flag says. -/
def dispatch (env : Env) (s : Shared) (frame : List UInt8) : Dispatched × Shared :=
  match RemotingCommand.decode env.lib env.checked frame with
  | .error (.err _) => (.undecodable, s)
  | .error _ => (.panics, s)
  | .ok command =>
    match s.pending[command.requestId]? with
    | some p =>
      (.completed p.sender command,
        { s with pending := s.pending.erase command.requestId })
    | none =>
      if command.isResponseType then (.dropped command, s)
      else if env.processor command.code then
        (.processed command (!command.isOnewayRpc), s)
      else (.noProcessor command, s)

/-- The receiver gets its command, if it is still there. -/
def deliver (calls : List Call) : Dispatched → List Call
  | .completed sender command => calls.modify sender.1 fun k =>
    if k.used.length = sender.2 then { k with answer := some command } else k
  | _ => calls

/-- The steps of the machine. -/
inductive Act where
  | start
  | shutdown
  | invoke (addr : String) (requestId : Int32) (timeout : Int)
  | write (addr : String)
  | call (i : Nat) (x : Input)
  /-- the reader of the connection has read a frame -/
  | receive (conn : Nat) (frame : List UInt8)
  /-- the write lane ends -/
  | laneEnds (conn : Nat)
  /-- the reader thread of a TLS connection ends -/
  | readerEnds (conn : Nat)
  /-- the first section of `on_connection_lost` -/
  | lost (conn : Nat)
  /-- the first section of `close_channel`, or the sweep finds the connection idle -/
  | closeChannel (addr : String)
  | closer (j : Nat)
  | shut (j : Nat) (addr : String)
  deriving DecidableEq, Repr

def newCall (invoke : Bool) (addr : String) (timeout : Int) (phase : Phase) : Call :=
  ⟨invoke, addr, timeout, phase, [], none, 0, none, none⟩

/-- The next section of a `shutdown`: what it does, and where the shutdown is after it. The order
of the addresses is that of a hash map. -/
def Shutting.step (s : Shared) (addr : String) : Shutting → Option (Op × Shutting)
  | .collect => some (.idle, .next s.conns.keys)
  | .next [] => some (.clear, .done)
  | .next todo =>
    if addr ∈ todo then
      match s.conns[addr]? with
      | some conn => some (.remove addr, .kill conn (todo.erase addr))
      | none => some (.idle, .next (todo.erase addr))
    else none
  | .kill conn todo => some (.markDead conn, .fail conn todo)
  | .fail conn todo => some (.fail conn, .next todo)
  | .done => none

namespace Client

/-- `on_connection_lost` up to `fail_pending_for`. -/
def loseConnection (c : Client) (conn : Nat) (link : Connection) : Client :=
  let links := c.shared.links.set conn { link with lost := true }
  if c.shared.conns[link.addr]? = some conn then
    { c with
      shared := { c.shared with links, conns := c.shared.conns.erase link.addr }
      closers := c.closers ++ [⟨conn, false⟩] }
  else { c with shared := { c.shared with links }, closers := c.closers ++ [⟨conn, true⟩] }

/-- **One step of the client.** -/
def step (env : Env) (c : Client) : Act → Option Client
  | .start => some { c with shared := { c.shared with running := true }, collected := false }
  | .shutdown =>
    if c.shared.running then
      some { c with
        shared := { c.shared with running := false }
        shutdowns := c.shutdowns ++ [.collect]
        collected := false }
    else some c
  | .invoke addr requestId timeout =>
    some { c with calls := c.calls ++ [newCall true addr timeout (.register requestId)] }
  | .write addr => some { c with calls := c.calls ++ [newCall false addr 0 .check] }
  | .call i x => do
      let k ← c.calls[i]?
      let (op, k) ← k.next env.reconnect c.shared i x
      return { c with shared := op.apply c.shared, calls := c.calls.set i k }
  | .receive conn frame =>
    if conn < c.shared.links.length then
      let (outcome, shared) := dispatch env c.shared frame
      some { c with shared, calls := deliver c.calls outcome }
    else none
  | .laneEnds conn =>
    some { c with shared := { c.shared with
      links := c.shared.links.modify conn fun l => { l with lane := false } } }
  | .readerEnds conn => some { c with shared := Op.apply c.shared (.markDead conn) }
  | .lost conn => do
      let link ← c.shared.links[conn]?
      return c.loseConnection conn link
  | .closeChannel addr => do
      let conn ← c.shared.conns[addr]?
      return { c with
        shared := Op.apply c.shared (.remove addr)
        closers := c.closers ++ [⟨conn, false⟩] }
  | .closer j => do
      let closer ← c.closers[j]?
      if closer.marked then
        return { c with
          shared := Op.apply c.shared (.fail closer.conn)
          closers := c.closers.eraseIdx j }
      else
        return { c with
          shared := Op.apply c.shared (.markDead closer.conn)
          closers := c.closers.set j { closer with marked := true } }
  | .shut j addr => do
      let shutting ← c.shutdowns[j]?
      let (op, shutting') ← shutting.step c.shared addr
      return { c with
        shared := op.apply c.shared
        shutdowns := c.shutdowns.set j shutting'
        collected := if shutting = .collect then true else c.collected }

end Client

end RocketMQ.RemotingClient
