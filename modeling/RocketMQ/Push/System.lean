/-
  File:      RocketMQ/Push/System.lean
  Subject:   The push consumer as a whole: tables, background tasks, and one step of any of them.

  A state `Sys` holds the rows of all queues, the assignment, and the tasks that are running:
  pull loops, rebalance rounds, revocations, the lock round, the expiry cleaner, `reset_offset`
  calls, and the one dispatch task. `step` lets one task run one critical section (the sections
  are those of `Push/Tasks` where they work on one queue), or lets the environment act: the clock
  ticks, a task starts, the configuration changes, the consumer shuts down. Which task runs is the
  action's choice, so the runs of `step` are the interleavings of the source's tasks.

  The POP branches (`pop_mode`) are not part of this system.
-/
import Std.Data.ExtTreeMap
import RocketMQ.Lib.Machine
import RocketMQ.Push.Tasks
import RocketMQ.Rebalance.Allocate

namespace RocketMQ

open Std

/-! ## 1. State -/

/-- A queue with the consume offset its revocation persists. -/
abbrev Revoked := MessageQueue × Option Int

/-- What follows a revocation. -/
inductive After where
  /-- `handle_offset_illegal` returns into its pull loop -/
  | loop (mq : MessageQueue) (token : Nat)
  /-- `rebalance_pull_threads` spawns the loops it registered -/
  | spawn (loops : List (MessageQueue × Nat))
  /-- `reset_offset` calls `do_rebalance` -/
  | rebalance
  deriving DecidableEq, Repr

/-- A running background task, at one of its program points. -/
inductive Task where
  | loop (mq : MessageQueue) (token : Nat) (pc : LoopPc)
  /-- `revoke_queues` -/
  | revoking (rest : List Revoked) (after : After)
  /-- `do_rebalance`: about to read the assignment -/
  | rebalance
  | rebTopics (was : List MessageQueue)
  | rebAllocating (was : List MessageQueue) (topics : List String) (acc : List MessageQueue)
  /-- placing the initial cursors of the queues that are new -/
  | rebPlacing (was : List String) (todo : List MessageQueue) (skipped : List String)
  /-- `rebalance_pull_threads`, before and after `current` is read -/
  | rebCurrent (skip : List String)
  | rebThreads (current : ExtTreeMap String MessageQueue)
  /-- `reset_offset` in its sleep -/
  | resetSleep (revoked : List Revoked)
  /-- `clean_expired_msg_once` over the remaining keys -/
  | clean (keys : List String)
  /-- `clean_expired_queue`: `n` rounds left -/
  | cleaning (key : String) (n : Nat) (keys : List String)
  | cleanSend (key : String) (head : MessageExt) (n : Nat) (keys : List String)
  /-- `lock_loop` waiting for `lock_batch_mq` -/
  | locking

/-- The dispatch task. -/
inductive Dispatch where
  /-- keys of the snapshot still to visit -/
  | scan (keys : List String)
  | held (key : String) (mq : MessageQueue) (gen : Nat) (pc : HeldPc) (keys : List String)
  | stopped

/-- The row of a key; a key no table knows has the empty row. -/
def rowOf (rows : ExtTreeMap String Row) (k : String) : Row := rows[k]?.getD Row.empty

/-- The push consumer. -/
structure Sys where
  rows : ExtTreeMap String Row
  assigned : List MessageQueue
  subscription : List (String × SubscriptionData)
  tasks : List Task
  dispatch : Dispatch
  started : Bool
  paused : Bool
  orderly : Bool
  cfg : ConsumerConfig
  clientId : String
  clock : Int
  nextToken : Nat

namespace Sys

/-- A freshly started consumer. -/
def init (cfg : ConsumerConfig) (orderly : Bool) (clientId : String) : Sys :=
  { rows := ∅, assigned := [], subscription := [], tasks := [], dispatch := .scan []
    started := true, paused := false, orderly := orderly, cfg := cfg, clientId := clientId
    clock := 0, nextToken := 1 }

/-- What the tables say under a key. -/
def row (s : Sys) (k : String) : Row := rowOf s.rows k

def setRow (s : Sys) (k : String) (r : Row) : Sys := { s with rows := s.rows.insert k r }

/-- What a section reads outside the rows. -/
def env (s : Sys) : Env where
  cfg := s.cfg
  orderly := s.orderly
  started := s.started
  paused := s.paused
  subscription := fun topic => (s.subscription.find? (fun e => e.1 == topic)).map (·.2)
  now := s.clock

/-- Replace the task at position `i` by these. -/
def setTask (s : Sys) (i : Nat) (ts : List Task) : Sys :=
  { s with tasks := s.tasks.take i ++ ts ++ s.tasks.drop (i + 1) }

end Sys

/-! ## 2. Rebalance -/

/-- The queues of the round as `rebalance_pull_threads` keys them (the last of a key wins). -/
def currentOf (assigned : List MessageQueue) (skip : List String) :
    ExtTreeMap String MessageQueue :=
  (assigned.filter fun mq => !skip.contains (mqKey mq)).foldl
    (fun m mq => m.insert (mqKey mq) mq) ∅

variable (current : ExtTreeMap String MessageQueue) (started : Bool)

/-- Whether the round retires the queue: it has an owner and either left the assignment or
stalled. -/
def doomed (now : Int) (k : String) (r : Row) : Bool :=
  r.queueOwners.isSome && (!current.contains k || (started && r.pullStalledLocked now))

/-- Step (1) of `rebalance_pull_threads` on the rows. -/
def retireDoomed (now : Int) (rows : ExtTreeMap String Row) : ExtTreeMap String Row :=
  rows.map fun k r =>
    if doomed current started now k r then (r.retireQueueLocked current[k]?).1 else r

/-- The list step (1) collects. -/
def revokedDoomed (now : Int) (rows : ExtTreeMap String Row) : List Revoked :=
  rows.toList.filterMap fun e =>
    if doomed current started now e.1 e.2 then (e.2.retireQueueLocked current[e.1]?).2 else none

/-- The events a section causes row by row. -/
def rowEvents (rows : ExtTreeMap String Row) (f : String → Row → Option QEvent) :
    List (String × QEvent) :=
  rows.toList.filterMap fun e => (f e.1 e.2).map fun ev => (e.1, ev)

def retireDoomedEvents (now : Int) (rows : ExtTreeMap String Row) : List (String × QEvent) :=
  rowEvents rows fun k r =>
    if doomed current started now k r then some (.retired (r.epoch + 1) none) else none

/-- The accumulator of step (2): rows, next token, loops to spawn, events. -/
structure Registering where
  rows : ExtTreeMap String Row
  nextToken : Nat
  toSpawn : List (MessageQueue × Nat)
  events : List (String × QEvent)

/-- Step (2) of `rebalance_pull_threads` for one queue of the round. -/
def registerOne (now : Int) (a : Registering) (mq : MessageQueue) : Registering :=
  let r := rowOf a.rows (mqKey mq)
  if r.queueOwners.isSome then a
  else
    { rows := a.rows.insert (mqKey mq) (r.register mq a.nextToken now)
      nextToken := a.nextToken + 1
      toSpawn := a.toSpawn ++ [(mq, a.nextToken)]
      events := a.events ++ [(mqKey mq, .registered a.nextToken r.epoch)] }

variable (s : Sys)

/-- The locked section of `rebalance_pull_threads`. -/
def rebalancePullThreads (current : ExtTreeMap String MessageQueue) : List Revoked × Registering :=
  (revokedDoomed current s.started s.clock s.rows,
    (current.toList.map (·.2)).foldl (registerOne s.clock)
      { rows := retireDoomed current s.started s.clock s.rows
        nextToken := s.nextToken
        toSpawn := []
        events := retireDoomedEvents current s.started s.clock s.rows })

/-! ## 3. `reset_offset` and the lock round -/

variable (topic : String)

/-- The offset `reset_offset` sets for a row, when it hits. -/
def resetHit (table : List (MessageQueue × Int)) (r : Row) : Option (MessageQueue × Int) :=
  match r.mqMap with
  | some mq => if mq.topic = topic then table.find? (fun e => e.1 == mq) else none
  | none => none

/-- The section of `reset_offset` on one row: the offset goes in, then the queue is retired. -/
def resetRow (table : List (MessageQueue × Int)) (r : Row) : Row :=
  match resetHit topic table r with
  | some (mq, off) => ({ r with consumeOffsets := some off }.retireQueueLocked (some mq)).1
  | none => r

def resetRevoked (table : List (MessageQueue × Int))
    (rows : ExtTreeMap String Row) : List Revoked :=
  rows.toList.filterMap fun e =>
    match resetHit topic table e.2 with
    | some (mq, off) => ({ e.2 with consumeOffsets := some off }.retireQueueLocked (some mq)).2
    | none => none

def resetEvents (table : List (MessageQueue × Int))
    (rows : ExtTreeMap String Row) : List (String × QEvent) :=
  rowEvents rows fun _ r =>
    (resetHit topic table r).map fun hit => .retired (r.epoch + 1) (some hit.2)

/-- Both lock tables after a lock round that granted `ok`: cleared, then filled. -/
def lockRows (ok : List MessageQueue) (now : Int) (rows : ExtTreeMap String Row) :
    ExtTreeMap String Row :=
  ok.foldl (fun m mq => m.insert (mqKey mq) ((rowOf m (mqKey mq)).setLock true now))
    (rows.map fun _ r => r.setLock false now)

/-! ## 4. The expiry cleaner -/

def consumeStartTimestamp (m : MessageExt) : Option Int :=
  match m.getProperty "CONSUME_START_TIME" with
  | some raw => if raw.isEmpty then none else Decimal.parseI64 raw
  | none => none

def isConsumeExpired (stamp : Option Int) (now timeoutMinutes : Int) : Bool :=
  match stamp with
  | some ts => decide (now - ts > timeoutMinutes * 60 * 1000)
  | none => false

/-! ## 5. One step -/

/-- What a task waits for. -/
inductive TaskAct where
  | go
  | loop (act : LoopAct)
  /-- the consumer has no client any more -/
  | noClient
  /-- a topic's route, the consumer list (`none`: the request failed) and the strategy used -/
  | route (allocate : AllocateStrategy) (mqAll : List MessageQueue) (cidAll : Option (List String))
  /-- `resolve_initial_offset` returned -/
  | offset (answer : Option Int)
  /-- the cleaner's send-back returned -/
  | sendBack (ok : Bool)
  /-- `lock_batch_mq` returned -/
  | granted (answer : Option (List MessageQueue))

/-- What happens next. -/
inductive Action where
  /-- the task at that position runs one section -/
  | task (i : Nat) (act : TaskAct)
  | dispatch (act : HeldAct)
  /-- a rebalance round, a loop sync, a lock round, a cleaner round starts -/
  | rebalance
  | syncPullThreads
  | lock
  | clean
  | resetOffset (topic : String) (table : List (MessageQueue × Int))
  | tick (d : Nat)
  /-- the configuration changes; the message model is fixed at start -/
  | configure (cfg : ConsumerConfig)
  | subscribe (subscription : List (String × SubscriptionData))
  | pause (b : Bool)
  /-- `shutdown`, first the flag, then the locked section, then the aborts -/
  | shutdown
  | clearOwners
  | abort (i : Nat)

/-- The events of one queue, under its key. -/
def tagged (k : String) (evs : List QEvent) : List (String × QEvent) := evs.map fun e => (k, e)

/-- The tasks a revocation gives way to. -/
def After.resume : After → List Task
  | .loop mq token => [.loop mq token .top]
  | .spawn loops => loops.map fun l => .loop l.1 l.2 .top
  | .rebalance => [.rebalance]

namespace Sys

def broadcasting : Bool := s.cfg.messageModel == .broadcasting

/-- A task with no table access of its own moves on. -/
def goto (i : Nat) (ts : List Task) : Option (Sys × List (String × QEvent)) :=
  some (s.setTask i ts, [])

/-- One section of the task at position `i`. -/
def taskStep (i : Nat) : Task → TaskAct → Option (Sys × List (String × QEvent))
  | .loop mq token pc, .loop act =>
    match loopStep s.env mq token (s.row (mqKey mq)) pc act with
    | some (r, pc', evs) =>
      some ((s.setRow (mqKey mq) r).setTask i [.loop mq token pc'], tagged (mqKey mq) evs)
    | none => none
  | .loop mq token .exit, .go =>
    some ((s.setRow (mqKey mq) ((s.row (mqKey mq)).markPullLoopExited token)).setTask i [], [])
  | .loop mq token .illegal, .go =>
    -- `handle_offset_illegal` retires whatever generation it meets
    let r := s.row (mqKey mq)
    some ((s.setRow (mqKey mq) (r.retireQueueLocked none).1).setTask i
        [.revoking (r.retireQueueLocked none).2.toList (.loop mq token)],
      [(mqKey mq, .illegalRetired token r.queueOwners r.epoch)])
  | .revoking _ after, .noClient => s.goto i after.resume
  | .revoking [] after, .go => s.goto i after.resume
  | .revoking (x :: rest) after, .go =>
    if s.broadcasting then s.goto i after.resume
    else
      -- the removal looks neither at the owner nor at the generation
      let r := s.row (mqKey x.1)
      some ((s.setRow (mqKey x.1) { r with consumeOffsets := none }).setTask i
          [.revoking rest after],
        [(mqKey x.1, .removed r.queueOwners s.started r.consumeOffsets)])
  | .rebalance, .go => if s.started then s.goto i [.rebTopics s.assigned] else s.goto i []
  | .rebTopics was, .go => s.goto i [.rebAllocating was (s.subscription.map (·.1)) []]
  | .rebAllocating was (topic :: topics) acc, .route allocate mqAll cidAll =>
    if s.broadcasting then s.goto i [.rebAllocating was topics (acc ++ mqAll)]
    else
      match topicShare allocate s.cfg.consumerGroup s.clientId s.assigned topic mqAll cidAll with
      | .ok got => s.goto i [.rebAllocating was topics (acc ++ got)]
      | .error _ => s.goto i []
  | .rebAllocating was [] acc, .go =>
    { s with assigned := acc }.goto i [.rebPlacing (was.map mqKey) acc []]
  | .rebPlacing was (mq :: todo) skipped, .offset answer =>
    if was.contains (mqKey mq) then s.goto i [.rebPlacing was todo skipped]
    else
      match answer with
      | none => s.goto i [.rebPlacing was todo (skipped ++ [mqKey mq])]
      | some off =>
        let r := s.row (mqKey mq)
        if r.offsetTable.isSome then s.goto i [.rebPlacing was todo skipped]
        else
          some ((s.setRow (mqKey mq) { r with offsetTable := some off }).setTask i
              [.rebPlacing was todo skipped],
            [(mqKey mq, .placed r.epoch off)])
  | .rebPlacing _ [] skipped, .go => s.goto i [.rebCurrent skipped]
  | .rebCurrent skip, .go => s.goto i [.rebThreads (currentOf s.assigned skip)]
  | .rebThreads current, .go =>
    let (revoked, a) := rebalancePullThreads s current
    some ({ s with rows := a.rows, nextToken := a.nextToken }.setTask i
      [.revoking revoked (.spawn a.toSpawn)], a.events)
  | .resetSleep revoked, .go => s.goto i [.revoking revoked .rebalance]
  | .clean [], .go => s.goto i []
  | .clean (k :: keys), .go =>
    if s.orderly then s.goto i [.clean keys]
    else s.goto i [.cleaning k (min (s.row k).processQueueEntriesLocked.length 16) keys]
  | .cleaning _ 0 keys, .go => s.goto i [.clean keys]
  | .cleaning k (n + 1) keys, .go =>
    match (s.row k).processQueueFirstEntryLocked with
    | none => s.goto i [.clean keys]
    | some head =>
      if isConsumeExpired (consumeStartTimestamp head) s.clock s.cfg.consumeTimeout then
        s.goto i [.cleanSend k head n keys]
      else s.goto i [.clean keys]
  | .cleanSend k _ n keys, .sendBack false => s.goto i [.cleaning k n keys]
  | .cleanSend k head n keys, .sendBack true =>
    let r := s.row k
    -- no cleaner gets here under an orderly listener: `clean` has skipped every key
    if s.orderly then none
    else
      some ((s.setRow k (r.removeExpiredEntryIfStillHead head.queueOffset)).setTask i
          [.cleaning k n keys],
        if r.stillHead head.queueOffset then [(k, .swept r.epoch head.queueOffset)] else [])
  | .locking, .granted none => s.goto i []
  | .locking, .granted (some ok) => { s with rows := lockRows ok s.clock s.rows }.goto i []
  | _, _ => none

/-- One section of `dispatch_loop`. -/
def dispatchStep : Dispatch → HeldAct → Option (Sys × List (String × QEvent))
  | .scan [], .go =>
    if s.started then
      some ({ s with dispatch := .scan (s.rows.toList.filterMap fun e =>
        if e.2.pending.isSome then some e.1 else none) }, [])
    else some ({ s with dispatch := .stopped }, [])
  | .scan (k :: keys), .go =>
    if s.started then
      match (s.row k).takeBatch s.cfg.consumeMessageBatchMaxSize with
      | none => some ({ s with dispatch := .scan keys }, [])
      | some ((mq, batch, gen), r) =>
        some ({ s.setRow k r with dispatch := .held k mq gen (.taken batch) keys }, [])
    else some ({ s with dispatch := .stopped }, [])
  | .held k _ _ .finishing keys, .go =>
    some ({ s.setRow k (s.row k).finishBatch with dispatch := .scan keys }, [])
  | .held k mq gen pc keys, act =>
    match heldStep s.env gen (s.row k) pc act with
    | some (r, pc', evs) =>
      some ({ s.setRow k r with dispatch := .held k mq gen pc' keys }, tagged k evs)
    | none => none
  | _, _ => none

/-- Start a task. -/
def spawn (t : Task) : Sys := { s with tasks := s.tasks ++ [t] }

/-- **One step of the consumer.** -/
def step : Action → Option (Sys × List (String × QEvent))
  | .task i act =>
    match s.tasks[i]? with
    | some t => s.taskStep i t act
    | none => none
  | .dispatch act => s.dispatchStep s.dispatch act
  | .rebalance => some (s.spawn .rebalance, [])
  | .syncPullThreads => some (s.spawn (.rebCurrent []), [])
  | .lock =>
    if s.orderly && s.cfg.messageModel == .clustering && !s.assigned.isEmpty then
      some (s.spawn .locking, [])
    else some (s, [])
  | .clean =>
    some (s.spawn (.clean (s.rows.toList.filterMap fun e =>
      if e.2.mqMap.isSome then some e.1 else none)), [])
  | .resetOffset topic table =>
    if topic.isEmpty || table.isEmpty then some (s, [])
    else
      let revoked := resetRevoked topic table s.rows
      let s' := { s with rows := s.rows.map fun _ r => resetRow topic table r }
      some (if revoked = [] then s' else s'.spawn (.resetSleep revoked),
        resetEvents topic table s.rows)
  | .tick d => some ({ s with clock := s.clock + d }, [])
  | .configure cfg =>
    if cfg.messageModel = s.cfg.messageModel then some ({ s with cfg := cfg }, []) else none
  | .subscribe subscription => some ({ s with subscription := subscription }, [])
  | .pause b => some ({ s with paused := b }, [])
  | .shutdown => some ({ s with started := false }, [])
  | .clearOwners =>
    if s.started then none else some ({ s with rows := s.rows.map fun _ r => r.orphan }, [])
  | .abort i =>
    match s.started, s.tasks[i]? with
    | false, some _ => s.goto i []
    | _, _ => none

/-- The step relation: some action is possible and leads there. -/
def Steps (evs : List (String × QEvent)) (s' : Sys) : Prop :=
  ∃ a, s.step a = some (s', evs)

/-- **Runs of the consumer**, with the events of all queues. -/
abbrev Run (tr : List (String × QEvent)) (s' : Sys) : Prop :=
  Machine.Run Steps s tr s'

/-- Let the consumer take these actions one after the other. -/
def exec (s : Sys) : List Action → Option (Sys × List (String × QEvent))
  | [] => some (s, [])
  | a :: as =>
    match s.step a with
    | some (s', evs) => (exec s' as).map fun p => (p.1, evs ++ p.2)
    | none => none

theorem run_of_exec {s s' : Sys} {acts : List Action} {tr : List (String × QEvent)}
    (h : s.exec acts = some (s', tr)) : Run s tr s' := by
  induction acts generalizing s tr with
  | nil =>
    cases h
    exact .start
  | cons a as ih =>
    unfold exec at h
    cases hs : s.step a with
    | none => rw [hs] at h; cases h
    | some p =>
      rw [hs] at h
      obtain ⟨⟨s1, tr1⟩, hx, heq⟩ := Option.map_eq_some_iff.mp h
      cases heq
      exact (Machine.Run.one ⟨a, hs⟩).trans (ih hx)

/-- The state after a list of actions that can be executed. -/
def after (acts : List Action) : Sys := ((s.exec acts).map (·.1)).getD s

/-- The events of a list of actions that can be executed. -/
def traceOf (acts : List Action) : List (String × QEvent) :=
  ((s.exec acts).map (·.2)).getD []

theorem run_after (acts : List Action) (h : (s.exec acts).isSome = true) :
    Run s (s.traceOf acts) (s.after acts) := by
  obtain ⟨⟨s', tr⟩, hx⟩ := Option.isSome_iff_exists.mp h
  have hrun := run_of_exec hx
  unfold after traceOf
  rw [hx]
  exact hrun

end Sys

/-- The events of one queue in the trace of the consumer. -/
def onKey (k : String) (tr : List (String × QEvent)) : List QEvent :=
  tr.filterMap fun e => if e.1 = k then some e.2 else none

end RocketMQ
