/-
  File:      RocketMQ/Lite/System.lean
  Subject:   The lite pull consumer as a machine whose steps are its critical sections.

  After `DefaultLitePullConsumer` in `pull_consumer.rs`. The state lock and the buffer lock are never
  held together, so every public operation is a sequence of sections with gaps between them. A step
  of the machine is one section; what an operation carries over a gap is a `LiteTask`, and what the
  one background pull loop carries is a `PullPc`.

  * `epoch`, `writes`, `delivered` are history: how often a queue was revoked or sought, which
    cursor and buffer writes a pull or a resolution made, what polls took.
-/
import RocketMQ.Lib.Machine
import RocketMQ.Lib.Pool
import RocketMQ.Lib.Table
import RocketMQ.Lite.Buffer

namespace RocketMQ

open Std

/-! ## 1. The tables -/

structure PullPark where
  delayMillis : Int
  untilMillis : Int
  deriving DecidableEq, Repr

/-- The tables of `LiteState` that the sections below use, keyed by `mqKey` (the first two by
topic). -/
structure LiteState where
  subscriptionData : ExtTreeMap String SubscriptionData
  assignSubExpr : ExtTreeMap String String
  assigned : ExtTreeMap String MessageQueue
  nextOffset : ExtTreeMap String Int
  consumeOffset : ExtTreeMap String Int
  offsetTable : ExtTreeMap String Int
  seekOffset : ExtTreeMap String Int
  paused : ExtTreeMap String Unit
  pullParks : ExtTreeMap String PullPark

namespace LiteState

def empty : LiteState := ⟨∅, ∅, ∅, ∅, ∅, ∅, ∅, ∅, ∅⟩

variable (st : LiteState)

/-- The assigned queues, in the order of their keys. -/
def queues : List MessageQueue := st.assigned.toList.map (·.2)

/-- What every way out of an assignment erases. -/
def forget (keys : List String) : LiteState :=
  { st with
    nextOffset := Table.eraseAll st.nextOffset keys
    consumeOffset := Table.eraseAll st.consumeOffset keys
    seekOffset := Table.eraseAll st.seekOffset keys
    pullParks := Table.eraseAll st.pullParks keys }

/-- The keys `assign` drops. -/
def assignDrops (mqs : List MessageQueue) : List String :=
  st.assigned.keys.filter fun k => !(mqs.map mqKey).contains k

/-- The locked section of `assign`. -/
def assign (mqs : List MessageQueue) : LiteState :=
  let dropped := st.assignDrops mqs
  { st.forget dropped with
    paused := Table.eraseAll st.paused dropped
    assigned := Table.fill mqKey mqs (Table.eraseAll st.assigned dropped) }

/-- The keys `unsubscribe` drops. -/
def unsubscribeDrops (topic : String) : List String :=
  (st.assigned.toList.filter fun e => e.2.topic == topic).map (·.1)

/-- The locked section of `unsubscribe`. -/
def unsubscribe (topic : String) : LiteState :=
  let dropped := st.unsubscribeDrops topic
  { st.forget dropped with
    subscriptionData := if st.assignSubExpr.contains topic then st.subscriptionData
      else st.subscriptionData.erase topic
    paused := Table.eraseAll st.paused dropped
    assigned := Table.eraseAll st.assigned dropped }

variable (newAssigned : ExtTreeMap String MessageQueue)

/-- The keys a rebalance round drops. -/
def rebalanceDrops : List String :=
  st.assigned.keys.filter fun k => !newAssigned.contains k

/-- The queues a rebalance round adds. -/
def rebalanceAdds : List MessageQueue :=
  (newAssigned.toList.filter fun e => !st.assigned.contains e.1).map (·.2)

/-- The dropped queues whose committed offset is to be stored. -/
def rebalanceRevokes : List MessageQueue :=
  ((st.rebalanceDrops newAssigned).filter fun k => st.offsetTable.contains k).filterMap
    fun k => st.assigned[k]?

/-- The locked section of `rebalance`; a round that changes nothing writes nothing. -/
def rebalance : LiteState :=
  if (st.rebalanceAdds newAssigned).isEmpty && (st.rebalanceDrops newAssigned).isEmpty then st
  else { st.forget (st.rebalanceDrops newAssigned) with assigned := newAssigned }

/-- The locked section of `apply_seek`: all three cursors. -/
def pinCursors (mq : MessageQueue) (offset : Int) : LiteState :=
  { st with
    seekOffset := st.seekOffset.insert (mqKey mq) offset
    nextOffset := st.nextOffset.insert (mqKey mq) offset
    consumeOffset := st.consumeOffset.insert (mqKey mq) offset }

/-- The queues that have a pull cursor and are assigned. -/
def held : List MessageQueue :=
  st.nextOffset.keys.filterMap fun k => st.assigned[k]?

/-- The message's coordinates, a missing broker name read as the empty one. -/
def names (mq : MessageQueue) (m : MessageExt) : Bool :=
  mq.topic == m.topic && mq.brokerName == m.brokerName.getD "" && mq.queueId == m.queueId

/-- The consumed cursor moves to the offset behind this message, never back. -/
def consumeOne (held : List MessageQueue) (consumed : ExtTreeMap String Int) (m : MessageExt) :
    ExtTreeMap String Int :=
  match held.reverse.find? (fun mq => names mq m) with
  | none => consumed
  | some mq =>
    if m.queueOffset + 1 > consumed[mqKey mq]?.getD (-1) then
      consumed.insert (mqKey mq) (m.queueOffset + 1)
    else consumed

def advanceConsumeOffset (msgs : List MessageExt) : LiteState :=
  { st with consumeOffset := msgs.foldl (consumeOne st.held) st.consumeOffset }

/-- The offsets `commit` and `commit_queues` go by. -/
def commitTargetsOf (scope : List String) : List (String × Int) :=
  scope.map fun k => (k, st.consumeOffset[k]?.getD (-1))

/-- The locked section of `commit_targets`. -/
def commitTargets (targets : List (String × Int)) : LiteState :=
  { st with
    offsetTable := targets.foldl (fun table e =>
      if e.2 = -1 then table
      else if st.assigned.contains e.1 then table.insert e.1 e.2 else table) st.offsetTable }

def parkPull (key : String) (delayMillis now : Int) : LiteState :=
  { st with pullParks := st.pullParks.insert key ⟨delayMillis, now + delayMillis⟩ }

/-- The queues a round of the pull loop goes through. -/
def targets (now : Int) : List MessageQueue :=
  st.queues.filter fun mq =>
    !st.paused.contains (mqKey mq)
      && !(st.pullParks[mqKey mq]?.any fun park => decide (park.untilMillis > now))

end LiteState

def pullTimeDelayMillsWhenCacheFlowControl : Int := 50

def pullTimeDelayMillsWhenBrokerFlowControl : Int := 20

def maxPollBatchSize : Nat := 1024

/-- `pull_message` stamps broker name and queue id on every row. -/
def stampRows (mq : MessageQueue) (msgs : List MessageExt) : List MessageExt :=
  msgs.map fun m => { m with brokerName := some mq.brokerName, queueId := mq.queueId }

/-- What `pull_one` goes on with after an answer that found the cursor where it was: the rows that
pass the tag filter, if the answer has any. -/
def pulledRows (mq : MessageQueue) (registered : Option SubscriptionData) (res : PullResult) :
    List MessageExt :=
  if res.status = .found then clientSideTagFilter registered (stampRows mq res.msgFoundList) else []

/-! ## 2. What is under way -/

/-- Where `pull_one` stands. `started` is the queue's epoch when the round read the cursor. -/
inductive PullPc where
  | idle
  /-- the gates let the queue pass -/
  | gated (mq : MessageQueue)
  /-- there was no cursor -/
  | unresolved (mq : MessageQueue) (started : Nat)
  /-- the offset calls are out, with the sought offset read before -/
  | querying (mq : MessageQueue) (seekOffset : Option Int) (started : Nat)
  /-- the offset to pull from is known -/
  | located (mq : MessageQueue) (offset : Int) (started : Nat)
  /-- the pull request is out -/
  | pulling (mq : MessageQueue) (offset : Int) (registered : Option SubscriptionData)
      (started : Nat)
  /-- the cursor was found intact and moved; the rows are not in the buffer yet -/
  | accepted (mq : MessageQueue) (msgs : List MessageExt) (started : Nat)
  deriving DecidableEq, Repr

/-- What an operation carries from one section to the next. -/
inductive LiteTask where
  /-- `assign` and `unsubscribe`, before the buffer section -/
  | revoking (keys : List String)
  /-- `seek`, until the range calls return -/
  | seeking (mq : MessageQueue) (offset : Int)
  /-- `apply_seek`, before the buffer section -/
  | pruning (mq : MessageQueue) (offset : Int)
  /-- `poll`, with what it drained -/
  | drained (msgs : List MessageExt)
  /-- `commit`, with the keys it read -/
  | scoped (keys : List String)
  /-- `commit_targets`, before its section -/
  | committing (targets : List (String × Int))
  /-- `rebalance`, before the buffer section -/
  | rebalanced (removed : List String) (revoked added : List MessageQueue)
  /-- `rebalance`, while the offsets of the revoked queues are stored -/
  | releasing (revoked added : List MessageQueue)
  /-- `resolve_offsets_for` -/
  | resolving (mqs : List MessageQueue)
  | unresolved (mq : MessageQueue) (rest : List MessageQueue) (started : Nat)
  | querying (mq : MessageQueue) (seekOffset : Option Int) (rest : List MessageQueue)
      (started : Nat)
  deriving DecidableEq, Repr

/-- A write that a pull round or a resolution made: the queue's epoch when it started and when it
wrote. -/
structure LiteWrite where
  key : String
  started : Nat
  written : Nat
  deriving DecidableEq, Repr

/-- The consumer. -/
structure LiteSys where
  cfg : LiteConfig
  clock : Int
  state : LiteState
  buffer : LiteBuffer
  /-- the rest of the pull loop's round -/
  targets : List MessageQueue
  round : PullPc
  tasks : List LiteTask
  epoch : String → Nat
  writes : List LiteWrite
  delivered : List MessageExt

/-- One section, with what the outside answers. -/
inductive LiteAct where
  /- the pull loop -/
  | collect
  | gate
  | readCursor
  | readSeek
  | resolved (calls : StartCalls Unit)
  | request
  /-- the pull returns; an error says whether the broker throttled it -/
  | pulled (answer : Except Bool PullResult)
  | enqueue
  /- the calls of the application -/
  | assign (mqs : List MessageQueue)
  | unsubscribe (topic : String)
  /-- `rebalance` with what it computed -/
  | rebalance (allocated : List MessageQueue)
  /-- `start`, for the queues assigned before -/
  | resolveAssigned
  | seek (mq : MessageQueue) (offset : Int)
  | poll
  | commit
  | commitQueues (mqs : List MessageQueue)
  | commitOffsets (targets : List (String × Int))
  | pause (mqs : List MessageQueue)
  | resume (mqs : List MessageQueue)
  | subscribe (topic : String) (data : SubscriptionData)
  | configure (cfg : LiteConfig)
  | tick (millis : Nat)
  /- the next section of a call under way -/
  | run (i : Nat)
  /-- the range calls of a seek return -/
  | range (i : Nat) (answer : Option (Int × Int))
  /-- the offset calls of a resolution return -/
  | started (i : Nat) (calls : StartCalls Unit)

namespace LiteSys

def init (cfg : LiteConfig) : LiteSys :=
  { cfg, clock := 0, state := .empty, buffer := .empty, targets := [], round := .idle, tasks := [],
    epoch := fun _ => 0, writes := [], delivered := [] }

/-! ## 3. The steps -/

/-- These queues were revoked or sought. -/
def bump (epoch : String → Nat) (keys : List String) (k : String) : Nat :=
  if k ∈ keys then epoch k + 1 else epoch k

variable (s : LiteSys)

/-- Put these tasks where the task at `i` was. -/
def become (i : Nat) (ts : List LiteTask) : LiteSys :=
  { s with tasks := s.tasks.take i ++ ts ++ s.tasks.drop (i + 1) }

def spawn (t : LiteTask) : LiteSys := { s with tasks := s.tasks ++ [t] }

/-- A cursor or buffer write of an operation that started at this epoch. -/
def note (key : String) (started : Nat) : LiteSys :=
  { s with writes := s.writes ++ [⟨key, started, s.epoch key⟩] }

/-- `next_offset.insert` after a resolution: whatever is there is overwritten. -/
def setCursor (key : String) (offset : Int) (started : Nat) : LiteSys :=
  { s with state := { s.state with nextOffset := s.state.nextOffset.insert key offset } }.note key
    started

def startConfig : StartConfig := ⟨s.cfg.messageModel, s.cfg.consumeFromWhere⟩

def collect : Option LiteSys :=
  match s.round, s.targets with
  | .idle, [] => some { s with targets := s.state.targets s.clock }
  | _, _ => none

def gate : Option LiteSys :=
  match s.round, s.targets with
  | .idle, mq :: rest =>
    if (liteCacheFlowControlHit s.cfg s.buffer (mqKey mq)).isSome then
      some { s with
        targets := rest
        state := s.state.parkPull (mqKey mq) pullTimeDelayMillsWhenCacheFlowControl s.clock }
    else some { s with targets := rest, round := .gated mq }
  | _, _ => none

def readCursor : Option LiteSys :=
  match s.round with
  | .gated mq =>
    match s.state.nextOffset[mqKey mq]? with
    | some offset => some { s with round := .located mq offset (s.epoch (mqKey mq)) }
    | none => some { s with round := .unresolved mq (s.epoch (mqKey mq)) }
  | _ => none

def readSeek : Option LiteSys :=
  match s.round with
  | .unresolved mq started =>
    some { s with round := .querying mq s.state.seekOffset[mqKey mq]? started }
  | _ => none

def resolved (calls : StartCalls Unit) : Option LiteSys :=
  match s.round with
  | .querying mq seekOffset started =>
    match Lite.resolveInitialOffset s.startConfig mq seekOffset calls with
    | .ok offset =>
      some { s.setCursor (mqKey mq) offset started with round := .located mq offset started }
    | .error _ => some { s with round := .idle }
  | _ => none

def request : Option LiteSys :=
  match s.round with
  | .located mq offset started =>
    some { s with round := .pulling mq offset s.state.subscriptionData[mq.topic]? started }
  | _ => none

def pulled (answer : Except Bool PullResult) : Option LiteSys :=
  match s.round, answer with
  | .pulling mq _ _ _, .error throttled =>
    some { s with
      round := .idle
      state := if throttled then
        s.state.parkPull (mqKey mq) pullTimeDelayMillsWhenBrokerFlowControl s.clock else s.state }
  | .pulling mq offset registered started, .ok res =>
    if s.state.nextOffset[mqKey mq]? = some offset then
      let s' := s.setCursor (mqKey mq) res.nextBeginOffset started
      if pulledRows mq registered res = [] then some { s' with round := .idle }
      else some { s' with round := .accepted mq (pulledRows mq registered res) started }
    else some { s with round := .idle }
  | _, _ => none

def enqueue : Option LiteSys :=
  match s.round with
  | .accepted mq msgs started =>
    some { s.note (mqKey mq) started with buffer := s.buffer.extend msgs, round := .idle }
  | _ => none

/-- The next section of the call at `i`, where it needs no answer from outside. -/
def runTask (i : Nat) : Option LiteSys :=
  match s.tasks[i]? with
  | some (.revoking keys) =>
    some { s.become i [] with buffer := keys.foldl LiteBuffer.revokeQueue s.buffer }
  | some (.pruning mq offset) =>
    some { s.become i [] with buffer := s.buffer.pruneBefore mq offset }
  | some (.drained msgs) =>
    some { s.become i [] with state := s.state.advanceConsumeOffset msgs }
  | some (.scoped keys) => some (s.become i [.committing (s.state.commitTargetsOf keys)])
  | some (.committing targets) =>
    some { s.become i [] with state := s.state.commitTargets targets }
  | some (.rebalanced removed revoked added) =>
    some { s.become i [.releasing revoked added] with
      buffer := removed.foldl LiteBuffer.revokeQueue s.buffer }
  | some (.releasing revoked added) =>
    some { s.become i [.resolving added] with
      state := { s.state with
        offsetTable := Table.eraseAll s.state.offsetTable (revoked.map mqKey) } }
  | some (.resolving []) => some (s.become i [])
  | some (.resolving (mq :: rest)) =>
    if s.state.nextOffset.contains (mqKey mq) then some (s.become i [.resolving rest])
    else some (s.become i [.unresolved mq rest (s.epoch (mqKey mq))])
  | some (.unresolved mq rest started) =>
    some (s.become i [.querying mq s.state.seekOffset[mqKey mq]? rest started])
  | _ => none

/-- The range calls of a seek return: outside the range, and on an error, nothing is written. -/
def range (i : Nat) (answer : Option (Int × Int)) : Option LiteSys :=
  match s.tasks[i]? with
  | some (.seeking mq offset) =>
    match answer with
    | none => some (s.become i [])
    | some (minOffset, maxOffset) =>
      if offset < minOffset ∨ maxOffset < offset then some (s.become i [])
      else some { s.become i [.pruning mq offset] with
        state := s.state.pinCursors mq offset
        epoch := bump s.epoch [mqKey mq] }
  | _ => none

/-- The offset calls of a resolution return. -/
def startTask (i : Nat) (calls : StartCalls Unit) : Option LiteSys :=
  match s.tasks[i]? with
  | some (.querying mq seekOffset rest started) =>
    match Lite.resolveInitialOffset s.startConfig mq seekOffset calls with
    | .ok offset => some ((s.setCursor (mqKey mq) offset started).become i [.resolving rest])
    | .error _ => some (s.become i [.resolving rest])
  | _ => none

/-- A revocation section: the tables change, the buffer section is still to come. -/
def revoke (st : LiteState) (dropped : List String) (t : LiteTask) : LiteSys :=
  { s.spawn t with state := st, epoch := bump s.epoch dropped }

/-- **One section of the consumer.** -/
def step : LiteAct → Option LiteSys
  | .collect => s.collect
  | .gate => s.gate
  | .readCursor => s.readCursor
  | .readSeek => s.readSeek
  | .resolved calls => s.resolved calls
  | .request => s.request
  | .pulled answer => s.pulled answer
  | .enqueue => s.enqueue
  | .assign mqs =>
    if mqs.isEmpty then none
    else some (s.revoke (s.state.assign mqs) (s.state.assignDrops mqs)
      (.revoking (s.state.assignDrops mqs)))
  | .unsubscribe topic =>
    some (s.revoke (s.state.unsubscribe topic) (s.state.unsubscribeDrops topic)
      (.revoking (s.state.unsubscribeDrops topic)))
  | .rebalance allocated =>
    let newAssigned := Table.fill mqKey allocated ∅
    some (s.revoke (s.state.rebalance newAssigned) (s.state.rebalanceDrops newAssigned)
      (.rebalanced (s.state.rebalanceDrops newAssigned) (s.state.rebalanceRevokes newAssigned)
        (s.state.rebalanceAdds newAssigned)))
  | .resolveAssigned =>
    some (s.spawn (.resolving
      (s.state.queues.filter fun mq => !s.state.nextOffset.contains (mqKey mq))))
  | .seek mq offset =>
    if s.state.assigned.contains (mqKey mq) then some (s.spawn (.seeking mq offset)) else none
  | .poll =>
    if s.buffer.messages.isEmpty then none
    else
      let (out, rest) := s.buffer.drainPrefix maxPollBatchSize
      some { s.spawn (.drained out) with buffer := rest, delivered := s.delivered ++ out }
  | .commit => some (s.spawn (.scoped s.state.assigned.keys))
  | .commitQueues mqs => some (s.spawn (.committing (s.state.commitTargetsOf (mqs.map mqKey))))
  | .commitOffsets targets => some (s.spawn (.committing targets))
  | .pause mqs =>
    some { s with state := { s.state with
      paused := mqs.foldl (fun paused mq => paused.insert (mqKey mq) ()) s.state.paused } }
  | .resume mqs =>
    some { s with state := { s.state with
      paused := Table.eraseAll s.state.paused (mqs.map mqKey) } }
  | .subscribe topic data =>
    some { s with state := { s.state with
      subscriptionData := s.state.subscriptionData.insert topic data } }
  | .configure cfg => some { s with cfg }
  | .tick millis => some { s with clock := s.clock + millis }
  | .run i => s.runTask i
  | .range i answer => s.range i answer
  | .started i calls => s.startTask i calls

theorem mem_become {s : LiteSys} {i : Nat} {ts : List LiteTask} {t : LiteTask}
    (h : t ∈ (s.become i ts).tasks) : t ∈ ts ∨ t ∈ s.tasks := Pool.mem_replace h

theorem mem_become_of_mem {s : LiteSys} {i : Nat} {t u : LiteTask} (ts : List LiteTask)
    (hi : s.tasks[i]? = some u) (h : t ∈ s.tasks) : t = u ∨ t ∈ (s.become i ts).tasks :=
  Pool.mem_replace_of_mem ts hi h

theorem mem_spawn {s : LiteSys} {t t' : LiteTask} (h : t ∈ (s.spawn t').tasks) :
    t = t' ∨ t ∈ s.tasks := by
  rcases List.mem_append.mp h with h | h
  · exact .inr h
  · exact .inl (List.mem_singleton.mp h)

section Carries

variable {β : Type} (carries : LiteTask → Option β) {s : LiteSys}

theorem nil_quiet : ∀ x ∈ ([] : List LiteTask), carries x = none := fun _ hx => by cases hx

theorem one_quiet {t : LiteTask} (ht : carries t = none) : ∀ x ∈ [t], carries x = none := by
  intro x hx
  rw [List.mem_singleton.mp hx]
  exact ht

theorem become_quiet {i : Nat} {ts : List LiteTask} (hts : ∀ x ∈ ts, carries x = none) :
    ∀ x ∈ (s.become i ts).tasks, carries x = none ∨ x ∈ s.tasks := by
  intro x hx
  rcases mem_become hx with hx | hx
  · exact .inl (hts x hx)
  · exact .inr hx

theorem spawn_quiet {t : LiteTask} (ht : carries t = none) :
    ∀ x ∈ (s.spawn t).tasks, carries x = none ∨ x ∈ s.tasks := by
  intro x hx
  rcases mem_spawn hx with rfl | hx
  · exact .inl ht
  · exact .inr hx

end Carries

end LiteSys

end RocketMQ
