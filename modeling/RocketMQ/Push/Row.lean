/-
  File:      RocketMQ/Push/Row.lean
  Subject:   The push consumer's tables, one queue at a time.

  The source keeps its mutable state in some fifteen maps, all of them keyed by `mqKey`. Here the
  maps are transposed: a `Row` holds what every map says under one key, and each critical section
  that works on one key is a function on rows under the source's name. Sections that work on
  several keys apply these functions key by key (`Push/System`).

  POP keeps tables of its own (`pop_queues`, `pop_orderly_requests`); they are not part of a row.
-/
import Mathlib
import RocketMQ.Naming

namespace RocketMQ

open List

/-! ## 1. Configuration and answers -/

inductive MessageModel where
  | clustering
  | broadcasting
  deriving DecidableEq, Repr

/-- The knobs of `ConsumerConfig` that the pull path reads. -/
structure ConsumerConfig where
  consumerGroup : String
  nameSpace : String
  messageModel : MessageModel
  consumeMessageBatchMaxSize : Int
  maxReconsumeTimes : Int
  consumeTimeout : Int
  pullThresholdForQueue : Int
  pullThresholdSizeForQueue : Int
  consumeConcurrentlyMaxSpan : Int
  deriving DecidableEq, Repr

/-- The names the topic rewritings read. -/
def ConsumerConfig.names (cfg : ConsumerConfig) : GroupNames :=
  ⟨cfg.consumerGroup, cfg.nameSpace⟩

inductive PullStatus where
  | found
  | noNewMsg
  | noMatchedMsg
  | offsetIllegal
  deriving DecidableEq, Repr

/-- The part of `PullResult` the pull loop reads. -/
structure PullResult where
  status : PullStatus
  nextBeginOffset : Int
  msgFoundList : List MessageExt
  deriving DecidableEq, Repr

/-- What a pull round hands to the buffer: the filter runs on a non-empty FOUND list only. -/
def deliverable (hooks : Option (List MessageExt → List MessageExt))
    (sub : Option SubscriptionData) (res : PullResult) : List MessageExt :=
  if res.status = .found ∧ res.msgFoundList ≠ [] then
    filterMessagesForDelivery hooks sub res.msgFoundList
  else res.msgFoundList

/-- `PULL_MAX_IDLE_TIME` (ms). -/
def pullMaxIdleTime : Int := 120000

/-- `REBALANCE_LOCK_MAX_LIVE_TIME` (ms). -/
def rebalanceLockMaxLiveTime : Int := 30000

/-! ## 2. The row -/

/-- What the tables of `State` hold under one key. -/
structure Row where
  offsetTable : Option Int
  consumeOffsets : Option Int
  pending : Option (List MessageExt)
  inflight : Option Nat
  inflightMsgs : Option (List MessageExt)
  frozenOffsets : Bool
  queueEpoch : Option Nat
  mqMap : Option MessageQueue
  lockOk : Bool
  lockAt : Option Int
  lastConsumeAt : Option Int
  queueOwners : Option Nat
  lastPullAt : Option Int
  deriving DecidableEq, Repr

namespace Row

/-- No table has an entry. -/
def empty : Row :=
  ⟨none, none, none, none, none, false, none, none, false, none, none, none, none⟩

variable (r : Row)

/-- The current generation; a missing entry of `queue_epoch` reads as 0. -/
def epoch : Nat := r.queueEpoch.getD 0

/-- The messages waiting for dispatch. -/
def buffer : List MessageExt := r.pending.getD []

/-- The messages registered as being in the listener's hands. -/
def inHands : List MessageExt := r.inflightMsgs.getD []

def ownsQueue (token : Nat) : Bool := r.queueOwners == some token

/-! ## 3. Ownership -/

/-- `retire_queue_locked`: forget the queue, start the next generation, and hand out the queue
with the consume offset it must still persist. `inflight` and `frozen_offsets` stay. -/
def retireQueueLocked (fallback : Option MessageQueue) (r : Row) :
    Row × Option (MessageQueue × Option Int) :=
  ({ r with
      queueOwners := none
      pending := none
      inflightMsgs := none
      lockOk := false
      lockAt := none
      lastConsumeAt := none
      lastPullAt := none
      queueEpoch := some (r.epoch + 1)
      consumeOffsets := none
      offsetTable := none
      mqMap := none },
    (r.mqMap.or fallback).map fun mq => (mq, r.consumeOffsets))

variable (mq : MessageQueue)

/-- The create branch of `rebalance_pull_threads` for one queue. -/
def register (token : Nat) (now : Int) (r : Row) : Row :=
  { r with
    frozenOffsets := false
    queueOwners := some token
    mqMap := some mq
    lastPullAt := some now }

def pullStalledLocked (now : Int) (r : Row) : Bool :=
  match r.lastPullAt with
  | none => false
  | some began => began == 0 || decide (now - began > pullMaxIdleTime)

def stampPullAt (now : Int) (r : Row) : Row := { r with lastPullAt := some now }

def markPullLoopExited (token : Nat) (r : Row) : Row :=
  if r.ownsQueue token then { r with lastPullAt := some 0 } else r

/-- The locked section of `shutdown` clears the owners and the pull stamps. -/
def orphan : Row := { r with queueOwners := none, lastPullAt := none }

/-- The lock record is there and not older than its maximum lifetime. -/
def lockFresh (now : Int) (r : Row) : Bool :=
  r.lockOk && r.lockAt.any fun at' => decide (now - at' ≤ rebalanceLockMaxLiveTime)

/-- What a lock round leaves under one key: the two lock tables are replaced as a whole. -/
def setLock (granted : Bool) (now : Int) (r : Row) : Row :=
  { r with lockOk := granted, lockAt := if granted then some now else none }

/-! ## 4. The pull side -/

/-- `process_queue_entries_locked` keeps the first message of each offset. -/
def dedupByOffset (seen : List Int) : List MessageExt → List MessageExt
  | [] => []
  | m :: ms =>
    if m.queueOffset ∈ seen then dedupByOffset seen ms
    else m :: dedupByOffset (m.queueOffset :: seen) ms

def processQueueEntriesLocked : List MessageExt :=
  dedupByOffset [] (r.inHands ++ r.buffer)

/-- `min_by_key`: the first message of the smallest offset. -/
def minByOffset : List MessageExt → Option MessageExt
  | [] => none
  | m :: ms =>
    some (ms.foldl (fun best x => if x.queueOffset < best.queueOffset then x else best) m)

/-- `process_queue_first_entry_locked`: the entry of the smallest offset. -/
def processQueueFirstEntryLocked : Option MessageExt :=
  minByOffset r.processQueueEntriesLocked

def processQueueContainsLocked (offset : Int) (r : Row) : Bool :=
  (r.inHands ++ r.buffer).any fun m => m.queueOffset == offset

/-- `max - min` of the held offsets, 0 when nothing is held. -/
def span (held : List MessageExt) : Int :=
  match (offsets held).max?, (offsets held).min? with
  | some hi, some lo => hi - lo
  | _, _ => 0

/-- `flow_control_hit`: count, body size in MiB, and (concurrent only) offset span. -/
def flowControlHit (cfg : ConsumerConfig) (orderly : Bool) (r : Row) : Bool :=
  let held := r.processQueueEntriesLocked
  let bodyBytes : Int := (held.map fun m => (m.getBody.length : Int)).sum
  decide ((held.length : Int) > cfg.pullThresholdForQueue)
    || decide (bodyBytes / (1024 * 1024) > cfg.pullThresholdSizeForQueue)
    || (!orderly && decide (span held > cfg.consumeConcurrentlyMaxSpan))

/-- The gates of `correct_tags_offset_locked`. -/
def correctable (status : PullStatus) (r : Row) : Bool :=
  (status == .noNewMsg || status == .noMatchedMsg)
    && !r.frozenOffsets && r.buffer.isEmpty && r.inflight.getD 0 == 0

/-- `correct_tags_offset_locked`: an empty answer lets the consume offset follow the cursor. -/
def correctTagsOffsetLocked (status : PullStatus) (nextOff : Int) (r : Row) : Row :=
  if r.correctable status then
    match r.consumeOffsets with
    | none => { r with consumeOffsets := some nextOff }
    | some cur => if nextOff > cur then { r with consumeOffsets := some nextOff } else r
  else r

/-- Booking a pull answer, first half: the messages and the cursor. -/
def bookFetched (res : PullResult) (msgs : List MessageExt) (r : Row) : Row :=
  if msgs = [] then { r with offsetTable := some res.nextBeginOffset }
  else
    { r with
      mqMap := some mq
      pending := some (r.buffer ++ msgs)
      offsetTable := some res.nextBeginOffset }

/-- The critical section that books a pull answer (the caller has checked the ownership). -/
def bookPull (res : PullResult) (msgs : List MessageExt) (r : Row) : Row :=
  let r' := r.bookFetched mq res msgs
  if res.status = .offsetIllegal then
    { r' with
      consumeOffsets :=
        if res.nextBeginOffset ≥ 0 then some res.nextBeginOffset else r'.consumeOffsets
      frozenOffsets := true }
  else r'.correctTagsOffsetLocked res.status res.nextBeginOffset

/-! ## 5. The consume side -/

/-- The critical section of `dispatch_loop` that takes a batch: queue, batch, its generation. -/
def takeBatch (batchMaxSize : Int) (r : Row) :
    Option ((MessageQueue × List MessageExt × Nat) × Row) :=
  match r.mqMap, r.pending with
  | some mq, some dq =>
    if dq = [] then none
    else
      let n := min dq.length (max batchMaxSize 1).toNat
      some ((mq, dq.take n, r.epoch),
        { r with pending := some (dq.drop n), inflight := some (r.inflight.getD 0 + 1) })
  | _, _ => none

/-- The critical section of `dispatch_loop` after a batch: the counter goes down. -/
def finishBatch : Row :=
  { r with inflight := (r.inflight.map (· - 1)).filter (· != 0) }

variable (batch : List MessageExt)

/-- `requeue_pending`, and the put-back of failed send-backs: in front, in order, and only while
the buffer entry exists. -/
def requeuePending (r : Row) : Row :=
  { r with pending := r.pending.map (batch ++ ·) }

/-- The offset a batch would move to: past its largest, but not past the floor. -/
def nextOffset (top : Int) (floor : Option Int) : Int :=
  match floor with
  | none => top + 1
  | some f => min (top + 1) f

/-- `advance_consume_offset`: a stale generation, a frozen queue and an empty batch change
nothing; the offset never moves backwards. -/
def advanceConsumeOffset (floor : Option Int) (epoch : Nat) (now : Int) (r : Row) : Row :=
  if epoch ≠ r.epoch then r
  else if r.frozenOffsets then r
  else
    match (offsets batch).max? with
    | none => r
    | some top =>
      { r with
        consumeOffsets := some (max (r.consumeOffsets.getD 0) (nextOffset top floor))
        lastConsumeAt := some now }

def registerInflightMsgs (r : Row) : Row :=
  if batch = [] then r else { r with inflightMsgs := some (r.inHands ++ batch) }

/-- A bucket that became empty loses its entry. -/
def nonEmpty (bucket : Option (List MessageExt)) : Option (List MessageExt) :=
  bucket.filter (fun b => !b.isEmpty)

/-- `deregister_inflight_msgs`: by offset. -/
def deregisterInflightMsgs (r : Row) : Row :=
  if batch = [] then r
  else
    { r with
      inflightMsgs := nonEmpty
        (r.inflightMsgs.map (List.filter fun m => decide (m.queueOffset ∉ offsets batch))) }

/-- `remove_process_queue_entry_locked`: from both sides. -/
def removeProcessQueueEntryLocked (offset : Int) (r : Row) : Row :=
  { r with
    inflightMsgs := nonEmpty (r.inflightMsgs.map (List.filter (fun m => m.queueOffset != offset)))
    pending := r.pending.map (List.filter (fun m => m.queueOffset != offset)) }

/-- The smallest offset is still the given one. -/
def stillHead (offset : Int) (r : Row) : Bool :=
  r.processQueueFirstEntryLocked.any fun m => m.queueOffset == offset

def removeExpiredEntryIfStillHead (offset : Int) (r : Row) : Row :=
  if r.stillHead offset then r.removeProcessQueueEntryLocked offset else r

/-- `shutdown_persist_items` for one key: not past any message still on the books. -/
def shutdownPersistItem : Option (MessageQueue × Int) :=
  match r.consumeOffsets, r.mqMap with
  | some off, some mq =>
    some (mq, match (offsets (r.inHands ++ r.buffer)).min? with
      | none => off
      | some f => min off f)
  | _, _ => none

/-! ## 6. What the sections write

One lemma for each section with branches: the row afterwards is the row before with these fields
changed, so every other field is the old one by computation. -/

theorem markPullLoopExited_writes (t : Nat) (r : Row) :
    ∃ a, r.markPullLoopExited t = { r with lastPullAt := a } := by
  unfold markPullLoopExited
  split
  · exact ⟨_, rfl⟩
  · exact ⟨_, rfl⟩

theorem correctTagsOffsetLocked_writes (st : PullStatus) (n : Int) (r : Row) :
    ∃ c, r.correctTagsOffsetLocked st n = { r with consumeOffsets := c } := by
  unfold correctTagsOffsetLocked
  split
  · split
    · exact ⟨_, rfl⟩
    · split
      · exact ⟨_, rfl⟩
      · exact ⟨_, rfl⟩
  · exact ⟨_, rfl⟩

theorem bookFetched_writes (res : PullResult) (msgs : List MessageExt) (r : Row) :
    ∃ q p, r.bookFetched mq res msgs
        = { r with mqMap := q, pending := p, offsetTable := some res.nextBeginOffset }
      ∧ p.getD [] = r.buffer ++ msgs := by
  unfold bookFetched
  split
  · rename_i h
    subst h
    exact ⟨_, _, rfl, (append_nil _).symm⟩
  · exact ⟨_, _, rfl, rfl⟩

theorem bookPull_writes (res : PullResult) (msgs : List MessageExt) (r : Row) :
    ∃ q p c f, r.bookPull mq res msgs
        = { r with
            mqMap := q
            pending := p
            offsetTable := some res.nextBeginOffset
            consumeOffsets := c
            frozenOffsets := f }
      ∧ p.getD [] = r.buffer ++ msgs := by
  obtain ⟨q, p, h, hp⟩ := bookFetched_writes mq res msgs r
  unfold bookPull
  rw [h]
  split
  · exact ⟨_, _, _, _, rfl, hp⟩
  · obtain ⟨c, hc⟩ := correctTagsOffsetLocked_writes res.status res.nextBeginOffset
      { r with mqMap := q, pending := p, offsetTable := some res.nextBeginOffset }
    rw [hc]
    exact ⟨_, _, _, _, rfl, hp⟩

theorem of_bookPull {r r' : Row} {mq : MessageQueue} {res : PullResult} {msgs : List MessageExt}
    (h : r' = r.bookPull mq res msgs) : r'.epoch = r.epoch ∧ r'.buffer = r.buffer ++ msgs := by
  obtain ⟨q, p, c, f, hw, hp⟩ := r.bookPull_writes mq res msgs
  rw [h, hw]
  exact ⟨rfl, hp⟩

theorem buffer_congr {r r' : Row} (h : r'.pending = r.pending) : r'.buffer = r.buffer := by
  unfold Row.buffer
  rw [h]

theorem offsets_buffer {r : Row} {b rest : List MessageExt} (h : r.pending = some (b ++ rest)) :
    offsets r.buffer = offsets b ++ offsets rest := by
  unfold Row.buffer
  rw [h]
  exact offsets_append b rest

theorem advanceConsumeOffset_writes (b : List MessageExt) (floor : Option Int) (g : Nat)
    (now : Int) (r : Row) :
    ∃ c a, r.advanceConsumeOffset b floor g now
      = { r with consumeOffsets := c, lastConsumeAt := a } := by
  unfold advanceConsumeOffset
  split
  · exact ⟨_, _, rfl⟩
  · split
    · exact ⟨_, _, rfl⟩
    · split
      · exact ⟨_, _, rfl⟩
      · exact ⟨_, _, rfl⟩

theorem registerInflightMsgs_writes (b : List MessageExt) (r : Row) :
    ∃ i, r.registerInflightMsgs b = { r with inflightMsgs := i } ∧ i.getD [] = r.inHands ++ b := by
  unfold registerInflightMsgs
  split
  · rename_i h
    subst h
    exact ⟨_, rfl, (append_nil _).symm⟩
  · exact ⟨_, rfl, rfl⟩

theorem deregisterInflightMsgs_writes (b : List MessageExt) (r : Row) :
    ∃ i, r.deregisterInflightMsgs b = { r with inflightMsgs := i } := by
  unfold deregisterInflightMsgs
  split
  · exact ⟨_, rfl⟩
  · exact ⟨_, rfl⟩

theorem nonEmpty_getD (bucket : Option (List MessageExt)) :
    (nonEmpty bucket).getD [] = bucket.getD [] := by
  rcases bucket with _ | (_ | ⟨x, xs⟩)
  · rfl
  · rfl
  · rfl

theorem removeExpiredEntryIfStillHead_writes (off : Int) (r : Row) :
    ∃ i p, r.removeExpiredEntryIfStillHead off = { r with inflightMsgs := i, pending := p } := by
  unfold removeExpiredEntryIfStillHead
  split
  · exact ⟨_, _, rfl⟩
  · exact ⟨_, _, rfl⟩

theorem takeBatch_eq {size : Int} {r r' : Row} {mq : MessageQueue} {b : List MessageExt} {g : Nat}
    (h : r.takeBatch size = some ((mq, b, g), r')) :
    ∃ dq rest, r.pending = some dq ∧ dq = b ++ rest ∧ b ≠ [] ∧ g = r.epoch
      ∧ r' = { r with pending := some rest, inflight := some (r.inflight.getD 0 + 1) } := by
  unfold takeBatch at h
  split at h
  · rename_i mq' dq hmq hdq
    split at h
    · cases h
    · rename_i hne
      cases h
      refine ⟨dq, _, hdq, (take_append_drop _ dq).symm, ?_, rfl, rfl⟩
      -- at least one message is taken
      intro hnil
      rw [take_eq_nil_iff] at hnil
      rcases hnil with hn | hn
      · have hpos : 0 < dq.length := length_pos_of_ne_nil hne
        omega
      · exact hne hn
  · cases h

end Row

end RocketMQ
