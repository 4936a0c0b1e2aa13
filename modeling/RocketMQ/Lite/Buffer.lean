/-
  File:      RocketMQ/Lite/Buffer.lean
  Subject:   The local buffer of the lite pull consumer.

  After `LiteQueueCache`, `LiteBuffer` and `lite_cache_flow_control_hit` in `pull_consumer.rs`: one
  shared deque of pulled messages, and beside it one accumulator per queue that the four cache gates
  read.

  * `extend_messages` … `revokeQueue_messages`: what each operation does to the deque.
-/
import Std.Data.ExtTreeMap
import RocketMQ.Lib.Decimal
import RocketMQ.InitialOffset

namespace RocketMQ

open List Std

/-! ## 1. One queue's share -/

/-- `cache_key_of_message`: a missing broker name reads as the empty one. -/
def cacheKeyOfMessage (m : MessageExt) : String :=
  m.topic ++ m.brokerName.getD "" ++ toString m.queueId

/-- `saturating_add` and its like on `i64`. -/
def saturateI64 (z : Int) : Int := max Decimal.i64Min (min Decimal.i64Max z)

def bodyLenI64 (m : MessageExt) : Int := saturateI64 m.getBody.length

structure LiteQueueCache where
  count : Nat
  bytes : Int
  /-- offset to multiplicity -/
  offsets : ExtTreeMap Int Nat
  /-- what is left of each pull round that still has messages here, oldest first -/
  rounds : List Nat
  deriving DecidableEq

namespace LiteQueueCache

def empty : LiteQueueCache := ⟨0, 0, ∅, []⟩

variable (c : LiteQueueCache)

def add (m : MessageExt) : LiteQueueCache :=
  { c with
    count := c.count + 1
    bytes := saturateI64 (c.bytes + bodyLenI64 m)
    offsets := c.offsets.insert m.queueOffset (c.offsets[m.queueOffset]?.getD 0 + 1) }

/-- One message less in the oldest round; a round that runs out is dropped. -/
def takeFromFront : List Nat → List Nat
  | [] => []
  | front :: rest => if front - 1 = 0 then rest else (front - 1) :: rest

/-- One message less at this offset. -/
def takeOffset (offsets : ExtTreeMap Int Nat) (offset : Int) : ExtTreeMap Int Nat :=
  match offsets[offset]? with
  | none => offsets
  | some 0 => offsets
  | some (n + 1) => if n = 0 then offsets.erase offset else offsets.insert offset n

def remove (m : MessageExt) : LiteQueueCache :=
  { count := c.count - 1
    bytes := saturateI64 (c.bytes - bodyLenI64 m)
    offsets := takeOffset c.offsets m.queueOffset
    rounds := takeFromFront c.rounds }

def beginRound (count : Nat) : LiteQueueCache :=
  if count > 0 then { c with rounds := c.rounds ++ [count] } else c

def pendingRounds : Nat := c.rounds.length

def minOffset : Int := c.offsets.keys.head?.getD 0

def maxOffset : Int := c.offsets.keys.getLast?.getD 0

def span : Int := c.maxOffset - c.minOffset

/-- Whole MiB, by integer division. -/
def sizeMib : Int := c.bytes.tdiv 1048576

end LiteQueueCache

/-! ## 2. The buffer -/

structure LiteBuffer where
  messages : List MessageExt
  queues : ExtTreeMap String LiteQueueCache
  deriving DecidableEq

namespace LiteBuffer

def empty : LiteBuffer := ⟨[], ∅⟩

def pendingPullRounds (b : LiteBuffer) : Nat :=
  (b.queues.toList.map fun e => e.2.pendingRounds).sum

/-- `queue_cache`: an untracked queue reads as empty. -/
def queueCache (b : LiteBuffer) (key : String) : LiteQueueCache :=
  b.queues[key]?.getD .empty

/-- How many messages of each queue a batch brings. -/
def roundSizes (msgs : List MessageExt) : ExtTreeMap String Nat :=
  msgs.foldl (fun sizes m =>
    sizes.insert (cacheKeyOfMessage m) (sizes[cacheKeyOfMessage m]?.getD 0 + 1)) ∅

/-- Append one message. The first one of a queue books the round, and takes its size out of the
table so that the others do not. -/
def extendOne (acc : LiteBuffer × ExtTreeMap String Nat) (m : MessageExt) :
    LiteBuffer × ExtTreeMap String Nat :=
  let key := cacheKeyOfMessage m
  let cache := (acc.1.queueCache key).add m
  let cache := match acc.2[key]? with
    | some count => cache.beginRound count
    | none => cache
  ({ messages := acc.1.messages ++ [m], queues := acc.1.queues.insert key cache },
    acc.2.erase key)

/-- `extend`: the only way messages enter the buffer. -/
def extend (b : LiteBuffer) (msgs : List MessageExt) : LiteBuffer :=
  (msgs.foldl extendOne (b, roundSizes msgs)).1

/-- A message that leaves through `drain_prefix`; an accumulator that reads empty is dropped. -/
def dropOne (queues : ExtTreeMap String LiteQueueCache) (m : MessageExt) :
    ExtTreeMap String LiteQueueCache :=
  match queues[cacheKeyOfMessage m]? with
  | none => queues
  | some cache =>
    if (cache.remove m).count = 0 then queues.erase (cacheKeyOfMessage m)
    else queues.insert (cacheKeyOfMessage m) (cache.remove m)

/-- `drain_prefix`: at most `take` messages from the head. -/
def drainPrefix (b : LiteBuffer) (take : Nat) : List MessageExt × LiteBuffer :=
  let out := b.messages.take take
  (out, { messages := b.messages.drop out.length, queues := out.foldl dropOne b.queues })

end LiteBuffer

/-- The message carries the coordinates of this queue. -/
def MessageQueue.holds (mq : MessageQueue) (m : MessageExt) : Bool :=
  m.topic == mq.topic && m.brokerName == some mq.brokerName && m.queueId == mq.queueId

namespace LiteBuffer

/-- A message that a seek drops. -/
def prunes (mq : MessageQueue) (offset : Int) (m : MessageExt) : Bool :=
  mq.holds m && decide (m.queueOffset < offset)

variable (b : LiteBuffer)

/-- `prune_before`: this queue's messages below `offset` go. -/
def pruneBefore (mq : MessageQueue) (offset : Int) : LiteBuffer :=
  let key := mqKey mq
  let gone := b.messages.filter (prunes mq offset)
  let queues := match b.queues[key]? with
    | none => b.queues
    | some cache => b.queues.insert key (gone.foldl LiteQueueCache.remove cache)
  let queues := if queues[key]?.any (fun c => c.count == 0) then queues.erase key else queues
  { messages := b.messages.filter (fun m => !prunes mq offset m), queues }

/-- `revoke_queue`: the queue's rows and its accumulator. -/
def revokeQueue (key : String) : LiteBuffer :=
  { messages := b.messages.filter (fun m => cacheKeyOfMessage m != key)
    queues := b.queues.erase key }

/-! ## 3. The deque -/

theorem foldl_extendOne_messages (msgs : List MessageExt)
    (acc : LiteBuffer × ExtTreeMap String Nat) :
    (msgs.foldl extendOne acc).1.messages = acc.1.messages ++ msgs := by
  induction msgs generalizing acc with
  | nil => simp
  | cons m msgs ih =>
    rw [foldl_cons, ih]
    simp [extendOne]

@[simp] theorem extend_messages (msgs : List MessageExt) :
    (b.extend msgs).messages = b.messages ++ msgs :=
  foldl_extendOne_messages msgs _

@[simp] theorem drainPrefix_fst (take : Nat) :
    (b.drainPrefix take).1 = b.messages.take take := rfl

theorem drainPrefix_append (take : Nat) :
    (b.drainPrefix take).1 ++ (b.drainPrefix take).2.messages = b.messages := by
  have hlen : b.messages.drop (b.messages.take take).length = b.messages.drop take := by
    rw [length_take]
    rcases le_total take b.messages.length with h | h
    · rw [min_eq_left h]
    · rw [min_eq_right h, drop_length, drop_eq_nil_of_le h]
  show b.messages.take take ++ b.messages.drop (b.messages.take take).length = b.messages
  rw [hlen, take_append_drop]

@[simp] theorem pruneBefore_messages (mq : MessageQueue) (offset : Int) :
    (b.pruneBefore mq offset).messages = b.messages.filter (fun m => !prunes mq offset m) := rfl

@[simp] theorem revokeQueue_messages (key : String) :
    (b.revokeQueue key).messages = b.messages.filter (fun m => cacheKeyOfMessage m != key) := rfl

end LiteBuffer

/-! ## 4. The gates -/

/-- The knobs of `LitePullConsumerConfig` that the pull round reads. -/
structure LiteConfig where
  messageModel : MessageModel
  consumeFromWhere : ConsumeFromWhere
  pullBatchSize : Int
  pullThresholdForAll : Int
  pullThresholdForQueue : Int
  pullThresholdSizeForQueue : Int
  consumeMaxSpan : Int
  deriving DecidableEq, Repr

inductive LiteCacheGate where
  | all
  | count
  | size
  | span
  deriving DecidableEq, Repr

/-- `lite_cache_flow_control_hit`: aggregate, count, size, span, each strictly above its threshold.
A queue with nothing cached is not judged by the last three. -/
def liteCacheFlowControlHit (cfg : LiteConfig) (b : LiteBuffer) (key : String) :
    Option LiteCacheGate :=
  let cache := b.queueCache key
  let reserved := saturateI64 (saturateI64 b.pendingPullRounds * max cfg.pullBatchSize 1)
  if reserved > cfg.pullThresholdForAll then some .all
  else if cache.count = 0 then none
  else if saturateI64 cache.count > cfg.pullThresholdForQueue then some .count
  else if cache.sizeMib > cfg.pullThresholdSizeForQueue then some .size
  else if cache.span > cfg.consumeMaxSpan then some .span
  else none

end RocketMQ
