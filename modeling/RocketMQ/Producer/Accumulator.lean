/-
  File:      RocketMQ/Producer/Accumulator.lean
  Subject:   The produce accumulator as a machine whose steps are its critical sections.

  After `produce_accumulator.rs` and `can_batch`, `send_by_accumulator` and its asynchronous sibling
  in `producer.rs`. A message of an auto-batching producer reserves its size, is put into the open
  batch of its aggregate key, and the batch is sent once it is large or old enough. Callers, the two
  guard threads and the sends run concurrently; a step is one locked section of one of them.

  * `calls`, `callers`, `handed` and `returned` are history: the messages that were to be batched,
    the call behind each message of a batch, what the sender was given, the indices callers got.
-/
import RocketMQ.Lib.Machine
import RocketMQ.Lib.Pool
import RocketMQ.Producer.BatchResult

namespace RocketMQ

/-! ## 1. Batches -/

/-- What has become of a batch's one send. -/
inductive SendStage where
  /-- nobody has closed the batch in order to send it -/
  | unclaimed
  /-- closed in order to be sent -/
  | claimed
  /-- given to the sender -/
  | inFlight
  /-- `send_direct_async` returned an error -/
  | rejected
  | completed (ok : Bool)
  deriving DecidableEq, Repr

/-- `MessageAccumulation`. -/
structure Accumulation where
  key : AggregateKey
  /-- created for synchronous callers -/
  sync : Bool
  closed : Bool
  messages : List Message
  callbacks : List Nat
  keys : List String
  messagesSize : Int
  count : Int
  createTime : Int
  /-- `wait_lock` is held -/
  waitLock : Bool
  stage : SendStage
  callers : List Nat
  deriving DecidableEq, Repr

namespace Accumulation

/-- `MessageAccumulation::new`. -/
def new (key : AggregateKey) (sync : Bool) (now : Int) : Accumulation :=
  { key, sync, closed := false, messages := [], callbacks := [], keys := [], messagesSize := 0,
    count := 0, createTime := now, waitLock := false, stage := .unclaimed, callers := [] }

variable (B : Accumulation)

def readyToSend (holdSize holdMs now : Int) : Bool :=
  decide (B.messagesSize > holdSize) || decide (now ≥ B.createTime + holdMs)

/-- The section of `add` and `add_async` that takes the message in. Only the synchronous one
collects keys, only the asynchronous one a callback. -/
def push (call : Nat) (m : Message) : Accumulation :=
  { B with
    count := B.count + 1
    messagesSize := if m.bodyLen > 0 then B.messagesSize + m.bodyLen else B.messagesSize
    keys := if B.sync then m.getKeys.elim B.keys (splitKeysInto B.keys) else B.keys
    messages := B.messages ++ [m]
    callbacks := if B.sync then B.callbacks else B.callbacks ++ [call]
    callers := B.callers ++ [call] }

/-- The section of `send_sync` and `send_async_now` that closes the batch, if it is open. -/
def claim : Accumulation :=
  if B.closed then B else { B with closed := true, stage := .claimed }

theorem claim_closed : B.claim.closed = true := by
  unfold claim
  split
  · rename_i hc
    exact hc
  · rfl

theorem claim_callers : B.claim.callers = B.callers := by
  unfold claim
  split
  · rfl
  · rfl

end Accumulation

/-- A message on its way into a batch. -/
structure Offer where
  call : Nat
  key : AggregateKey
  msg : Message
  sync : Bool
  deriving DecidableEq, Repr

/-- Who stands between two sections. -/
inductive AccTask where
  /-- `send` / `send_async`, before `get_or_create_*_batch` -/
  | adding (o : Offer)
  /-- before `add` / `add_async` -/
  | joining (o : Offer) (b : Nat)
  /-- the batch was closed; before `remove_*_batch` and the next try -/
  | removing (o : Offer) (b : Nat)
  /-- a synchronous caller that wants `wait_lock` -/
  | waiting (call b index : Nat)
  /-- it holds `wait_lock` and is at the head of the loop -/
  | looping (call b index : Nat)
  /-- it found the batch ready -/
  | closing (call b index : Nat)
  /-- it closed the batch and is in `send_direct_blocking` -/
  | delivering (call b index : Nat)
  /-- it waits on the condition -/
  | parked (call b index : Nat)
  /-- an asynchronous caller, or the guard with the rest of its scan, before `ready_to_send` -/
  | checking (b : Nat) (next : Option (List Nat))
  /-- before the closing section of `send_async_now` -/
  | claiming (b : Nat) (next : Option (List Nat))
  /-- a guard with what is left of its snapshot -/
  | scanning (sync : Bool) (pending : List Nat)
  /-- a guard before `messages_size() == 0` -/
  | sizing (sync : Bool) (b : Nat) (pending : List Nat)
  /-- a guard that read a size of zero, before `mark_closed` -/
  | marking (sync : Bool) (b : Nat) (pending : List Nat)
  /-- a guard before it removes the batch from the table -/
  | dropping (sync : Bool) (b : Nat) (pending : List Nat)
  deriving DecidableEq, Repr

/-- What the sender was given. -/
structure Handover where
  batch : Nat
  messages : List Message
  callbacks : List Nat
  deriving DecidableEq, Repr

/-- A message that is to be batched. -/
structure Call where
  msg : Message
  sync : Bool
  deriving DecidableEq, Repr

/-- The index a synchronous caller got. -/
structure ReturnedIndex where
  call : Nat
  batch : Nat
  index : Nat
  deriving DecidableEq, Repr

/-! ## 2. The accumulator -/

/-- `AccumulatorInner`, with the producer's size limit, and everybody who uses it. Batches are
named by their position; the tables hold these names. -/
structure ProduceAccumulator where
  maxMessageSize : Int
  holdMs : Int
  holdSize : Int
  totalHoldSize : Int
  clock : Int
  currentlyHoldSize : Int
  batches : List Accumulation
  syncBatches : List (AggregateKey × Nat)
  asyncBatches : List (AggregateKey × Nat)
  tasks : List AccTask
  calls : List Call
  handed : List Handover
  returned : List ReturnedIndex

/-- The thresholds that can be set, with the value. -/
inductive HoldSetting where
  | maxDelayMs (v : Int)
  | maxBytes (v : Int)
  | totalMaxBytes (v : Int)
  deriving DecidableEq, Repr

inductive AccAct where
  /-- `send_by_accumulator` and `send_by_accumulator_async`, up to the accumulator's loop -/
  | offer (m : Message) (mq : Option MessageQueue) (sync : Bool) (fresh : UniqId)
  /-- the next section of a caller or a guard -/
  | run (i : Nat)
  /-- a guard takes a snapshot of its table -/
  | scan (sync : Bool)
  /-- a guard goes on with a batch of its snapshot -/
  | visit (i j : Nat)
  /-- the thread that closed a batch gives it to the sender -/
  | hand (b : Nat) (accepted : Bool)
  /-- the send of a batch completes -/
  | complete (b : Nat) (ok : Bool)
  | configure (setting : HoldSetting)
  | tick (millis : Nat)

namespace ProduceAccumulator

def defaultTotalHoldSize : Int := 32 * 1024 * 1024

def defaultHoldSize : Int := 32 * 1024

def defaultHoldMs : Int := 10

/-- `ProduceAccumulator::new`. -/
def new (maxMessageSize : Int) : ProduceAccumulator :=
  { maxMessageSize, holdMs := defaultHoldMs, holdSize := defaultHoldSize,
    totalHoldSize := defaultTotalHoldSize, clock := 0, currentlyHoldSize := 0, batches := [],
    syncBatches := [], asyncBatches := [], tasks := [], calls := [], handed := [], returned := [] }

def batchMaxDelayMs (s : ProduceAccumulator) (holdMs : Int) :
    Except ClientError ProduceAccumulator :=
  if holdMs ≤ 0 ∨ holdMs > 30 * 1000 then
    .error ⟨none, "batchMaxDelayMs expect between 1ms and 30s, but get " ++ toString holdMs ++ "!"⟩
  else .ok { s with holdMs }

def batchMaxBytes (s : ProduceAccumulator) (holdSize : Int) :
    Except ClientError ProduceAccumulator :=
  if holdSize ≤ 0 ∨ holdSize > 2 * 1024 * 1024 then
    .error ⟨none, "batchMaxBytes expect between 1B and 2MB, but get " ++ toString holdSize ++ "!"⟩
  else .ok { s with holdSize }

def totalBatchMaxBytes (s : ProduceAccumulator) (totalHoldSize : Int) :
    Except ClientError ProduceAccumulator :=
  if totalHoldSize ≤ 0 then
    .error ⟨none, "totalBatchMaxBytes must bigger then 0, but get " ++ toString totalHoldSize
      ++ "!"⟩
  else .ok { s with totalHoldSize }

variable (s : ProduceAccumulator)

/-- A threshold is set; a value out of range is refused. -/
def configure : HoldSetting → Except ClientError ProduceAccumulator
  | .maxDelayMs v => s.batchMaxDelayMs v
  | .maxBytes v => s.batchMaxBytes v
  | .totalMaxBytes v => s.totalBatchMaxBytes v

/-- The table of the synchronous or of the asynchronous callers. -/
def table (sync : Bool) : List (AggregateKey × Nat) :=
  if sync then s.syncBatches else s.asyncBatches

def setTable (sync : Bool) (t : List (AggregateKey × Nat)) : ProduceAccumulator :=
  if sync then { s with syncBatches := t } else { s with asyncBatches := t }

def lookup (table : List (AggregateKey × Nat)) (key : AggregateKey) : Option Nat :=
  (table.find? fun e => e.1 == key).map (·.2)

/-- `remove_sync_batch` and `remove_async_batch`: only if the table still holds this very batch. -/
def dropEntry (table : List (AggregateKey × Nat)) (key : AggregateKey) (b : Nat) :
    List (AggregateKey × Nat) :=
  if lookup table key = some b then table.filter fun e => e.1 != key else table

/-- Put these tasks where the task at `i` was. -/
def become (i : Nat) (ts : List AccTask) : ProduceAccumulator :=
  { s with tasks := Pool.replace s.tasks i ts }

def setBatch (b : Nat) (B : Accumulation) : ProduceAccumulator :=
  { s with batches := s.batches.set b B }

/-- `try_add_message`, when there is room. -/
def reserve (m : Message) : ProduceAccumulator :=
  { s with currentlyHoldSize := if m.bodyLen > 0 then s.currentlyHoldSize + m.bodyLen
      else s.currentlyHoldSize }

/-- `send_by_accumulator`: the reservation comes first; a message that is then refused by
`can_batch` is sent directly, and one that fails its checks is not sent. -/
def offer (m : Message) (mq : Option MessageQueue) (sync : Bool)
    (fresh : UniqId) : ProduceAccumulator :=
  if s.currentlyHoldSize < s.totalHoldSize then
    if m.batchable then
      match m.checkAndStamp s.maxMessageSize fresh with
      | .ok msg =>
        let o := ⟨s.calls.length, AggregateKey.ofMessage msg mq, msg, sync⟩
        { s.reserve m with tasks := s.tasks ++ [.adding o], calls := s.calls ++ [⟨msg, sync⟩] }
      | .error _ => s.reserve m
    else s.reserve m
  else s

/-- `get_or_create_*_batch`. -/
def getOrCreate (i : Nat) (o : Offer) : ProduceAccumulator :=
  match lookup (s.table o.sync) o.key with
  | some b => s.become i [.joining o b]
  | none =>
    { (s.become i [.joining o s.batches.length]).setTable o.sync
        (s.table o.sync ++ [(o.key, s.batches.length)]) with
      batches := s.batches ++ [Accumulation.new o.key o.sync s.clock] }

/-- `add` and `add_async`, up to the waiting. -/
def join (i : Nat) (o : Offer) (b : Nat) : Option ProduceAccumulator :=
  (s.batches[b]?).map fun B =>
    if B.closed then s.become i [.removing o b]
    else (s.setBatch b (B.push o.call o.msg)).become i
      [if o.sync then .waiting o.call b B.count.toNat else .checking b none]

/-- A caller leaves the loop and gives back `wait_lock`. -/
def leave (i : Nat) (call b index : Nat) (B : Accumulation) : ProduceAccumulator :=
  { (s.setBatch b { B with waitLock := false }).become i [] with
    returned := s.returned ++ [⟨call, b, index⟩] }

/-- What comes after a check of `send_async_now`: the caller is done, the guard looks at the size. -/
def after (b : Nat) : Option (List Nat) → List AccTask
  | none => []
  | some pending => [.sizing false b pending]

def ready (B : Accumulation) : Bool :=
  B.readyToSend s.holdSize s.holdMs s.clock

/-- The next section of the task at `i`. -/
def runTask (i : Nat) : Option ProduceAccumulator :=
  match s.tasks[i]? with
  | some (.adding o) => some (s.getOrCreate i o)
  | some (.joining o b) => s.join i o b
  | some (.removing o b) =>
    some ((s.setTable o.sync (dropEntry (s.table o.sync) o.key b)).become i [.adding o])
  | some (.waiting call b index) =>
    (s.batches[b]?).bind fun B =>
      if B.waitLock then none
      else some ((s.setBatch b { B with waitLock := true }).become i [.looping call b index])
  | some (.looping call b index) =>
    (s.batches[b]?).map fun B =>
      if B.closed then s.leave i call b index B
      else if s.ready B then s.become i [.closing call b index]
      else (s.setBatch b { B with waitLock := false }).become i [.parked call b index]
  | some (.closing call b index) =>
    (s.batches[b]?).map fun B =>
      if B.closed then s.leave i call b index B
      else (s.setBatch b B.claim).become i [.delivering call b index]
  | some (.delivering call b index) =>
    (s.batches[b]?).bind fun B =>
      match B.stage with
      | .completed true => some (s.leave i call b index B)
      -- the error goes to the caller in place of the index
      | .completed false => some ((s.setBatch b { B with waitLock := false }).become i [])
      | _ => none
  | some (.parked call b index) => some (s.become i [.waiting call b index])
  | some (.checking b next) =>
    (s.batches[b]?).map fun B =>
      s.become i (if s.ready B then [.claiming b next] else after b next)
  | some (.claiming b next) =>
    (s.batches[b]?).map fun B => (s.setBatch b B.claim).become i (after b next)
  | some (.scanning _ []) => some (s.become i [])
  | some (.sizing sync b pending) =>
    (s.batches[b]?).map fun B =>
      s.become i [if B.messagesSize = 0 then .marking sync b pending else .scanning sync pending]
  | some (.marking sync b pending) =>
    (s.batches[b]?).map fun B =>
      (s.setBatch b { B with closed := true }).become i [.dropping sync b pending]
  | some (.dropping sync b pending) =>
    (s.batches[b]?).map fun B =>
      (s.setTable sync (dropEntry (s.table sync) B.key b)).become i [.scanning sync pending]
  | _ => none

/-- A guard goes on with the `j`-th batch of its snapshot. The wake-ups of the synchronous one change
nothing here: a parked caller may wake at any time. -/
def visit (i j : Nat) : Option ProduceAccumulator :=
  match s.tasks[i]? with
  | some (.scanning sync pending) =>
    (pending[j]?).map fun b =>
      s.become i [if sync then .sizing true b (pending.eraseIdx j)
        else .checking b (some (pending.eraseIdx j))]
  | _ => none

/-- The sender is given the batch with all it holds. A synchronous send cannot be refused. -/
def hand (b : Nat) (accepted : Bool) : Option ProduceAccumulator :=
  (s.batches[b]?).bind fun B =>
    if B.stage = .claimed ∧ (accepted = true ∨ B.sync = false) then
      some { s.setBatch b { B with stage := if accepted then .inFlight else .rejected } with
        handed := s.handed ++ [⟨b, B.messages, B.callbacks⟩] }
    else none

/-- The results are split, the callbacks called, and the batch's size is released. -/
def complete (b : Nat) (ok : Bool) : Option ProduceAccumulator :=
  (s.batches[b]?).bind fun B =>
    if B.stage = .inFlight then
      some { s.setBatch b { B with stage := .completed ok } with
        currentlyHoldSize := s.currentlyHoldSize - B.messagesSize }
    else none

/-- **One section.** -/
def step : AccAct → Option ProduceAccumulator
  | .offer m mq sync fresh => some (s.offer m mq sync fresh)
  | .run i => s.runTask i
  | .scan sync =>
    some { s with tasks := s.tasks ++ [.scanning sync ((s.table sync).map (·.2))] }
  | .visit i j => s.visit i j
  | .hand b accepted => s.hand b accepted
  | .complete b ok => s.complete b ok
  | .configure setting => some ((s.configure setting).toOption.getD s)
  | .tick millis => some { s with clock := s.clock + millis }

end ProduceAccumulator

end RocketMQ
