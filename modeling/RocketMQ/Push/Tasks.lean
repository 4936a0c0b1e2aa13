/-
  File:      RocketMQ/Push/Tasks.lean
  Subject:   The two programs that work on one queue: its pull loop and the batch in dispatch.

  Both are state machines over the queue's row. A program counter stands between any two critical
  sections (and at every await) of `run_queue_pull_loop` and of `consume_batch`; `loopStep` and
  `heldStep` run one section. What the code waits for (the broker, the listener, the user's
  filter hooks) is an argument of the step.

  Every step returns the events it causes. An event records what the section saw in the row
  before it wrote, so a run's trace tells which generation each write fell into.
-/
import RocketMQ.Lib.Decimal
import RocketMQ.Push.Row

namespace RocketMQ

/-! ## 1. Events -/

inductive ConsumeConcurrentlyStatus where
  | consumeSuccess
  | reconsumeLater
  deriving DecidableEq, Repr

inductive ConsumeOrderlyStatus where
  | success
  | rollback
  | commit
  | suspendCurrentQueueAMoment
  deriving DecidableEq, Repr

/-- What happens on one queue. `gen` is the generation the section works for: the current one of
the row, except for a batch in dispatch, which keeps the generation it was taken under. -/
inductive QEvent where
  /-- rebalance registered a new owner -/
  | registered (token gen : Nat)
  /-- the queue was retired, `gen` starts; `reset`: by `reset_offset` to that offset -/
  | retired (gen : Nat) (reset : Option Int)
  /-- the loop `token` retired the queue after OFFSET_ILLEGAL; owner and generation it met -/
  | illegalRetired (token : Nat) (owner : Option Nat) (gen : Nat)
  /-- a revocation removed the consume offset `entry` -/
  | removed (owner : Option Nat) (started : Bool) (entry : Option Int)
  /-- rebalance placed the initial cursor -/
  | placed (gen : Nat) (offset : Int)
  /-- the orderly gate of the pull loop let a round through -/
  | gatePassed (token : Nat) (lockOk : Bool) (lockAt : Option Int) (now : Int)
  /-- the loop wrote the initial cursor it resolved itself -/
  | resolved (token : Nat) (owner : Option Nat) (gen : Nat) (offset : Int)
  /-- the loop booked an answer -/
  | pulled (token gen : Nat) (requested : Int) (res : PullResult) (msgs : List MessageExt)
  /-- the empty answer passed the gates of the offset correction -/
  | corrected (gen : Nat) (next : Int)
  /-- `consume_batch` found the generation of the batch current and goes on with it -/
  | checked (gen : Nat)
  /-- the batch was handed to the listener -/
  | handed (gen : Nat) (msgs : List MessageExt)
  /-- the concurrent listener acknowledged these -/
  | acked (gen : Nat) (offs : List Int)
  /-- broadcasting: failed and dropped -/
  | dropped (gen : Nat) (offs : List Int)
  /-- the orderly listener answered (`none`: it panicked) -/
  | answered (gen : Nat) (autoCommit : Bool) (status : Option ConsumeOrderlyStatus)
      (offs : List Int)
  /-- the message went back to the broker -/
  | sentBack (gen : Nat) (offset level : Int)
  /-- the expiry cleaner removed the message after sending it back -/
  | swept (gen : Nat) (offset : Int)
  /-- messages were put back in front of the buffer: generation they were taken under, generation
  met, whether there was a buffer entry, and which of them had been sent back before -/
  | putBack (gen cur : Nat) (buffered : Bool) (offs sent : List Int)
  /-- the consume offset was advanced for a batch (`manual`: on a Commit without auto-commit) -/
  | advanced (gen cur : Nat) (manual : Bool) (offs : List Int)
  deriving DecidableEq, Repr

/-- What a section reads outside the row. -/
structure Env where
  cfg : ConsumerConfig
  orderly : Bool
  started : Bool
  paused : Bool
  subscription : String → Option SubscriptionData
  now : Int

namespace Env

def broadcast (e : Env) : Bool := e.cfg.messageModel == .broadcasting

/-- The pull loop asks for a fresh lock. -/
def gated (e : Env) : Bool := e.orderly && e.cfg.messageModel == .clustering

end Env

/-! ## 2. The pull loop (`run_queue_pull_loop`) -/

/-- Where a pull loop stands. -/
inductive LoopPc where
  /-- registered by rebalance, task not started yet -/
  | unspawned
  | top
  | stamp
  | sub
  | gate (sub : SubscriptionData)
  | flow (sub : SubscriptionData)
  | cursor (sub : SubscriptionData)
  /-- waiting for `resolve_initial_offset` -/
  | resolve (sub : SubscriptionData)
  /-- waiting for the answer to a pull at that offset -/
  | pull (sub : SubscriptionData) (offset : Int)
  /-- about to enter `handle_offset_illegal` -/
  | illegal
  /-- inside the `revoke_queues` of `handle_offset_illegal` -/
  | revoking
  | exit
  deriving DecidableEq, Repr

/-- What a pull loop waits for. -/
inductive LoopAct where
  | go
  /-- `resolve_initial_offset` returned -/
  | offset (answer : Option Int)
  /-- `pull_message` returned; the hooks are the filter hooks run on the answer -/
  | response (hooks : Option (List MessageExt → List MessageExt)) (answer : Option PullResult)

/-- One section of `run_queue_pull_loop`. A wait that ends goes back to the top, where a stop
signal is seen. -/
def loopStep (e : Env) (mq : MessageQueue) (token : Nat) (r : Row) :
    LoopPc → LoopAct → Option (Row × LoopPc × List QEvent)
  | .top, .go =>
    if e.started && r.ownsQueue token then some (r, .stamp, []) else some (r, .exit, [])
  | .stamp, .go => some (r.stampPullAt e.now, .sub, [])
  | .sub, .go =>
    if e.paused then some (r, .top, [])
    else
      match e.subscription mq.topic with
      | none => some (r, .exit, [])
      | some sub => some (r, .gate sub, [])
  | .gate sub, .go =>
    if e.gated then
      if r.lockFresh e.now then
        some (r, .flow sub, [.gatePassed token r.lockOk r.lockAt e.now])
      else some (r, .top, [])
    else some (r, .flow sub, [])
  | .flow sub, .go =>
    if r.flowControlHit e.cfg e.orderly then some (r, .top, []) else some (r, .cursor sub, [])
  | .cursor sub, .go =>
    match r.offsetTable with
    | some off => some (r, .pull sub off, [])
    | none => some (r, .resolve sub, [])
  | .resolve sub, .offset (some off) =>
    -- the section does not look at the owner again
    some ({ r with offsetTable := some off }, .pull sub off,
      [.resolved token r.queueOwners r.epoch off])
  | .resolve _, .offset none => some (r, .top, [])
  | .pull _ _, .response _ none => some (r, .top, [])
  | .pull sub off, .response hooks (some res) =>
    if r.ownsQueue token then
      let msgs := deliverable hooks (some sub) res
      let corrected :=
        if (r.bookFetched mq res msgs).correctable res.status then
          [QEvent.corrected r.epoch res.nextBeginOffset]
        else []
      some (r.bookPull mq res msgs, if res.status = .offsetIllegal then .illegal else .top,
        .pulled token r.epoch off res msgs :: corrected)
    else some (r, .exit, [])
  | _, _ => none

/-! ## 3. The batch in dispatch (`consume_batch`) -/

/-- Where the batch of `dispatch_loop` stands. -/
inductive HeldPc where
  | taken (batch : List MessageExt)
  /-- past the generation check -/
  | checked (batch : List MessageExt)
  | listening (batch : List MessageExt)
  /-- `send_back_batch` at index `i`; `failed` with their indices -/
  | sendingBack (batch : List MessageExt) (delay : Int) (i : Nat) (failed : List (Nat × MessageExt))
  | sendAwait (batch : List MessageExt) (delay : Int) (i : Nat) (failed : List (Nat × MessageExt))
  | puttingBack (batch : List MessageExt) (failed : List (Nat × MessageExt))
  | advancing (batch handled : List MessageExt) (floor : Option Int)
  | deregistering (batch : List MessageExt)
  /-- `check_orderly_reconsume_times`: the messages done, with whether each was sent back -/
  | reconsuming (autoCommit : Bool) (done : List (MessageExt × Bool)) (rest : List MessageExt)
  | reconsumeAwait (autoCommit : Bool) (done : List (MessageExt × Bool)) (m : MessageExt)
      (rest : List MessageExt)
  /-- `sent`: the offsets of the batch that the pass before has sent back -/
  | requeuing (batch : List MessageExt) (sent : List Int)
  | committing (manual : Bool) (batch : List MessageExt)
  | finishing
  deriving DecidableEq, Repr

/-- What a batch waits for. -/
inductive HeldAct where
  | go
  /-- the concurrent listener returned (`none`: panic) with its context -/
  | concurrently (status : Option ConsumeConcurrentlyStatus) (ackIndex delay : Int)
  /-- the orderly listener returned (`none`: panic) with its context -/
  | orderly (status : Option ConsumeOrderlyStatus) (autoCommit : Bool)
  /-- a send-back returned -/
  | sendBack (ok : Bool)
  deriving DecidableEq, Repr

/-- The number of leading messages acknowledged (`consume_concurrent_batch`). -/
def ackedCount (status : Option ConsumeConcurrentlyStatus) (ackIndex : Int) (len : Nat) : Nat :=
  let i : Int :=
    if status = some .consumeSuccess then (if ackIndex ≥ len then (len : Int) - 1 else ackIndex)
    else -1
  if i ≥ 0 then i.toNat + 1 else 0

/-- The batch without the messages whose send-back failed. -/
def handledOf (batch : List MessageExt) (failed : List (Nat × MessageExt)) : List MessageExt :=
  (batch.zipIdx.filter fun p => !failed.any fun f => f.1 == p.2).map (·.1)

/-- The smallest offset among the failed send-backs. -/
def floorOf (failed : List (Nat × MessageExt)) : Option Int :=
  (offsets (failed.map (·.2))).min?

/-- The delay level of a concurrent send-back. -/
def sendBackLevel (delay : Int) (m : MessageExt) : Int :=
  if delay = 0 then 3 + m.reconsumeTimes else delay

/-- `CONSUME_START_TIMESTAMP` on every message of the batch. -/
def stampConsumeStart (now : Int) (batch : List MessageExt) : List MessageExt :=
  batch.map fun m => m.putProperty "CONSUME_START_TIME" (toString now)

/-- `orderly_max_reconsume_times`: `-1` reads as `i32::MAX`. -/
def orderlyMaxReconsumeTimes (cfg : ConsumerConfig) : Int :=
  if cfg.maxReconsumeTimes = -1 then 2147483647 else cfg.maxReconsumeTimes

/-- What the orderly listener's answer leads to. A panic counts as a suspension. -/
def orderlyNext (autoCommit : Bool) (status : Option ConsumeOrderlyStatus)
    (batch : List MessageExt) : HeldPc :=
  match autoCommit, status.getD .suspendCurrentQueueAMoment with
  | true, .suspendCurrentQueueAMoment => .reconsuming true [] batch
  | true, _ => .committing false batch
  | false, .commit => .committing true batch
  | false, .rollback => .requeuing batch []
  | false, .suspendCurrentQueueAMoment => .reconsuming false [] batch
  | false, .success => .finishing

/-- What follows `check_orderly_reconsume_times`: one message kept is enough to suspend. -/
def afterReconsume (autoCommit : Bool) (done : List (MessageExt × Bool)) : HeldPc :=
  if done.any (fun d => !d.2) then
    .requeuing (done.map (·.1)) (offsets ((done.filter (·.2)).map (·.1)))
  else if autoCommit then .committing false (done.map (·.1))
  else .finishing

/-- One section of `consume_batch` for a batch taken under generation `gen`. -/
def heldStep (e : Env) (gen : Nat) (r : Row) :
    HeldPc → HeldAct → Option (Row × HeldPc × List QEvent)
  | .taken batch, .go =>
    if gen = r.epoch then some (r, .checked batch, [.checked gen]) else some (r, .finishing, [])
  | .checked batch, .go =>
    if e.orderly then
      let b := resetRetryTopicAndNamespace e.cfg.names batch
      some (r, .listening b, [.handed gen b])
    else
      let b := stampConsumeStart e.now
        (resetRetryTopicAndNamespace e.cfg.names (resetPopRetryTopic e.cfg.names batch))
      some (r.registerInflightMsgs b, .listening b, [.handed gen b])
  | .listening batch, .concurrently status ackIndex delay =>
    let acked := ackedCount status ackIndex batch.length
    if e.orderly then none
    else if e.broadcast then
      some (r, .advancing batch batch none,
        [.acked gen (offsets (batch.take acked)), .dropped gen (offsets (batch.drop acked))])
    else if acked ≥ batch.length then
      some (r, .advancing batch batch none, [.acked gen (offsets batch)])
    else
      some (r, .sendingBack batch delay acked [], [.acked gen (offsets (batch.take acked))])
  | .sendingBack batch delay i failed, .go =>
    match batch[i]? with
    | some m =>
      -- a message the sweep has removed meanwhile is skipped
      if r.processQueueContainsLocked m.queueOffset then
        some (r, .sendAwait batch delay i failed, [])
      else some (r, .sendingBack batch delay (i + 1) failed, [])
    | none =>
      if failed = [] then some (r, .advancing batch (handledOf batch failed) none, [])
      else some (r, .puttingBack batch failed, [])
  | .sendAwait batch delay i failed, .sendBack ok =>
    match batch[i]? with
    | some m =>
      if ok then
        some (r, .sendingBack batch delay (i + 1) failed,
          [.sentBack gen m.queueOffset (sendBackLevel delay m)])
      else some (r, .sendingBack batch delay (i + 1) (failed ++ [(i, m.bumpReconsume)]), [])
    | none => none
  | .puttingBack batch failed, .go =>
    -- the put-back looks at the buffer entry, not at the generation
    some (r.requeuePending (failed.map (·.2)),
      .advancing batch (handledOf batch failed) (floorOf failed),
      [.putBack gen r.epoch r.pending.isSome (offsets (failed.map (·.2))) []])
  | .advancing batch handled floor, .go =>
    some (r.advanceConsumeOffset handled floor gen e.now, .deregistering batch,
      [.advanced gen r.epoch false (offsets handled)])
  | .deregistering batch, .go => some (r.deregisterInflightMsgs batch, .finishing, [])
  | .listening batch, .orderly status autoCommit =>
    if e.orderly then
      -- after a panic the context is the fresh one, whose auto_commit is true
      let auto := status.isNone || autoCommit
      some (r, orderlyNext auto status batch, [.answered gen auto status (offsets batch)])
    else none
  | .reconsuming auto done (m :: rest), .go =>
    if m.reconsumeTimes ≥ orderlyMaxReconsumeTimes e.cfg then
      some (r, .reconsumeAwait auto done m rest, [])
    else some (r, .reconsuming auto (done ++ [(m.bumpReconsume, false)]) rest, [])
  | .reconsumeAwait auto done m rest, .sendBack ok =>
    if ok then
      some (r, .reconsuming auto (done ++ [(m, true)]) rest,
        [.sentBack gen m.queueOffset (3 + m.reconsumeTimes)])
    else some (r, .reconsuming auto (done ++ [(m.bumpReconsume, false)]) rest, [])
  | .reconsuming auto done [], .go => some (r, afterReconsume auto done, [])
  | .requeuing batch sent, .go =>
    some (r.requeuePending batch, .finishing,
      [.putBack gen r.epoch r.pending.isSome (offsets batch) sent])
  | .committing manual batch, .go =>
    some (r.advanceConsumeOffset batch none gen e.now, .finishing,
      [.advanced gen r.epoch manual (offsets batch)])
  | _, _ => none

end RocketMQ
