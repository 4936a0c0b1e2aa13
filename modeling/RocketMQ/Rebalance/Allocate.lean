/-
  File:      RocketMQ/Rebalance/Allocate.lean
  Subject:   Sharing a topic's queues among the instances of a group.

  * `AllocateStrategy`: the strategy interface;
  * `allocateAveragely`: the default strategy `AVG`;
  * `topicShare`: what one topic contributes to a rebalance round of the push consumer.
-/
import Mathlib
import RocketMQ.Message

namespace RocketMQ

open List

/-! ## 1. Order -/

/-- `mq_sort_key`: topic, then broker name, then queue id. -/
def mqLe (a b : MessageQueue) : Prop :=
  a.topic < b.topic ∨ (a.topic = b.topic ∧
    (a.brokerName < b.brokerName ∨ (a.brokerName = b.brokerName ∧ a.queueId ≤ b.queueId)))

instance : DecidableRel mqLe := fun a b => by unfold mqLe; infer_instance

def sortMqs (mqs : List MessageQueue) : List MessageQueue := mqs.insertionSort mqLe

/-- The sorting of the client ids. -/
def sortCids (cids : List String) : List String := cids.insertionSort (· ≤ ·)

theorem mem_sortMqs {mqs : List MessageQueue} {mq : MessageQueue} :
    mq ∈ sortMqs mqs ↔ mq ∈ mqs := (perm_insertionSort mqLe mqs).mem_iff

/-! ## 2. Strategies -/

/-- `AllocateMessageQueueStrategy::allocate`: group, own client id, sorted queues, sorted ids. -/
abbrev AllocateStrategy :=
  String → String → List MessageQueue → List String → Except String (List MessageQueue)

/-- `check_config`: the index of the own id, or `none` when a guard holds. -/
def checkConfig (currentCid : String) (mqAll : List MessageQueue) (cidAll : List String) :
    Option Nat :=
  if currentCid.isEmpty || mqAll.isEmpty || cidAll.isEmpty then none
  else cidAll.findIdx? (· == currentCid)

/-- `AllocateMessageQueueAveragely::allocate`. -/
def allocateAveragely : AllocateStrategy := fun _ currentCid mqAll cidAll =>
  match checkConfig currentCid mqAll cidAll with
  | none => .ok []
  | some index =>
    let modulo := mqAll.length % cidAll.length
    let averageSize := mqAll.length / cidAll.length
    if averageSize = 0 then .ok ((mqAll.drop index).take 1)
    else if modulo > 0 ∧ index < modulo then
      .ok ((mqAll.drop (index * (averageSize + 1))).take (averageSize + 1))
    else
      .ok ((mqAll.drop (modulo * (averageSize + 1) + (index - modulo) * averageSize)).take
        averageSize)

/-! ## 3. One topic of a push round -/

/-- What one topic contributes to a round of `do_rebalance` in clustering mode. `mqAll` is the
topic's route, `cidAll` the answer to the consumer-list request (`none`: it failed), `assigned`
the assignment at that moment. -/
def topicShare (allocate : AllocateStrategy) (group clientId : String)
    (assigned : List MessageQueue) (topic : String) (mqAll : List MessageQueue)
    (cidAll : Option (List String)) : Except String (List MessageQueue) :=
  if mqAll = [] then .ok []
  else
    match cidAll with
    | none => .ok (assigned.filter fun mq => mq.topic == topic)
    | some [] => .ok []
    | some cids => allocate group clientId (sortMqs mqAll) (sortCids cids)

end RocketMQ
