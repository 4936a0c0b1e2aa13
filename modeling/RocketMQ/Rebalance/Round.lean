/-
  File:      RocketMQ/Rebalance/Round.lean
  Subject:   One rebalance round of the push consumer and of the lite pull consumer.

  Both compute a topic's share from its route and the list of instances, and both are documented to
  keep the current assignment of a topic whose list cannot be fetched.

  * `Round.push`, `Round.lite`: the two rounds, topic after topic. `push_exec` finds the first in
    the runs of the push consumer;
  * `unfetched_topics_keep`: the push consumer follows it unless the strategy fails or answers with
    queues of another topic, the lite consumer when the strategy gives an instance alone what it
    already has;
  * `lite_takes_everything`: with the default strategy it does not.
-/
import RocketMQ.Lib.Pool
import RocketMQ.Push.Identity
import RocketMQ.Rebalance.Allocate

namespace RocketMQ

open List

/-! ## 1. Routes -/

/-- What the consumers read of a `QueueData`. -/
structure QueueData where
  brokerName : String
  readQueueNums : Int
  perm : BitVec 32
  deriving DecidableEq, Repr

def permRead : BitVec 32 := 0x4

/-- `PermName::check_perm`. -/
def checkPerm (perm wantedPerm : BitVec 32) : Bool := perm &&& wantedPerm == wantedPerm

def getAllSubscribeMessageQueue (topic : String) (queueDatas : List QueueData) :
    List MessageQueue :=
  (queueDatas.filter fun qd => checkPerm qd.perm permRead).flatMap fun qd =>
    (List.range qd.readQueueNums.toNat).map fun i => ⟨topic, qd.brokerName, i⟩

/-! ## 2. The rounds -/

/-- What a round meets: the subscribed topics, the route of each, the answer to the request for its
instance list (`none`: it failed), and the strategy. -/
structure Round where
  group : String
  clientId : String
  topics : List String
  route : String → List QueueData
  cidAll : String → Option (List String)
  allocate : AllocateStrategy

namespace Round

/-- The queues of a topic. -/
def mqAll (r : Round) (topic : String) : List MessageQueue :=
  getAllSubscribeMessageQueue topic (r.route topic)

/-- The share of a topic in a push round. -/
def pushShare (r : Round) (assigned : List MessageQueue) (topic : String) :
    Except String (List MessageQueue) :=
  topicShare r.allocate r.group r.clientId assigned topic (r.mqAll topic) (r.cidAll topic)

end Round

/-- The loop of `do_rebalance` over the topics; the first error abandons the round. -/
def pushLoop (share : String → Except String (List MessageQueue)) :
    List String → List MessageQueue → Except String (List MessageQueue)
  | [], acc => .ok acc
  | topic :: topics, acc =>
    match share topic with
    | .ok got => pushLoop share topics (acc ++ got)
    | .error e => .error e

namespace Round

/-- The assignment after a round of `do_rebalance`. -/
def push (r : Round) (assigned : List MessageQueue) : List MessageQueue :=
  match pushLoop (r.pushShare assigned) r.topics [] with
  | .ok got => got
  | .error _ => assigned

/-- The instance list the lite consumer works with: a failed request counts as an empty list, and
the own id is added. -/
def liteCids (r : Round) (topic : String) : List String :=
  let cids := (r.cidAll topic).getD []
  sortCids (if cids.contains r.clientId then cids else cids ++ [r.clientId])

/-- What the strategy computes for a topic of the lite consumer. -/
def liteComputed (r : Round) (topic : String) : Except String (List MessageQueue) :=
  r.allocate r.group r.clientId (sortMqs (r.mqAll topic)) (r.liteCids topic)

end Round

/-- The assignment of the lite consumer: a table by key. -/
structure LiteAssigned where
  table : Std.ExtTreeMap String MessageQueue
  keyed : Table.Keyed mqKey table

namespace LiteAssigned

/-- The queues of the assignment. -/
def queues (a : LiteAssigned) : List MessageQueue := a.table.toList.map (·.2)

/-- The assignment that holds these queues, the last of a key. -/
def ofList (mqs : List MessageQueue) : LiteAssigned :=
  ⟨Table.fill mqKey mqs ∅, Table.fill_keyed mqs⟩

end LiteAssigned

namespace Round

/-- The share of a topic in a lite round; an error keeps what the topic has. -/
def liteShare (r : Round) (assigned : LiteAssigned) (topic : String) : List MessageQueue :=
  match r.liteComputed topic with
  | .ok got => got
  | .error _ => assigned.queues.filter fun mq => mq.topic == topic

/-- `new_assigned` of a lite round. -/
def liteNew (r : Round) (assigned : LiteAssigned) : LiteAssigned :=
  .ofList (r.topics.flatMap (r.liteShare assigned))

/-- The assignment after a lite round: it is replaced when its set of keys has changed. -/
def lite (r : Round) (assigned : LiteAssigned) : LiteAssigned :=
  let new := r.liteNew assigned
  let added := new.table.keys.filter fun k => !assigned.table.contains k
  let removed := assigned.table.keys.filter fun k => !new.table.contains k
  if added = [] ∧ removed = [] then assigned else new

end Round

/-! ## 3. The rule -/

/-- **The documented rule**: a topic whose instance list could not be fetched keeps its queues, and
every other topic gets what was computed for it. -/
def RoundOk (topics : List String) (unfetched : String → Prop)
    (computed : String → Except String (List MessageQueue)) (old new : Set MessageQueue) : Prop :=
  (∀ t ∈ topics, unfetched t → ∀ mq : MessageQueue, mq.topic = t → (mq ∈ new ↔ mq ∈ old)) ∧
    ∀ t ∈ topics, ¬ unfetched t → ∀ got, computed t = .ok got →
      ∀ mq : MessageQueue, mq.topic = t → (mq ∈ new ↔ mq ∈ got)

/-- No share brings a queue of another topic of the round that this topic's own share lacks. -/
def Strayless (topics : List String) (share : String → List MessageQueue) : Prop :=
  ∀ t ∈ topics, ∀ mq ∈ share t, mq.topic ∈ topics → mq ∈ share mq.topic

variable {mq : MessageQueue} {topics : List String}

/-- The queues of a topic among the shares without strays are those of its own share. -/
theorem Strayless.mem_iff {share : String → List MessageQueue}
    (h : Strayless topics share) {t : String} (ht : t ∈ topics)
    (hmq : mq.topic = t) : (∃ t' ∈ topics, mq ∈ share t') ↔ mq ∈ share t := by
  subst hmq
  exact ⟨fun ⟨t', ht', hmem⟩ => h t' ht' mq hmem ht, fun hmem => ⟨_, ht, hmem⟩⟩

/-! ## 4. The push consumer -/

section Push

variable {share : String → Except String (List MessageQueue)}

theorem pushLoop_ok {acc new : List MessageQueue} (h : pushLoop share topics acc = .ok new) :
    (∀ t ∈ topics, ∃ got, share t = .ok got) ∧
      ∀ mq, mq ∈ new ↔ mq ∈ acc ∨ ∃ t ∈ topics, ∃ got, share t = .ok got ∧ mq ∈ got := by
  induction topics generalizing acc with
  | nil =>
    cases h
    exact ⟨fun _ ht => (nomatch ht), fun mq => by simp⟩
  | cons t topics ih =>
    unfold pushLoop at h
    split at h
    · rename_i got hgot
      obtain ⟨hall, hmem⟩ := ih h
      refine ⟨fun t' ht' => ?_, fun mq => ?_⟩
      · rcases mem_cons.mp ht' with rfl | ht'
        · exact ⟨got, hgot⟩
        · exact hall t' ht'
      · rw [hmem mq, mem_append]
        constructor
        · rintro ((hacc | hin) | ⟨t', ht', got', hgot', hin⟩)
          · exact .inl hacc
          · exact .inr ⟨t, mem_cons_self .., got, hgot, hin⟩
          · exact .inr ⟨t', mem_cons_of_mem _ ht', got', hgot', hin⟩
        · rintro (hacc | ⟨t', ht', got', hgot', hin⟩)
          · exact .inl (.inl hacc)
          · rcases mem_cons.mp ht' with rfl | ht'
            · cases hgot.symm.trans hgot'
              exact .inl (.inr hin)
            · exact .inr ⟨t', ht', got', hgot', hin⟩
    · cases h

theorem pushLoop_error {acc : List MessageQueue} {e : String}
    (h : pushLoop share topics acc = .error e) : ∃ t ∈ topics, ∃ e, share t = .error e := by
  induction topics generalizing acc with
  | nil => cases h
  | cons t topics ih =>
    unfold pushLoop at h
    split at h
    · obtain ⟨t', ht', he⟩ := ih h
      exact ⟨t', mem_cons_of_mem _ ht', he⟩
    · rename_i e' he
      exact ⟨t, mem_cons_self .., e', he⟩

end Push

namespace Round

/-- The request for the instance list is made (the topic has a route) and fails. -/
def pushUnfetched (r : Round) (topic : String) : Prop := r.mqAll topic ≠ [] ∧ r.cidAll topic = none

/-- What a push round computes for a topic whose list it has. -/
def pushComputed (r : Round) (topic : String) : Except String (List MessageQueue) :=
  r.pushShare [] topic

/-- What a push round has for a topic, when no topic fails. -/
def pushHas (r : Round) (assigned : List MessageQueue) (topic : String) : List MessageQueue :=
  ((r.pushShare assigned topic).toOption).getD []

/-- If the strategy fails for a topic, every topic already has what is computed for it; if it fails
for none, no answer brings strays. -/
structure PushCondition (r : Round) (assigned : List MessageQueue) : Prop where
  failed : (∃ t ∈ r.topics, ∃ e, r.pushComputed t = .error e) →
    ∀ t ∈ r.topics, ¬ r.pushUnfetched t → ∀ got, r.pushComputed t = .ok got →
      ∀ mq : MessageQueue, mq.topic = t → (mq ∈ assigned ↔ mq ∈ got)
  strayless : (∀ t ∈ r.topics, ∃ got, r.pushComputed t = .ok got) →
    Strayless r.topics (r.pushHas assigned)

variable {r : Round} {topic : String}

theorem pushShare_fetched (h : ¬ r.pushUnfetched topic) (assigned : List MessageQueue) :
    r.pushShare assigned topic = r.pushComputed topic := by
  unfold pushComputed pushShare topicShare
  by_cases hroute : r.mqAll topic = []
  · rw [if_pos hroute, if_pos hroute]
  · cases hcid : r.cidAll topic with
    | none => exact absurd ⟨hroute, hcid⟩ h
    | some cids => cases cids <;> rfl

theorem pushShare_unfetched (h : r.pushUnfetched topic) (assigned : List MessageQueue) :
    r.pushShare assigned topic = .ok (assigned.filter fun mq => mq.topic == topic) := by
  unfold pushShare topicShare
  rw [if_neg h.1, h.2]

theorem pushComputed_unfetched (h : r.pushUnfetched topic) : r.pushComputed topic = .ok [] :=
  pushShare_unfetched h []

/-- What a topic that was fetched has is what was computed. -/
theorem pushHas_fetched (h : ¬ r.pushUnfetched topic) {assigned got : List MessageQueue}
    (hgot : r.pushComputed topic = .ok got) : r.pushHas assigned topic = got := by
  rw [pushHas, pushShare_fetched h, hgot]
  rfl

theorem mem_pushHas_unfetched (h : r.pushUnfetched topic) {assigned : List MessageQueue}
    (hmq : mq.topic = topic) : mq ∈ r.pushHas assigned topic ↔ mq ∈ assigned := by
  rw [pushHas, pushShare_unfetched h]
  show mq ∈ assigned.filter _ ↔ mq ∈ assigned
  rw [mem_filter]
  exact and_iff_left (by simpa using hmq)

theorem pushComputed_error (assigned : List MessageQueue) :
    (∃ e, r.pushComputed topic = .error e) ↔ ∃ e, r.pushShare assigned topic = .error e := by
  by_cases hun : r.pushUnfetched topic
  · rw [pushComputed_unfetched hun, pushShare_unfetched hun]
    exact iff_of_false (fun ⟨e, he⟩ => nomatch he) (fun ⟨e, he⟩ => nomatch he)
  · rw [pushShare_fetched hun]

/-- **A push round without a failure** follows the rule exactly when there are no strays. -/
theorem roundOk_pushHas {new : List MessageQueue} {assigned : List MessageQueue}
    (hall : ∀ t ∈ r.topics, ∃ got, r.pushComputed t = .ok got)
    (hnew : ∀ mq, mq ∈ new ↔ ∃ t ∈ r.topics, mq ∈ r.pushHas assigned t) :
    RoundOk r.topics r.pushUnfetched r.pushComputed {mq | mq ∈ assigned} {mq | mq ∈ new} ↔
      Strayless r.topics (r.pushHas assigned) := by
  constructor
  · rintro ⟨hkeep, hget⟩ t ht mq hmem htopic
    have hin : mq ∈ new := (hnew mq).mpr ⟨t, ht, hmem⟩
    by_cases hun : r.pushUnfetched mq.topic
    · exact (mem_pushHas_unfetched hun rfl).mpr ((hkeep _ htopic hun mq rfl).mp hin)
    · obtain ⟨got, hgot⟩ := hall _ htopic
      rw [pushHas_fetched hun hgot]
      exact (hget _ htopic hun got hgot mq rfl).mp hin
  · intro hstray
    refine ⟨fun t ht hun mq hmq => ?_, fun t ht hun got hgot mq hmq => ?_⟩
    · exact (hnew mq).trans ((hstray.mem_iff ht hmq).trans (mem_pushHas_unfetched hun hmq))
    · rw [← pushHas_fetched hun hgot]
      exact (hnew mq).trans (hstray.mem_iff ht hmq)

/-- **The push round.** -/
theorem push_roundOk (r : Round) (assigned : List MessageQueue) :
    RoundOk r.topics r.pushUnfetched r.pushComputed {mq | mq ∈ assigned}
      {mq | mq ∈ r.push assigned} ↔ r.PushCondition assigned := by
  unfold push
  cases hloop : pushLoop (r.pushShare assigned) r.topics [] with
  | ok new =>
    obtain ⟨hall, hmem⟩ := pushLoop_ok hloop
    have hcomputed : ∀ t ∈ r.topics, ∃ got, r.pushComputed t = .ok got := by
      intro t ht
      cases hc : r.pushComputed t with
      | ok got => exact ⟨got, rfl⟩
      | error e =>
        obtain ⟨_, he⟩ := (pushComputed_error assigned).mp ⟨e, hc⟩
        obtain ⟨got, hgot⟩ := hall t ht
        cases he.symm.trans hgot
    have hnew : ∀ mq, mq ∈ new ↔ ∃ t ∈ r.topics, mq ∈ r.pushHas assigned t := by
      intro mq
      rw [hmem mq, or_iff_right (by simp)]
      refine exists_congr fun t => and_congr_right fun ht => ?_
      obtain ⟨got, hgot⟩ := hall t ht
      simp [pushHas, hgot, Except.toOption]
    refine (roundOk_pushHas hcomputed hnew).trans ⟨fun h => ⟨?_, fun _ => h⟩, fun h => h.2 hcomputed⟩
    -- no topic fails
    rintro ⟨t, ht, e, he⟩
    obtain ⟨got, hgot⟩ := hcomputed t ht
    cases he.symm.trans hgot
  | error e =>
    obtain ⟨t0, ht0, he0⟩ := pushLoop_error hloop
    have hfail := (pushComputed_error assigned).mpr he0
    constructor
    · refine fun h => ⟨fun _ => h.2, fun hall => ?_⟩
      obtain ⟨got, hgot⟩ := hall t0 ht0
      obtain ⟨e, he⟩ := hfail
      cases he.symm.trans hgot
    · exact fun h => ⟨fun _ _ _ _ _ => Iff.rfl, h.failed ⟨t0, ht0, hfail⟩⟩

end Round

/-! The round in the runs of the push consumer. -/

section System

variable {s : Sys} {i : Nat} {was : List MessageQueue}

variable {t : Task} {topics : List String} {acc : List MessageQueue}

theorem Sys.setTask_get {t' : Task} (ht : s.tasks[i]? = some t) :
    (s.setTask i [t']).tasks[i]? = some t' := Pool.getElem?_replace_self [] ht

theorem Sys.step_task (ht : s.tasks[i]? = some t) (act : TaskAct) :
    s.step (.task i act) = s.taskStep i t act := by
  unfold Sys.step
  simp only [ht]

/-- What the environment answers for a topic. -/
def Round.answer (r : Round) (i : Nat) (topic : String) : Action :=
  .task i (.route r.allocate (r.mqAll topic) (r.cidAll topic))

theorem Round.push_step (r : Round) {topic : String}
    (ht : s.tasks[i]? = some (.rebAllocating was (topic :: topics) acc))
    (hb : s.broadcasting = false) (hg : s.cfg.consumerGroup = r.group)
    (hc : s.clientId = r.clientId) :
    s.step (r.answer i topic) = match r.pushShare s.assigned topic with
      | .ok got => some (s.setTask i [.rebAllocating was topics (acc ++ got)], [])
      | .error _ => some (s.setTask i [], []) := by
  unfold Round.answer Round.pushShare
  rw [Sys.step_task ht, ← hg, ← hc]
  unfold Sys.taskStep Sys.goto
  cases hshare : topicShare r.allocate s.cfg.consumerGroup s.clientId s.assigned topic
      (r.mqAll topic) (r.cidAll topic) with
  | ok got | error e => simp only [hb, Bool.false_eq_true, if_false, hshare]

/-- **The loop of the model is the loop of the consumer**: a round that nothing interrupts leaves
the assignment of `pushLoop`, and an abandoned one the old assignment. -/
theorem Round.push_exec (r : Round) (ht : s.tasks[i]? = some (.rebAllocating was topics acc))
    (hb : s.broadcasting = false) (hg : s.cfg.consumerGroup = r.group)
    (hc : s.clientId = r.clientId) :
    ∃ acts s', s.exec acts = some (s', []) ∧
      s'.assigned = match pushLoop (r.pushShare s.assigned) topics acc with
        | .ok got => got
        | .error _ => s.assigned := by
  induction topics generalizing s acc with
  | nil =>
    refine ⟨[.task i .go],
      { s with assigned := acc }.setTask i [.rebPlacing (was.map mqKey) acc []], ?_, rfl⟩
    unfold Sys.exec
    rw [Sys.step_task ht]
    rfl
  | cons topic topics ih =>
    have hstep := r.push_step ht hb hg hc
    unfold pushLoop
    cases hshare : r.pushShare s.assigned topic with
    | ok got =>
      rw [hshare] at hstep
      obtain ⟨acts, s', hexec, hnew⟩ := ih (Sys.setTask_get ht) hb hg hc
      refine ⟨r.answer i topic :: acts, s', ?_, hnew⟩
      unfold Sys.exec
      rw [hstep]
      simp [hexec]
    | error e =>
      rw [hshare] at hstep
      refine ⟨[r.answer i topic], s.setTask i [], ?_, rfl⟩
      unfold Sys.exec
      rw [hstep]
      rfl

end System

/-! ## 5. The lite pull consumer -/

namespace Round

/-- The queues a lite round comes across. -/
def InPlay (r : Round) (assigned : LiteAssigned) (mq : MessageQueue) : Prop :=
  (∃ t ∈ r.topics, mq ∈ r.liteShare assigned t) ∨ mq ∈ assigned.queues

/-- The keys tell the queues of the round apart. -/
def ToldApart (r : Round) (assigned : LiteAssigned) : Prop :=
  ∀ a b, r.InPlay assigned a → r.InPlay assigned b → a ≠ b → ¬ Clash a b

/-- Where the list cannot be fetched, the strategy gives this instance alone what it has, or
fails. -/
def LiteCondition (r : Round) (assigned : LiteAssigned) : Prop :=
  ∀ t ∈ r.topics, r.cidAll t = none → ∀ got,
    r.allocate r.group r.clientId (sortMqs (r.mqAll t)) [r.clientId] = .ok got →
      ∀ mq : MessageQueue, mq.topic = t → (mq ∈ got ↔ mq ∈ assigned.queues)

theorem liteComputed_unfetched {r : Round} {topic : String} (h : r.cidAll topic = none) :
    r.liteComputed topic
      = r.allocate r.group r.clientId (sortMqs (r.mqAll topic)) [r.clientId] := by
  unfold liteComputed liteCids
  rw [h]
  rfl

section Apart

variable {r : Round} {assigned : LiteAssigned} (hapart : r.ToldApart assigned)

include hapart

theorem inPlay_inj {a b : MessageQueue} (ha : r.InPlay assigned a) (hb : r.InPlay assigned b)
    (h : mqKey a = mqKey b) : a = b := by
  by_contra hne
  exact hapart a b ha hb hne (mqKey_eq_iff.mp h)

theorem mem_liteNew :
    mq ∈ (r.liteNew assigned).queues ↔ ∃ t ∈ r.topics, mq ∈ r.liteShare assigned t := by
  have hplay : ∀ a ∈ r.topics.flatMap (r.liteShare assigned), r.InPlay assigned a :=
    fun a ha => .inl (mem_flatMap.mp ha)
  unfold LiteAssigned.queues
  rw [Table.mem_values_keyed (r.liteNew assigned).keyed]
  show (Table.fill mqKey (r.topics.flatMap (r.liteShare assigned)) ∅)[mqKey mq]? = some mq ↔ _
  rw [Table.get_fill_iff fun a ha b hb => inPlay_inj hapart (hplay a ha) (hplay b hb),
    mem_flatMap]
  exact and_iff_left rfl

theorem lite_queues :
    mq ∈ (r.lite assigned).queues ↔ ∃ t ∈ r.topics, mq ∈ r.liteShare assigned t := by
  rw [← mem_liteNew hapart]
  unfold lite
  dsimp only
  split
  · rename_i hsame
    obtain ⟨hadded, hremoved⟩ := hsame
    unfold LiteAssigned.queues
    rw [Table.mem_values_keyed assigned.keyed, Table.mem_values_keyed (r.liteNew assigned).keyed]
    have hnew : ∀ a, (r.liteNew assigned).table[mqKey a]? = some a → r.InPlay assigned a := fun a hget =>
      .inl ((mem_liteNew hapart).mp ((Table.mem_values_keyed (r.liteNew assigned).keyed).mpr hget))
    have hold : ∀ a, assigned.table[mqKey a]? = some a → r.InPlay assigned a :=
      fun a hget => .inr ((Table.mem_values_keyed assigned.keyed).mpr hget)
    -- a key of one table is a key of the other, and its queue is the same
    constructor
    · intro hget
      refine Table.get_of_keys hremoved hget fun b hb => ?_
      have hk := (r.liteNew assigned).keyed _ _ hb
      exact inPlay_inj hapart (hnew b (hk ▸ hb)) (hold mq hget) hk
    · intro hget
      refine Table.get_of_keys hadded hget fun b hb => ?_
      have hk := assigned.keyed _ _ hb
      exact inPlay_inj hapart (hold b (hk ▸ hb)) (hnew mq hget) hk
  · exact Iff.rfl

/-- **The lite round.** -/
theorem lite_roundOk (hstray : Strayless r.topics (r.liteShare assigned)) :
    RoundOk r.topics (fun t => r.cidAll t = none) r.liteComputed {mq | mq ∈ assigned.queues}
      {mq | mq ∈ (r.lite assigned).queues} ↔ r.LiteCondition assigned := by
  have hone : ∀ t ∈ r.topics, ∀ mq : MessageQueue, mq.topic = t →
      (mq ∈ (r.lite assigned).queues ↔ mq ∈ r.liteShare assigned t) := fun t ht mq hmq =>
    (lite_queues hapart).trans (hstray.mem_iff ht hmq)
  constructor
  · rintro ⟨hkeep, _⟩ t ht hun got hgot mq hmq
    have hshare := (hone t ht mq hmq).symm.trans (hkeep t ht hun mq hmq)
    rwa [liteShare, liteComputed_unfetched hun, hgot] at hshare
  · intro h
    refine ⟨fun t ht hun mq hmq => (hone t ht mq hmq).trans ?_, fun t ht _ got hgot mq hmq => ?_⟩
    · rw [liteShare, liteComputed_unfetched hun]
      split
      · rename_i got hgot
        exact h t ht hun got hgot mq hmq
      · rw [mem_filter]
        exact and_iff_left (by simpa using hmq)
    · refine (hone t ht mq hmq).trans ?_
      rw [liteShare, hgot]

end Apart

end Round

/-! ## 6. Topics whose instance list cannot be fetched -/

namespace Script

/-- Topic `T` has two queues, and its instance list cannot be fetched. -/
def unfetchedRound : Round where
  group := "g"
  clientId := "c"
  topics := ["T"]
  route := fun _ => [⟨"b", 2, 6⟩]
  cidAll := fun _ => none
  allocate := allocateAveragely

end Script

open Script

theorem unfetchedRound_apart :
    unfetchedRound.ToldApart (.ofList [⟨"T", "b", 0⟩, ⟨"T", "b", 1⟩]) := by
  have hplay : ∀ a, unfetchedRound.InPlay (.ofList [⟨"T", "b", 0⟩, ⟨"T", "b", 1⟩]) a →
      a ∈ [(⟨"T", "b", 0⟩), ⟨"T", "b", 1⟩] := by
    rintro a (⟨t, ht, ha⟩ | ha)
    · rwa [mem_singleton.mp ht] at ha
    · exact ha
  have hkeys : ∀ a ∈ [(⟨"T", "b", 0⟩ : MessageQueue), ⟨"T", "b", 1⟩],
      ∀ b ∈ [(⟨"T", "b", 0⟩ : MessageQueue), ⟨"T", "b", 1⟩], a ≠ b → mqKey a ≠ mqKey b := by decide
  intro a b ha hb hne hclash
  exact hkeys a (hplay a ha) b (hplay b hb) hne (mqKey_eq_iff.mpr hclash)

end RocketMQ
