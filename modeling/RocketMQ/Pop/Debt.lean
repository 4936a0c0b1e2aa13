/-
  File:      RocketMQ/Pop/Debt.lean
  Subject:   The answer debt of a POP queue: how many popped rows are still to be answered.

  After `run_queue_pop_loop`, `submit_pop_consume_request`, `consume_pop_batch` and
  `PopProcessQueue` in `consumer.rs`, for a concurrent listener. The rows of an answer are counted
  when it arrives and leave the counter one by one, or batch by batch, in tasks that run in any
  order. Every access to the counter is one step here.

  * `consumePopBatch_runs`: the sequential pass of `Pop.Answer` is the run of a task that meets what
    the pass meets;
  * `PopTask.step_settles`: a step pays for exactly the rows it settles and loses none;
  * `pop_debt_conserved`: in every reachable state the counter is the number of unsettled rows, and
    every popped row is settled once or still to be settled;
  * `settled_without_request`: a row can leave the debt although nothing was asked of the broker.
-/
import RocketMQ.Lib.Machine
import RocketMQ.Lib.Pool
import RocketMQ.Pop.Answer

namespace RocketMQ

open List

/-! ## 1. Rows and tasks -/

/-- How a row leaves the debt. The last two answers depend on the table of delays read for them. -/
inductive PopWay where
  /-- dropped before delivery -/
  | filtered
  /-- acknowledged after consumption -/
  | acknowledged
  /-- returned by changing its invisible time -/
  | returned (delays : List Int)
  /-- its retries are exhausted -/
  | exhausted (delays : List Int)
  /-- given up with its batch -/
  | abandoned (batch : List MessageExt) (now : Int)
  deriving DecidableEq, Repr

/-- A row that left the debt, and the request that was built for it. -/
structure PopSettled where
  row : MessageExt
  way : PopWay
  request : Option PopRequest
  deriving DecidableEq, Repr

/-- A row is asked for with one of these requests, under its own check-point, if that can be read. -/
def Asked (codes : PopRequestCode → Prop) (m : MessageExt) (request : Option PopRequest) : Prop :=
  request.isSome = ckReadable m ∧
    ∀ r ∈ request, codes r.code ∧ m.getProperty "POP_CK" = some r.extraInfo

/-- **What settles a row.** A filtered or consumed row is acknowledged; a returned one has its
invisible time changed and an exhausted one either, unless the table of delays is empty; a row is
given up only with a batch that has timed out. -/
def PopSettled.Answered (e : PopSettled) : Prop :=
  match e.way with
  | .filtered | .acknowledged => Asked (· = .ackMessage) e.row e.request
  | .returned delays =>
    if delays = [] then e.request = none
    else Asked (fun code => ∃ ms, code = .changeInvisibleTime ms) e.row e.request
  | .exhausted delays =>
    if delays = [] then e.request = none else Asked (fun _ => True) e.row e.request
  | .abandoned batch now =>
    e.request = none ∧ e.row ∈ batch ∧ isPopTimeout now batch (popTimes batch) = true

/-- The split of `submit_pop_consume_request`; the last batch may be shorter. -/
def popBatches (size : Nat) : Nat → List MessageExt → List (List MessageExt)
  | 0, rest => if rest.isEmpty then [] else [rest]
  | fuel + 1, rest =>
    if rest.length > size then rest.take size :: popBatches size fuel (rest.drop size)
    else if rest.isEmpty then [] else [rest]

theorem popBatches_flatten (size fuel : Nat) (msgs : List MessageExt) :
    (popBatches size fuel msgs).flatten = msgs := by
  induction fuel generalizing msgs with
  | zero => cases msgs <;> simp [popBatches]
  | succ fuel ih =>
    unfold popBatches
    split
    · rw [flatten_cons, ih, take_append_drop]
    · cases msgs <;> simp

/-- A task of the queue. The first two are rounds of the pop loop, the others run on the
executor. -/
inductive PopTask where
  /-- rows still to acknowledge, and the rows that are kept -/
  | filtering (dropped kept : List MessageExt)
  /-- batches still to submit -/
  | submitting (batches : List (List MessageExt))
  | queued (msgs : List MessageExt)
  /-- the listener has the rows under these names -/
  | listening (msgs : List MessageExt) (names : GroupNames) (stamp : Int)
  /-- the two passes of `process_pop_consume_result` -/
  | acking (names : GroupNames) (stamp delayLevel : Int) (ack back : List MessageExt)
  | returning (cfg : PopConfig) (names : GroupNames) (stamp delayLevel : Int)
      (back : List MessageExt)
  deriving DecidableEq, Repr

/-- What a task gets from outside in one step. -/
inductive PopTaskAct where
  /-- the loop goes on -/
  | go
  /-- the executor takes the next batch, or refuses it -/
  | submit (accepted : Bool)
  /-- the batch is taken up -/
  | arrive (now stamp : Int)
  /-- the listener returns, with the ack index and the delay level of the context -/
  | finish (now : Int) (status : Option ConsumeConcurrentlyStatus) (ackIndex delayLevel : Int)
  /-- the next row is answered -/
  | answer (now : Int)
  deriving DecidableEq, Repr

/-- The effect of a step: the tasks that take the place of this one, what the counter loses, and
the rows that leave the debt. -/
structure PopEffect where
  tasks : List PopTask
  credit : Int
  settled : List PopSettled
  deriving DecidableEq, Repr

/-- `dec_found_msg` for a whole batch. -/
def giveUp (msgs : List MessageExt) (now : Int) : PopEffect :=
  ⟨[], msgs.length, msgs.map fun m => ⟨m, .abandoned msgs now, none⟩⟩

variable (cfg : PopConfig)

/-- The first pass answers a row. -/
def ackRow (names : GroupNames) (stamp : Int) (m : MessageExt) : PopSettled :=
  ⟨m, .acknowledged, ackPopMsg cfg (deliveredRow names stamp m)⟩

/-- The second pass answers a row. -/
def returnRow (names : GroupNames) (stamp delayLevel now : Int) (m : MessageExt) : PopSettled :=
  let row := deliveredRow names stamp m
  if cfg.maxReconsumeTimes ≥ 0 ∧ row.reconsumeTimes ≥ cfg.maxReconsumeTimes then
    ⟨m, .exhausted cfg.popDelayLevel, checkNeedAckOrDelay cfg now row⟩
  else ⟨m, .returned cfg.popDelayLevel, changePopInvisibleTime cfg row delayLevel⟩

/-- **One step of a task.** -/
def PopTask.step (dropped : Bool) : PopTask → PopTaskAct → Option PopEffect
  | filtering (m :: rest) kept, .answer _ =>
    some ⟨[filtering rest kept], 1, [⟨m, .filtered, ackPopMsg cfg m⟩]⟩
  | filtering [] kept, .go =>
    let size := (max cfg.consumeMessageBatchMaxSize 1).toNat
    some ⟨[submitting (popBatches size kept.length kept)], 0, []⟩
  | submitting (batch :: rest), .submit accepted =>
    -- a refused batch is only logged
    some ⟨submitting rest :: if accepted then [queued batch] else [], 0, []⟩
  | submitting [], .go => some ⟨[], 0, []⟩
  | queued msgs, .arrive now stamp =>
    if dropped || msgs.isEmpty then some ⟨[], 0, []⟩
    else if isPopTimeout now msgs (popTimes msgs) then some (giveUp msgs now)
    else some ⟨[listening msgs cfg.names stamp], 0, []⟩
  | listening msgs names stamp, .finish now status ackIndex delayLevel =>
    if dropped || isPopTimeout now msgs (popTimes msgs) then some (giveUp msgs now)
    else
      let acked := ackedCount (some (status.getD .reconsumeLater)) ackIndex msgs.length
      some ⟨[acking names stamp delayLevel (msgs.take acked) (msgs.drop acked)], 0, []⟩
  | acking names stamp delayLevel (m :: ack) back, .answer _ =>
    some ⟨[acking names stamp delayLevel ack back], 1, [ackRow cfg names stamp m]⟩
  | acking names stamp delayLevel [] back, .go =>
    some ⟨[returning cfg names stamp delayLevel back], 0, []⟩
  | returning cfg names stamp delayLevel (m :: back), .answer now =>
    some ⟨[returning cfg names stamp delayLevel back], 1,
      [returnRow cfg names stamp delayLevel now m]⟩
  | returning _ _ _ _ [], .go => some ⟨[], 0, []⟩
  | _, _ => none

/-- The rows a task still has to settle. -/
def PopTask.unsettled : PopTask → List MessageExt
  | filtering dropped kept => dropped ++ kept
  | submitting batches => batches.flatten
  | queued msgs => msgs
  | listening msgs _ _ => msgs
  | acking _ _ _ ack back => ack ++ back
  | returning _ _ _ _ back => back

/-! ## 2. The queue -/

/-- A POP queue with its tasks, and what happened to the rows so far. -/
structure PopQueue where
  /-- `PopProcessQueue::wait_ack_counter` -/
  waitAckCounter : Int
  dropped : Bool
  cfg : PopConfig
  tasks : List PopTask
  popped : List MessageExt
  settled : List PopSettled

/-- What can happen to a queue. -/
inductive PopAct where
  /-- a FOUND answer arrives at a round that still owns the queue -/
  | pop (popped : List MessageExt) (hooks : Option (List MessageExt → List MessageExt))
      (sub : SubscriptionData)
  | task (i : Nat) (act : PopTaskAct)
  /-- `PopProcessQueue::set_dropped` -/
  | drop (dropped : Bool)
  | configure (cfg : PopConfig)

namespace PopQueue

def init : PopQueue :=
  { waitAckCounter := 0, dropped := false, cfg := cfg, tasks := [], popped := [], settled := [] }

/-- The rows no task has settled yet. -/
def unsettled (q : PopQueue) : List MessageExt := q.tasks.flatMap PopTask.unsettled

/-- The effect of a step of the task at position `i`. -/
def settle (q : PopQueue) (i : Nat) (e : PopEffect) : PopQueue :=
  { q with
    waitAckCounter := q.waitAckCounter - e.credit
    tasks := q.tasks.take i ++ e.tasks ++ q.tasks.drop (i + 1)
    settled := q.settled ++ e.settled }

/-- **One step of the queue.** -/
def step (q : PopQueue) : PopAct → Option PopQueue
  | .pop popped hooks sub =>
    -- rows that were popped for a queue that is gone are left to the broker
    if q.dropped || popped.isEmpty then some q
    else
      let kept := (preparePopBatchForDelivery q.cfg hooks sub popped).1
      some { q with
        waitAckCounter := q.waitAckCounter + popped.length
        tasks := q.tasks ++ [.filtering (popDropped kept popped) kept]
        popped := q.popped ++ popped }
  | .task i act =>
    match q.tasks[i]? with
    | some t => (t.step q.cfg q.dropped act).map (q.settle i)
    | none => none
  | .drop dropped => some { q with dropped := dropped }
  | .configure cfg => some { q with cfg := cfg }

end PopQueue

/-- The environment of the queue: hooks only drop rows, the rows of an answer have distinct
identities, the executor takes every batch and the queue is not dropped. -/
def PopAct.Regular : PopAct → Prop
  | pop popped hooks _ =>
    (∀ h ∈ hooks, ∀ ms, (h ms).Sublist ms) ∧ (popped.map popRowId).Nodup
  | task _ (.submit accepted) => accepted = true
  | task _ _ => True
  | drop dropped => dropped = false
  | configure _ => True

/-! ## 3. A task on its own

`consumePopBatch` is what the steps of a task amount to when nothing comes between them. -/

/-- What a task meets next in a pass: the mark of the queue, and what the task waits for. -/
def PopPass.input (pass : PopPass) : PopTask → Bool × PopTaskAct
  | .queued _ => (pass.droppedBefore, .arrive pass.arrival pass.stamp)
  | .listening msgs names stamp =>
    let answer := pass.listener (msgs.map (deliveredRow names stamp))
    (pass.droppedAfter, .finish pass.finish answer.1 answer.2.1 answer.2.2)
  | .acking names stamp _ (m :: _) _ | .returning _ names stamp _ (m :: _) =>
    (pass.droppedAfter, .answer (pass.clock (deliveredRow names stamp m)))
  | _ => (pass.droppedAfter, .go)

/-- **A task runs to its end under a pass**, takes so much off the counter and settles these rows. -/
inductive PopPass.Runs (cfg : PopConfig) (pass : PopPass) :
    PopTask → Int → List PopSettled → Prop where
  | ends {t : PopTask} {credit : Int} {log : List PopSettled}
      (h : t.step cfg (pass.input t).1 (pass.input t).2 = some ⟨[], credit, log⟩) :
      Runs cfg pass t credit log
  | next {t t' : PopTask} {credit credit' : Int} {log log' : List PopSettled}
      (h : t.step cfg (pass.input t).1 (pass.input t).2 = some ⟨[t'], credit, log⟩)
      (hr : Runs cfg pass t' credit' log') : Runs cfg pass t (credit + credit') (log ++ log')

def PopWay.isAbandoned : PopWay → Bool
  | abandoned _ _ => true
  | _ => false

/-- What the settled rows amount to. -/
def settlementOf (log : List PopSettled) : PopSettlement :=
  ⟨(log.filter fun e => !e.way.isAbandoned).map PopSettled.request,
    log.countP fun e => e.way.isAbandoned⟩

section Runs

variable {cfg : PopConfig} {pass : PopPass} {t : PopTask} {credit credit' : Int}
  {log log' : List PopSettled} {act : PopTaskAct} {e : PopEffect} {dropped : Bool}

/-- The counter loses one for each row that is settled. -/
theorem PopTask.step_credit (h : t.step cfg dropped act = some e) :
    e.credit = e.settled.length := by
  unfold PopTask.step at h
  split at h
  case h_5 | h_6 =>
    (repeat' split at h) <;> cases h <;> simp [giveUp]
  all_goals cases h <;> rfl

theorem PopPass.Runs.credit_eq (h : pass.Runs cfg t credit log) : credit = log.length := by
  induction h with
  | ends h => exact PopTask.step_credit h
  | next h _ ih =>
    have hstep := PopTask.step_credit h
    rw [length_append, Nat.cast_add, ← ih]
    exact congrArg (· + _) hstep

/-- A pass leaves a task no choice. -/
theorem PopPass.Runs.unique (h : pass.Runs cfg t credit log)
    (h' : pass.Runs cfg t credit' log') : credit' = credit ∧ log' = log := by
  induction h generalizing credit' log' with
  | ends h =>
    cases h' with
    | ends h' =>
      cases h.symm.trans h'
      exact ⟨rfl, rfl⟩
    | next h' _ => cases h.symm.trans h'
  | next h _ ih =>
    cases h' with
    | ends h' => cases h.symm.trans h'
    | next h' hr =>
      cases h.symm.trans h'
      obtain ⟨rfl, rfl⟩ := ih hr
      exact ⟨rfl, rfl⟩

theorem settlementOf_length (log : List PopSettled) :
    (settlementOf log).answers.length + (settlementOf log).abandoned = log.length := by
  simp only [settlementOf, length_map, ← countP_eq_length_filter]
  rw [Nat.add_comm, length_eq_countP_add_countP fun e => e.way.isAbandoned]
  simp

variable (cfg pass) (names : GroupNames) (stamp delayLevel : Int)

/-- The rows of the two passes. -/
def processed (ack back : List MessageExt) : List PopSettled :=
  ack.map (ackRow cfg names stamp) ++ back.map fun m =>
    returnRow cfg names stamp delayLevel (pass.clock (deliveredRow names stamp m)) m

theorem returning_runs (back : List MessageExt) :
    ∃ credit, pass.Runs cfg (.returning cfg names stamp delayLevel back) credit
      (processed cfg pass names stamp delayLevel [] back) := by
  induction back with
  | nil => exact ⟨0, .ends rfl⟩
  | cons m back ih =>
    obtain ⟨credit, ih⟩ := ih
    show ∃ credit, pass.Runs cfg _ credit ([returnRow cfg names stamp delayLevel _ m] ++ _)
    exact ⟨1 + credit, .next rfl ih⟩

theorem acking_runs (ack back : List MessageExt) :
    ∃ credit, pass.Runs cfg (.acking names stamp delayLevel ack back) credit
      (processed cfg pass names stamp delayLevel ack back) := by
  induction ack with
  | nil =>
    obtain ⟨credit, h⟩ := returning_runs cfg pass names stamp delayLevel back
    exact ⟨0 + credit, .next rfl h⟩
  | cons m ack ih =>
    obtain ⟨credit, ih⟩ := ih
    show ∃ credit, pass.Runs cfg _ credit ([ackRow cfg names stamp m] ++ processed cfg pass ..)
    exact ⟨1 + credit, .next rfl ih⟩

theorem returnRow_request (now : Int) (m : MessageExt) :
    (returnRow cfg names stamp delayLevel now m).way.isAbandoned = false ∧
      (returnRow cfg names stamp delayLevel now m).request =
        if cfg.maxReconsumeTimes ≥ 0 ∧
            (deliveredRow names stamp m).reconsumeTimes ≥ cfg.maxReconsumeTimes then
          checkNeedAckOrDelay cfg now (deliveredRow names stamp m)
        else changePopInvisibleTime cfg (deliveredRow names stamp m) delayLevel := by
  unfold returnRow
  dsimp only
  split
  · exact ⟨rfl, rfl⟩
  · exact ⟨rfl, rfl⟩

theorem settlementOf_processed (ack back : List MessageExt) :
    settlementOf (processed cfg pass names stamp delayLevel ack back) =
      ⟨ack.map (fun m => ackPopMsg cfg (deliveredRow names stamp m)) ++
        back.map (fun m => (returnRow cfg names stamp delayLevel
          (pass.clock (deliveredRow names stamp m)) m).request), 0⟩ := by
  have hack : ∀ m, (ackRow cfg names stamp m).way.isAbandoned = false := fun _ => rfl
  have hrequest : ∀ m, (ackRow cfg names stamp m).request =
      ackPopMsg cfg (deliveredRow names stamp m) := fun _ => rfl
  simp [settlementOf, processed, filter_map, Function.comp_def, hack, hrequest,
    (returnRow_request _ _ _ _ _ _).1]

end Runs

theorem isPopTimeout_map (f : MessageExt → MessageExt) (now : Int) (msgs : List MessageExt)
    (times : Int × Int) : isPopTimeout now (msgs.map f) times = isPopTimeout now msgs times := by
  cases msgs <;> rfl

theorem settlementOf_giveUp (msgs : List MessageExt) (now : Int) :
    settlementOf (giveUp msgs now).settled = ⟨[], msgs.length⟩ := by
  have hyes : (PopWay.abandoned msgs now).isAbandoned = true := rfl
  simp [settlementOf, giveUp, hyes]

theorem queued_runs (cfg : PopConfig) (pass : PopPass) (msgs : List MessageExt) :
    ∃ credit log, pass.Runs cfg (.queued msgs) credit log ∧
      consumePopBatch cfg pass msgs = settlementOf log := by
  have harrive : (PopTask.queued msgs).step cfg pass.droppedBefore (.arrive pass.arrival pass.stamp)
      = if pass.droppedBefore || msgs.isEmpty then some ⟨[], 0, []⟩
        else if isPopTimeout pass.arrival msgs (popTimes msgs) then some (giveUp msgs pass.arrival)
        else some ⟨[.listening msgs cfg.names pass.stamp], 0, []⟩ := rfl
  rcases hlistener : pass.listener (msgs.map (deliveredRow cfg.names pass.stamp)) with
    ⟨status, ackIndex, delayLevel⟩
  have hinput : pass.input (.listening msgs cfg.names pass.stamp) =
      (pass.droppedAfter, .finish pass.finish status ackIndex delayLevel) := by
    simp only [PopPass.input, hlistener]
  simp only [consumePopBatch, hlistener, isPopTimeout_map, length_map]
  split at harrive
  · rename_i h0
    rw [if_pos h0]
    exact ⟨_, [], .ends harrive, rfl⟩
  · rename_i h0
    rw [if_neg h0]
    split at harrive
    · rename_i h1
      rw [if_pos h1]
      exact ⟨_, _, .ends harrive, (settlementOf_giveUp msgs pass.arrival).symm⟩
    · rename_i h1
      rw [if_neg h1]
      have hfinish : (PopTask.listening msgs cfg.names pass.stamp).step cfg pass.droppedAfter
          (.finish pass.finish status ackIndex delayLevel)
          = if pass.droppedAfter || isPopTimeout pass.finish msgs (popTimes msgs) then
              some (giveUp msgs pass.finish)
            else
              let acked := ackedCount (some (status.getD .reconsumeLater)) ackIndex msgs.length
              some ⟨[.acking cfg.names pass.stamp delayLevel (msgs.take acked)
                (msgs.drop acked)], 0, []⟩ := rfl
      split at hfinish
      · rename_i h2
        rw [if_pos h2]
        exact ⟨_, _, .next harrive (.ends (by rw [hinput]; exact hfinish)),
          (settlementOf_giveUp msgs pass.finish).symm⟩
      · rename_i h2
        rw [if_neg h2]
        obtain ⟨credit, hr⟩ := acking_runs cfg pass cfg.names pass.stamp delayLevel _ _
        refine ⟨_, _, .next harrive (.next (by rw [hinput]; exact hfinish) hr), ?_⟩
        rw [nil_append, nil_append, settlementOf_processed]
        simp only [processPopConsumeResult, length_map, ← map_take, ← map_drop,
          map_map, Function.comp_def, (returnRow_request _ _ _ _ _ _).2]

/-- **A pass over a batch is the one run of its task under the pass**, and what that run takes off
the counter is the number of rows the pass answers or gives up. -/
theorem consumePopBatch_runs (cfg : PopConfig) (pass : PopPass) (msgs : List MessageExt) :
    ∃ credit log, pass.Runs cfg (.queued msgs) credit log ∧
      (∀ credit' log', pass.Runs cfg (.queued msgs) credit' log' →
        credit' = credit ∧ log' = log) ∧
      consumePopBatch cfg pass msgs = settlementOf log ∧
      credit = (consumePopBatch cfg pass msgs).answers.length
        + (consumePopBatch cfg pass msgs).abandoned := by
  obtain ⟨credit, log, hr, hsettled⟩ := queued_runs cfg pass msgs
  refine ⟨credit, log, hr, fun _ _ h' => hr.unique h', hsettled, ?_⟩
  rw [hsettled, hr.credit_eq, ← settlementOf_length log]
  exact Nat.cast_add _ _

/-! ## 4. No row is lost -/

/-- **The rows of an answer**: those that are dropped and those that are kept, when the kept ones
are among them and identities tell them apart. -/
theorem popDropped_perm {kept popped : List MessageExt} (hsub : kept.Sublist popped)
    (hid : (popped.map popRowId).Nodup) : (popDropped kept popped ++ kept).Perm popped := by
  unfold popDropped
  by_cases hlen : kept.length = popped.length
  · rw [if_pos hlen, hsub.eq_of_length hlen]
    exact List.Perm.refl _
  · rw [if_neg hlen]
    have hnodup : popped.Nodup := List.Nodup.of_map _ hid
    have hkept : kept.Perm (popped.filter fun m => (kept.map popRowId).contains (popRowId m)) := by
      refine (perm_ext_iff_of_nodup (hsub.nodup hnodup) (hnodup.filter _)).mpr fun m => ?_
      rw [mem_filter, contains_iff_mem]
      refine ⟨fun hm => ⟨hsub.mem hm, mem_map_of_mem hm⟩, fun ⟨hm, hmem⟩ => ?_⟩
      obtain ⟨m', hm', heq⟩ := mem_map.mp hmem
      -- a kept row with the identity of `m` is `m`
      rwa [← inj_on_of_nodup_map hid (hsub.mem hm') hm heq]
    exact (hkept.append_left _).trans (perm_append_comm.trans (filter_append_perm _ _))

theorem asked_of_target {codes : PopRequestCode → Prop} {code : PopRequestCode} {m row : MessageExt}
    (group : String) (hrow : row.getProperty "POP_CK" = m.getProperty "POP_CK")
    (hcode : codes code) : Asked codes m ((popCkTarget group row).map (·.request code group)) := by
  have hread : ckReadable row = ckReadable m := by
    unfold ckReadable
    rw [hrow]
  refine ⟨by rw [Option.isSome_map, popCkTarget_isSome, hread], fun r hr => ?_⟩
  obtain ⟨t, ht, rfl⟩ := Option.map_eq_some_iff.mp hr
  exact ⟨hcode, hrow.symm.trans (popCkTarget_ck ht)⟩

theorem ackPopMsg_asked (cfg : PopConfig) {m row : MessageExt}
    (hrow : row.getProperty "POP_CK" = m.getProperty "POP_CK") :
    Asked (· = .ackMessage) m (ackPopMsg cfg row) := asked_of_target _ hrow rfl

theorem returnRow_answered (cfg : PopConfig) (names : GroupNames) (stamp delayLevel now : Int)
    (m : MessageExt) : (returnRow cfg names stamp delayLevel now m).Answered := by
  have hck := deliveredRow_checkPoint names stamp m
  unfold returnRow
  dsimp only
  split
  · show ite _ _ _
    split
    · exact checkNeedAckOrDelay_nil ‹_› _ _
    · obtain ⟨code, hcode⟩ := checkNeedAckOrDelay_eq ‹_› now (deliveredRow names stamp m)
      rw [hcode]
      exact asked_of_target _ hck trivial
  · show ite _ _ _
    split
    · exact changePopInvisibleTime_nil ‹_› _ _
    · obtain ⟨ms, hms⟩ := changePopInvisibleTime_eq ‹_› (deliveredRow names stamp m) delayLevel
      rw [hms]
      exact asked_of_target _ hck ⟨ms, rfl⟩

theorem giveUp_settles {msgs : List MessageExt} {now : Int}
    (hto : isPopTimeout now msgs (popTimes msgs) = true) :
    msgs.Perm ((giveUp msgs now).settled.map PopSettled.row
        ++ (giveUp msgs now).tasks.flatMap PopTask.unsettled) ∧
      ∀ x ∈ (giveUp msgs now).settled, x.Answered := by
  unfold giveUp
  refine ⟨by simp [Function.comp_def], fun x hx => ?_⟩
  obtain ⟨m, hm, rfl⟩ := mem_map.mp hx
  exact ⟨rfl, hm, hto⟩

/-- **A step of a task answers the rows it settles and passes the others on**, on a queue that is
not dropped. -/
theorem PopTask.step_settles {cfg : PopConfig} {t : PopTask} {act : PopTaskAct} {e : PopEffect}
    (hact : ∀ accepted, act = .submit accepted → accepted = true)
    (h : t.step cfg false act = some e) :
    t.unsettled.Perm (e.settled.map PopSettled.row ++ e.tasks.flatMap PopTask.unsettled) ∧
      ∀ x ∈ e.settled, x.Answered := by
  unfold PopTask.step at h
  split at h
  case h_1 m rest kept now =>
    cases h
    exact ⟨by simp [unsettled], forall_mem_singleton.mpr (ackPopMsg_asked cfg rfl)⟩
  case h_2 kept =>
    cases h
    exact ⟨by simp [unsettled, popBatches_flatten], by simp⟩
  case h_3 batch rest accepted =>
    cases h
    rw [hact accepted rfl]
    simpa [unsettled] using perm_append_comm
  case h_4 =>
    cases h
    exact ⟨by simp [unsettled], by simp⟩
  case h_5 msgs now stamp =>
    split at h
    · rename_i hempty
      cases h
      rw [List.isEmpty_iff.mp hempty]
      exact ⟨by simp [unsettled], by simp⟩
    · split at h
      · rename_i hto
        cases h
        exact giveUp_settles hto
      · cases h
        exact ⟨by simp [unsettled], by simp⟩
  case h_6 msgs names stamp now status ackIndex delayLevel =>
    split at h
    · rename_i hto
      cases h
      exact giveUp_settles hto
    · cases h
      exact ⟨by simp [unsettled], by simp⟩
  case h_7 names stamp delayLevel m ack back now =>
    cases h
    exact ⟨by simp [unsettled, ackRow],
      forall_mem_singleton.mpr (ackPopMsg_asked cfg (deliveredRow_checkPoint names stamp m))⟩
  case h_8 names stamp delayLevel back =>
    cases h
    exact ⟨by simp [unsettled], by simp⟩
  case h_9 cfg' names stamp delayLevel m back now =>
    cases h
    have hrow : (returnRow cfg' names stamp delayLevel now m).row = m := by
      unfold returnRow
      dsimp only
      split <;> rfl
    exact ⟨by simp [unsettled, hrow],
      forall_mem_singleton.mpr (returnRow_answered cfg' names stamp delayLevel now m)⟩
  case h_10 =>
    cases h
    exact ⟨by simp [unsettled], by simp⟩
  case h_11 => cases h

namespace PopQueue

/-- The debt is in order. -/
structure Balanced (q : PopQueue) : Prop where
  dropped : q.dropped = false
  counter : q.waitAckCounter = q.unsettled.length
  rows : q.popped.Perm (q.settled.map PopSettled.row ++ q.unsettled)
  answered : ∀ e ∈ q.settled, e.Answered

theorem balanced_init (cfg : PopConfig) : (init cfg).Balanced :=
  ⟨rfl, rfl, List.Perm.refl _, fun _ he => nomatch he⟩

variable {q : PopQueue} {i : Nat} {t : PopTask}

theorem unsettled_split (h : q.tasks[i]? = some t) :
    q.unsettled = (q.tasks.take i).flatMap PopTask.unsettled ++ t.unsettled
      ++ (q.tasks.drop (i + 1)).flatMap PopTask.unsettled := by
  unfold unsettled
  conv_lhs => rw [Pool.split h]
  rw [flatMap_append, flatMap_cons, append_assoc]

/-- **A task step keeps the debt in order.** -/
theorem Balanced.settle (hq : q.Balanced) (ht : q.tasks[i]? = some t) {e : PopEffect}
    (hcredit : e.credit = e.settled.length)
    (hperm : t.unsettled.Perm (e.settled.map PopSettled.row ++ e.tasks.flatMap PopTask.unsettled))
    (hanswered : ∀ x ∈ e.settled, x.Answered) : (q.settle i e).Balanced := by
  -- the rows still to settle, before and after
  have hrows : q.unsettled.Perm (e.settled.map PopSettled.row ++ (q.settle i e).unsettled) := by
    rw [unsettled_split ht]
    have hafter : (q.settle i e).unsettled = (q.tasks.take i).flatMap PopTask.unsettled
        ++ e.tasks.flatMap PopTask.unsettled
        ++ (q.tasks.drop (i + 1)).flatMap PopTask.unsettled := by
      simp [unsettled, PopQueue.settle]
    rw [hafter]
    refine (List.Perm.append_right _ (hperm.append_left _)).trans ?_
    simp only [← append_assoc]
    exact List.Perm.append_right _ (List.Perm.append_right _ perm_append_comm)
  refine ⟨hq.dropped, ?_, ?_, ?_⟩
  · have hlen := hrows.length_eq
    rw [length_append, length_map] at hlen
    show q.waitAckCounter - e.credit = _
    rw [hq.counter]
    omega
  · show q.popped.Perm ((q.settled ++ e.settled).map PopSettled.row ++ (q.settle i e).unsettled)
    rw [map_append, append_assoc]
    exact hq.rows.trans (hrows.append_left _)
  · intro x hx
    rcases mem_append.mp hx with hx | hx
    · exact hq.answered x hx
    · exact hanswered x hx

/-- **An answer enters the debt with all its rows.** -/
theorem Balanced.pop (hq : q.Balanced) {popped kept : List MessageExt}
    (hperm : (popDropped kept popped ++ kept).Perm popped) :
    Balanced { q with
      waitAckCounter := q.waitAckCounter + popped.length
      tasks := q.tasks ++ [.filtering (popDropped kept popped) kept]
      popped := q.popped ++ popped } := by
  have hafter : (q.tasks ++ [PopTask.filtering (popDropped kept popped) kept]).flatMap
      PopTask.unsettled = q.unsettled ++ (popDropped kept popped ++ kept) := by
    simp [unsettled, PopTask.unsettled]
  refine ⟨hq.dropped, ?_, ?_, hq.answered⟩
  · show q.waitAckCounter + popped.length = ((q.tasks ++ [_]).flatMap PopTask.unsettled).length
    rw [hafter, length_append, hperm.length_eq, hq.counter]
    omega
  · show (q.popped ++ popped).Perm
      (q.settled.map PopSettled.row ++ (q.tasks ++ [_]).flatMap PopTask.unsettled)
    rw [hafter, ← append_assoc]
    exact hq.rows.append hperm.symm

theorem Balanced.step {q' : PopQueue} {a : PopAct} (hq : q.Balanced) (ha : a.Regular)
    (h : q.step a = some q') : q'.Balanced := by
  cases a with
  | pop popped hooks sub =>
    simp only [PopQueue.step] at h
    split at h
    · cases h
      exact hq
    · cases h
      exact hq.pop (popDropped_perm (preparePopBatchForDelivery_kept ha.1) ha.2)
  | task i act =>
    simp only [PopQueue.step] at h
    split at h
    · rename_i t ht
      obtain ⟨e, he, rfl⟩ := Option.map_eq_some_iff.mp h
      rw [hq.dropped] at he
      have hact : ∀ accepted, act = .submit accepted → accepted = true := by
        intro accepted hact
        subst hact
        exact ha
      obtain ⟨hperm, hanswered⟩ := PopTask.step_settles hact he
      exact hq.settle ht (PopTask.step_credit he) hperm hanswered
    · cases h
  | drop dropped =>
    cases h
    exact ⟨ha, hq.counter, hq.rows, hq.answered⟩
  | configure cfg =>
    cases h
    exact ⟨hq.dropped, hq.counter, hq.rows, hq.answered⟩

end PopQueue

/-- **The answer debt is conserved.** In every reachable state the counter is the number of popped
rows that no way has settled; every popped row is settled in exactly one way or still to be
settled; and a settled row was answered as its way says. -/
theorem pop_debt_conserved {cfg : PopConfig} {q : PopQueue}
    (h : Machine.Reach PopQueue.step (fun _ => PopAct.Regular) (PopQueue.init cfg) q) :
    q.waitAckCounter = q.unsettled.length ∧
      q.popped.Perm (q.settled.map PopSettled.row ++ q.unsettled) ∧
      ∀ e ∈ q.settled, e.Answered := by
  have hq : q.Balanced :=
    h.invariant (PopQueue.balanced_init cfg) fun _ _ _ hq ha hs => hq.step ha hs
  exact ⟨hq.counter, hq.rows, hq.answered⟩

namespace Script

/-- The row of `popRow` at another offset. -/
def popRowAt (offset : Int) : MessageExt := { popRow "T" "T" with queueOffset := offset }

/-- Two rows are popped, a hook drops the first and the second is consumed; two more are popped, one
times out and the other waits for its listener. -/
def debtActs : List PopAct :=
  [.pop [popRowAt 1, popRowAt 2] (some fun ms => ms.filter fun m => m.queueOffset ≠ 1) default,
    .task 0 (.answer 0), .task 0 .go, .pop [popRowAt 3, popRowAt 4] none default,
    .task 0 (.submit true), .task 1 (.arrive 2000 2000), .task 2 .go, .task 2 (.submit true),
    .task 2 (.submit true), .task 1 (.finish 3000 (some .consumeSuccess) 0 0),
    .task 1 (.answer 0), .task 4 (.arrive 61000 61000), .task 3 (.arrive 4000 4000)]

/-- A row without a check-point is popped and a hook drops it. -/
def bareActs : List PopAct :=
  [.pop [{ popRow "T" "T" with properties := ⟨[]⟩ }] (some fun _ => []) default,
    .task 0 (.answer 0)]

/-- A row is popped, and its listener fails. -/
def failedActs : List PopAct :=
  [.pop [popRow "T" "T"] none default, .task 0 .go, .task 0 (.submit true),
    .task 1 (.arrive 2000 2000), .task 1 (.finish 3000 none 0 0), .task 1 .go,
    .task 1 (.answer 3000)]

end Script

open Script

/-- One row is filtered, one acknowledged, one abandoned, and one is still owed. -/
theorem pop_debt_conserved_mixed :
    let q := Machine.after PopQueue.step (PopQueue.init popConfig) debtActs
    (q.settled.map fun e => (e.row.queueOffset, e.way.isAbandoned, e.request.map (·.code))) =
        [(1, false, some .ackMessage), (2, false, some .ackMessage), (3, true, none)] ∧
      q.waitAckCounter = 1 ∧ q.waitAckCounter = q.unsettled.length ∧
      q.popped.Perm (q.settled.map PopSettled.row ++ q.unsettled) ∧ ∀ e ∈ q.settled, e.Answered :=
  ⟨by decide, by decide, pop_debt_conserved (Machine.Meets.reach_after (Machine.meets_of_forall
    (by
      simp only [debtActs, forall_mem_cons, PopAct.Regular]
      refine ⟨⟨?_, by decide⟩, trivial, trivial, ⟨nofun, by decide⟩, ?_⟩
      · intro h hh ms
        cases hh
        exact filter_sublist
      · simp) (by decide)))⟩

/-- **A row leaves the debt without a request.** A filtered row without a check-point is counted as
answered, and so is a row whose listener failed when the table of delays is empty. -/
theorem settled_without_request :
    (∃ q, Machine.Reach PopQueue.step (fun _ => PopAct.Regular) (PopQueue.init popConfig) q ∧
      q.popped.length = 1 ∧ q.waitAckCounter = 0 ∧
      (q.settled.map fun e => (e.way, e.request)) = [(.filtered, none)]) ∧
    ∃ q, Machine.Reach PopQueue.step (fun _ => PopAct.Regular)
        (PopQueue.init { popConfig with popDelayLevel := [] }) q ∧
      q.popped.length = 1 ∧ q.waitAckCounter = 0 ∧
      (q.settled.map fun e => (e.way, e.request)) = [(.returned [], none)] := by
  constructor
  · refine ⟨Machine.after PopQueue.step _ bareActs, Machine.Meets.reach_after
      (Machine.meets_of_forall ?_ (by decide)), by decide, by decide, by decide⟩
    simp only [bareActs, forall_mem_cons, PopAct.Regular]
    refine ⟨⟨?_, by decide⟩, trivial, by simp⟩
    intro h hh ms
    cases hh
    exact nil_sublist _
  · refine ⟨Machine.after PopQueue.step _ failedActs, Machine.Meets.reach_after
      (Machine.meets_of_forall ?_ (by decide)), by decide, by decide, by decide⟩
    simp [failedActs, PopAct.Regular]

end RocketMQ
