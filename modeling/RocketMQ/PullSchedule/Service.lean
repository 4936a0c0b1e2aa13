/-
  File:      RocketMQ/PullSchedule/Service.lean
  Subject:   Scheduled pulling: a task table and one loop for each queue.

  After `client/pull_schedule_service.rs`. `put_task` holds the lock of the table from its first
  line to its last, so it is one step here; a loop runs between two reads of something shared. A
  watch channel is its value and the number of sends so far, a receiver remembers the number it has
  seen. `shutdown` is not part of the machine.

  * `putTaskOn_induction`: **what `put_task` does**, entry by entry.
-/
import RocketMQ.Lib.Machine
import RocketMQ.Lib.Pool
import RocketMQ.Naming
import RocketMQ.Lib.Table
import Std.Data.ExtTreeSet

namespace RocketMQ.PullSchedule

open List NamespaceUtil

/-! ## 1. The service -/

/-- Where a loop stands. -/
inductive LoopPhase where
  /-- before it looks at the stop signal -/
  | top
  /-- before it looks at its own cancellation -/
  | checkCancel
  /-- before it looks up the callback -/
  | lookup
  /-- `do_pull_task` runs -/
  | round
  /-- in the `select!` behind the round -/
  | sleeping
  | finished
  deriving DecidableEq

/-- `queue_loop` of one queue, with its end of the channels. -/
structure QueueLoop where
  mq : MessageQueue
  /-- the sends on the stop channel that its receiver has seen -/
  stopSeen : Nat
  /-- the value of its own channel -/
  cancel : Bool
  phase : LoopPhase
  deriving DecidableEq

/-- `QueueTask`; the loop stands for the handle and for the sender. -/
structure QueueTask where
  topic : String
  mq : MessageQueue
  loop : Nat
  deriving DecidableEq

/-- `ScheduleInner`. -/
structure ScheduleService where
  nameSpace : String
  callbacks : Std.ExtTreeSet String
  tasks : Std.ExtTreeMap String QueueTask
  /-- every loop that was ever spawned -/
  loops : List QueueLoop
  /-- the stop channel: its value, and the sends so far -/
  stop : Bool
  stopSends : Nat
  started : Bool
  /-- a `start` waits for the consumer -/
  starting : Bool
  /-- a runtime is bound -/
  runtime : Bool
  /-- the topics that each `reconcile` under way has still to go through -/
  reconciles : List (List String)

def ScheduleService.new (nameSpace : String) : ScheduleService :=
  ⟨nameSpace, ∅, ∅, [], false, 0, false, false, false, []⟩

/-! ## 2. Loops -/

/-- What a loop does next. -/
inductive LoopAct where
  /-- it goes on, or the round ends -/
  | proceed
  /-- the sleep is over -/
  | wake
  /-- one of the channels has changed -/
  | notice
  deriving DecidableEq

/-- `queue_loop`, up to the next read of something shared. -/
def QueueLoop.run (l : QueueLoop) (s : ScheduleService) : LoopAct → Option QueueLoop
  | .proceed =>
    match l.phase with
    | .top =>
      some { l with
        stopSeen := s.stopSends
        phase := if s.stop then .finished else .checkCancel }
    | .checkCancel => some { l with phase := if l.cancel then .finished else .lookup }
    | .lookup =>
      some { l with phase := if l.mq.topic ∈ s.callbacks then .round else .finished }
    | .round => some { l with phase := if s.stop || l.cancel then .finished else .sleeping }
    | .sleeping => none
    | .finished => none
  | .wake => if l.phase = .sleeping then some { l with phase := .top } else none
  | .notice =>
    if l.phase = .sleeping ∧ (l.stopSeen ≠ s.stopSends ∨ l.cancel = true) then
      some { l with phase := .finished }
    else none

/-! ## 3. The task table -/

namespace ScheduleService

variable (s : ScheduleService)

/-- An entry is taken out of the table and its loop cancelled. -/
def retire (e : String × QueueTask) : ScheduleService :=
  { s with
    tasks := s.tasks.erase e.1
    loops := s.loops.modify e.2.loop ({ · with cancel := true }) }

variable (topic : String)

/-- A queue that is not in the table gets an entry and a loop. -/
def spawn (s : ScheduleService) (mq : MessageQueue) : ScheduleService :=
  if mqKey mq ∈ s.tasks then s
  else
    { s with
      tasks := s.tasks.insert (mqKey mq) ⟨topic, mq, s.loops.length⟩
      loops := s.loops ++ [⟨mq, s.stopSends, false, .top⟩] }

/-- The entries of the topic that are not assigned any more. -/
def stale (mqNewSet : List MessageQueue) : List (String × QueueTask) :=
  s.tasks.toList.filter fun e => e.2.topic == topic && !(mqNewSet.map mqKey).contains e.1

/-- `put_task_on`, called inside of a runtime or outside. -/
def putTaskOn (mqNewSet : List MessageQueue) (inRuntime : Bool) : ScheduleService :=
  let s := (s.stale topic mqNewSet).foldl retire s
  if s.runtime || inRuntime then mqNewSet.foldl (spawn topic) { s with runtime := true } else s

def registerPullTaskCallback : ScheduleService :=
  { s with
    callbacks := s.callbacks.insert
      (if s.nameSpace.isEmpty then topic else wrapNamespace s.nameSpace topic) }

/-- `reconcile_round`, its first section. -/
def reconcile : ScheduleService :=
  { s with reconciles := s.reconciles ++ [s.callbacks.toList] }

end ScheduleService

/-- What can happen to the service. -/
inductive ScheduleAct where
  | register (topic : String)
  | putTask (topic : String) (mqNewSet : List MessageQueue) (inRuntime : Bool)
  | reconcile
  /-- the queues of the next topic of a `reconcile` have come (`none`: the request failed) -/
  | reconciled (i : Nat) (queues : Option (List MessageQueue))
  | start
  /-- the consumer has started, or failed to -/
  | consumerStarted (ok : Bool)
  /-- a loop runs -/
  | loop (i : Nat) (act : LoopAct)

/-- **One step.** -/
def ScheduleService.step (s : ScheduleService) : ScheduleAct → Option ScheduleService
  | .register topic => some (s.registerPullTaskCallback topic)
  | .putTask topic mqNewSet inRuntime => some (s.putTaskOn topic mqNewSet inRuntime)
  | .reconcile => some s.reconcile
  | .reconciled i queues =>
    match s.reconciles[i]? with
    | some (topic :: topics) =>
      let s := { s with reconciles := s.reconciles.set i topics }
      match queues with
      | some queues => some (s.putTaskOn topic queues true)
      | none => some s
    | _ => none
  | .start =>
    if s.started then some s
    else some { s with started := true, starting := true, runtime := true }
  | .consumerStarted ok =>
    if !s.starting then none
    else if ok then
      -- `stop.send(false)`, and the first `reconcile`
      some (reconcile { s with starting := false, stop := false, stopSends := s.stopSends + 1 })
    else some { s with starting := false, started := false }
  | .loop i act =>
    match s.loops[i]? with
    | some l => (l.run s act).map fun l' => { s with loops := s.loops.set i l' }
    | none => none

/-! ## 4. What a step can do -/

/-- **The steps of a loop.** -/
inductive LoopRule (s : ScheduleService) (l : QueueLoop) : QueueLoop → Prop where
  | stopped (hp : l.phase = .top) (hstop : s.stop = true) :
      LoopRule s l { l with stopSeen := s.stopSends, phase := .finished }
  | seen (hp : l.phase = .top) (hstop : s.stop = false) :
      LoopRule s l { l with stopSeen := s.stopSends, phase := .checkCancel }
  | cancelled (hp : l.phase = .checkCancel) (hc : l.cancel = true) :
      LoopRule s l { l with phase := .finished }
  | allowed (hp : l.phase = .checkCancel) (hc : l.cancel = false) :
      LoopRule s l { l with phase := .lookup }
  | missing (hp : l.phase = .lookup) (hcallback : l.mq.topic ∉ s.callbacks) :
      LoopRule s l { l with phase := .finished }
  | pull (hp : l.phase = .lookup) (hcallback : l.mq.topic ∈ s.callbacks) :
      LoopRule s l { l with phase := .round }
  | ended (hp : l.phase = .round) (h : s.stop = true ∨ l.cancel = true) :
      LoopRule s l { l with phase := .finished }
  | sleep (hp : l.phase = .round) (hstop : s.stop = false) (hc : l.cancel = false) :
      LoopRule s l { l with phase := .sleeping }
  | wake (hp : l.phase = .sleeping) : LoopRule s l { l with phase := .top }
  | notice (hp : l.phase = .sleeping) (h : l.stopSeen ≠ s.stopSends ∨ l.cancel = true) :
      LoopRule s l { l with phase := .finished }

theorem loopRule_of_run {s : ScheduleService} {l l' : QueueLoop} {act : LoopAct}
    (h : l.run s act = some l') : LoopRule s l l' := by
  cases act with
  | proceed =>
    unfold QueueLoop.run at h
    cases hp : l.phase with
    | top =>
      rw [hp] at h
      cases hstop : s.stop with
      | true =>
        rw [hstop] at h
        cases h
        exact .stopped hp hstop
      | false =>
        rw [hstop] at h
        cases h
        exact .seen hp hstop
    | checkCancel =>
      rw [hp] at h
      cases hc : l.cancel with
      | true =>
        simp only [hc] at h
        cases h
        exact hc ▸ .cancelled hp hc
      | false =>
        simp only [hc, Bool.false_eq_true] at h
        cases h
        exact hc ▸ .allowed hp hc
    | lookup =>
      rw [hp] at h
      by_cases hcallback : l.mq.topic ∈ s.callbacks
      · simp only [hcallback] at h
        cases h
        exact .pull hp hcallback
      · simp only [hcallback] at h
        cases h
        exact .missing hp hcallback
    | round =>
      rw [hp] at h
      by_cases hend : s.stop = true ∨ l.cancel = true
      · simp only [Bool.or_eq_true, hend] at h
        cases h
        exact .ended hp hend
      · simp only [Bool.or_eq_true, hend] at h
        cases h
        rw [not_or, Bool.not_eq_true, Bool.not_eq_true] at hend
        exact .sleep hp hend.1 hend.2
    | sleeping | finished =>
      rw [hp] at h
      cases h
  | wake =>
    simp only [QueueLoop.run] at h
    split at h
    · cases h
      exact .wake ‹_›
    · cases h
  | notice =>
    simp only [QueueLoop.run] at h
    split at h
    · rename_i hready
      cases h
      exact .notice hready.1 hready.2
    · cases h

/-- **The steps of the service.** -/
inductive Next (s : ScheduleService) : ScheduleAct → ScheduleService → Prop where
  | register (topic : String) : Next s (.register topic) (s.registerPullTaskCallback topic)
  | putTask (topic : String) (mqNewSet : List MessageQueue) (inRuntime : Bool) :
      Next s (.putTask topic mqNewSet inRuntime) (s.putTaskOn topic mqNewSet inRuntime)
  | reconcile : Next s .reconcile s.reconcile
  | reconciled {i : Nat} {topic : String} {topics : List String} (queues : List MessageQueue)
      (hi : s.reconciles[i]? = some (topic :: topics)) :
      Next s (.reconciled i (some queues))
        ({ s with reconciles := s.reconciles.set i topics }.putTaskOn topic queues true)
  | unreconciled {i : Nat} {topic : String} {topics : List String}
      (hi : s.reconciles[i]? = some (topic :: topics)) :
      Next s (.reconciled i none) { s with reconciles := s.reconciles.set i topics }
  | startedBefore (h : s.started = true) : Next s .start s
  | start (h : s.started = false) :
      Next s .start { s with started := true, starting := true, runtime := true }
  | consumerStarted (h : s.starting = true) :
      Next s (.consumerStarted true) (ScheduleService.reconcile
        { s with starting := false, stop := false, stopSends := s.stopSends + 1 })
  | consumerFailed (h : s.starting = true) :
      Next s (.consumerStarted false) { s with starting := false, started := false }
  | loop {i : Nat} {act : LoopAct} {l l' : QueueLoop} (hi : s.loops[i]? = some l)
      (hrule : LoopRule s l l') : Next s (.loop i act) { s with loops := s.loops.set i l' }

theorem next_of_step {s s' : ScheduleService} {act : ScheduleAct} (h : s.step act = some s') :
    Next s act s' := by
  cases act with
  | register topic =>
    cases h
    exact .register topic
  | putTask topic mqNewSet inRuntime =>
    cases h
    exact .putTask topic mqNewSet inRuntime
  | reconcile =>
    cases h
    exact .reconcile
  | reconciled i queues =>
    simp only [ScheduleService.step] at h
    split at h
    · rename_i topic topics hi
      cases queues with
      | some queues =>
        cases h
        exact .reconciled queues hi
      | none =>
        cases h
        exact .unreconciled hi
    · cases h
  | start =>
    simp only [ScheduleService.step] at h
    cases hstarted : s.started with
    | true =>
      rw [hstarted] at h
      cases h
      exact .startedBefore hstarted
    | false =>
      rw [hstarted] at h
      cases h
      exact .start hstarted
  | consumerStarted ok =>
    simp only [ScheduleService.step] at h
    cases hstarting : s.starting with
    | true =>
      rw [hstarting] at h
      cases ok with
      | true =>
        cases h
        exact .consumerStarted hstarting
      | false =>
        cases h
        exact .consumerFailed hstarting
    | false =>
      rw [hstarting] at h
      cases h
  | loop i act =>
    simp only [ScheduleService.step] at h
    split at h
    · rename_i l hi
      obtain ⟨l', hrun, rfl⟩ := Option.map_eq_some_iff.mp h
      exact .loop hi (loopRule_of_run hrun)
    · cases h

/-! ## 5. What `put_task` does -/

namespace ScheduleService

/-- **An invariant along `put_task`**: entries of queues that are not in the set are retired, and
queues of the set that have no entry are spawned. -/
theorem putTaskOn_induction {I : ScheduleService → Prop} {s : ScheduleService} {topic : String}
    {mqNewSet : List MessageQueue} (inRuntime : Bool) (h : I s)
    (hretire : ∀ s key task, I s → s.tasks[key]? = some task → key ∉ mqNewSet.map mqKey →
      I (s.retire (key, task)))
    (hruntime : ∀ s, I s → I { s with runtime := true })
    (hspawn : ∀ s, ∀ mq ∈ mqNewSet, I s → I (s.spawn topic mq)) :
    I (s.putTaskOn topic mqNewSet inRuntime) := by
  have hstale : ∀ (entries : List (String × QueueTask)) s, I s →
      (∀ e ∈ entries, s.tasks[e.1]? = some e.2 ∧ e.1 ∉ mqNewSet.map mqKey) →
      (entries.Pairwise fun a b => a.1 ≠ b.1) → I (entries.foldl retire s) := by
    intro entries
    induction entries with
    | nil => exact fun s h _ _ => h
    | cons e entries ih =>
      intro s h hentries hkeys
      obtain ⟨hget, hkey⟩ := hentries e mem_cons_self
      obtain ⟨hne, hrest⟩ := pairwise_cons.mp hkeys
      refine ih _ (hretire s e.1 e.2 h hget hkey) (fun e' he' => ?_) hrest
      obtain ⟨hget', hkey'⟩ := hentries e' (mem_cons_of_mem _ he')
      refine ⟨?_, hkey'⟩
      show (s.tasks.erase e.1)[e'.1]? = some e'.2
      rw [Table.get_erase_ne (Ne.symm (hne e' he')), hget']
  have hretired : I ((s.stale topic mqNewSet).foldl retire s) := by
    refine hstale _ s h (fun e he => ?_) ?_
    · obtain ⟨hmem, hcond⟩ := mem_filter.mp he
      refine ⟨Std.ExtTreeMap.mem_toList_iff_getElem?_eq_some.mp hmem, ?_⟩
      simpa using (Bool.and_eq_true_iff.mp hcond).2
    · refine List.Pairwise.filter _ (Std.ExtTreeMap.distinct_keys_toList.imp
        fun {a b} hne heq => ?_)
      exact hne (by rw [heq]; exact Std.ReflCmp.compare_self)
  unfold putTaskOn
  dsimp only
  split
  · exact List.foldlRecOn _ _ (hruntime _ hretired) fun s hs mq hmq => hspawn s mq hmq hs
  · exact hretired

end ScheduleService

end RocketMQ.PullSchedule
