/-
  File:      RocketMQ/PullSchedule/Coverage.lean
  Subject:   Every queue of the task table is pulled.

  An entry keeps `put_task` from spawning a loop, also when the loop it stands for has ended on its
  own: without a callback, or because `start` sends on the stop channel, which wakes every sleeper
  whatever the value.

  * `Covering`: **the windows**: a loop looks for a callback that is not there yet, or `start` sends
    while a loop of the table is under way;
  * `queues_covered_when`: outside of them **every entry has a loop that runs**;
  * `queue_left_alone`: in each of them an entry without one stays.
-/
import RocketMQ.PullSchedule.Service

namespace RocketMQ.PullSchedule

open List

/-! ## 1. Entries and loops -/

/-- The loop of an entry. -/
structure RunsFor (s : ScheduleService) (task : QueueTask) (l : QueueLoop) : Prop where
  mq : l.mq = task.mq
  cancel : l.cancel = false
  unfinished : l.phase ≠ .finished
  seen : l.phase = .top ∨ l.stopSeen = s.stopSends

/-- **Every entry has a loop that runs.** -/
structure Running (s : ScheduleService) : Prop where
  stop : s.stop = false
  keys : ∀ (key : String) (task : QueueTask), s.tasks[key]? = some task → mqKey task.mq = key
  loops : ∀ (key : String) (task : QueueTask), s.tasks[key]? = some task →
    ∃ l, s.loops[task.loop]? = some l ∧ RunsFor s task l

section Running

variable {s : ScheduleService}

theorem Running.of_eq {s' : ScheduleService} (h : Running s) (hstop : s'.stop = s.stop)
    (hsends : s'.stopSends = s.stopSends) (htasks : s'.tasks = s.tasks)
    (hloops : s'.loops = s.loops) : Running s' := by
  refine ⟨hstop.trans h.stop, by rw [htasks]; exact h.keys, fun key task hget => ?_⟩
  rw [htasks] at hget
  obtain ⟨l, hl, hmq, hcancel, hphase, hseen⟩ := h.loops key task hget
  rw [hloops]
  exact ⟨l, hl, hmq, hcancel, hphase, hseen.imp_right fun heq => heq.trans hsends.symm⟩

theorem Running.retire {key : String} {task : QueueTask} (h : Running s)
    (hget : s.tasks[key]? = some task) : Running (s.retire (key, task)) := by
  refine ⟨h.stop, fun key' task' hget' => h.keys key' task' (Table.of_get_erase hget').2,
    fun key' task' hget' => ?_⟩
  obtain ⟨hne, hget'⟩ := Table.of_get_erase hget'
  obtain ⟨l, hl, hruns⟩ := h.loops key task hget
  obtain ⟨l', hl', hruns'⟩ := h.loops key' task' hget'
  -- two entries with one loop would have one key
  have hloop : task.loop ≠ task'.loop := by
    intro heq
    rw [heq, hl'] at hl
    cases hl
    rw [← h.keys key task hget, ← h.keys key' task' hget', ← hruns.mq, ← hruns'.mq] at hne
    exact hne rfl
  refine ⟨l', ?_, hruns'.mq, hruns'.cancel, hruns'.unfinished, hruns'.seen⟩
  rw [ScheduleService.retire, getElem?_modify, hl']
  exact congrArg some (if_neg hloop)

theorem Running.spawn {topic : String} {mq : MessageQueue} (h : Running s) :
    Running (s.spawn topic mq) := by
  unfold ScheduleService.spawn
  split
  · exact h
  · refine ⟨h.stop, fun key task hget => ?_, fun key task hget => ?_⟩
    · rcases Table.of_get_insert hget with ⟨hkey, rfl⟩ | ⟨_, hget⟩
      · exact hkey.symm
      · exact h.keys key task hget
    · rcases Table.of_get_insert hget with ⟨hkey, rfl⟩ | ⟨_, hget⟩
      · refine ⟨_, getElem?_concat_length, rfl, rfl, ?_, .inl rfl⟩
        simp
      · obtain ⟨l, hl, hmq, hcancel, hphase, hseen⟩ := h.loops key task hget
        exact ⟨l, Pool.getElem?_of_prefix (prefix_append _ _) hl, hmq, hcancel, hphase, hseen⟩

theorem Running.putTaskOn {topic : String} {mqNewSet : List MessageQueue} (h : Running s)
    (inRuntime : Bool) : Running (s.putTaskOn topic mqNewSet inRuntime) :=
  ScheduleService.putTaskOn_induction inRuntime h
    (fun _ _ _ hI hget _ => hI.retire hget) (fun _ hI => hI.of_eq rfl rfl rfl rfl)
    fun _ _ _ hI => hI.spawn

theorem RunsFor.run {task : QueueTask} {l l' : QueueLoop} (h : RunsFor s task l)
    (hstop : s.stop = false) (hcallback : l.phase = .lookup → l.mq.topic ∈ s.callbacks)
    (hrule : LoopRule s l l') : RunsFor s task l' := by
  have hsame hp : l.stopSeen = s.stopSends := h.seen.resolve_left hp
  cases hrule with
  | stopped _ hs =>
    cases hstop.symm.trans hs
  | seen hp _ => exact ⟨h.mq, h.cancel, by simp, .inr rfl⟩
  | cancelled _ hc =>
    cases h.cancel.symm.trans hc
  | allowed hp _ | pull hp _ | sleep hp _ _ =>
    exact ⟨h.mq, h.cancel, by simp, .inr (hsame (by simp [hp]))⟩
  | missing hp hnone => exact absurd (hcallback hp) hnone
  | ended _ hend =>
    rw [hstop, h.cancel] at hend
    simp at hend
  | wake hp => exact ⟨h.mq, h.cancel, by simp, .inl rfl⟩
  | notice hp hready =>
    rw [hsame (by simp [hp]), h.cancel] at hready
    simp at hready

end Running

/-! ## 2. Every run -/

/-- The step is the one in which `start` sends on the stop channel. -/
def ScheduleAct.sendsStop : ScheduleAct → Bool
  | .consumerStarted ok => ok
  | _ => false

/-- The loop that a step runs. -/
def ScheduleAct.loop? : ScheduleAct → Option Nat
  | .loop i _ => some i
  | _ => none

/-- **The windows**: `start` sends while a loop of the table is not at its top, or a loop that is
not cancelled looks for a callback that is not registered. -/
def Covering (s : ScheduleService) (act : ScheduleAct) : Prop :=
  (act.sendsStop = true → ∀ e ∈ s.tasks.toList, ∀ l ∈ s.loops[e.2.loop]?, l.phase = .top) ∧
  ∀ i ∈ act.loop?, ∀ l ∈ s.loops[i]?, l.cancel = false → l.phase = .lookup →
    l.mq.topic ∈ s.callbacks

instance (s : ScheduleService) (act : ScheduleAct) : Decidable (Covering s act) :=
  inferInstanceAs (Decidable (_ ∧ _))

/-- **Every step keeps it.** -/
theorem Running.step {s s' : ScheduleService} {act : ScheduleAct} (h : Running s)
    (hcover : Covering s act) (hnext : Next s act s') : Running s' := by
  cases hnext with
  | register | reconcile | unreconciled | start | consumerFailed => exact h.of_eq rfl rfl rfl rfl
  | putTask topic mqNewSet inRuntime => exact h.putTaskOn inRuntime
  | reconciled queues hi =>
    refine Running.putTaskOn ?_ true
    exact h.of_eq rfl rfl rfl rfl
  | startedBefore _ => exact h
  | consumerStarted _ =>
    refine ⟨rfl, h.keys, fun key task hget => ?_⟩
    obtain ⟨l, hl, hruns⟩ := h.loops key task hget
    refine ⟨l, hl, hruns.mq, hruns.cancel, hruns.unfinished, .inl ?_⟩
    exact hcover.1 rfl (key, task) (Std.ExtTreeMap.mem_toList_iff_getElem?_eq_some.mpr hget) l hl
  | @loop i act l l' hi hrule =>
    refine ⟨h.stop, h.keys, fun key task hget => ?_⟩
    obtain ⟨m, hm, hruns⟩ := h.loops key task hget
    by_cases heq : i = task.loop
    · subst heq
      cases hi.symm.trans hm
      have hnew := hruns.run h.stop (hcover.2 task.loop rfl l hi hruns.cancel) hrule
      refine ⟨l', ?_, hnew.mq, hnew.cancel, hnew.unfinished, hnew.seen⟩
      obtain ⟨hlt, _⟩ := List.getElem?_eq_some_iff.mp hi
      exact getElem?_set_self hlt
    · refine ⟨m, ?_, hruns.mq, hruns.cancel, hruns.unfinished, hruns.seen⟩
      rw [getElem?_set_ne heq, hm]

/-- **Every queue in the table has a loop that runs**, and it is a loop of that queue. -/
theorem queues_covered_when {nameSpace : String} {s : ScheduleService}
    (h : Machine.Reach ScheduleService.step Covering (.new nameSpace) s) {key : String}
    {task : QueueTask} (htask : s.tasks[key]? = some task) :
    ∃ l, s.loops[task.loop]? = some l ∧ l.mq = task.mq ∧ l.phase ≠ .finished := by
  have hstart : Running (.new nameSpace) := by
    refine ⟨rfl, fun key task hget => ?_, fun key task hget => ?_⟩ <;>
    simp [ScheduleService.new] at hget
  have hrunning : Running s :=
    h.invariant hstart fun _ _ _ hI hG hs => hI.step hG (next_of_step hs)
  obtain ⟨l, hl, hruns⟩ := hrunning.loops key task htask
  exact ⟨l, hl, hruns.mq, hruns.unfinished⟩

end RocketMQ.PullSchedule

namespace RocketMQ.Script

open PullSchedule

/-- The loop of the only queue of the table. -/
def onlyLoop (acts : List ScheduleAct) : Option LoopPhase :=
  let s := Machine.after ScheduleService.step (.new "") acts
  s.tasks[mqKey ⟨"T", "b", 0⟩]?.bind fun task => s.loops[task.loop]?.map (·.phase)

/-- `put_task`, with the one queue. -/
def putOne : ScheduleAct := .putTask "T" [⟨"T", "b", 0⟩] true

/-- A loop runs once to its sleep. -/
def toSleep : List ScheduleAct :=
  [.loop 0 .proceed, .loop 0 .proceed, .loop 0 .proceed, .loop 0 .proceed]

/-- The service is started before a queue is put. -/
def startedFirst : List ScheduleAct :=
  [.register "T", .start, .consumerStarted true, putOne] ++ toSleep ++ [putOne]

end RocketMQ.Script

namespace RocketMQ.PullSchedule

open Script

/-- First the callback and the start, then the queue. -/
theorem queues_covered_when_started :
    ∃ l, (Machine.after ScheduleService.step (.new "") startedFirst).loops[0]? = some l ∧
      l.mq = ⟨"T", "b", 0⟩ ∧ l.phase ≠ .finished := by
  have hmeets : Machine.Meets ScheduleService.step Covering (.new "") startedFirst := by
    decide +kernel
  have htask : (Machine.after ScheduleService.step (.new "") startedFirst).tasks[mqKey
      ⟨"T", "b", 0⟩]? = some ⟨"T", ⟨"T", "b", 0⟩, 0⟩ := by
    decide +kernel
  exact queues_covered_when hmeets.reach_after htask

/-- The queue is put before its callback is registered; or before `start`, which then wakes the loop
and does not replace it. Afterwards the topic has its callback, and the queue an entry without a
loop. -/
theorem queue_left_alone :
    onlyLoop ([putOne, .loop 0 .proceed, .loop 0 .proceed, .loop 0 .proceed, .register "T", putOne])
      = some .finished ∧
    onlyLoop ([.register "T", putOne] ++ toSleep ++ [.start, .consumerStarted true, .loop 0 .notice,
      .reconciled 0 (some [⟨"T", "b", 0⟩])]) = some .finished := by
  decide +kernel

end RocketMQ.PullSchedule
