/-
  File:      RocketMQ/PullSchedule/Rounds.lean
  Subject:   Rounds of one queue at the same time.

  A queue that is taken out of the set keeps its loop until the loop looks at its cancellation
  again; a round that runs is waited for. If the queue comes back in between, it gets a new loop.

  * `Quiet`: **the window**: a queue is put back while the old loop is past its checks;
  * `rounds_serial_when`: outside of it **one round of a queue runs at a time**;
  * `rounds_overlap`: in it two run.
-/
import RocketMQ.PullSchedule.Service

namespace RocketMQ.PullSchedule

open List

/-! ## 1. Busy loops -/

/-- The loop is behind its checks, or will pass them. -/
def QueueLoop.Busy (l : QueueLoop) : Prop :=
  (l.phase = .lookup ∨ l.phase = .round) ∨ (l.phase ≠ .finished ∧ l.cancel = false)

/-- The loop is in the table as long as it is not cancelled. -/
def QueueLoop.Live (l : QueueLoop) : Prop := l.phase ≠ .finished ∧ l.cancel = false

/-- **One busy loop for a queue.** -/
structure OneLoop (s : ScheduleService) : Prop where
  /-- a loop that is not cancelled has the entry of its queue -/
  listed : ∀ (i : Nat) (l : QueueLoop), s.loops[i]? = some l → l.Live →
    ∃ task, s.tasks[mqKey l.mq]? = some task ∧ task.loop = i
  apart : ∀ (i j : Nat) (l l' : QueueLoop), s.loops[i]? = some l → s.loops[j]? = some l' →
    l.mq = l'.mq → l.Busy → l'.Busy → i = j

theorem LoopRule.keeps {s : ScheduleService} {l l' : QueueLoop} (h : LoopRule s l l') :
    l'.mq = l.mq ∧ (l'.Busy → l.Busy) ∧ (l'.Live → l.Live) := by
  unfold QueueLoop.Busy QueueLoop.Live
  cases h with
  | stopped hp | seen hp | cancelled hp | missing hp | pull hp | ended hp | wake hp | notice hp =>
    simp [hp]
  | allowed hp hc | sleep hp _ hc => simp [hp, hc]

section OneLoop

variable {s : ScheduleService}

theorem OneLoop.of_eq {s' : ScheduleService} (h : OneLoop s) (htasks : s'.tasks = s.tasks)
    (hloops : s'.loops = s.loops) : OneLoop s' := by
  constructor
  · rw [htasks, hloops]
    exact h.listed
  · rw [hloops]
    exact h.apart

theorem OneLoop.loop {i : Nat} {l l' : QueueLoop} (h : OneLoop s) (hi : s.loops[i]? = some l)
    (hrule : LoopRule s l l') : OneLoop { s with loops := s.loops.set i l' } := by
  obtain ⟨hmq, hbusy, hlive⟩ := hrule.keeps
  -- what stands at a place now, and what stood there
  have hold (j : Nat) m (hj : (s.loops.set i l')[j]? = some m) :
      ∃ m₀, s.loops[j]? = some m₀ ∧ m.mq = m₀.mq ∧ (m.Busy → m₀.Busy) ∧ (m.Live → m₀.Live) := by
    rcases Pool.of_getElem?_set hj with ⟨rfl, rfl⟩ | ⟨_, hj⟩
    · exact ⟨l, hi, hmq, hbusy, hlive⟩
    · exact ⟨m, hj, rfl, id, id⟩
  refine ⟨fun j m hj hmlive => ?_, fun j k m m' hj hk hsame hm hm' => ?_⟩
  · obtain ⟨m₀, hj₀, hmq₀, _, hlive₀⟩ := hold j m hj
    rw [hmq₀]
    exact h.listed j m₀ hj₀ (hlive₀ hmlive)
  · obtain ⟨m₀, hj₀, hmq₀, hbusy₀, _⟩ := hold j m hj
    obtain ⟨m₁, hk₁, hmq₁, hbusy₁, _⟩ := hold k m' hk
    exact h.apart j k m₀ m₁ hj₀ hk₁ (hmq₀.symm.trans (hsame.trans hmq₁)) (hbusy₀ hm) (hbusy₁ hm')

/-- **The window**: the queue has no entry, and a loop of it is past its checks. -/
def Quiet (s : ScheduleService) (mq : MessageQueue) : Prop :=
  mqKey mq ∉ s.tasks → ∀ l ∈ s.loops, l.mq = mq → l.phase ≠ .lookup ∧ l.phase ≠ .round

instance (s : ScheduleService) (mq : MessageQueue) : Decidable (Quiet s mq) :=
  inferInstanceAs (Decidable (_ → _))

variable {key topic : String} {task : QueueTask} {mq : MessageQueue}

theorem of_getElem?_retire {j : Nat} {m : QueueLoop} (h : (s.retire (key, task)).loops[j]? = some m) :
    ∃ m₀, s.loops[j]? = some m₀ ∧
      m = if task.loop = j then { m₀ with cancel := true } else m₀ := by
  rw [ScheduleService.retire, getElem?_modify] at h
  obtain ⟨m₀, hm₀, hm⟩ := Option.map_eq_some_iff.mp h
  exact ⟨m₀, hm₀, hm.symm⟩

theorem OneLoop.retire (h : OneLoop s) (hget : s.tasks[key]? = some task) :
    OneLoop (s.retire (key, task)) := by
  refine ⟨fun j m hj hlive => ?_, fun j k m m' hj hk hsame hm hm' => ?_⟩
  · obtain ⟨m₀, hj₀, hm₀⟩ := of_getElem?_retire hj
    split at hm₀
    · rw [hm₀] at hlive
      cases hlive.2
    · rename_i hne
      subst hm₀
      obtain ⟨task', hget', hloop⟩ := h.listed j m hj₀ hlive
      refine ⟨task', ?_, hloop⟩
      show (s.tasks.erase key)[mqKey m.mq]? = some task'
      -- the entry of this loop is another one
      refine (Table.get_erase_ne ?_).trans hget'
      rintro rfl
      cases hget.symm.trans hget'
      exact hne hloop
  · have hold (j : Nat) m (hj : (s.retire (key, task)).loops[j]? = some m) :
        ∃ m₀, s.loops[j]? = some m₀ ∧ m.mq = m₀.mq ∧ (m.Busy → m₀.Busy) := by
      obtain ⟨m₀, hj₀, hm₀⟩ := of_getElem?_retire hj
      refine ⟨m₀, hj₀, ?_⟩
      split at hm₀
      · subst hm₀
        refine ⟨rfl, fun hbusy => .inl ?_⟩
        rcases hbusy with hphase | ⟨_, hcancel⟩
        · exact hphase
        · cases hcancel
      · subst hm₀
        exact ⟨rfl, id⟩
    obtain ⟨m₀, hj₀, hmq₀, hbusy₀⟩ := hold j m hj
    obtain ⟨m₁, hk₁, hmq₁, hbusy₁⟩ := hold k m' hk
    exact h.apart j k m₀ m₁ hj₀ hk₁ (hmq₀.symm.trans (hsame.trans hmq₁)) (hbusy₀ hm) (hbusy₁ hm')

theorem Quiet.retire (h : Quiet s mq) (hkey : key ≠ mqKey mq) :
    Quiet (s.retire (key, task)) mq := by
  intro hnew m hm hmq
  obtain ⟨j, hj⟩ := mem_iff_getElem?.mp hm
  obtain ⟨m₀, hj₀, rfl⟩ := of_getElem?_retire hj
  have hmq₀ : m₀.mq = mq := by split at hmq <;> exact hmq
  have hphase := h (fun hmem => hnew ?_) m₀ (mem_of_getElem? hj₀) hmq₀
  · split <;> exact hphase
  · show mqKey mq ∈ s.tasks.erase key
    rw [Std.ExtTreeMap.mem_erase]
    exact ⟨by simpa using hkey, hmem⟩

theorem OneLoop.spawn (h : OneLoop s) (hquiet : Quiet s mq) : OneLoop (s.spawn topic mq) := by
  unfold ScheduleService.spawn
  split
  · exact h
  · rename_i hnew
    -- no other loop of the queue is busy
    have hidle (j : Nat) m (hj : s.loops[j]? = some m) (hmq : m.mq = mq) :
        ¬ m.Busy := by
      rintro (hphase | hlive)
      · have hout := hquiet hnew m (mem_of_getElem? hj) hmq
        rcases hphase with hphase | hphase
        · exact hout.1 hphase
        · exact hout.2 hphase
      · obtain ⟨task, hget, _⟩ := h.listed j m hj hlive
        rw [hmq] at hget
        exact hnew (Std.ExtTreeMap.mem_iff_isSome_getElem?.mpr (by rw [hget]; rfl))
    refine ⟨fun j m hj hlive => ?_, fun j k m m' hj hk hsame hm hm' => ?_⟩
    · rcases Pool.of_getElem?_concat hj with hj | ⟨rfl, rfl⟩
      · obtain ⟨task, hget, hloop⟩ := h.listed j m hj hlive
        refine ⟨task, ?_, hloop⟩
        refine (Table.get_insert_ne fun hkey => ?_).trans hget
        rw [← hkey] at hnew
        exact hnew (Std.ExtTreeMap.mem_iff_isSome_getElem?.mpr (by rw [hget]; rfl))
      · exact ⟨_, Std.ExtTreeMap.getElem?_insert_self, rfl⟩
    · rcases Pool.of_getElem?_concat hj with hj | ⟨rfl, rfl⟩ <;>
      rcases Pool.of_getElem?_concat hk with hk | ⟨rfl, rfl⟩
      · exact h.apart j k m m' hj hk hsame hm hm'
      · exact absurd hm (hidle j m hj hsame)
      · exact absurd hm' (hidle k m' hk hsame.symm)
      · rfl

theorem Quiet.spawn {other : MessageQueue} (h : Quiet s mq) : Quiet (s.spawn topic other) mq := by
  unfold ScheduleService.spawn
  split
  · exact h
  · intro hnew l hl hmq
    rcases mem_append.mp hl with hl | hl
    · refine h (fun hmem => hnew ?_) l hl hmq
      exact Std.ExtTreeMap.mem_insert.mpr (.inr hmem)
    · rw [mem_singleton.mp hl]
      simp

theorem OneLoop.putTaskOn {mqNewSet : List MessageQueue} (h : OneLoop s)
    (hquiet : ∀ mq ∈ mqNewSet, Quiet s mq) (inRuntime : Bool) :
    OneLoop (s.putTaskOn topic mqNewSet inRuntime) := by
  refine (ScheduleService.putTaskOn_induction
    (I := fun s => OneLoop s ∧ ∀ mq ∈ mqNewSet, Quiet s mq) inRuntime ⟨h, hquiet⟩ ?_ ?_ ?_).1
  · intro s key task hI hget hkey
    refine ⟨hI.1.retire hget, fun mq hmq => (hI.2 mq hmq).retire fun heq => hkey ?_⟩
    exact mem_map.mpr ⟨mq, hmq, heq.symm⟩
  · exact fun s hI => ⟨hI.1.of_eq rfl rfl, hI.2⟩
  · exact fun s mq hmq hI => ⟨hI.1.spawn (hI.2 mq hmq), fun mq' hmq' => (hI.2 mq' hmq').spawn⟩

end OneLoop

/-! ## 2. Every run -/

/-- The queues that a step puts into the table. -/
def ScheduleAct.queues : ScheduleAct → List MessageQueue
  | .putTask _ mqNewSet _ => mqNewSet
  | .reconciled _ queues => queues.getD []
  | _ => []

/-- No queue is put back in the window. -/
def QuietStep (s : ScheduleService) (act : ScheduleAct) : Prop := ∀ mq ∈ act.queues, Quiet s mq

instance (s : ScheduleService) (act : ScheduleAct) : Decidable (QuietStep s act) :=
  inferInstanceAs (Decidable (∀ mq ∈ act.queues, Quiet s mq))

/-- **Every step keeps it.** -/
theorem OneLoop.step {s s' : ScheduleService} {act : ScheduleAct} (h : OneLoop s)
    (hquiet : QuietStep s act) (hnext : Next s act s') : OneLoop s' := by
  cases hnext with
  | register | reconcile | unreconciled | start | consumerFailed | consumerStarted =>
    exact h.of_eq rfl rfl
  | putTask topic mqNewSet inRuntime => exact h.putTaskOn hquiet inRuntime
  | reconciled queues hi =>
    refine OneLoop.putTaskOn ?_ ?_ true
    · exact h.of_eq rfl rfl
    · exact hquiet
  | startedBefore _ => exact h
  | loop hi hrule => exact h.loop hi hrule

/-- **One round of a queue at a time.** -/
theorem rounds_serial_when {nameSpace : String} {s : ScheduleService}
    (h : Machine.Reach ScheduleService.step QuietStep (.new nameSpace) s) (i j : Nat)
    (l l' : QueueLoop) (hi : s.loops[i]? = some l) (hj : s.loops[j]? = some l')
    (hround : l.phase = .round) (hround' : l'.phase = .round) (hmq : l.mq = l'.mq) : i = j := by
  have hstart : OneLoop (.new nameSpace) := by
    refine ⟨fun i l hi => ?_, fun i j l l' hi => ?_⟩ <;> simp [ScheduleService.new] at hi
  have hone : OneLoop s :=
    h.invariant hstart fun _ _ _ hI hG hs => hI.step hG (next_of_step hs)
  exact hone.apart i j l l' hi hj hmq (.inl (.inr hround)) (.inl (.inr hround'))

end RocketMQ.PullSchedule

namespace RocketMQ.Script

open PullSchedule

/-- A loop goes from its first check into a round. -/
def intoRound (i : Nat) : List ScheduleAct :=
  [.loop i .proceed, .loop i .proceed, .loop i .proceed]

/-- A queue with a callback is pulled, taken out of the set, and put back. -/
def takenAndPutBack (between : List ScheduleAct) : List ScheduleAct :=
  [.register "T", .putTask "T" [⟨"T", "b", 0⟩] true] ++ intoRound 0
    ++ [.putTask "T" [] true] ++ between ++ [.putTask "T" [⟨"T", "b", 0⟩] true] ++ intoRound 1

def scheduleAfter (acts : List ScheduleAct) : ScheduleService :=
  Machine.after ScheduleService.step (.new "") acts

end RocketMQ.Script

namespace RocketMQ.PullSchedule

open Script

/-- The round of the old loop ends before the queue is put back. -/
theorem rounds_serial_when_ended :
    (scheduleAfter (takenAndPutBack [.loop 0 .proceed])).loops.map (·.phase)
      = [.finished, .round] ∧
    ∀ (i j : Nat) (l l' : QueueLoop),
      (scheduleAfter (takenAndPutBack [.loop 0 .proceed])).loops[i]? = some l →
      (scheduleAfter (takenAndPutBack [.loop 0 .proceed])).loops[j]? = some l' →
      l.phase = .round → l'.phase = .round → l.mq = l'.mq → i = j := by
  have hmeets : Machine.Meets ScheduleService.step QuietStep (.new "")
      (takenAndPutBack [.loop 0 .proceed]) := by
    decide +kernel
  exact ⟨by decide +kernel, rounds_serial_when hmeets.reach_after⟩

/-- The queue is put back while its round runs: a second one begins. -/
theorem rounds_overlap :
    (scheduleAfter (takenAndPutBack [])).loops.map (fun l => (l.mq, l.phase))
      = [(⟨"T", "b", 0⟩, .round), (⟨"T", "b", 0⟩, .round)] := by
  decide +kernel

end RocketMQ.PullSchedule
