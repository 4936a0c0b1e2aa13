/-
  File:      RocketMQ/Producer/Sections.lean
  Subject:   What a section of the accumulator can do, as one relation with a rule per effect.

  * `AccRule s a t`: the effects. `AccRule.of_step`: **every step follows one of them**.
-/
import RocketMQ.Producer.Accumulator

namespace RocketMQ

open List ProduceAccumulator

/-! ## 1. What a section can do -/

namespace AccTask

/-- The message that is on its way into a batch. -/
def placing : AccTask → Option Offer
  | adding o => some o
  | joining o _ => some o
  | removing o _ => some o
  | _ => none

/-- The call, batch and index of a synchronous caller whose message is in. -/
def awaits : AccTask → Option (Nat × Nat × Nat)
  | waiting call b index => some (call, b, index)
  | looping call b index => some (call, b, index)
  | closing call b index => some (call, b, index)
  | delivering call b index => some (call, b, index)
  | parked call b index => some (call, b, index)
  | _ => none

/-- The batch whose `wait_lock` the task holds. -/
def holds : AccTask → Option Nat
  | looping _ b _ => some b
  | closing _ b _ => some b
  | delivering _ b _ => some b
  | _ => none

/-- A batch that the task has seen closed. -/
def knowsClosed : AccTask → Option Nat
  | removing _ b => some b
  | delivering _ b _ => some b
  | dropping _ b _ => some b
  | _ => none

/-- The message that is to be put into a batch, and the batch. -/
def joins : AccTask → Option (Offer × Nat)
  | joining o b => some (o, b)
  | _ => none

end AccTask

/-- A task without a message goes on as these, with the same synchronous caller if it has one. -/
structure GoesOn (x : AccTask) (ts : List AccTask) : Prop where
  carries : x.placing = none
  placing : ∀ y ∈ ts, y.placing = none
  awaits : x.awaits = none ∨ ∃ y ∈ ts, y.awaits = x.awaits
  same : ∀ y ∈ ts, y.awaits = none ∨ y.awaits = x.awaits

open ProduceAccumulator in
/-- **The sections, by what they change.** -/
inductive AccRule (s : ProduceAccumulator) : AccAct → ProduceAccumulator → Prop where
  /-- time, thresholds, a message there is no room for -/
  | quiet {a t} (held : t.currentlyHoldSize = s.currentlyHoldSize) (batches : t.batches = s.batches)
      (sync : t.syncBatches = s.syncBatches) (async : t.asyncBatches = s.asyncBatches)
      (tasks : t.tasks = s.tasks) (calls : t.calls = s.calls) (handed : t.handed = s.handed)
      (returned : t.returned = s.returned) : AccRule s a t
  /-- a reservation for a message that is then not batched -/
  | reserved {m mq sync fresh} (hroom : s.currentlyHoldSize < s.totalHoldSize)
      (href : m.batchable = false ∨ ∀ msg, m.checkAndStamp s.maxMessageSize fresh ≠ .ok msg) :
      AccRule s (.offer m mq sync fresh) (s.reserve m)
  | offered {m msg mq sync fresh key} (hcheck : m.checkAndStamp s.maxMessageSize fresh = .ok msg) :
      AccRule s (.offer m mq sync fresh)
        { s.reserve m with
          tasks := s.tasks ++ [.adding ⟨s.calls.length, key, msg, sync⟩]
          calls := s.calls ++ [⟨msg, sync⟩] }
  | found {i : Nat} {b o} (hi : s.tasks[i]? = some (.adding o))
      (hl : lookup (s.table o.sync) o.key = some b) : AccRule s (.run i) (s.become i [.joining o b])
  | created {i : Nat} {o} (hi : s.tasks[i]? = some (.adding o))
      (hl : lookup (s.table o.sync) o.key = none) :
      AccRule s (.run i)
        { (s.become i [.joining o s.batches.length]).setTable o.sync
            (s.table o.sync ++ [(o.key, s.batches.length)]) with
          batches := s.batches ++ [Accumulation.new o.key o.sync s.clock] }
  /-- the batch was closed in the meantime -/
  | late {i b o B} (hi : s.tasks[i]? = some (.joining o b)) (hB : s.batches[b]? = some B)
      (hc : B.closed = true) : AccRule s (.run i) (s.become i [.removing o b])
  /-- the message is in -/
  | joined {i b o B} (hi : s.tasks[i]? = some (.joining o b)) (hB : s.batches[b]? = some B)
      (hc : B.closed = false) :
      AccRule s (.run i)
        ((s.setBatch b (B.push o.call o.msg)).become i
          [if o.sync then .waiting o.call b B.count.toNat else .checking b none])
  | removed {i b o} (hi : s.tasks[i]? = some (.removing o b)) :
      AccRule s (.run i)
        ((s.setTable o.sync (dropEntry (s.table o.sync) o.key b)).become i [.adding o])
  /-- a step of a caller or guard that changes nothing but itself -/
  | moved {a i x ts} (hi : s.tasks[i]? = some x) (hgo : GoesOn x ts)
      (hholds : x.holds = none ∨ ∃ y ∈ ts, y.holds = x.holds)
      (hknows : ∀ y ∈ ts, y.knowsClosed = none) : AccRule s a (s.become i ts)
  /-- `wait_lock` is taken or given back -/
  | locked {i b x y B l} (hi : s.tasks[i]? = some x) (hgo : GoesOn x [y])
      (hB : s.batches[b]? = some B) (hfrom : x.holds = none ∨ x.holds = some b)
      (hto : l = true → y.holds = some b) (hknows : y.knowsClosed = none) :
      AccRule s (.run i) ((s.setBatch b { B with waitLock := l }).become i [y])
  /-- a caller gives back `wait_lock` and gets its index, or the error of the send -/
  | left {i call b index x B r} (hi : s.tasks[i]? = some x)
      (hx : x.awaits = some (call, b, index))
      (hholds : x.holds = some b) (hcarries : x.placing = none) (hB : s.batches[b]? = some B)
      (hc : B.closed = true ∨ x.knowsClosed = some b) (hr : ∀ e ∈ r, e = ⟨call, b, index⟩) :
      AccRule s (.run i)
        { (s.setBatch b { B with waitLock := false }).become i [] with
          returned := s.returned ++ r }
  /-- the closing section of a send -/
  | claimed {i b x ts B} (hi : s.tasks[i]? = some x) (hgo : GoesOn x ts)
      (hB : s.batches[b]? = some B) (hholds : x.holds = none ∨ ∃ y ∈ ts, y.holds = x.holds)
      (hknows : ∀ y ∈ ts, y.knowsClosed = none ∨ y.knowsClosed = some b) :
      AccRule s (.run i) ((s.setBatch b B.claim).become i ts)
  /-- a guard closes a batch that it found empty -/
  | marked {i b sync pending B} (hi : s.tasks[i]? = some (.marking sync b pending))
      (hB : s.batches[b]? = some B) :
      AccRule s (.run i)
        ((s.setBatch b { B with closed := true }).become i [.dropping sync b pending])
  | dropped {i b sync pending B} (hi : s.tasks[i]? = some (.dropping sync b pending))
      (hB : s.batches[b]? = some B) :
      AccRule s (.run i)
        ((s.setTable sync (dropEntry (s.table sync) B.key b)).become i [.scanning sync pending])
  | scanned {sync} :
      AccRule s (.scan sync)
        { s with tasks := s.tasks ++ [.scanning sync ((s.table sync).map (·.2))] }
  | handed {b accepted B} (hB : s.batches[b]? = some B)
      (hstage : B.stage = .claimed) :
      AccRule s (.hand b accepted)
        { s.setBatch b { B with stage := if accepted then .inFlight else .rejected } with
          handed := s.handed ++ [⟨b, B.messages, B.callbacks⟩] }
  | completed {b ok B} (hB : s.batches[b]? = some B)
      (hstage : B.stage = .inFlight) :
      AccRule s (.complete b ok)
        { s.setBatch b { B with stage := .completed ok } with
          currentlyHoldSize := s.currentlyHoldSize - B.messagesSize }

section Rule

variable {s t : ProduceAccumulator}

variable {sync : Bool} {i b call index : Nat} {o : Offer} {x y : AccTask} {next : Option (List Nat)}
  {a : AccAct}

theorem AccRule.of_offer {m : Message} {mq : Option MessageQueue} {fresh : UniqId} :
    AccRule s (.offer m mq sync fresh) (s.offer m mq sync fresh) := by
  unfold offer
  split
  · rename_i hroom
    split
    · split
      · rename_i msg hcheck
        exact .offered hcheck
      · rename_i e hcheck
        refine .reserved hroom (.inr fun msg hok => ?_)
        cases hcheck.symm.trans hok
    · rename_i hnot
      exact .reserved hroom (.inl (by simpa using hnot))
  · exact .quiet rfl rfl rfl rfl rfl rfl rfl rfl

theorem AccRule.of_getOrCreate (hi : s.tasks[i]? = some (.adding o)) :
    AccRule s (.run i) (s.getOrCreate i o) := by
  unfold getOrCreate
  split
  · rename_i b hl
    exact .found hi hl
  · rename_i hl
    exact .created hi hl

theorem AccRule.of_join (hi : s.tasks[i]? = some (.joining o b)) (hs : s.join i o b = some t) :
    AccRule s (.run i) t := by
  obtain ⟨B, hB, rfl⟩ := Option.map_eq_some_iff.mp hs
  split
  · rename_i hc
    exact .late hi hB hc
  · rename_i hc
    exact .joined hi hB (by simpa using hc)

theorem GoesOn.one (hx : x.placing = none) (hy : y.placing = none) (hw : y.awaits = x.awaits) :
    GoesOn x [y] := by
  refine ⟨hx, fun z hz => ?_, .inr ⟨y, mem_singleton_self y, hw⟩, fun z hz => ?_⟩
  · rw [mem_singleton.mp hz]
    exact hy
  · rw [mem_singleton.mp hz]
    exact .inr hw

theorem mem_after (h : y ∈ after b next) :
    y.placing = none ∧ y.awaits = none ∧ y.knowsClosed = none := by
  cases next with
  | none => cases h
  | some pending =>
    rw [mem_singleton.mp h]
    exact ⟨rfl, rfl, rfl⟩

theorem GoesOn.after (hx : x.placing = none) (hw : x.awaits = none) (b : Nat)
    (next : Option (List Nat)) : GoesOn x (after b next) :=
  ⟨hx, fun _ hy => (mem_after hy).1, .inl hw, fun _ hy => .inl (mem_after hy).2.1⟩

theorem AccRule.moved_one (hi : s.tasks[i]? = some x) (hgo : GoesOn x [y])
    (hholds : x.holds = none ∨ y.holds = x.holds) (hknows : y.knowsClosed = none) :
    AccRule s a (s.become i [y]) := by
  refine .moved hi hgo ?_ fun z hz => ?_
  · exact hholds.imp_right fun h => ⟨y, mem_singleton_self y, h⟩
  · rw [mem_singleton.mp hz]
    exact hknows

/-- **The next section of a task.** -/
theorem AccRule.of_runTask (hs : s.runTask i = some t) : AccRule s (.run i) t := by
  cases hi : s.tasks[i]? with
  | none =>
    simp only [runTask, hi] at hs
    cases hs
  | some x =>
    cases x
    all_goals simp only [runTask, hi] at hs
    case adding o =>
      cases hs
      exact AccRule.of_getOrCreate hi
    case joining o b => exact AccRule.of_join hi hs
    case removing o b =>
      cases hs
      exact .removed hi
    case waiting call b index =>
      obtain ⟨B, hB, hs⟩ := Option.bind_eq_some_iff.mp hs
      split at hs <;> cases hs
      exact .locked hi (.one rfl rfl rfl) hB (.inl rfl) (fun _ => rfl) rfl
    case looping call b index =>
      obtain ⟨B, hB, rfl⟩ := Option.map_eq_some_iff.mp hs
      split
      · exact .left hi rfl rfl rfl hB (.inl ‹_›) fun e he => mem_singleton.mp he
      · split
        · exact .moved_one hi (.one rfl rfl rfl) (.inr rfl) rfl
        · exact .locked hi (.one rfl rfl rfl) hB (.inr rfl) (fun h => nomatch h) rfl
    case closing call b index =>
      obtain ⟨B, hB, rfl⟩ := Option.map_eq_some_iff.mp hs
      split
      · exact .left hi rfl rfl rfl hB (.inl ‹_›) fun e he => mem_singleton.mp he
      · refine .claimed hi (.one rfl rfl rfl) hB (.inr ⟨_, mem_singleton_self _, rfl⟩)
          fun y hy => ?_
        rw [mem_singleton.mp hy]
        exact .inr rfl
    case delivering call b index =>
      obtain ⟨B, hB, hs⟩ := Option.bind_eq_some_iff.mp hs
      split at hs <;> cases hs
      · exact .left hi rfl rfl rfl hB (.inr rfl) fun e he => mem_singleton.mp he
      · -- the caller gets the error in place of its index
        have hr := AccRule.left (r := []) hi rfl rfl rfl hB (.inr rfl) fun e he => nomatch he
        rwa [append_nil] at hr
    case parked call b index =>
      cases hs
      exact .moved_one hi (.one rfl rfl rfl) (.inl rfl) rfl
    case checking b next =>
      obtain ⟨B, hB, rfl⟩ := Option.map_eq_some_iff.mp hs
      split
      · exact .moved_one hi (.one rfl rfl rfl) (.inl rfl) rfl
      · exact .moved hi (.after rfl rfl b next) (.inl rfl) fun y hy => (mem_after hy).2.2
    case claiming b next =>
      obtain ⟨B, hB, rfl⟩ := Option.map_eq_some_iff.mp hs
      exact .claimed hi (.after rfl rfl b next) hB (.inl rfl) fun y hy => .inl (mem_after hy).2.2
    case scanning sync pending =>
      cases pending with
      | nil =>
        cases hs
        exact .moved hi ⟨rfl, (fun _ h => nomatch h), .inl rfl, (fun _ h => nomatch h)⟩
          (.inl rfl) fun _ h => nomatch h
      | cons b pending => cases hs
    case sizing sync b pending =>
      obtain ⟨B, hB, rfl⟩ := Option.map_eq_some_iff.mp hs
      split <;> exact .moved_one hi (.one rfl rfl rfl) (.inl rfl) rfl
    case marking sync b pending =>
      obtain ⟨B, hB, rfl⟩ := Option.map_eq_some_iff.mp hs
      exact .marked hi hB
    case dropping sync b pending =>
      obtain ⟨B, hB, rfl⟩ := Option.map_eq_some_iff.mp hs
      exact .dropped hi hB

theorem AccRule.of_visit {j : Nat} (hs : s.visit i j = some t) : AccRule s (.visit i j) t := by
  unfold visit at hs
  split at hs
  · rename_i sync pending hi
    obtain ⟨b, hb, rfl⟩ := Option.map_eq_some_iff.mp hs
    split <;> exact .moved_one hi (.one rfl rfl rfl) (.inl rfl) rfl
  · cases hs

theorem AccRule.of_configure {setting : HoldSetting} :
    AccRule s (.configure setting) ((s.configure setting).toOption.getD s) := by
  cases hc : s.configure setting with
  | error e => exact .quiet rfl rfl rfl rfl rfl rfl rfl rfl
  | ok u =>
    cases setting <;>
      simp only [configure, batchMaxDelayMs,
        batchMaxBytes, totalBatchMaxBytes] at hc <;>
      split at hc <;> cases hc <;> exact .quiet rfl rfl rfl rfl rfl rfl rfl rfl

/-- **Every step follows one of the rules.** -/
theorem AccRule.of_step (hs : s.step a = some t) : AccRule s a t := by
  cases a with
  | offer m mq sync fresh =>
    cases hs
    exact AccRule.of_offer
  | run i => exact AccRule.of_runTask hs
  | scan sync =>
    cases hs
    exact .scanned
  | visit i j => exact AccRule.of_visit hs
  | hand b accepted =>
    obtain ⟨B, hB, hs⟩ := Option.bind_eq_some_iff.mp hs
    split at hs
    · rename_i hstage
      cases hs
      exact .handed hB hstage.1
    · cases hs
  | complete b ok =>
    obtain ⟨B, hB, hs⟩ := Option.bind_eq_some_iff.mp hs
    split at hs
    · rename_i hstage
      cases hs
      exact .completed hB hstage
    · cases hs
  | configure setting =>
    cases hs
    exact AccRule.of_configure
  | tick millis =>
    cases hs
    exact .quiet rfl rfl rfl rfl rfl rfl rfl rfl

end Rule

/-! ## 2. The fields a section leaves alone -/

namespace ProduceAccumulator

variable (s : ProduceAccumulator) (sync : Bool) (entries : List (AggregateKey × Nat))

@[simp] theorem setTable_batches : (s.setTable sync entries).batches = s.batches := by
  cases sync <;> rfl

@[simp] theorem setTable_tasks : (s.setTable sync entries).tasks = s.tasks := by
  cases sync <;> rfl

@[simp] theorem setTable_calls : (s.setTable sync entries).calls = s.calls := by
  cases sync <;> rfl

@[simp] theorem setTable_handed : (s.setTable sync entries).handed = s.handed := by
  cases sync <;> rfl

@[simp] theorem setTable_returned : (s.setTable sync entries).returned = s.returned := by
  cases sync <;> rfl

@[simp] theorem setTable_currentlyHoldSize :
    (s.setTable sync entries).currentlyHoldSize = s.currentlyHoldSize := by
  cases sync <;> rfl

theorem table_setTable (sync' : Bool) :
    (s.setTable sync entries).table sync' = if sync = sync' then entries else s.table sync' := by
  cases sync <;> cases sync' <;> rfl

end ProduceAccumulator

/-! ## 3. What the tasks carry -/

section Carried

universe u

variable {M : Type u} [AddCancelCommMonoid M] {s : ProduceAccumulator} {i : Nat} {x y : AccTask}
  {ts : List AccTask}

/-- A measure of the message that a task is placing, zero if there is none. -/
def AccTask.carried (f : Offer → M) (x : AccTask) : M := x.placing.elim 0 f

theorem carried_none (f : Offer → M) (h : x.placing = none) : x.carried f = 0 := by
  rw [AccTask.carried, h]
  rfl

theorem carried_sum (f : Offer → M) (h : ∀ y ∈ ts, y.placing = none) :
    (ts.map (AccTask.carried f)).sum = 0 := by
  induction ts with
  | nil => rfl
  | cons y ys ih =>
    rw [map_cons, sum_cons, carried_none f (h y mem_cons_self),
      ih fun z hz => h z (mem_cons_of_mem _ hz), add_zero]

/-- What the tasks carry and the batches hold, in one measure. -/
def ProduceAccumulator.weight (f : Offer → M) (g : Accumulation → M) (s : ProduceAccumulator) : M :=
  (s.tasks.map (AccTask.carried f)).sum + (s.batches.map g).sum

/-- A message weighs the same on its way and in its batch, and the locks and marks of a batch weigh
nothing. -/
structure Weighs (f : Offer → M) (g : Accumulation → M) (s : ProduceAccumulator) : Prop where
  new : ∀ key sync now, g (.new key sync now) = 0
  push : ∀ B ∈ s.batches, B.closed = false → ∀ o : Offer, g (B.push o.call o.msg) = g B + f o
  lock : ∀ B l, g { B with waitLock := l } = g B
  close : ∀ B, g { B with closed := true } = g B
  claim : ∀ B ∈ s.batches, g B.claim = g B

/-- The section is one of the accumulator's own, between an offer and the sender. -/
def AccAct.inside : AccAct → Bool
  | .offer _ _ _ _ | .hand _ _ | .complete _ _ => false
  | _ => true

variable {f : Offer → M} {g : Accumulation → M}

theorem weight_become (hi : s.tasks[i]? = some x)
    (hts : (ts.map (AccTask.carried f)).sum = x.carried f) :
    (s.become i ts).weight f g = s.weight f g := by
  have hsum := Pool.sum_replace (AccTask.carried f) ts hi
  rw [hts] at hsum
  exact congrArg (· + (s.batches.map g).sum) (add_right_cancel hsum)

theorem weight_setBatch {b : Nat} {B C : Accumulation} (hB : s.batches[b]? = some B)
    (hg : g C = g B) : (s.setBatch b C).weight f g = s.weight f g := by
  have hsum := Pool.sum_set (x := C) g hB
  rw [hg] at hsum
  exact congrArg ((s.tasks.map (AccTask.carried f)).sum + ·) (add_right_cancel hsum)

theorem carried_one (h : y.placing = x.placing) :
    ([y].map (AccTask.carried f)).sum = x.carried f := by
  rw [map_singleton, sum_singleton, AccTask.carried, h]
  rfl

theorem carried_goesOn (hx : x.placing = none) (hts : ∀ y ∈ ts, y.placing = none) :
    (ts.map (AccTask.carried f)).sum = x.carried f := by
  rw [carried_sum f hts, carried_none f hx]

theorem weight_setTable {sync : Bool} {entries : List (AggregateKey × Nat)} :
    (s.setTable sync entries).weight f g = s.weight f g := by
  cases sync <;> rfl

/-- **The sections inside the accumulator only move weight.** -/
theorem AccRule.weight {a : AccAct} {t : ProduceAccumulator} (hw : Weighs f g s)
    (hr : AccRule s a t) (ha : a.inside = true) : t.weight f g = s.weight f g := by
  cases hr with
  | quiet _ hbatches _ _ htasks => simp only [ProduceAccumulator.weight, htasks, hbatches]
  | reserved | offered | handed | completed => cases ha
  | found hi | late hi => exact weight_become hi (carried_one (by rfl))
  | created hi =>
    refine .trans ?_ (weight_become hi (carried_one (y := .joining _ s.batches.length) (by rfl)))
    simp [ProduceAccumulator.weight, become, hw.new]
  | @joined i b o B hi hB hc =>
    have htasks := Pool.sum_replace (AccTask.carried f)
      [if o.sync then .waiting o.call b B.count.toNat else .checking b none] hi
    have hbatches := Pool.sum_set (x := B.push o.call o.msg) g hB
    have hafter : AccTask.carried f
        (if o.sync then .waiting o.call b B.count.toNat else .checking b none) = 0 := by
      cases o.sync <;> rfl
    rw [map_singleton, sum_singleton, hafter, add_zero] at htasks
    rw [hw.push B (mem_of_getElem? hB) hc o] at hbatches
    have hbefore : (AccTask.joining o b).carried f = f o := rfl
    rw [hbefore] at htasks
    -- what the task no longer carries is in the batch
    have hboth :
        ((s.batches.set b (B.push o.call o.msg)).map g).sum = (s.batches.map g).sum + f o := by
      apply add_right_cancel
      rw [hbatches, add_assoc, add_comm (g B)]
    show _ + ((s.batches.set b (B.push o.call o.msg)).map g).sum = _
    rw [hboth, ← add_assoc, add_right_comm]
    exact congrArg (· + _) htasks
  | removed hi | dropped hi =>
    exact (weight_become (by rwa [setTable_tasks])
      (carried_one (by rfl))).trans weight_setTable
  | moved hi hgo => exact weight_become hi (carried_goesOn hgo.carries hgo.placing)
  | locked hi hgo hB =>
    exact (weight_become (s := s.setBatch _ _) hi (carried_goesOn hgo.carries hgo.placing)).trans
      (weight_setBatch hB (hw.lock _ _))
  | left hi _ _ hcarries hB =>
    exact (weight_become (s := s.setBatch _ _) hi (carried_goesOn hcarries (by simp))).trans
      (weight_setBatch hB (hw.lock _ _))
  | claimed hi hgo hB =>
    exact (weight_become (s := s.setBatch _ _) hi (carried_goesOn hgo.carries hgo.placing)).trans
      (weight_setBatch hB (hw.claim _ (mem_of_getElem? hB)))
  | marked hi hB =>
    exact (weight_become (s := s.setBatch _ _) hi (carried_one (by rfl))).trans
      (weight_setBatch hB (hw.close _))
  | scanned => simp [ProduceAccumulator.weight, AccTask.carried, AccTask.placing]

end Carried

/-! ## 4. Only a closed batch is sent -/

/-- Whoever sends a batch has closed it. -/
def ClaimedClosed (s : ProduceAccumulator) : Prop :=
  ∀ B ∈ s.batches, B.stage ≠ .unclaimed → B.closed = true

theorem ClaimedClosed.rule {s t : ProduceAccumulator} {a : AccAct} (h : ClaimedClosed s)
    (hr : AccRule s a t) : ClaimedClosed t := by
  have hof {b : Nat} {B : Accumulation} (hB : s.batches[b]? = some B) :
      B.stage ≠ .unclaimed → B.closed = true := h B (mem_of_getElem? hB)
  cases hr with
  | quiet _ hbatches =>
    unfold ClaimedClosed
    rw [hbatches]
    exact h
  | reserved | offered | found | late | moved | scanned => exact h
  | created =>
    intro B hB
    rcases mem_append.mp hB with hB | hB
    · exact h B (by simpa using hB)
    · rw [mem_singleton.mp hB]
      exact (absurd rfl)
  | joined _ hB | locked _ _ hB | left _ _ _ _ hB =>
    have hold := hof hB
    exact Pool.forall_set h hold
  | removed | dropped =>
    intro B hB
    exact h B (by simpa [become] using hB)
  | claimed => exact Pool.forall_set h fun _ => Accumulation.claim_closed _
  | marked _ hB => exact Pool.forall_set h fun _ => rfl
  | handed hB hstage | completed hB hstage =>
    have hclosed := hof hB (by rw [hstage]; exact fun h => nomatch h)
    exact Pool.forall_set h fun _ => hclosed

end RocketMQ
