/-
  File:      RocketMQ/Push/Refinement.lean
  Subject:   The push consumer, seen from one queue, is the abstract queue machine.

  `Sys.queue k` projects a state of the consumer onto the key `k`. `step_refines`: whatever the
  consumer does in one step, the projection makes a run of `QStep` with the events of that key.
  `run_refines` follows for whole runs, and with it every invariant of the abstract machine holds
  of every queue of the consumer.

  A step of the consumer can be several steps of a queue: one rebalance section may retire the
  queue and register a new owner, and it hands out tokens to other queues in between.
-/
import RocketMQ.Push.Queue
import RocketMQ.Push.System

namespace RocketMQ

open List Machine

/-! ## 1. The projection -/

variable (k : String)

/-- The loops of a key among loops not spawned yet. -/
def spawnLoops (pc : LoopPc) (loops : List (MessageQueue × Nat)) : List (Nat × LoopPc) :=
  loops.filterMap fun l => if mqKey l.1 = k then some (l.2, pc) else none

/-- The pull loops of a key inside one task. -/
def taskLoops : Task → List (Nat × LoopPc)
  | .loop mq token pc => spawnLoops k pc [(mq, token)]
  | .revoking _ (.loop mq token) => spawnLoops k .revoking [(mq, token)]
  | .revoking _ (.spawn loops) => spawnLoops k .unspawned loops
  | _ => []

def loopsOf (ts : List Task) : List (Nat × LoopPc) := ts.flatMap (taskLoops k)

/-- The batch in dispatch, when it is of that key. -/
def heldOf : Dispatch → Option (Nat × HeldPc)
  | .held k' _ gen pc _ => if k' = k then some (gen, pc) else none
  | _ => none

namespace Sys

def mode (s : Sys) : Mode := ⟨s.orderly, s.cfg.messageModel⟩

/-- **The consumer seen from one queue.** -/
def queue (s : Sys) : Queue where
  row := s.row k
  loops := loopsOf k s.tasks
  held := heldOf k s.dispatch
  started := s.started
  nextToken := s.nextToken

theorem mode_fits (s : Sys) : s.mode.Fits s.env := ⟨rfl, rfl⟩

end Sys

@[simp] theorem loopsOf_append (a b : List Task) :
    loopsOf k (a ++ b) = loopsOf k a ++ loopsOf k b := flatMap_append

@[simp] theorem loopsOf_nil : loopsOf k [] = [] := rfl

@[simp] theorem loopsOf_singleton (t : Task) : loopsOf k [t] = taskLoops k t := by
  simp [loopsOf]

@[simp] theorem onKey_nil : onKey k [] = [] := rfl

theorem onKey_append (a b : List (String × QEvent)) :
    onKey k (a ++ b) = onKey k a ++ onKey k b := filterMap_append

theorem onKey_tagged (k k' : String) (evs : List QEvent) :
    onKey k (tagged k' evs) = if k' = k then evs else [] := by
  unfold onKey tagged
  by_cases h : k' = k
  · simp [h]
  · simp [h]

theorem onKey_single (k k' : String) (e : QEvent) :
    onKey k [(k', e)] = if k' = k then [e] else [] := by
  rw [← onKey_tagged k k' [e]]
  rfl

/-! ## 2. How the operations on states project -/

variable (rows : Std.ExtTreeMap String Row)

theorem rowOf_insert (k k' : String) (r : Row) :
    rowOf (rows.insert k' r) k = if k' = k then r else rowOf rows k := by
  unfold rowOf
  simp only [Std.ExtTreeMap.getElem?_insert]
  by_cases h : k' = k
  · simp [h]
  · simp [h]

namespace Sys

theorem row_setRow (s : Sys) (k k' : String) (r : Row) :
    (s.setRow k' r).row k = if k' = k then r else s.row k := rowOf_insert s.rows k k' r

theorem queue_setRow_self (s : Sys) (k : String) (r : Row) :
    (s.setRow k r).queue k = { s.queue k with row := r } := by
  unfold queue
  rw [row_setRow, if_pos rfl]
  rfl

variable {k k' : String} {s : Sys} {i : Nat} {t : Task} {ts : List Task}

theorem queue_setRow_ne (s : Sys) (r : Row) (h : k' ≠ k) : (s.setRow k' r).queue k = s.queue k := by
  unfold queue
  rw [row_setRow, if_neg h]
  rfl

theorem queue_setTask (s : Sys) (k : String) (i : Nat) (ts : List Task) :
    (s.setTask i ts).queue k
      = { s.queue k with
          loops := loopsOf k (s.tasks.take i) ++ loopsOf k ts ++ loopsOf k (s.tasks.drop (i + 1)) } := by
  unfold queue setTask row
  simp only [loopsOf_append]

theorem queue_loops (ht : s.tasks[i]? = some t) (k : String) :
    (s.queue k).loops
      = loopsOf k (s.tasks.take i) ++ taskLoops k t ++ loopsOf k (s.tasks.drop (i + 1)) := by
  obtain ⟨hi, rfl⟩ := List.getElem?_eq_some_iff.mp ht
  have h : s.tasks = s.tasks.take i ++ [s.tasks[i]] ++ s.tasks.drop (i + 1) := by simp
  show loopsOf k s.tasks = _
  conv => lhs; rw [h]
  simp only [loopsOf_append, loopsOf_singleton]

theorem queue_setTask_same (ht : s.tasks[i]? = some t) (k : String)
    (h : loopsOf k ts = taskLoops k t) : (s.setTask i ts).queue k = s.queue k := by
  rw [queue_setTask, h, ← queue_loops ht k]


theorem queue_frame (ht : s.tasks[i]? = some t) (hk : k' ≠ k) (r : Row)
    (h : loopsOf k ts = taskLoops k t) : ((s.setRow k' r).setTask i ts).queue k = s.queue k := by
  have ht' : (s.setRow k' r).tasks[i]? = some t := ht
  rw [queue_setTask_same ht' k h, queue_setRow_ne s r hk]

theorem queue_section (s : Sys) (i : Nat) (k : String) (r : Row) (ts : List Task) :
    ((s.setRow k r).setTask i ts).queue k
      = { s.queue k with
          row := r
          loops := loopsOf k (s.tasks.take i) ++ loopsOf k ts ++ loopsOf k (s.tasks.drop (i + 1)) } := by
  rw [queue_setTask, queue_setRow_self]
  rfl

end Sys

theorem taskLoops_loop_self (mq : MessageQueue) (t : Nat) (pc : LoopPc) :
    taskLoops (mqKey mq) (.loop mq t pc) = [(t, pc)] := by
  simp [taskLoops, spawnLoops]

theorem taskLoops_loop_ne {k : String} {mq : MessageQueue} (h : mqKey mq ≠ k) (t : Nat)
    (pc : LoopPc) : taskLoops k (.loop mq t pc) = [] := by
  simp [taskLoops, spawnLoops, h]

theorem taskLoops_revoking_self (rest : List Revoked) (mq : MessageQueue) (t : Nat) :
    taskLoops (mqKey mq) (.revoking rest (.loop mq t)) = [(t, .revoking)] := by
  simp [taskLoops, spawnLoops]

theorem taskLoops_revoking_ne {k : String} {mq : MessageQueue} (h : mqKey mq ≠ k)
    (rest : List Revoked) (t : Nat) : taskLoops k (.revoking rest (.loop mq t)) = [] := by
  simp [taskLoops, spawnLoops, h]

theorem loopsOf_spawned (k : String) (loops : List (MessageQueue × Nat)) :
    loopsOf k (loops.map fun l => .loop l.1 l.2 .top) = spawnLoops k .top loops := by
  induction loops with
  | nil => rfl
  | cons x xs ih =>
    rw [map_cons, ← singleton_append, loopsOf_append, ih]
    by_cases hk : mqKey x.1 = k
    · simp [taskLoops, spawnLoops, hk]
    · simp [taskLoops, spawnLoops, hk]

/-! ## 3. Pull loops and revocations -/

section Tasks

variable {s s' : Sys} {i : Nat} {k : String} {evs : List (String × QEvent)}

variable {m : Mode} {q : Queue} {mq : MessageQueue} {t : Nat} {rest : List Revoked} {after : After}

/-- **Seen from the queue `k`, the section of a task is a run of its machine.** -/
abbrev Sys.Refines (s : Sys) (i : Nat) (k : String) (x : Task) (act : TaskAct) : Prop :=
  s.tasks[i]? = some x → ∀ ⦃s' evs⦄, s.taskStep i x act = some (s', evs) →
    QRun s.mode (s.queue k) (onKey k evs) (s'.queue k)

theorem refines_of_eq {q' : Queue} (h : q' = q) : QRun m q [] q' := by
  rw [h]
  exact .start

theorem loop_refines {pc : LoopPc} {act : LoopAct} : s.Refines i k (.loop mq t pc) (.loop act) := by
  intro ht s' evs h
  unfold Sys.taskStep at h
  dsimp only at h
  split at h
  · rename_i r pc' evs' hstep
    cases h
    rw [onKey_tagged]
    by_cases hk : mqKey mq = k
    · subst hk
      have hl := Sys.queue_loops ht (mqKey mq)
      rw [taskLoops_loop_self, append_assoc] at hl
      have hrule := loopStep_rule s.mode_fits hstep
      rw [if_pos rfl, Sys.queue_section, loopsOf_singleton, taskLoops_loop_self,
        append_assoc]
      exact Run.one (.loop hl hrule)
    · rw [if_neg hk]
      apply refines_of_eq
      refine Sys.queue_frame ht hk r ?_
      rw [loopsOf_singleton, taskLoops_loop_ne hk, taskLoops_loop_ne hk]
  · cases h

theorem exit_refines : s.Refines i k (.loop mq t .exit) .go := by
  intro ht s' evs h
  cases h
  by_cases hk : mqKey mq = k
  · subst hk
    have hl := Sys.queue_loops ht (mqKey mq)
    rw [taskLoops_loop_self, append_assoc] at hl
    rw [Sys.queue_section, loopsOf_nil, append_nil]
    exact Run.one (.exit hl)
  · apply refines_of_eq
    exact Sys.queue_frame ht hk _ (taskLoops_loop_ne hk t .exit).symm

theorem illegal_refines : s.Refines i k (.loop mq t .illegal) .go := by
  intro ht s' evs h
  cases h
  rw [onKey_single]
  by_cases hk : mqKey mq = k
  · subst hk
    have hl := Sys.queue_loops ht (mqKey mq)
    rw [taskLoops_loop_self, append_assoc] at hl
    rw [if_pos rfl, Sys.queue_section, loopsOf_singleton, taskLoops_revoking_self,
      append_assoc]
    exact Run.one (.illegal hl)
  · rw [if_neg hk]
    apply refines_of_eq
    refine Sys.queue_frame ht hk _ ?_
    rw [loopsOf_singleton, taskLoops_revoking_ne hk, taskLoops_loop_ne hk]

theorem spawn_refines (loops : List (MessageQueue × Nat)) (l r : List (Nat × LoopPc))
    (hl : q.loops = l ++ spawnLoops k .unspawned loops ++ r) :
    QRun m q [] { q with loops := l ++ spawnLoops k .top loops ++ r } := by
  induction loops generalizing q l with
  | nil =>
    apply refines_of_eq
    rw [show spawnLoops k .top [] = spawnLoops k .unspawned [] from rfl, ← hl]
  | cons x xs ih =>
    by_cases hk : mqKey x.1 = k
    · have e : ∀ pc, spawnLoops k pc (x :: xs) = (x.2, pc) :: spawnLoops k pc xs := by
        simp [spawnLoops, hk]
      rw [e, append_assoc] at hl
      rw [e]
      have h1 := QStep.spawn (m := m) hl
      have h2 := ih (q := { q with loops := l ++ (x.2, .top) :: (spawnLoops k .unspawned xs ++ r) })
        (l ++ [(x.2, .top)]) (by simp)
      have h3 := (Run.one h1).trans h2
      simpa using h3
    · have e : ∀ pc, spawnLoops k pc (x :: xs) = spawnLoops k pc xs := by
        simp [spawnLoops, hk]
      rw [e] at hl
      rw [e]
      exact ih l hl

theorem resume_refines (ht : s.tasks[i]? = some (.revoking rest after)) :
    QRun s.mode (s.queue k) [] ((s.setTask i after.resume).queue k) := by
  have hl := Sys.queue_loops ht k
  cases after with
  | loop mq t =>
    rw [Sys.queue_setTask]
    by_cases hk : mqKey mq = k
    · subst hk
      rw [taskLoops_revoking_self, append_assoc] at hl
      rw [show loopsOf (mqKey mq) (After.loop mq t).resume = [(t, .top)] from by
        rw [After.resume, loopsOf_singleton, taskLoops_loop_self], append_assoc]
      exact Run.one (.resume hl)
    · apply refines_of_eq
      rw [show loopsOf k (After.loop mq t).resume = [] from by
        rw [After.resume, loopsOf_singleton, taskLoops_loop_ne hk]]
      rw [taskLoops_revoking_ne hk] at hl
      rw [← hl]
  | spawn loops =>
    rw [Sys.queue_setTask]
    rw [After.resume, loopsOf_spawned]
    exact spawn_refines loops _ _ hl
  | rebalance =>
    apply refines_of_eq
    exact Sys.queue_setTask_same ht k rfl

theorem remove_refines {x : Revoked} : s.Refines i k (.revoking (x :: rest) after) .go := by
  intro ht s' evs h
  unfold Sys.taskStep at h
  dsimp only at h
  split at h
  · cases h
    exact resume_refines ht
  · cases h
    have hsame : loopsOf k [.revoking rest after] = taskLoops k (.revoking (x :: rest) after) := by
      rw [loopsOf_singleton]
      cases after <;> rfl
    rw [onKey_single]
    by_cases hk : mqKey x.1 = k
    · subst hk
      rw [if_pos rfl, Sys.queue_section, hsame, ← Sys.queue_loops ht]
      exact Run.one .remove
    · rw [if_neg hk]
      exact refines_of_eq (Sys.queue_frame ht hk _ hsame)

theorem place_refines {was : List String} {todo : List MessageQueue} {skipped : List String}
    {answer : Option Int} :
    s.Refines i k (.rebPlacing was (mq :: todo) skipped) (.offset answer) := by
  intro ht s' evs h
  unfold Sys.taskStep at h
  dsimp only at h
  split at h
  · cases h
    exact refines_of_eq (Sys.queue_setTask_same ht k rfl)
  · split at h
    · cases h
      exact refines_of_eq (Sys.queue_setTask_same ht k rfl)
    · split at h
      · cases h
        exact refines_of_eq (Sys.queue_setTask_same ht k rfl)
      · rename_i hc
        cases h
        rw [onKey_single]
        by_cases hk : mqKey mq = k
        · subst hk
          have hl := Sys.queue_loops ht (mqKey mq)
          rw [if_pos rfl, Sys.queue_section]
          have hnone : (s.row (mqKey mq)).offsetTable = none := by simpa using hc
          rw [show loopsOf (mqKey mq) [.rebPlacing was todo skipped]
            = taskLoops (mqKey mq) (.rebPlacing was (mq :: todo) skipped) from rfl, ← hl]
          exact Run.one (.place _ hnone)
        · rw [if_neg hk]
          exact refines_of_eq (Sys.queue_frame ht hk _ rfl)

theorem cleanSend_refines {key : String} {head : MessageExt} {n : Nat} {keys : List String} :
    s.Refines i k (.cleanSend key head n keys) (.sendBack true) := by
  intro ht s' evs h
  unfold Sys.taskStep at h
  dsimp only at h
  split at h
  · cases h
  · rename_i ho
    cases h
    have hev : onKey k (if (s.row key).stillHead head.queueOffset
        then [(key, QEvent.swept (s.row key).epoch head.queueOffset)] else [])
        = if key = k then (if (s.row key).stillHead head.queueOffset
          then [.swept (s.row key).epoch head.queueOffset] else []) else [] := by
      split
      · rw [onKey_single]
      · simp
    rw [hev]
    by_cases hk : key = k
    · subst hk
      have hl := Sys.queue_loops ht key
      rw [if_pos rfl, Sys.queue_section,
        show loopsOf key [.cleaning key n keys] = taskLoops key (.cleanSend key head n keys)
          from rfl, ← hl]
      exact Run.one (.sweep _ (Bool.eq_false_iff.mpr ho))
    · rw [if_neg hk]
      exact refines_of_eq (Sys.queue_frame ht hk _ rfl)

end Tasks

/-! ## 4. Sections over all rows -/

theorem rowOf_map {f : String → Row → Row} (k : String)
    (h : f k Row.empty = Row.empty) : rowOf (rows.map f) k = f k (rowOf rows k) := by
  unfold rowOf
  rw [Std.ExtTreeMap.getElem?_map]
  cases rows[k]? with
  | none => exact h.symm
  | some r => rfl

theorem onKey_rowEvents (f : String → Row → Option QEvent) (k : String) (h : f k Row.empty = none) :
    onKey k (rowEvents rows f) = (f k (rowOf rows k)).toList := by
  have e : onKey k (rowEvents rows f)
      = rows.toList.filterMap fun e => if e.1 = k then f k e.2 else none := by
    unfold onKey rowEvents
    rw [filterMap_filterMap]
    refine filterMap_congr fun x _ => ?_
    by_cases hx : x.1 = k
    · subst hx
      cases f x.1 x.2 <;> simp
    · cases f x.1 x.2 <;> simp [hx]
  rw [e]
  unfold rowOf
  cases hr : rows[k]? with
  | none =>
    simp only [Option.getD_none, h, Option.toList_none]
    rw [filterMap_eq_nil_iff]
    rintro ⟨k', r⟩ hmem
    have hk : k' ≠ k := by
      rintro rfl
      rw [Std.ExtTreeMap.mem_toList_iff_getElem?_eq_some.mp hmem] at hr
      cases hr
    simp [hk]
  | some r =>
    -- the row stands once in the list, with no row of that key around it
    obtain ⟨l1, l2, hl⟩ := append_of_mem
      (Std.ExtTreeMap.mem_toList_iff_getElem?_eq_some.mpr hr)
    have hd := Std.ExtTreeMap.distinct_keys_toList (t := rows)
    rw [hl, pairwise_append] at hd
    obtain ⟨_, h2, h12⟩ := hd
    have hl1 : l1.filterMap (fun e => if e.1 = k then f k e.2 else none) = [] := by
      rw [filterMap_eq_nil_iff]
      intro x hx
      have hne : x.1 ≠ k := by
        simpa using h12 x hx (k, r) (by simp)
      simp [hne]
    have hl2 : l2.filterMap (fun e => if e.1 = k then f k e.2 else none) = [] := by
      rw [filterMap_eq_nil_iff]
      intro x hx
      have hne : x.1 ≠ k := by
        have h' := (pairwise_cons.mp h2).1 x hx
        simp only [Std.LawfulEqCmp.compare_eq_iff_eq] at h'
        exact fun hx' => h' hx'.symm
      simp [hne]
    rw [hl, filterMap_append, hl1, filterMap_cons]
    simp only [Option.getD_some]
    cases f k r with
    | none | some => rw [hl2]; rfl

section Rows

variable {m : Mode} {q : Queue} {k : String}

theorem retireDoomed_refines (current : Std.ExtTreeMap String MessageQueue) (started : Bool)
    (now : Int) (rows : Std.ExtTreeMap String Row) (hq : q.row = rowOf rows k) :
    QRun m q (onKey k (retireDoomedEvents current started now rows))
      { q with row := rowOf (retireDoomed current started now rows) k } := by
  have hev := onKey_rowEvents rows (fun k r =>
    if doomed current started now k r then some (.retired (r.epoch + 1) none) else none) k rfl
  have hrow := rowOf_map rows (f := fun k r =>
    if doomed current started now k r then (r.retireQueueLocked current[k]?).1 else r) k rfl
  unfold retireDoomedEvents retireDoomed
  rw [hev, hrow, ← hq]
  by_cases hd : doomed current started now k q.row = true
  · rw [if_pos hd, if_pos hd]
    exact Run.one (.retire none)
  · rw [if_neg hd, if_neg hd]
    exact .start

theorem registerOne_free {a : Registering} {mq : MessageQueue} (now : Int)
    (h : (rowOf a.rows (mqKey mq)).queueOwners = none) :
    registerOne now a mq
      = { rows := a.rows.insert (mqKey mq) ((rowOf a.rows (mqKey mq)).register mq a.nextToken now)
          nextToken := a.nextToken + 1
          toSpawn := a.toSpawn ++ [(mq, a.nextToken)]
          events := a.events
            ++ [(mqKey mq, .registered a.nextToken (rowOf a.rows (mqKey mq)).epoch)] } := by
  simp [registerOne, h]

theorem register_refines (now : Int) (l r : List (Nat × LoopPc)) (mqs : List MessageQueue)
    (a : Registering) (hrow : q.row = rowOf a.rows k) (hn : q.nextToken = a.nextToken)
    (hl : q.loops = l ++ spawnLoops k .unspawned a.toSpawn ++ r) :
    ∃ evs, (mqs.foldl (registerOne now) a).events = a.events ++ evs ∧
      QRun m q (onKey k evs)
        { q with
          row := rowOf (mqs.foldl (registerOne now) a).rows k
          nextToken := (mqs.foldl (registerOne now) a).nextToken
          loops := l ++ spawnLoops k .unspawned (mqs.foldl (registerOne now) a).toSpawn ++ r } := by
  induction mqs generalizing a q with
  | nil =>
    refine ⟨[], by simp, refines_of_eq ?_⟩
    simp only [foldl_nil]
    rw [← hrow, ← hn, ← hl]
  | cons mq mqs ih =>
    rw [foldl_cons]
    by_cases ho : (rowOf a.rows (mqKey mq)).queueOwners.isSome = true
    · have e : registerOne now a mq = a := by simp [registerOne, ho]
      rw [e]
      exact ih a hrow hn hl
    · have hnone : (rowOf a.rows (mqKey mq)).queueOwners = none := by simpa using ho
      have e := registerOne_free now hnone
      by_cases hk : mqKey mq = k
      · -- the queue itself gets the token
        subst hk
        have hown : q.row.queueOwners = none := by rw [hrow]; exact hnone
        have hstep := QStep.register (m := m) mq now hown hl (le_of_eq hn)
          (Nat.lt_succ_self a.nextToken)
        obtain ⟨evs, he, hrun⟩ := ih
          (q := { q with
            row := q.row.register mq a.nextToken now
            loops := l ++ spawnLoops (mqKey mq) .unspawned a.toSpawn
              ++ (a.nextToken, .unspawned) :: r
            nextToken := a.nextToken + 1 })
          (registerOne now a mq) (by rw [e, rowOf_insert, if_pos rfl, hrow]) (by rw [e])
          (by simp [e, spawnLoops])
        refine ⟨(mqKey mq, .registered a.nextToken (rowOf a.rows (mqKey mq)).epoch) :: evs,
          by rw [he, e]; simp, ?_⟩
        rw [hrow] at hstep hrun
        rw [← singleton_append, onKey_append, onKey_single, if_pos rfl]
        exact (Run.one hstep).trans hrun
      · -- another queue gets it: only the counter moves
        obtain ⟨evs, he, hrun⟩ := ih (q := { q with nextToken := a.nextToken + 1 })
          (registerOne now a mq) (by rw [e, rowOf_insert, if_neg hk]; exact hrow) (by rw [e])
          (by simpa [e, spawnLoops, hk] using hl)
        refine ⟨(mqKey mq, .registered a.nextToken (rowOf a.rows (mqKey mq)).epoch) :: evs,
          by rw [he, e]; simp, ?_⟩
        rw [← singleton_append, onKey_append, onKey_single, if_neg hk]
        have hstep := QStep.tokens (m := m) (q := q) (n := a.nextToken + 1) (by omega)
        exact (Run.one hstep).trans hrun

theorem resetRow_eq (topic : String) (table : List (MessageQueue × Int)) (r : Row) :
    resetRow topic table r
      = match resetHit topic table r with
        | some _ => (r.retireQueueLocked none).1
        | none => r := by
  unfold resetRow
  cases resetHit topic table r with
  | none | some => rfl

theorem reset_refines (topic : String) (table : List (MessageQueue × Int))
    (rows : Std.ExtTreeMap String Row) (hq : q.row = rowOf rows k) :
    QRun m q (onKey k (resetEvents topic table rows))
      { q with row := rowOf (rows.map fun _ r => resetRow topic table r) k } := by
  have hev := onKey_rowEvents rows (fun _ r =>
    (resetHit topic table r).map fun hit => .retired (r.epoch + 1) (some hit.2)) k rfl
  have hrow := rowOf_map rows (f := fun _ r => resetRow topic table r) k rfl
  unfold resetEvents
  rw [hev, hrow, ← hq, resetRow_eq]
  cases resetHit topic table q.row with
  | none => exact .start
  | some hit => exact Run.one (.retire (some hit.2))

theorem lock_fold (ok : List MessageQueue) (now : Int) (rows : Std.ExtTreeMap String Row) (r : Row)
    (h : ∃ granted, rowOf rows k = r.setLock granted now) :
    ∃ granted, rowOf (ok.foldl
      (fun m mq => m.insert (mqKey mq) ((rowOf m (mqKey mq)).setLock true now)) rows) k
        = r.setLock granted now := by
  induction ok generalizing rows with
  | nil => exact h
  | cons mq ok ih =>
    apply ih
    rw [rowOf_insert]
    split
    · rename_i hk
      obtain ⟨granted, hr⟩ := h
      exact ⟨true, by rw [hk, hr]; rfl⟩
    · exact h

theorem lockRows_row (ok : List MessageQueue) (now : Int) (rows : Std.ExtTreeMap String Row)
    (k : String) : ∃ granted, rowOf (lockRows ok now rows) k = (rowOf rows k).setLock granted now :=
  lock_fold ok now _ _ ⟨false, rowOf_map rows k rfl⟩

/-- **The locked section of `rebalance_pull_threads`**, from the task that runs it. -/
theorem threads_refines {s : Sys} {i : Nat} {current : Std.ExtTreeMap String MessageQueue} :
    s.Refines i k (.rebThreads current) .go := by
  intro ht s' evs h
  have hl := Sys.queue_loops ht k
  cases h
  have h1 := retireDoomed_refines (m := s.mode) (q := s.queue k) current s.started s.clock
    s.rows rfl
  obtain ⟨evs, he, h2⟩ := register_refines
    (q := { s.queue k with row := rowOf (retireDoomed current s.started s.clock s.rows) k })
    s.clock (loopsOf k (s.tasks.take i)) (loopsOf k (s.tasks.drop (i + 1)))
    (current.toList.map (·.2))
    { rows := retireDoomed current s.started s.clock s.rows
      nextToken := s.nextToken
      toSpawn := []
      events := retireDoomedEvents current s.started s.clock s.rows } rfl rfl hl
  rw [he, onKey_append]
  refine h1.trans ?_
  rw [Sys.queue_setTask, loopsOf_singleton]
  exact h2

end Rows

/-! ## 5. Dispatch -/

section Dispatch

variable {s s' : Sys} {k : String} {evs : List (String × QEvent)}

variable {k' : String} {d : Dispatch} {mq : MessageQueue} {g : Nat} {keys : List String}
  {act : HeldAct} {r : Row}

/-- A section on the row of `k'` while the batch in dispatch is, or becomes, one of `k'`: seen
from another key nothing happens. -/
theorem dispatch_frame (hk : k' ≠ k) (r : Row) (hd : heldOf k d = heldOf k s.dispatch) :
    Sys.queue k { s.setRow k' r with dispatch := d } = s.queue k := by
  have h := Sys.queue_setRow_ne s r hk
  rw [Queue.mk.injEq] at h ⊢
  exact ⟨h.1, h.2.1, hd, h.2.2.2⟩

theorem dispatch_section (r : Row) (d : Dispatch) :
    Sys.queue k { s.setRow k r with dispatch := d }
      = { s.queue k with row := r, held := heldOf k d } := by
  have h := Sys.queue_setRow_self s k r
  rw [Queue.mk.injEq] at h ⊢
  exact ⟨h.1, rfl, rfl, rfl, rfl⟩

theorem held_of_dispatch {pc : HeldPc} (hd : s.dispatch = .held k mq g pc keys) :
    (s.queue k).held = some (g, pc) := by
  show heldOf k s.dispatch = _
  rw [hd]
  exact if_pos rfl

theorem held_refines {pc : HeldPc} (hd : s.dispatch = .held k' mq g pc keys) {pc' : HeldPc}
    {es : List QEvent} (h : heldStep s.env g (s.row k') pc act = some (r, pc', es)) :
    QRun s.mode (s.queue k) (onKey k (tagged k' es))
      (Sys.queue k { s.setRow k' r with dispatch := .held k' mq g pc' keys }) := by
  have hrule := heldStep_rule s.mode_fits h
  rw [onKey_tagged]
  by_cases hk : k' = k
  · subst hk
    rw [if_pos rfl, dispatch_section,
      show heldOf k' (.held k' mq g pc' keys) = some (g, pc') from if_pos rfl]
    exact Run.one (.held (held_of_dispatch hd) hrule)
  · rw [if_neg hk]
    apply refines_of_eq
    refine dispatch_frame hk r ?_
    rw [hd]
    exact (if_neg hk).trans (if_neg hk).symm

theorem finish_refines (hd : s.dispatch = .held k' mq g .finishing keys) :
    QRun s.mode (s.queue k) []
      (Sys.queue k { s.setRow k' (s.row k').finishBatch with dispatch := .scan keys }) := by
  by_cases hk : k' = k
  · subst hk
    rw [dispatch_section]
    exact Run.one (.finish (held_of_dispatch hd))
  · apply refines_of_eq
    refine dispatch_frame hk _ ?_
    rw [hd]
    exact (if_neg hk).symm

theorem take_refines (hd : s.dispatch = .scan (k' :: keys)) {size : Int} {b : List MessageExt}
    (ht : (s.row k').takeBatch size = some ((mq, b, g), r)) :
    QRun s.mode (s.queue k) []
      (Sys.queue k { s.setRow k' r with dispatch := .held k' mq g (.taken b) keys }) := by
  by_cases hk : k' = k
  · subst hk
    have hh : (s.queue k').held = none := by
      show heldOf k' s.dispatch = _
      rw [hd]
      rfl
    rw [dispatch_section,
      show heldOf k' (.held k' mq g (.taken b) keys) = some (g, .taken b) from if_pos rfl]
    exact Run.one (.take hh ht)
  · apply refines_of_eq
    refine dispatch_frame hk _ ?_
    rw [hd]
    exact if_neg hk

theorem scan_eq {d' : Dispatch} (hd : s.dispatch = d) (h : heldOf k d' = heldOf k d) :
    Sys.queue k { s with dispatch := d' } = s.queue k := by
  unfold Sys.queue
  rw [h, ← hd]
  rfl

theorem dispatch_refines (hd : s.dispatch = d) (h : s.dispatchStep d act = some (s', evs)) :
    QRun s.mode (s.queue k) (onKey k evs) (s'.queue k) := by
  unfold Sys.dispatchStep at h
  split at h
  · split at h <;> cases h <;> exact refines_of_eq (scan_eq hd rfl)
  · split at h
    · split at h <;> cases h
      · exact refines_of_eq (scan_eq hd rfl)
      · exact take_refines hd (by assumption)
    · cases h
      exact refines_of_eq (scan_eq hd rfl)
  · cases h
    exact finish_refines hd
  · split at h <;> cases h
    exact held_refines hd (by assumption)
  · cases h

end Dispatch

/-! ## 6. Every step and every run -/

section Steps

variable {s s' : Sys} {evs : List (String × QEvent)}

variable {i : Nat} {t : Task} {act : TaskAct} {a : Action} {tr : List (String × QEvent)}

theorem goto_refines {k : String} {ts : List Task} (ht : s.tasks[i]? = some t)
    (hts : loopsOf k ts = taskLoops k t) (h : s.goto i ts = some (s', evs)) :
    QRun s.mode (s.queue k) (onKey k evs) (s'.queue k) := by
  cases h
  exact refines_of_eq (Sys.queue_setTask_same ht k hts)

theorem task_refines (k : String) : s.Refines i k t act := by
  intro ht s' evs h
  have h' := h
  unfold Sys.taskStep at h'
  split at h'
  · exact loop_refines ht h
  · exact exit_refines ht h
  · exact illegal_refines ht h
  · cases h'
    exact resume_refines ht
  · cases h'
    exact resume_refines ht
  · exact remove_refines ht h
  · split at h' <;> exact goto_refines ht rfl h'
  · exact goto_refines ht rfl h'
  · -- the allocation of one topic
    split at h'
    · exact goto_refines ht rfl h'
    · split at h' <;> exact goto_refines ht rfl h'
  · cases h'
    exact refines_of_eq (Sys.queue_setTask_same ht k rfl)
  · exact place_refines ht h
  · exact goto_refines ht rfl h'
  · exact goto_refines ht rfl h'
  · exact threads_refines ht h
  · exact goto_refines ht rfl h'
  · exact goto_refines ht rfl h'
  · split at h' <;> exact goto_refines ht rfl h'
  · exact goto_refines ht rfl h'
  · -- the head of the queue, for the cleaner
    split at h'
    · exact goto_refines ht rfl h'
    · split at h' <;> exact goto_refines ht rfl h'
  · exact goto_refines ht rfl h'
  · exact cleanSend_refines ht h
  · exact goto_refines ht rfl h'
  · -- a lock round
    rename_i ok
    cases h'
    obtain ⟨granted, hrow⟩ := lockRows_row ok s.clock s.rows k
    have hq : ({ s with rows := lockRows ok s.clock s.rows }.setTask i []).queue k
        = { s.queue k with row := (s.queue k).row.setLock granted s.clock } := by
      rw [Sys.queue_setTask_same (s := { s with rows := lockRows ok s.clock s.rows }) ht k rfl]
      unfold Sys.queue Sys.row
      rw [hrow]
    rw [hq]
    exact Run.one (.lock granted s.clock)
  · cases h'

theorem spawn_eq (s : Sys) (k : String) (ht : taskLoops k t = []) :
    (s.spawn t).queue k = s.queue k := by
  unfold Sys.queue Sys.spawn
  rw [loopsOf_append, loopsOf_singleton, ht, append_nil]
  rfl

/-- **One step of the consumer is a run of each of its queues.** -/
theorem step_refines (k : String) (h : s.step a = some (s', evs)) :
    QRun s.mode (s.queue k) (onKey k evs) (s'.queue k) := by
  unfold Sys.step at h
  split at h
  · split at h
    · exact task_refines k (by assumption) h
    · cases h
  · exact dispatch_refines rfl h
  · cases h
    exact refines_of_eq (spawn_eq s k rfl)
  · cases h
    exact refines_of_eq (spawn_eq s k rfl)
  · split at h <;> cases h
    · exact refines_of_eq (spawn_eq s k rfl)
    · exact .start
  · cases h
    exact refines_of_eq (spawn_eq s k rfl)
  · -- reset_offset
    rename_i topic table
    split at h
    · cases h
      exact .start
    · have hreset := reset_refines (m := s.mode) (q := s.queue k) topic table s.rows rfl
      dsimp only at h
      split at h
      · cases h
        exact hreset
      · cases h
        rw [spawn_eq _ k rfl]
        exact hreset
  · cases h
    exact .start
  · split at h <;> cases h
    exact .start
  · cases h
    exact .start
  · cases h
    exact .start
  · cases h
    exact Run.one .shutdown
  · -- the locked section of shutdown
    split at h <;> cases h
    rename_i hs
    have hq : Sys.queue k { s with rows := s.rows.map fun _ r => r.orphan }
        = { s.queue k with row := (s.queue k).row.orphan } := by
      unfold Sys.queue Sys.row
      rw [rowOf_map s.rows k rfl]
    rw [hq]
    exact Run.one (.clearOwners (Bool.eq_false_iff.mpr hs))
  · -- an abort
    split at h
    · rename_i hst ht
      have hl := Sys.queue_loops ht k
      cases h
      rw [Sys.queue_setTask, loopsOf_nil, append_nil]
      refine Run.one (.abort hst ?_)
      rw [hl]
      exact (sublist_append_left _ _).append (List.Sublist.refl _)
    · cases h

theorem taskStep_mode (h : s.taskStep i t act = some (s', evs)) : s'.mode = s.mode := by
  unfold Sys.taskStep Sys.goto at h
  dsimp only at h
  repeat' split at h
  all_goals cases h <;> rfl

theorem dispatchStep_mode {d : Dispatch} {act : HeldAct}
    (h : s.dispatchStep d act = some (s', evs)) : s'.mode = s.mode := by
  unfold Sys.dispatchStep at h
  repeat' split at h
  all_goals cases h <;> rfl

theorem step_mode (h : s.step a = some (s', evs)) : s'.mode = s.mode := by
  unfold Sys.step Sys.goto at h
  split at h
  · split at h
    · exact taskStep_mode h
    · cases h
  · exact dispatchStep_mode h
  all_goals try dsimp only at h
  all_goals repeat' split at h
  all_goals cases h <;> try rfl
  rename_i hm
  unfold Sys.mode
  rw [hm]

/-- **Every run of the consumer is, seen from one queue, a run of the queue machine.** -/
theorem run_refines (k : String) (h : Sys.Run s tr s') :
    s'.mode = s.mode ∧ QRun s.mode (s.queue k) (onKey k tr) (s'.queue k) := by
  induction h with
  | start => exact ⟨rfl, .start⟩
  | next _ hs ih =>
    obtain ⟨hm, hrun⟩ := ih
    obtain ⟨a, ha⟩ := hs
    have hstep := step_refines k ha
    rw [hm] at hstep
    rw [onKey_append]
    exact ⟨(step_mode ha).trans hm, hrun.trans hstep⟩

theorem queue_init (cfg : ConsumerConfig) (orderly : Bool) (clientId k : String) :
    (Sys.init cfg orderly clientId).queue k = Queue.init := by
  unfold Sys.queue Sys.init Sys.row rowOf Queue.init
  simp [heldOf]

/-- **What holds along every run of the queue machine holds of every queue of the consumer.** -/
theorem init_run_refines {cfg : ConsumerConfig} {orderly : Bool} {clientId : String} (k : String)
    (h : Sys.Run (.init cfg orderly clientId) tr s) :
    QRun ⟨orderly, cfg.messageModel⟩ Queue.init (onKey k tr) (s.queue k) := by
  have hrun := (run_refines k h).2
  rwa [queue_init] at hrun

end Steps

end RocketMQ
