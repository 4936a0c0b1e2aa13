/-
  File:      RocketMQ/Lite/Interleaving.lean
  Subject:   The sections of polls, background pulls and commits that a seek is interleaved with.

  * `Named.step`: every row the consumer holds carries its broker's name;
  * `Interleaved.rule`: what such a section can do, as the seven cases of `SeekRule`.
-/
import RocketMQ.Lib.InLine
import RocketMQ.Lite.System

namespace RocketMQ

open List

/-! ## 1. The queue's rows -/

/-- The offsets of the queue's rows, in their order. -/
def ofQueue (mq : MessageQueue) (msgs : List MessageExt) : List Int := offsets (msgs.filter mq.holds)

@[simp] theorem ofQueue_append (mq : MessageQueue) (a b : List MessageExt) :
    ofQueue mq (a ++ b) = ofQueue mq a ++ ofQueue mq b := by
  simp [ofQueue]

variable {mq : MessageQueue} {m : MessageExt}

theorem mem_ofQueue {msgs : List MessageExt} {x : Int} :
    x ∈ ofQueue mq msgs ↔ ∃ m ∈ msgs, mq.holds m = true ∧ m.queueOffset = x := by
  simp only [ofQueue, mem_offsets, mem_filter, and_assoc]

theorem MessageQueue.holds_iff :
    mq.holds m = true ↔
      m.topic = mq.topic ∧ m.brokerName = some mq.brokerName ∧ m.queueId = mq.queueId := by
  simp [MessageQueue.holds, and_assoc]

theorem MessageQueue.holds_unique {a b : MessageQueue} (ha : a.holds m = true)
    (hb : b.holds m = true) : a = b := by
  rw [MessageQueue.holds_iff] at ha hb
  obtain ⟨hat, han, hai⟩ := ha
  obtain ⟨hbt, hbn, hbi⟩ := hb
  rw [han] at hbn
  cases a with
  | mk at' an ai =>
    cases b with
    | mk bt bn bi =>
      simp only [Option.some.injEq] at hbn
      simp only at hat hai hbt hbi hbn
      rw [← hat, hbt, hbn, ← hai, hbi]

/-- The rows on their way to the buffer. -/
def PullPc.rows : PullPc → List MessageExt
  | accepted _ msgs _ => msgs
  | _ => []

/-- The queue of the round. -/
def PullPc.queue : PullPc → Option MessageQueue
  | idle => none
  | gated mq => some mq
  | unresolved mq _ => some mq
  | querying mq _ _ => some mq
  | located mq _ _ => some mq
  | pulling mq _ _ _ => some mq
  | accepted mq _ _ => some mq

/-- What a poll took and has not accounted for. -/
def LiteTask.drainedRows : LiteTask → Option (List MessageExt)
  | drained msgs => some msgs
  | _ => none

/-- The queue whose first offset is being resolved. -/
def PullPc.resolving : PullPc → Option MessageQueue
  | unresolved mq _ => some mq
  | querying mq _ _ => some mq
  | _ => none

/-! ## 2. Runs of polls, pulls and commits -/

/-- What a pull answered, with what it was asked. -/
structure PullAnswer where
  mq : MessageQueue
  offset : Int
  registered : Option SubscriptionData
  result : PullResult

/-- The offsets that the answer brings to the buffer. -/
def PullAnswer.rows (ans : PullAnswer) : List Int :=
  offsets (pulledRows ans.mq ans.registered ans.result)

/-- **An answer of the broker.** Its rows are of the topic that was asked for. On the sought queue,
whose messages for this consumer are `log`, they come in order, from the offset that was asked for
up to the next one, with none left out. -/
def PullAnswer.Honest (log : List Int) (mq : MessageQueue) (ans : PullAnswer) : Prop :=
  (∀ m ∈ ans.result.msgFoundList, m.topic = ans.mq.topic) ∧
  (ans.mq = mq →
    ans.rows.Pairwise (· < ·) ∧
    (∀ y ∈ ans.rows, ans.offset ≤ y ∧ y < ans.result.nextBeginOffset) ∧
    ans.offset ≤ ans.result.nextBeginOffset ∧
    ∀ x ∈ log, ans.offset ≤ x → x < ans.result.nextBeginOffset → x ∈ ans.rows)

instance (log : List Int) (mq : MessageQueue) (ans : PullAnswer) : Decidable (ans.Honest log mq) := by
  unfold PullAnswer.Honest
  infer_instance

namespace LiteSys

/-- The answer that an action brings to the pull in flight. -/
def answerOf (s : LiteSys) : LiteAct → Option PullAnswer
  | .pulled (.ok res) =>
    match s.round with
    | .pulling mq offset registered _ => some ⟨mq, offset, registered, res⟩
    | _ => none
  | _ => none

/-- The task that an action runs. -/
def taskOf (s : LiteSys) : LiteAct → Option LiteTask
  | .run i => s.tasks[i]?
  | _ => none

end LiteSys

/-- The sections of polls, of the pull loop and of commits. -/
def LiteAct.isPollPullCommit : LiteAct → Bool
  | .collect => true
  | .gate => true
  | .readCursor => true
  | .readSeek => true
  | .resolved _ => true
  | .request => true
  | .pulled _ => true
  | .enqueue => true
  | .poll => true
  | .commit => true
  | .commitQueues _ => true
  | .commitOffsets _ => true
  | .tick _ => true
  | .run _ => true
  | _ => false

/-- The tasks of polls and commits, and the buffer section of the seek itself. -/
def LiteTask.goesOn (mq : MessageQueue) (o : Int) : LiteTask → Bool
  | .drained _ => true
  | .scoped _ => true
  | .committing _ => true
  | .pruning q offset => q == mq && offset == o
  | _ => false

/-- **A section that a seek to `o` may be interleaved with.** -/
def Interleaved (log : List Int) (mq : MessageQueue) (o : Int) (s : LiteSys) (a : LiteAct) : Prop :=
  a.isPollPullCommit = true ∧ (∀ ans ∈ s.answerOf a, ans.Honest log mq) ∧
    ∀ t ∈ s.taskOf a, t.goesOn mq o = true

instance (log : List Int) (mq : MessageQueue) (o : Int) (s : LiteSys) (a : LiteAct) :
    Decidable (Interleaved log mq o s a) := by
  unfold Interleaved
  infer_instance

/-- **The state in which a seek leaves its queue in order.** -/
structure SeekReady (log : List Int) (mq : MessageQueue) (o : Int) (s : LiteSys) : Prop where
  /-- no other queue shares the key -/
  alone : ∀ q ∈ s.state.queues ++ s.targets ++ s.round.queue.toList, mqKey q = mqKey mq → q = mq
  /-- no resolution of the queue's first offset is under way in the pull loop -/
  resolved : ∀ q ∈ s.round.resolving, mqKey q ≠ mqKey mq
  /-- no accepted rows of the queue are on their way to the buffer -/
  landed : ofQueue mq s.round.rows = []
  /-- no poll holds rows of the queue that it has not accounted for -/
  accounted : ∀ t ∈ s.tasks, ∀ msgs ∈ t.drainedRows, ofQueue mq msgs = []
  /-- no cached row is ahead of a smaller message from `o` on -/
  ordered : ∀ x ∈ log, o ≤ x → ∀ y ∈ InLine.before x (ofQueue mq s.buffer.messages), y < x

/-! ## 3. The pull loop without rows -/

/-- The sections of the pull loop that bring no rows. -/
def LiteAct.isLoop : LiteAct → Bool
  | .collect => true
  | .gate => true
  | .readCursor => true
  | .readSeek => true
  | .resolved _ => true
  | .request => true
  | _ => false

/-- What such a section leaves alone. A cursor it may write only where there was none, and it goes
on with queues it was already at or that are assigned. -/
structure LoopFrame (s t : LiteSys) : Prop where
  buffer : t.buffer = s.buffer
  tasks : t.tasks = s.tasks
  delivered : t.delivered = s.delivered
  assigned : t.state.assigned = s.state.assigned
  consumeOffset : t.state.consumeOffset = s.state.consumeOffset
  noRows : s.round.rows = []
  rows : t.round.rows = []
  queues : ∀ q ∈ t.targets ++ t.round.queue.toList,
    q ∈ s.state.queues ++ s.targets ++ s.round.queue.toList
  resolving : ∀ q ∈ t.round.resolving,
    q ∈ s.round.resolving ∨ s.state.nextOffset[mqKey q]? = none
  nextOffset : ∀ k, (∀ q ∈ s.round.resolving, mqKey q ≠ k) →
    t.state.nextOffset[k]? = s.state.nextOffset[k]?

section Loop

variable {s t : LiteSys}

theorem LoopFrame.of_round {r : PullPc} (hround : s.round = r) (hs : r.rows = [])
    (hb : t.buffer = s.buffer) (ht : t.tasks = s.tasks)
    (hd : t.delivered = s.delivered) (ha : t.state.assigned = s.state.assigned)
    (hc : t.state.consumeOffset = s.state.consumeOffset)
    (hn : t.state.nextOffset = s.state.nextOffset) (hr : t.round.rows = [])
    (htg : t.targets = s.targets) (hq : ∀ q ∈ t.round.queue, q ∈ r.queue)
    (hres : ∀ q ∈ t.round.resolving, q ∈ r.resolving ∨ s.state.nextOffset[mqKey q]? = none) :
    LoopFrame s t := by
  subst hround
  refine ⟨hb, ht, hd, ha, hc, hs, hr, fun q hmem => ?_, hres, fun k _ => by rw [hn]⟩
  rcases mem_append.mp hmem with hmem | hmem
  · rw [htg] at hmem
    exact mem_append_left _ (mem_append_right _ hmem)
  · refine mem_append_right _ ?_
    rw [Option.mem_toList] at hmem ⊢
    exact hq q hmem

theorem LiteSys.collect_frame (hs : s.collect = some t) : LoopFrame s t := by
  unfold LiteSys.collect at hs
  split at hs
  · rename_i hround htargets
    cases hs
    refine ⟨rfl, rfl, rfl, rfl, rfl, ?_, ?_, fun q hmem => ?_, fun q hq => .inl hq, fun k _ => rfl⟩
    · rw [hround]
      rfl
    · rw [hround]
      rfl
    · rcases mem_append.mp hmem with hmem | hmem
      · exact mem_append_left _ (mem_append_left _ (mem_of_mem_filter hmem))
      · exact mem_append_right _ hmem
  · cases hs

theorem LiteSys.gate_frame (hs : s.gate = some t) : LoopFrame s t := by
  unfold LiteSys.gate at hs
  split at hs
  · rename_i mq rest hround htargets
    have hrows : s.round.rows = [] := by rw [hround]; rfl
    have hleft : ∀ q ∈ s.targets, q ∈ s.state.queues ++ s.targets ++ s.round.queue.toList :=
      fun q hq => mem_append_left _ (mem_append_right _ hq)
    have hrest : ∀ q ∈ rest, q ∈ s.targets := by
      intro q hq
      rw [htargets]
      exact mem_cons_of_mem _ hq
    split at hs
    · cases hs
      refine ⟨rfl, rfl, rfl, rfl, rfl, hrows, hrows, fun q hmem => ?_, fun q hq => .inl hq,
        fun k _ => rfl⟩
      rcases mem_append.mp hmem with hmem | hmem
      · exact hleft q (hrest q hmem)
      · exact mem_append_right _ hmem
    · cases hs
      refine ⟨rfl, rfl, rfl, rfl, rfl, hrows, rfl, fun q hmem => ?_, (fun q hq => by cases hq),
        fun k _ => rfl⟩
      rcases mem_append.mp hmem with hmem | hmem
      · exact hleft q (hrest q hmem)
      · rw [Option.mem_toList] at hmem
        cases hmem
        refine hleft mq ?_
        rw [htargets]
        exact mem_cons_self ..
  · cases hs

theorem LiteSys.readCursor_frame (hs : s.readCursor = some t) : LoopFrame s t := by
  unfold LiteSys.readCursor at hs
  split at hs
  · rename_i mq hround
    split at hs
    · cases hs
      exact .of_round hround rfl rfl rfl rfl rfl rfl rfl rfl rfl (fun q hq => hq)
        fun q hq => by cases hq
    · rename_i hnone
      cases hs
      refine .of_round hround rfl rfl rfl rfl rfl rfl rfl rfl rfl (fun q hq => hq) fun q hq => ?_
      cases hq
      exact .inr hnone
  · cases hs

theorem LiteSys.readSeek_frame (hs : s.readSeek = some t) : LoopFrame s t := by
  unfold LiteSys.readSeek at hs
  split at hs
  · rename_i mq e hround
    cases hs
    exact .of_round hround rfl rfl rfl rfl rfl rfl rfl rfl rfl (fun q hq => hq) fun q hq => .inl hq
  · cases hs

theorem LiteSys.resolved_frame {calls : StartCalls Unit} (hs : s.resolved calls = some t) :
    LoopFrame s t := by
  unfold LiteSys.resolved at hs
  split at hs
  · rename_i mq seekOffset e hround
    have hrows : s.round.rows = [] := by rw [hround]; rfl
    split at hs
    · cases hs
      refine ⟨rfl, rfl, rfl, rfl, rfl, hrows, rfl, fun q hmem => ?_, (fun q hq => by cases hq),
        fun k hk => ?_⟩
      · rcases mem_append.mp hmem with hmem | hmem
        · exact mem_append_left _ (mem_append_right _ hmem)
        · refine mem_append_right _ ?_
          rw [hround]
          exact hmem
      · have hne : mqKey mq ≠ k := hk mq (by rw [hround]; rfl)
        exact Table.get_insert_ne (Ne.symm hne)
    · cases hs
      exact .of_round hround rfl rfl rfl rfl rfl rfl rfl rfl rfl (fun q hq => by cases hq)
        fun q hq => by cases hq
  · cases hs

theorem LiteSys.request_frame (hs : s.request = some t) : LoopFrame s t := by
  unfold LiteSys.request at hs
  split at hs
  · rename_i mq offset e hround
    cases hs
    exact .of_round hround rfl rfl rfl rfl rfl rfl rfl rfl rfl (fun q hq => hq)
      fun q hq => by cases hq
  · cases hs

theorem LiteSys.step_loop {a : LiteAct} (ha : a.isLoop = true) (hs : s.step a = some t) :
    LoopFrame s t := by
  cases a with
  | collect => exact collect_frame hs
  | gate => exact gate_frame hs
  | readCursor => exact readCursor_frame hs
  | readSeek => exact readSeek_frame hs
  | resolved calls => exact resolved_frame hs
  | request => exact request_frame hs
  | _ => cases ha

/-- **An answer** is dropped, or finds the cursor where it was, moves it and goes on with its rows,
if it has any. -/
theorem LiteSys.pulled_cases {answer : Except Bool PullResult} (hs : s.pulled answer = some t) :
    LoopFrame s t ∨ ∃ mq f sub e res, answer = .ok res ∧ s.round = .pulling mq f sub e ∧
      s.state.nextOffset[mqKey mq]? = some f ∧
      t = { s.setCursor (mqKey mq) res.nextBeginOffset e with
        round := if pulledRows mq sub res = [] then .idle
          else .accepted mq (pulledRows mq sub res) e } := by
  unfold LiteSys.pulled at hs
  split at hs
  · rename_i mq f sub e throttled hround
    cases hs
    refine .inl (.of_round hround rfl rfl rfl rfl ?_ ?_ ?_ rfl rfl (fun q hq => by cases hq)
      fun q hq => by cases hq)
    all_goals split <;> rfl
  · rename_i mq f sub e res hround
    split at hs
    · rename_i hnext
      refine .inr ⟨mq, f, sub, e, res, rfl, hround, hnext, ?_⟩
      split at hs
      · rename_i hempty
        cases hs
        rw [if_pos hempty]
      · rename_i hsome
        cases hs
        rw [if_neg hsome]
    · cases hs
      exact .inl (.of_round hround rfl rfl rfl rfl rfl rfl rfl rfl rfl (fun q hq => by cases hq)
        fun q hq => by cases hq)
  · cases hs

end Loop

/-! ## 4. Every row carries its broker's name -/

/-- Rows come from `pull_message` only, which stamps them. -/
structure Named (s : LiteSys) : Prop where
  buffer : ∀ m ∈ s.buffer.messages, m.brokerName.isSome = true
  rows : ∀ m ∈ s.round.rows, m.brokerName.isSome = true
  drained : ∀ x ∈ s.tasks, ∀ msgs ∈ x.drainedRows, ∀ m ∈ msgs, m.brokerName.isSome = true

theorem mem_pulledRows {sub : Option SubscriptionData} {res : PullResult}
    (h : m ∈ pulledRows mq sub res) :
    m.brokerName = some mq.brokerName ∧ m.queueId = mq.queueId ∧
      ∃ m' ∈ res.msgFoundList, m'.topic = m.topic := by
  unfold pulledRows at h
  split at h
  · have hmem := (clientSideTagFilter_sublist _ _).subset h
    obtain ⟨m', hm', rfl⟩ := mem_map.mp hmem
    exact ⟨rfl, rfl, m', hm', rfl⟩
  · cases h

theorem revokeQueue_foldl_messages (keys : List String) (b : LiteBuffer) :
    ∀ m ∈ (keys.foldl LiteBuffer.revokeQueue b).messages, m ∈ b.messages := by
  induction keys generalizing b with
  | nil => exact fun _ h => h
  | cons k keys ih => exact fun m h => mem_of_mem_filter (ih _ m h)

namespace Named

variable {s t : LiteSys}

theorem init (cfg : LiteConfig) : Named (LiteSys.init cfg) where
  buffer := fun _ h => by cases h
  rows := fun _ h => by cases h
  drained := fun _ h => by cases h

variable (h : Named s)
include h

theorem loop (hb : ∀ m ∈ t.buffer.messages, m ∈ s.buffer.messages ∨ m ∈ s.round.rows)
    (hr : ∀ m ∈ t.round.rows, m.brokerName.isSome = true) (ht : t.tasks = s.tasks) : Named t := by
  refine ⟨fun m hm => ?_, hr, ht ▸ h.drained⟩
  rcases hb m hm with hm | hm
  · exact h.buffer m hm
  · exact h.rows m hm

theorem call (hb : ∀ m ∈ t.buffer.messages, m ∈ s.buffer.messages) (hr : t.round = s.round)
    (ht : ∀ x ∈ t.tasks, (∀ msgs ∈ x.drainedRows, ∀ m ∈ msgs, m ∈ s.buffer.messages) ∨
      x ∈ s.tasks) : Named t := by
  refine ⟨fun m hm => h.buffer m (hb m hm), hr ▸ h.rows, fun x hx msgs hmsgs m hm => ?_⟩
  rcases ht x hx with hsub | hold
  · exact h.buffer m (hsub msgs hmsgs m hm)
  · exact h.drained x hold msgs hmsgs m hm

theorem quietCall (hb : ∀ m ∈ t.buffer.messages, m ∈ s.buffer.messages)
    (hr : t.round = s.round) (ht : ∀ x ∈ t.tasks, x.drainedRows = none ∨ x ∈ s.tasks) :
    Named t := by
  refine h.call hb hr fun x hx => ?_
  rcases ht x hx with hnone | hold
  · refine .inl fun msgs hmsgs => ?_
    cases hnone.symm.trans hmsgs
  · exact .inr hold

theorem pulled {answer : Except Bool PullResult} (hs : s.pulled answer = some t) : Named t := by
  rcases LiteSys.pulled_cases hs with hf | ⟨mq, f, sub, e, res, _, _, _, rfl⟩
  · refine h.loop (fun m hm => .inl (hf.buffer ▸ hm)) (fun m hm => ?_) hf.tasks
    rw [hf.rows] at hm
    cases hm
  · refine h.loop (fun m hm => .inl hm) (fun m hm => ?_) rfl
    split at hm
    · cases hm
    · rw [(mem_pulledRows hm).1]
      rfl

theorem runTask {i : Nat} (hs : s.runTask i = some t) : Named t := by
  have hend : ∀ {u : LiteSys} ts, (∀ x ∈ ts, x.drainedRows = none) →
      (∀ m ∈ u.buffer.messages, m ∈ s.buffer.messages) → u.round = s.round →
      u.tasks = (s.become i ts).tasks → Named u := by
    intro u ts hts hb hr ht
    exact h.quietCall hb hr fun x hx => LiteSys.become_quiet _ hts x (ht ▸ hx)
  have hone := fun {x} => LiteSys.one_quiet LiteTask.drainedRows (t := x)
  have hnil := LiteSys.nil_quiet LiteTask.drainedRows
  have hsame : ∀ m ∈ s.buffer.messages, m ∈ s.buffer.messages := fun _ hm => hm
  unfold LiteSys.runTask at hs
  split at hs
  · cases hs
    exact hend [] hnil (revokeQueue_foldl_messages _ _) rfl rfl
  · cases hs
    exact hend [] hnil (fun m hm => mem_of_mem_filter hm) rfl rfl
  · cases hs
    exact hend [] hnil hsame rfl rfl
  · cases hs
    exact hend _ (hone rfl) hsame rfl rfl
  · cases hs
    exact hend [] hnil hsame rfl rfl
  · cases hs
    exact hend _ (hone rfl) (revokeQueue_foldl_messages _ _) rfl rfl
  · cases hs
    exact hend _ (hone rfl) hsame rfl rfl
  · cases hs
    exact hend [] hnil hsame rfl rfl
  · split at hs
    · cases hs
      exact hend _ (hone rfl) hsame rfl rfl
    · cases hs
      exact hend _ (hone rfl) hsame rfl rfl
  · cases hs
    exact hend _ (hone rfl) hsame rfl rfl
  · cases hs

theorem step {a : LiteAct} (hs : s.step a = some t) : Named t := by
  have hloop : a.isLoop = true → Named t := by
    intro ha
    have hf := LiteSys.step_loop ha hs
    refine h.loop (fun m hm => .inl (hf.buffer ▸ hm)) (fun m hm => ?_) hf.tasks
    rw [hf.rows] at hm
    cases hm
  have hsame : ∀ m ∈ s.buffer.messages, m ∈ s.buffer.messages := fun _ hm => hm
  cases a with
  | collect | gate | readCursor | readSeek | resolved | request => exact hloop rfl
  | pulled answer => exact h.pulled hs
  | enqueue =>
    simp only [LiteSys.step, LiteSys.enqueue] at hs
    split at hs
    · rename_i mq msgs e hround
      cases hs
      refine h.loop (fun m hm => ?_) (fun m hm => by cases hm) rfl
      rw [LiteBuffer.extend_messages] at hm
      rw [hround]
      exact mem_append.mp hm
    · cases hs
  | assign mqs =>
    simp only [LiteSys.step] at hs
    split at hs
    · cases hs
    · cases hs
      exact h.quietCall hsame rfl (LiteSys.spawn_quiet _ rfl)
  | unsubscribe | rebalance | resolveAssigned | commit | commitQueues | commitOffsets =>
    cases hs
    exact h.quietCall hsame rfl (LiteSys.spawn_quiet _ rfl)
  | seek mq offset =>
    simp only [LiteSys.step] at hs
    split at hs
    · cases hs
      exact h.quietCall hsame rfl (LiteSys.spawn_quiet _ rfl)
    · cases hs
  | poll =>
    simp only [LiteSys.step] at hs
    split at hs
    · cases hs
    · cases hs
      have hsplit := s.buffer.drainPrefix_append maxPollBatchSize
      refine h.call (fun m hm => ?_) rfl fun x hx => ?_
      · rw [← hsplit]
        exact mem_append_right _ hm
      · rcases LiteSys.mem_spawn hx with rfl | hx
        · refine .inl fun msgs hmsgs m hm => ?_
          cases hmsgs
          rw [← hsplit]
          exact mem_append_left _ hm
        · exact .inr hx
  | pause | resume | subscribe | configure | tick =>
    cases hs
    exact h.quietCall hsame rfl fun _ hx => .inr hx
  | run i => exact h.runTask hs
  | range i answer =>
    simp only [LiteSys.step, LiteSys.range] at hs
    split at hs
    · split at hs
      · cases hs
        exact h.quietCall hsame rfl (LiteSys.become_quiet _ (LiteSys.nil_quiet _))
      · split at hs
        · cases hs
          exact h.quietCall hsame rfl (LiteSys.become_quiet _ (LiteSys.nil_quiet _))
        · cases hs
          exact h.quietCall hsame rfl (LiteSys.become_quiet _ (LiteSys.one_quiet _ rfl))
    · cases hs
  | started i calls =>
    simp only [LiteSys.step, LiteSys.startTask] at hs
    split at hs
    · split at hs
      · cases hs
        exact h.quietCall hsame rfl (LiteSys.become_quiet _ (LiteSys.one_quiet _ rfl))
      · cases hs
        exact h.quietCall hsame rfl (LiteSys.become_quiet _ (LiteSys.one_quiet _ rfl))
    · cases hs

end Named

/-! ## 5. What an interleaved section does -/

/-- The tasks of a commit. -/
def LiteTask.isCommit : LiteTask → Bool
  | .scoped _ => true
  | .committing _ => true
  | _ => false

/-- What the sections of a commit, and time, leave alone. -/
structure CommitFrame (s t : LiteSys) : Prop where
  buffer : t.buffer = s.buffer
  targets : t.targets = s.targets
  round : t.round = s.round
  delivered : t.delivered = s.delivered
  assigned : t.state.assigned = s.state.assigned
  nextOffset : t.state.nextOffset = s.state.nextOffset
  consumeOffset : t.state.consumeOffset = s.state.consumeOffset
  tasks : ∀ x ∈ t.tasks, x.isCommit = true ∨ x ∈ s.tasks
  kept : ∀ x ∈ s.tasks, x.isCommit = true ∨ x ∈ t.tasks

/-- **The sections around a seek to `o`.** -/
inductive SeekRule (log : List Int) (mq : MessageQueue) (o : Int) (s : LiteSys) : LiteSys → Prop where
  /-- the pull loop, without rows -/
  | loop {t} (h : LoopFrame s t) : SeekRule log mq o s t
  /-- an answer that found the cursor where it was -/
  | pulled {q f sub e res}
      (hround : s.round = .pulling q f sub e) (hnext : s.state.nextOffset[mqKey q]? = some f)
      (hans : PullAnswer.Honest log mq ⟨q, f, sub, res⟩) :
      SeekRule log mq o s { s.setCursor (mqKey q) res.nextBeginOffset e with
        round := if pulledRows q sub res = [] then .idle
          else .accepted q (pulledRows q sub res) e }
  | enqueued {q msgs e} (hround : s.round = .accepted q msgs e) :
      SeekRule log mq o s { s.note (mqKey q) e with buffer := s.buffer.extend msgs, round := .idle }
  | polled {out rest} (h : out ++ rest.messages = s.buffer.messages) :
      SeekRule log mq o s
        { s.spawn (.drained out) with buffer := rest, delivered := s.delivered ++ out }
  | commit {t} (h : CommitFrame s t) : SeekRule log mq o s t
  /-- a poll accounts for what it took -/
  | counted {i msgs} (h : s.tasks[i]? = some (.drained msgs)) :
      SeekRule log mq o s { s.become i [] with state := s.state.advanceConsumeOffset msgs }
  /-- the buffer section of the seek -/
  | pruned {i} (h : s.tasks[i]? = some (.pruning mq o)) :
      SeekRule log mq o s { s.become i [] with buffer := s.buffer.pruneBefore mq o }

section Rule

variable {log : List Int} {mq : MessageQueue} {o : Int} {s t : LiteSys}

theorem LiteSys.spawn_commit {x : LiteTask} (hx : x.isCommit = true) : CommitFrame s (s.spawn x) where
  buffer := rfl
  targets := rfl
  round := rfl
  delivered := rfl
  assigned := rfl
  nextOffset := rfl
  consumeOffset := rfl
  tasks := by
    intro y hy
    rcases mem_spawn hy with rfl | hy
    · exact .inl hx
    · exact .inr hy
  kept := fun y hy => .inr (mem_append_left _ hy)

theorem runTask_rule {i : Nat} (hgo : ∀ x ∈ s.tasks[i]?, x.goesOn mq o = true)
    (hs : s.runTask i = some t) : SeekRule log mq o s t := by
  have hcommit : ∀ {u : LiteSys} {old : LiteTask} ts, s.tasks[i]? = some old →
      old.isCommit = true → (∀ x ∈ ts, x.isCommit = true) → u.buffer = s.buffer →
      u.targets = s.targets → u.round = s.round → u.delivered = s.delivered →
      u.state.assigned = s.state.assigned → u.state.nextOffset = s.state.nextOffset →
      u.state.consumeOffset = s.state.consumeOffset → u.tasks = (s.become i ts).tasks →
      CommitFrame s u := by
    intro u old ts hi hold hts hb htg hr hd ha hn hc ht
    refine ⟨hb, htg, hr, hd, ha, hn, hc, fun x hx => ?_, fun x hx => ?_⟩
    · rw [ht] at hx
      rcases LiteSys.mem_become hx with hx | hx
      · exact .inl (hts x hx)
      · exact .inr hx
    · rw [ht]
      rcases LiteSys.mem_become_of_mem ts hi hx with rfl | hx
      · exact .inl hold
      · exact .inr hx
  unfold LiteSys.runTask at hs
  split at hs
  · rename_i htask
    cases hgo _ htask
  · rename_i q offset htask
    cases hs
    have hown : q = mq ∧ offset = o := by
      simpa [LiteTask.goesOn] using hgo _ htask
    obtain ⟨rfl, rfl⟩ := hown
    exact .pruned htask
  · rename_i htask
    cases hs
    exact .counted htask
  · rename_i htask
    cases hs
    exact .commit (hcommit [_] htask rfl (fun x hx => by rw [mem_singleton.mp hx]; rfl)
      rfl rfl rfl rfl rfl rfl rfl rfl)
  · rename_i htask
    cases hs
    exact .commit (hcommit [] htask rfl (fun x hx => by cases hx) rfl rfl rfl rfl rfl rfl rfl rfl)
  · rename_i htask
    cases hgo _ htask
  · rename_i htask
    cases hgo _ htask
  · rename_i htask
    cases hgo _ htask
  · rename_i htask
    cases hgo _ htask
  · rename_i htask
    cases hgo _ htask
  · cases hs

/-- **Every interleaved section is one of these.** -/
theorem Interleaved.rule {a : LiteAct} (hG : Interleaved log mq o s a) (hs : s.step a = some t) :
    SeekRule log mq o s t := by
  obtain ⟨hkind, hans, htask⟩ := hG
  cases a with
  | collect | gate | readCursor | readSeek | resolved | request =>
    exact .loop (LiteSys.step_loop rfl hs)
  | pulled answer =>
    rcases LiteSys.pulled_cases hs with hf | ⟨q, f, sub, e, res, rfl, hround, hnext, rfl⟩
    · exact .loop hf
    · refine .pulled hround hnext (hans _ ?_)
      simp only [LiteSys.answerOf, hround]
      rfl
  | enqueue =>
    simp only [LiteSys.step, LiteSys.enqueue] at hs
    split at hs
    · rename_i hround
      cases hs
      exact .enqueued hround
    · cases hs
  | poll =>
    simp only [LiteSys.step] at hs
    split at hs
    · cases hs
    · cases hs
      exact .polled (s.buffer.drainPrefix_append maxPollBatchSize)
  | commit | commitQueues | commitOffsets =>
    cases hs
    exact .commit (LiteSys.spawn_commit rfl)
  | tick millis =>
    cases hs
    exact .commit ⟨rfl, rfl, rfl, rfl, rfl, rfl, rfl, fun _ hx => .inr hx, fun _ hx => .inr hx⟩
  | run i => exact runTask_rule htask hs
  | _ => cases hkind

end Rule

end RocketMQ
