/-
  File:      RocketMQ/Push/Queue.lean
  Subject:   One queue of the push consumer, as an abstract machine.

  What the whole consumer does to one queue is said here by rules: `LoopRule` for a pull loop,
  `HeldRule` for the batch in dispatch, `QStep` for everything. The rules forget what no
  property of a single queue depends on (flow control, the subscription, where in the list of
  tasks a loop stands) and keep every write to the row.

  * `loopStep_rule`, `heldStep_rule`: the sections of `Push/Tasks` follow the rules.
-/
import RocketMQ.Lib.Assoc
import RocketMQ.Lib.Machine
import RocketMQ.Push.Tasks

namespace RocketMQ

open List

/-- What is fixed while the consumer runs. -/
structure Mode where
  orderly : Bool
  model : MessageModel
  deriving DecidableEq, Repr

namespace Mode

/-- Pulling needs a fresh lock. -/
def gated (m : Mode) : Bool := m.orderly && m.model == .clustering

/-- The environment of a section fits the mode. -/
structure Fits (m : Mode) (e : Env) : Prop where
  orderly : e.orderly = m.orderly
  model : e.cfg.messageModel = m.model

end Mode

/-! ## 1. The pull loop -/

/-- The waits of a round, from which the loop starts over. -/
def LoopPc.inRound : LoopPc → Bool
  | .sub | .gate _ | .flow _ | .resolve _ | .pull _ _ => true
  | _ => false

/-- **What a section of a pull loop can do.** -/
inductive LoopRule (m : Mode) (started : Bool) (t : Nat) :
    Row → LoopPc → List QEvent → Row → LoopPc → Prop where
  | enter {r} (hs : started = true) (ho : r.queueOwners = some t) :
      LoopRule m started t r .top [] r .stamp
  | leave {r pc} (hpc : pc = .top ∨ pc.inRound = true) : LoopRule m started t r pc [] r .exit
  | restart {r pc} (hpc : pc.inRound = true) : LoopRule m started t r pc [] r .top
  | stamped {r} (now : Int) : LoopRule m started t r .stamp [] (r.stampPullAt now) .sub
  | subscribed {r} (sub : SubscriptionData) : LoopRule m started t r .sub [] r (.gate sub)
  | ungated {r sub} (hg : m.gated = false) : LoopRule m started t r (.gate sub) [] r (.flow sub)
  | gatePassed {r sub} (now : Int) (hf : r.lockFresh now = true) :
      LoopRule m started t r (.gate sub) [.gatePassed t r.lockOk r.lockAt now] r (.flow sub)
  | room {r sub} : LoopRule m started t r (.flow sub) [] r (.cursor sub)
  | cached {r sub off} (hc : r.offsetTable = some off) :
      LoopRule m started t r (.cursor sub) [] r (.pull sub off)
  | missing {r sub} (hc : r.offsetTable = none) :
      LoopRule m started t r (.cursor sub) [] r (.resolve sub)
  | resolved {r sub} (off : Int) :
      LoopRule m started t r (.resolve sub) [.resolved t r.queueOwners r.epoch off]
        { r with offsetTable := some off } (.pull sub off)
  | pulled {r sub off} (mq : MessageQueue) (res : PullResult) (msgs : List MessageExt)
      (ho : r.queueOwners = some t) :
      LoopRule m started t r (.pull sub off)
        (.pulled t r.epoch off res msgs ::
          if (r.bookFetched mq res msgs).correctable res.status then
            [.corrected r.epoch res.nextBeginOffset]
          else [])
        (r.bookPull mq res msgs) (if res.status = .offsetIllegal then .illegal else .top)

variable {r r' : Row} {t g : Nat} {m : Mode} {e : Env} {pc pc' : LoopPc} {evs : List QEvent}

theorem Row.ownsQueue_iff : r.ownsQueue t = true ↔ r.queueOwners = some t := by
  simp [Row.ownsQueue]

/-- **The sections of `run_queue_pull_loop` follow the rules.** -/
theorem loopStep_rule (he : m.Fits e) {mq : MessageQueue} {act : LoopAct}
    (h : loopStep e mq t r pc act = some (r', pc', evs)) :
    LoopRule m e.started t r pc evs r' pc' := by
  have hgate : e.gated = m.gated := by
    unfold Env.gated Mode.gated
    rw [he.orderly, he.model]
  unfold loopStep at h
  split at h
  · -- top
    split at h <;> rename_i hc <;> cases h
    · obtain ⟨hs, ho⟩ := Bool.and_eq_true_iff.mp hc
      exact .enter hs (Row.ownsQueue_iff.mp ho)
    · exact .leave (.inl rfl)
  · -- stamp
    cases h
    exact .stamped e.now
  · -- sub
    split at h
    · cases h
      exact .restart rfl
    · split at h <;> cases h
      · exact .leave (.inr rfl)
      · exact .subscribed _
  · -- gate
    split at h
    · split at h <;> rename_i hf <;> cases h
      · exact .gatePassed e.now hf
      · exact .restart rfl
    · rename_i hg
      cases h
      exact .ungated (by rw [← hgate]; exact Bool.eq_false_iff.mpr hg)
  · -- flow
    split at h <;> cases h
    · exact .restart rfl
    · exact .room
  · -- cursor
    split at h <;> rename_i hc <;> cases h
    · exact .cached hc
    · exact .missing hc
  · -- resolve, answered
    cases h
    exact .resolved _
  · cases h
    exact .restart rfl
  · cases h
    exact .restart rfl
  · -- pull, answered
    split at h <;> rename_i ho <;> cases h
    · exact .pulled mq _ _ (Row.ownsQueue_iff.mp ho)
    · exact .leave (.inr rfl)
  · cases h

theorem LoopRule.writes {started : Bool} (h : LoopRule m started t r pc evs r' pc') :
    ∃ l o c p q f, r' = { r with
      lastPullAt := l
      offsetTable := o
      consumeOffsets := c
      pending := p
      mqMap := q
      frozenOffsets := f } := by
  cases h with
  | pulled mq res msgs ho =>
    obtain ⟨q, p, c, f, h, _⟩ := r.bookPull_writes mq res msgs
    exact ⟨_, _, _, _, _, _, h⟩
  | _ => exact ⟨_, _, _, _, _, _, rfl⟩

/-! ## 2. The batch in dispatch -/

/-- **What a section of `consume_batch` can do**, for a batch taken under generation `g`. -/
inductive HeldRule (m : Mode) (g : Nat) : Row → HeldPc → List QEvent → Row → HeldPc → Prop where
  | fresh {r b} (hg : g = r.epoch) : HeldRule m g r (.taken b) [.checked g] r (.checked b)
  | stale {r b} (hg : g ≠ r.epoch) : HeldRule m g r (.taken b) [] r .finishing
  | handOrderly {r b b'} (ho : m.orderly = true) (hb : offsets b' = offsets b) :
      HeldRule m g r (.checked b) [.handed g b'] r (.listening b')
  | handConcurrent {r b b'} (ho : m.orderly = false) (hb : offsets b' = offsets b) :
      HeldRule m g r (.checked b) [.handed g b'] (r.registerInflightMsgs b') (.listening b')
  -- the concurrent listener has answered
  | broadcast {r b} (n : Nat) (ho : m.orderly = false) (hm : m.model = .broadcasting) :
      HeldRule m g r (.listening b) [.acked g (offsets (b.take n)), .dropped g (offsets (b.drop n))]
        r (.advancing b b none)
  | ackedWhole {r b} (ho : m.orderly = false) :
      HeldRule m g r (.listening b) [.acked g (offsets b)] r (.advancing b b none)
  | ackedSome {r b} (n : Nat) (delay : Int) (ho : m.orderly = false) (hn : n < b.length) :
      HeldRule m g r (.listening b) [.acked g (offsets (b.take n))] r (.sendingBack b delay n [])
  | skip {r b delay i failed x} (hx : b[i]? = some x)
      (hc : r.processQueueContainsLocked x.queueOffset = false) :
      HeldRule m g r (.sendingBack b delay i failed) [] r (.sendingBack b delay (i + 1) failed)
  | send {r b delay i failed} :
      HeldRule m g r (.sendingBack b delay i failed) [] r (.sendAwait b delay i failed)
  | sent {r b delay i failed x} (hx : b[i]? = some x) :
      HeldRule m g r (.sendAwait b delay i failed)
        [.sentBack g x.queueOffset (sendBackLevel delay x)] r (.sendingBack b delay (i + 1) failed)
  | failed {r b delay i failed x} (hx : b[i]? = some x) :
      HeldRule m g r (.sendAwait b delay i failed) [] r
        (.sendingBack b delay (i + 1) (failed ++ [(i, x.bumpReconsume)]))
  | allBack {r b delay i} (hi : b.length ≤ i) :
      HeldRule m g r (.sendingBack b delay i []) [] r (.advancing b (handledOf b []) none)
  | someLeft {r b delay i failed} (hi : b.length ≤ i) (hf : failed ≠ []) :
      HeldRule m g r (.sendingBack b delay i failed) [] r (.puttingBack b failed)
  | putBack {r b failed} :
      HeldRule m g r (.puttingBack b failed)
        [.putBack g r.epoch r.pending.isSome (offsets (failed.map (·.2))) []]
        (r.requeuePending (failed.map (·.2))) (.advancing b (handledOf b failed) (floorOf failed))
  | advance {r b handled floor} (now : Int) :
      HeldRule m g r (.advancing b handled floor) [.advanced g r.epoch false (offsets handled)]
        (r.advanceConsumeOffset handled floor g now) (.deregistering b)
  | deregister {r b} : HeldRule m g r (.deregistering b) [] (r.deregisterInflightMsgs b) .finishing
  -- the orderly listener has answered
  | answer {r b} (auto : Bool) (status : Option ConsumeOrderlyStatus) (ho : m.orderly = true)
      (hp : status = none → auto = true) :
      HeldRule m g r (.listening b) [.answered g auto status (offsets b)] r
        (orderlyNext auto status b)
  | exhausted {r auto done x rest} :
      HeldRule m g r (.reconsuming auto done (x :: rest)) [] r (.reconsumeAwait auto done x rest)
  | retry {r auto done x rest} :
      HeldRule m g r (.reconsuming auto done (x :: rest)) [] r
        (.reconsuming auto (done ++ [(x.bumpReconsume, false)]) rest)
  | reconsumeSent {r auto done x rest} :
      HeldRule m g r (.reconsumeAwait auto done x rest)
        [.sentBack g x.queueOffset (3 + x.reconsumeTimes)] r
        (.reconsuming auto (done ++ [(x, true)]) rest)
  | reconsumeFailed {r auto done x rest} :
      HeldRule m g r (.reconsumeAwait auto done x rest) [] r
        (.reconsuming auto (done ++ [(x.bumpReconsume, false)]) rest)
  | reconsumed {r auto done} :
      HeldRule m g r (.reconsuming auto done []) [] r (afterReconsume auto done)
  | requeue {r b sent} :
      HeldRule m g r (.requeuing b sent) [.putBack g r.epoch r.pending.isSome (offsets b) sent]
        (r.requeuePending b) .finishing
  | commit {r b manual} (now : Int) :
      HeldRule m g r (.committing manual b) [.advanced g r.epoch manual (offsets b)]
        (r.advanceConsumeOffset b none g now) .finishing

@[simp] theorem stampConsumeStart_offsets (now : Int) (b : List MessageExt) :
    offsets (stampConsumeStart now b) = offsets b := by
  have h : ∀ m : MessageExt,
      (m.putProperty "CONSUME_START_TIME" (toString now)).queueOffset = m.queueOffset := fun _ => rfl
  exact offsets_map h b

variable {pc pc' : HeldPc}

/-- **The sections of `consume_batch` follow the rules.** -/
theorem heldStep_rule (he : m.Fits e) {act : HeldAct}
    (h : heldStep e g r pc act = some (r', pc', evs)) : HeldRule m g r pc evs r' pc' := by
  have hord := he.orderly
  unfold heldStep at h
  split at h
  · -- taken
    split at h <;> rename_i hg <;> cases h
    · exact .fresh hg
    · exact .stale hg
  · -- checked
    split at h <;> rename_i ho <;> rw [hord] at ho <;> cases h
    · exact .handOrderly ho (by simp)
    · exact .handConcurrent (Bool.eq_false_iff.mpr ho) (by simp)
  · -- the concurrent listener's answer
    dsimp only at h
    split at h
    · cases h
    · rename_i ho
      rw [hord] at ho
      have hconc : m.orderly = false := Bool.eq_false_iff.mpr ho
      split at h
      · rename_i hb
        cases h
        have hm : m.model = .broadcasting := by
          rw [← he.model]
          exact of_decide_eq_true hb
        exact .broadcast _ hconc hm
      · split at h <;> rename_i hn <;> cases h
        · exact .ackedWhole hconc
        · exact .ackedSome _ _ hconc (by omega)
  · -- the next message to send back
    split at h
    · rename_i hx
      split at h <;> rename_i hc <;> cases h
      · exact .send
      · exact .skip hx (Bool.eq_false_iff.mpr hc)
    · rename_i hx
      have hi := List.getElem?_eq_none_iff.mp hx
      split at h <;> rename_i hf <;> cases h
      · subst hf
        exact .allBack hi
      · exact .someLeft hi hf
  · -- a send-back returned
    split at h
    · rename_i hx
      split at h <;> cases h
      · exact .sent hx
      · exact .failed hx
    · cases h
  · cases h
    exact .putBack
  · cases h
    exact .advance e.now
  · cases h
    exact .deregister
  · -- the orderly listener's answer
    split at h <;> rename_i ho
    · cases h
      exact .answer _ _ (hord ▸ ho) (fun hn => by rw [hn]; rfl)
    · cases h
  · -- the reconsume limit of the next message
    split at h <;> cases h
    · exact .exhausted
    · exact .retry
  · split at h <;> cases h
    · exact .reconsumeSent
    · exact .reconsumeFailed
  · cases h
    exact .reconsumed
  · cases h
    exact .requeue
  · cases h
    exact .commit e.now
  · cases h

theorem HeldRule.writes (h : HeldRule m g r pc evs r' pc') :
    ∃ p c a i, r' = { r with
      pending := p
      consumeOffsets := c
      lastConsumeAt := a
      inflightMsgs := i } := by
  cases h with
  | handConcurrent ho hb =>
    rename_i b b'
    obtain ⟨i, h, _⟩ := r.registerInflightMsgs_writes b'
    exact ⟨_, _, _, _, h⟩
  | advance now =>
    rename_i b handled floor
    obtain ⟨c, a, h⟩ := r.advanceConsumeOffset_writes handled floor g now
    exact ⟨_, _, _, _, h⟩
  | deregister =>
    rename_i b
    obtain ⟨i, h⟩ := r.deregisterInflightMsgs_writes b
    exact ⟨_, _, _, _, h⟩
  | commit now =>
    rename_i b manual
    obtain ⟨c, a, h⟩ := r.advanceConsumeOffset_writes b none g now
    exact ⟨_, _, _, _, h⟩
  | _ => exact ⟨_, _, _, _, rfl⟩

theorem HeldRule.epoch (h : HeldRule m g r pc evs r' pc') : r'.epoch = r.epoch := by
  obtain ⟨p, c, a, i, hw⟩ := h.writes
  rw [hw]
  rfl

/-! ## 3. The queue -/

/-- One queue: its row, the pull loops that were started for it (by token), the batch in dispatch
with its generation, and the two global values the rules read. -/
structure Queue where
  row : Row
  loops : List (Nat × LoopPc)
  held : Option (Nat × HeldPc)
  started : Bool
  nextToken : Nat

namespace Queue

/-- The queue of a freshly started consumer. -/
def init : Queue :=
  { row := Row.empty, loops := [], held := none, started := true, nextToken := 1 }

end Queue

/-- **What the consumer can do to one queue.** -/
inductive QStep (m : Mode) : Queue → List QEvent → Queue → Prop where
  | loop {q l r t pc pc' row' evs} (hl : q.loops = l ++ (t, pc) :: r)
      (h : LoopRule m q.started t q.row pc evs row' pc') :
      QStep m q evs { q with row := row', loops := l ++ (t, pc') :: r }
  | exit {q l r t} (hl : q.loops = l ++ (t, .exit) :: r) :
      QStep m q [] { q with row := q.row.markPullLoopExited t, loops := l ++ r }
  | illegal {q l r t} (hl : q.loops = l ++ (t, .illegal) :: r) :
      QStep m q [.illegalRetired t q.row.queueOwners q.row.epoch]
        { q with row := (q.row.retireQueueLocked none).1, loops := l ++ (t, .revoking) :: r }
  | resume {q l r t} (hl : q.loops = l ++ (t, .revoking) :: r) :
      QStep m q [] { q with loops := l ++ (t, .top) :: r }
  | spawn {q l r t} (hl : q.loops = l ++ (t, .unspawned) :: r) :
      QStep m q [] { q with loops := l ++ (t, .top) :: r }
  | abort {q l} (hs : q.started = false) (hl : l.Sublist q.loops) :
      QStep m q [] { q with loops := l }
  | retire {q} (reset : Option Int) :
      QStep m q [.retired (q.row.epoch + 1) reset]
        { q with row := (q.row.retireQueueLocked none).1 }
  | register {q l r t n} (mq : MessageQueue) (now : Int)
      (ho : q.row.queueOwners = none) (hl : q.loops = l ++ r) (ht : q.nextToken ≤ t)
      (hn : t < n) :
      QStep m q [.registered t q.row.epoch]
        { q with
          row := q.row.register mq t now
          loops := l ++ (t, .unspawned) :: r
          nextToken := n }
  | tokens {q n} (hn : q.nextToken ≤ n) : QStep m q [] { q with nextToken := n }
  | place {q} (off : Int) (hc : q.row.offsetTable = none) :
      QStep m q [.placed q.row.epoch off] { q with row := { q.row with offsetTable := some off } }
  | remove {q} :
      QStep m q [.removed q.row.queueOwners q.started q.row.consumeOffsets]
        { q with row := { q.row with consumeOffsets := none } }
  | lock {q} (granted : Bool) (now : Int) : QStep m q [] { q with row := q.row.setLock granted now }
  | sweep {q} (off : Int) (ho : m.orderly = false) :
      QStep m q (if q.row.stillHead off then [.swept q.row.epoch off] else [])
        { q with row := q.row.removeExpiredEntryIfStillHead off }
  | take {q size mq b g row'} (hh : q.held = none)
      (ht : q.row.takeBatch size = some ((mq, b, g), row')) :
      QStep m q [] { q with row := row', held := some (g, .taken b) }
  | held {q g pc pc' row' evs} (hh : q.held = some (g, pc))
      (h : HeldRule m g q.row pc evs row' pc') :
      QStep m q evs { q with row := row', held := some (g, pc') }
  | finish {q g} (hh : q.held = some (g, .finishing)) :
      QStep m q [] { q with row := q.row.finishBatch, held := none }
  | shutdown {q} : QStep m q [] { q with started := false }
  | clearOwners {q} (hs : q.started = false) : QStep m q [] { q with row := q.row.orphan }

/-- Runs of one queue. -/
abbrev QRun (m : Mode) (q : Queue) (tr : List QEvent) (q' : Queue) : Prop :=
  Machine.Run (QStep m) q tr q'

/-! ## 4. The consume side

Most invariants speak of the buffer, the batch in dispatch and the consume offset only. Seen from
there a step of the queue is one of eight things. -/

/-- The event tells of the buffer, the batch or the consume offset. -/
def QEvent.consumeSide : QEvent → Bool
  | .registered _ _ | .retired _ _ | .illegalRetired _ _ _ | .placed _ _ | .gatePassed _ _ _ _
  | .resolved _ _ _ _ => false
  | _ => true

/-- The event retires the queue, or resets it. -/
def QEvent.retires : QEvent → Bool
  | .retired _ _ | .illegalRetired _ _ _ => true
  | _ => false

/-- **What a step does to the consume side of its queue.** -/
inductive ConsumeStep (m : Mode) (q : Queue) : List QEvent → Queue → Prop where
  | quiet {evs q'} (hev : ∀ e ∈ evs, e.consumeSide = false) (hp : q'.row.pending = q.row.pending)
      (hc : q'.row.consumeOffsets = q.row.consumeOffsets) (hi : q'.row.inflight = q.row.inflight)
      (hm : q'.row.inflightMsgs = q.row.inflightMsgs) (he : q'.row.epoch = q.row.epoch)
      (hh : q'.held = q.held) : ConsumeStep m q evs q'
  | pulled {q' t sub off} (mq : MessageQueue) (res : PullResult) (msgs : List MessageExt)
      (hl : (t, .pull sub off) ∈ q.loops) (ho : q.row.queueOwners = some t)
      (hr : q'.row = q.row.bookPull mq res msgs) (hh : q'.held = q.held) :
      ConsumeStep m q
        (.pulled t q.row.epoch off res msgs ::
          if (q.row.bookFetched mq res msgs).correctable res.status then
            [.corrected q.row.epoch res.nextBeginOffset]
          else [])
        q'
  | retired {e q'} (hev : e.consumeSide = false) (hr : q'.row = (q.row.retireQueueLocked none).1)
      (hh : q'.held = q.held) (he : e.retires = true) : ConsumeStep m q [e] q'
  | removed : ConsumeStep m q [.removed q.row.queueOwners q.started q.row.consumeOffsets]
      { q with row := { q.row with consumeOffsets := none } }
  | swept (off : Int) (ho : m.orderly = false) :
      ConsumeStep m q (if q.row.stillHead off then [.swept q.row.epoch off] else [])
        { q with row := q.row.removeExpiredEntryIfStillHead off }
  | taken {b rest} (hh : q.held = none) (hb : b ≠ [])
      (hp : q.row.pending = some (b ++ rest)) :
      ConsumeStep m q []
        { q with
          row := { q.row with
            pending := some rest
            inflight := some (q.row.inflight.getD 0 + 1) }
          held := some (q.row.epoch, .taken b) }
  | held {g pc pc' row' evs} (hh : q.held = some (g, pc)) (h : HeldRule m g q.row pc evs row' pc') :
      ConsumeStep m q evs { q with row := row', held := some (g, pc') }
  | finished {g : Nat} (hh : q.held = some (g, .finishing)) :
      ConsumeStep m q [] { q with row := q.row.finishBatch, held := none }

variable {q q' : Queue}

theorem QStep.consume (hs : QStep m q evs q') : ConsumeStep m q evs q' := by
  have hnil : ∀ e ∈ ([] : List QEvent), e.consumeSide = false := fun _ h => nomatch h
  cases hs with
  | loop hl h =>
    cases h with
    | pulled mq res msgs ho =>
      rename_i sub off
      have hmem : (_, .pull sub off) ∈ q.loops :=
        hl ▸ mem_append_right _ mem_cons_self
      exact .pulled mq res msgs hmem ho rfl rfl
    | gatePassed | resolved => exact .quiet (forall_mem_singleton.mpr rfl) rfl rfl rfl rfl rfl rfl
    | _ => exact .quiet hnil rfl rfl rfl rfl rfl rfl
  | exit hl =>
    obtain ⟨a, ha⟩ := q.row.markPullLoopExited_writes _
    rw [ha]
    exact .quiet hnil rfl rfl rfl rfl rfl rfl
  | illegal | retire => exact .retired rfl rfl rfl rfl
  | register | place => exact .quiet (forall_mem_singleton.mpr rfl) rfl rfl rfl rfl rfl rfl
  | remove => exact .removed
  | sweep off ho => exact .swept off ho
  | take hh ht =>
    obtain ⟨dq, rest, hp, rfl, hb, rfl, rfl⟩ := Row.takeBatch_eq ht
    exact .taken hh hb hp
  | held hh h => exact .held hh h
  | finish hh => exact .finished hh
  | _ => exact .quiet hnil rfl rfl rfl rfl rfl rfl

/-- The event comes from the batch in dispatch. -/
def QEvent.ofBatch : QEvent → Bool
  | .checked _ | .handed _ _ | .acked _ _ | .dropped _ _ | .answered _ _ _ _ | .sentBack _ _ _
  | .putBack _ _ _ _ _ | .advanced _ _ _ _ => true
  | _ => false

theorem QEvent.not_ofBatch {e : QEvent} (h : e.consumeSide = false) : e.ofBatch = false := by
  cases e <;> first | rfl | cases h

theorem pulled_not_ofBatch {off next : Int} {res : PullResult} {msgs : List MessageExt} {c : Bool} :
    ∀ e ∈ QEvent.pulled t g off res msgs :: (if c then [.corrected g next] else []),
      e.ofBatch = false := by
  intro e he
  rcases mem_cons.mp he with rfl | he
  · rfl
  · split at he
    · cases mem_singleton.mp he
      rfl
    · cases he

theorem QStep.batch_event (hs : QStep m q evs q') {e : QEvent} (he : e ∈ evs)
    (hb : e.ofBatch = true) :
    ∃ g pc pc' row', q.held = some (g, pc) ∧ HeldRule m g q.row pc evs row' pc' := by
  have hno : e.ofBatch = false → False := fun h => by rw [hb] at h; cases h
  cases hs.consume with
  | quiet hev => exact (hno (QEvent.not_ofBatch (hev e he))).elim
  | pulled mq res msgs hl ho hr hh => exact (hno (pulled_not_ofBatch e he)).elim
  | retired hev hr hh =>
    exact (hno (QEvent.not_ofBatch (mem_singleton.mp he ▸ hev))).elim
  | removed =>
    cases mem_singleton.mp he
    cases hb
  | swept off ho =>
    split at he
    · cases mem_singleton.mp he
      cases hb
    · cases he
  | taken | finished => cases he
  | held hh h => exact ⟨_, _, _, _, hh, h⟩

end RocketMQ
