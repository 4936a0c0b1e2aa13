/-
  File:      RocketMQ/Pop/Answer.lean
  Subject:   How a popped row is answered, and which queue the answer names.

  After `prepare_pop_batch_for_delivery`, `consume_pop_batch`, `process_pop_consume_result` and the
  request builders below them in `consumer.rs`. A row is answered on one of four paths
  (`AnswerPath`): it is filtered before delivery, acknowledged after consumption, returned by
  changing its invisible time, or its retries are exhausted. The request is built from the row as it
  stands on that path, and the rows of the last three paths have been renamed for the listener.

  * `preparePopBatchForDelivery_answers`, `consumePopBatch_answers`: a round builds no request
    outside the four paths;
  * `namesOrigin_iff`: what one path needs for its request to name the queue of the row;
  * `answers_name_origin`: which rows are answered rightly on every path.
-/
import RocketMQ.Pop.CheckPoint
import RocketMQ.Push.Tasks

namespace RocketMQ

open List

/-! ## 1. Requests -/

/-- The knobs the POP path reads besides those of the pull path. -/
structure PopConfig extends ConsumerConfig where
  popDelayLevel : List Int
  deriving DecidableEq, Repr

/-- The two requests that answer a popped row. -/
inductive PopRequestCode where
  /-- `ACK_MESSAGE` -/
  | ackMessage
  /-- `CHANGE_MESSAGE_INVISIBLETIME`, with the new invisible time in milliseconds -/
  | changeInvisibleTime (invisibleTime : Int)
  deriving DecidableEq, Repr

/-- A request, with the fields of its header and the broker it goes to. -/
structure PopRequest where
  code : PopRequestCode
  consumerGroup : String
  topic : String
  brokerName : String
  queueId : Int
  extraInfo : String
  offset : Int
  deriving DecidableEq, Repr

/-- The five values `pop_ck_target` decodes. -/
structure PopTarget where
  topic : String
  brokerName : String
  queueId : Int
  offset : Int
  ck : String
  deriving DecidableEq, Repr

/-- The segments `pop_ck_target` reads, in its order; the topic is rebuilt from the name the row
carries now. -/
def targetOfSegments (group topic ck : String) (segments : List String) : Option PopTarget := do
  let brokerName ← (ExtraInfo.getBrokerName segments).toOption
  let queueId ← (ExtraInfo.getQueueId segments).toOption
  let offset ← (ExtraInfo.getQueueOffset segments).toOption
  let retry ← (ExtraInfo.getRetry segments).toOption
  let topic ← (getRealTopic topic group retry).toOption
  return ⟨topic, brokerName, queueId, offset, ck⟩

variable {group topic ck : String} {cfg : PopConfig}
  {hooks : Option (List MessageExt → List MessageExt)} {sub : SubscriptionData}
  {popped : List MessageExt} {r : Option PopRequest}

theorem targetOfSegments_ok {brokerName : String} {segments : List String} {queueId offset : Int}
    {k : PopKind} (hb : ExtraInfo.getBrokerName segments = .ok brokerName)
    (hq : ExtraInfo.getQueueId segments = .ok queueId)
    (ho : ExtraInfo.getQueueOffset segments = .ok offset)
    (hr : ExtraInfo.getRetry segments = .ok k.flag) :
    targetOfSegments group topic ck segments =
      some ⟨k.physical group topic, brokerName, queueId, offset, ck⟩ := by
  unfold targetOfSegments
  rw [hb, hq, ho, hr]
  show (do
    let topic ← (getRealTopic topic group k.flag).toOption
    return (⟨topic, brokerName, queueId, offset, ck⟩ : PopTarget)) = _
  rw [PopKind.getRealTopic_flag]
  rfl

theorem targetOfSegments_some {segments : List String} {t : PopTarget}
    (h : targetOfSegments group topic ck segments = some t) :
    ExtraInfo.getBrokerName segments = .ok t.brokerName ∧ t.ck = ck := by
  unfold targetOfSegments at h
  cases hb : ExtraInfo.getBrokerName segments with
  | error e =>
    rw [hb] at h
    cases h
  | ok name =>
    rw [hb] at h
    simp only [Except.toOption, Option.bind_eq_bind, Option.bind_some, Option.bind_eq_some_iff,
      Option.pure_def, Option.some.injEq] at h
    obtain ⟨_, _, _, _, _, _, _, _, rfl⟩ := h
    exact ⟨rfl, rfl⟩

def popCkTarget (group : String) (m : MessageExt) : Option PopTarget :=
  match m.getProperty "POP_CK" with
  | none => none
  | some ck => if ck.isEmpty then none else targetOfSegments group m.topic ck (ExtraInfo.split ck)

/-- The check-point of a row can be read: it is there, with the four segments a target needs and a
known retry flag. -/
def ckReadable (m : MessageExt) : Bool :=
  match m.getProperty "POP_CK" with
  | none => false
  | some ck =>
    let segments := ExtraInfo.split ck
    !ck.isEmpty && (ExtraInfo.getBrokerName segments).isOk && (ExtraInfo.getQueueId segments).isOk
      && (ExtraInfo.getQueueOffset segments).isOk
      && (ExtraInfo.getRetry segments).toOption.any fun retry => ["0", "1", "2"].contains retry

theorem targetOfSegments_isSome (segments : List String) :
    (targetOfSegments group topic ck segments).isSome =
      ((ExtraInfo.getBrokerName segments).isOk && (ExtraInfo.getQueueId segments).isOk
        && (ExtraInfo.getQueueOffset segments).isOk
        && (ExtraInfo.getRetry segments).toOption.any fun retry => ["0", "1", "2"].contains retry) := by
  unfold targetOfSegments getRealTopic
  cases ExtraInfo.getBrokerName segments with
  | error e => rfl
  | ok brokerName =>
    cases ExtraInfo.getQueueId segments with
    | error e => rfl
    | ok queueId =>
      cases ExtraInfo.getQueueOffset segments with
      | error e => rfl
      | ok offset =>
        cases ExtraInfo.getRetry segments with
        | error e => rfl
        | ok retry =>
          simp only [Except.toOption, Option.bind_eq_bind, Option.bind_some]
          split_ifs <;> simp_all [Except.isOk, Except.toBool]

/-- **Which rows have a target**, whatever the group and the name of the row. -/
theorem popCkTarget_isSome (group : String) (m : MessageExt) :
    (popCkTarget group m).isSome = ckReadable m := by
  unfold popCkTarget ckReadable
  cases m.getProperty "POP_CK" with
  | none => rfl
  | some ck =>
    dsimp only
    cases ck.isEmpty with
    | true => rfl
    | false =>
      rw [if_neg Bool.false_ne_true, targetOfSegments_isSome]
      rfl

theorem popCkTarget_ck {m : MessageExt} {t : PopTarget} (h : popCkTarget group m = some t) :
    m.getProperty "POP_CK" = some t.ck := by
  unfold popCkTarget at h
  split at h
  · cases h
  · rename_i ck hck
    split at h
    · cases h
    · rw [hck, (targetOfSegments_some h).2]

def PopTarget.request (t : PopTarget) (code : PopRequestCode) (group : String) : PopRequest :=
  ⟨code, group, t.topic, t.brokerName, t.queueId, t.ck, t.offset⟩

/-- `ack_pop_msg`, with a client and a runtime at hand. -/
def ackPopMsg (cfg : PopConfig) (m : MessageExt) : Option PopRequest :=
  (popCkTarget cfg.consumerGroup m).map fun t => t.request .ackMessage cfg.consumerGroup

/-- The delay of a level in seconds. A negative level is a large one (`level as usize`). -/
def delaySecond (table : List Int) (last level : Int) : Int :=
  if level < 0 ∨ table.length ≤ level then last else table.getD level.toNat last

/-- `change_pop_invisible_time`: level 0 stands for the retries made so far. -/
def changePopInvisibleTime (cfg : PopConfig) (m : MessageExt) (delayLevel : Int) :
    Option PopRequest :=
  match popCkTarget cfg.consumerGroup m, cfg.popDelayLevel.getLast? with
  | some t, some last =>
    let level := if delayLevel = 0 then m.reconsumeTimes else delayLevel
    some (t.request (.changeInvisibleTime (delaySecond cfg.popDelayLevel last level * 1000))
      cfg.consumerGroup)
  | _, _ => none

/-- The loop of `check_need_ack_or_delay`, from the last level downwards: one above the highest
level the delay reaches, `-1` when it reaches none. -/
def delayLevelOf (table : List Int) (delay : Int) : Nat → Int
  | 0 => -1
  | level + 1 =>
    if delay ≥ table.getD level 0 * 1000 then (level : Int) + 1 else delayLevelOf table delay level

def checkNeedAckOrDelay (cfg : PopConfig) (now : Int) (m : MessageExt) : Option PopRequest :=
  match cfg.popDelayLevel.getLast? with
  | none => none
  | some lastSecond =>
    let msgDelayTime := now - m.bornTimestamp
    if msgDelayTime > lastSecond * 1000 * 2 then ackPopMsg cfg m
    else
      changePopInvisibleTime cfg m
        (delayLevelOf cfg.popDelayLevel msgDelayTime cfg.popDelayLevel.length)

/-! ## 2. A round -/

/-- `pop_max_reconsume_times`: `-1` reads as 16. -/
def popMaxReconsumeTimes (cfg : PopConfig) : Int :=
  if cfg.maxReconsumeTimes = -1 then 16 else cfg.maxReconsumeTimes

/-- The identity by which dropped rows are told from kept ones. -/
def popRowId (m : MessageExt) : String × Int := (m.msgId.getD "", m.queueOffset)

/-- The rows of an answer that are not kept. -/
def popDropped (kept popped : List MessageExt) : List MessageExt :=
  if kept.length = popped.length then []
  else popped.filter fun m => !(kept.map popRowId).contains (popRowId m)

/-- `prepare_pop_batch_for_delivery`: the rows that are kept, and the acknowledgements of the
others. -/
def preparePopBatchForDelivery (cfg : PopConfig)
    (hooks : Option (List MessageExt → List MessageExt)) (sub : SubscriptionData)
    (popped : List MessageExt) : List MessageExt × List (Option PopRequest) :=
  let kept := (filterMessagesForDelivery hooks (some sub) popped).filter fun m =>
    decide (m.reconsumeTimes ≤ popMaxReconsumeTimes cfg)
  (kept, (popDropped kept popped).map (ackPopMsg cfg))

/-- `process_pop_consume_result`. `clock` is the time at which each row is looked at. -/
def processPopConsumeResult (cfg : PopConfig) (clock : MessageExt → Int)
    (status : ConsumeConcurrentlyStatus) (ackIndex delayLevel : Int) (msgs : List MessageExt) :
    List (Option PopRequest) :=
  let acked := ackedCount (some status) ackIndex msgs.length
  (msgs.take acked).map (ackPopMsg cfg) ++
    (msgs.drop acked).map fun m =>
      if cfg.maxReconsumeTimes ≥ 0 ∧ m.reconsumeTimes ≥ cfg.maxReconsumeTimes then
        checkNeedAckOrDelay cfg (clock m) m
      else changePopInvisibleTime cfg m delayLevel

/-- A row as the listener gets it: renamed and stamped. -/
def deliveredRow (names : GroupNames) (stamp : Int) (m : MessageExt) : MessageExt :=
  (resetRetryTopicAndNamespaceMsg names (resetPopRetryTopicMsg names m)).putProperty
    "CONSUME_START_TIME" (toString stamp)

/-- `pop_time` and `invisible` of a batch, read off its first row; an unreadable value is 0. -/
def popTimes (msgs : List MessageExt) : Int × Int :=
  match msgs.head?.bind (·.getProperty "POP_CK") with
  | none => (0, 0)
  | some ck =>
    ((ExtraInfo.getPopTime (ExtraInfo.split ck)).toOption.getD 0,
      (ExtraInfo.getInvisibleTime (ExtraInfo.split ck)).toOption.getD 0)

/-- `is_pop_timeout` at a time. -/
def isPopTimeout (now : Int) (msgs : List MessageExt) (times : Int × Int) : Bool :=
  msgs.isEmpty || decide (times.1 ≤ 0) || decide (times.2 ≤ 0) || decide (now - times.1 ≥ times.2)

/-- What a pass over a batch meets: the clock where it is read, the mark of the queue before and
after the listener, and the listener. It returns its status (`none`: null or a panic) and leaves an
ack index and a delay level in the context. -/
structure PopPass where
  droppedBefore : Bool
  arrival : Int
  stamp : Int
  listener : List MessageExt → Option ConsumeConcurrentlyStatus × Int × Int
  droppedAfter : Bool
  finish : Int
  clock : MessageExt → Int

/-- What a pass did with its rows: the answers, one for each row answered, and the number of rows
given up. -/
structure PopSettlement where
  answers : List (Option PopRequest)
  abandoned : Nat
  deriving DecidableEq, Repr

def consumePopBatch (cfg : PopConfig) (pass : PopPass) (msgs : List MessageExt) : PopSettlement :=
  if pass.droppedBefore || msgs.isEmpty then ⟨[], 0⟩
  else
    let times := popTimes msgs
    if isPopTimeout pass.arrival msgs times then ⟨[], msgs.length⟩
    else
      let rows := msgs.map (deliveredRow cfg.names pass.stamp)
      let (status, ackIndex, delayLevel) := pass.listener rows
      if pass.droppedAfter || isPopTimeout pass.finish rows times then ⟨[], rows.length⟩
      else
        ⟨processPopConsumeResult cfg pass.clock (status.getD .reconsumeLater) ackIndex delayLevel
          rows, 0⟩

/-! ## 3. The four paths -/

/-- How a popped row is answered. -/
inductive AnswerPath where
  /-- dropped before delivery -/
  | filtered
  /-- acknowledged after consumption -/
  | acknowledged (stamp : Int)
  /-- returned by changing its invisible time -/
  | returned (stamp delayLevel : Int)
  /-- its retries are exhausted -/
  | exhausted (stamp now : Int)
  deriving DecidableEq, Repr

namespace AnswerPath

/-- The row the request is built from. -/
def row (names : GroupNames) (m : MessageExt) : AnswerPath → MessageExt
  | filtered => m
  | acknowledged stamp => deliveredRow names stamp m
  | returned stamp _ => deliveredRow names stamp m
  | exhausted stamp _ => deliveredRow names stamp m

/-- The request of the path. -/
def answer (cfg : PopConfig) (m : MessageExt) : AnswerPath → Option PopRequest
  | filtered => ackPopMsg cfg m
  | acknowledged stamp => ackPopMsg cfg (deliveredRow cfg.names stamp m)
  | returned stamp delayLevel =>
    changePopInvisibleTime cfg (deliveredRow cfg.names stamp m) delayLevel
  | exhausted stamp now => checkNeedAckOrDelay cfg now (deliveredRow cfg.names stamp m)

/-- The paths that answer: with an empty delay table the last two leave the row alone. -/
def Answers (cfg : PopConfig) : AnswerPath → Prop
  | filtered => True
  | acknowledged _ => True
  | returned _ _ => cfg.popDelayLevel ≠ []
  | exhausted _ _ => cfg.popDelayLevel ≠ []

end AnswerPath

theorem changePopInvisibleTime_eq (h : cfg.popDelayLevel ≠ []) (m : MessageExt) (delayLevel : Int) :
    ∃ ms, changePopInvisibleTime cfg m delayLevel = (popCkTarget cfg.consumerGroup m).map
      (·.request (.changeInvisibleTime ms) cfg.consumerGroup) := by
  unfold changePopInvisibleTime
  rw [getLast?_eq_some_getLast h]
  cases popCkTarget cfg.consumerGroup m with
  | none => exact ⟨0, rfl⟩
  | some t => exact ⟨_, rfl⟩

theorem checkNeedAckOrDelay_eq (h : cfg.popDelayLevel ≠ []) (now : Int) (m : MessageExt) :
    ∃ code, checkNeedAckOrDelay cfg now m =
      (popCkTarget cfg.consumerGroup m).map (·.request code cfg.consumerGroup) := by
  unfold checkNeedAckOrDelay
  rw [getLast?_eq_some_getLast h]
  dsimp only
  split
  · exact ⟨_, rfl⟩
  · obtain ⟨ms, hms⟩ := changePopInvisibleTime_eq h m _
    exact ⟨_, hms⟩

variable {path : AnswerPath}

/-- **Every path asks for the target of its row.** -/
theorem AnswerPath.answer_eq (h : path.Answers cfg) (m : MessageExt) : ∃ code, path.answer cfg m =
      (popCkTarget cfg.consumerGroup (path.row cfg.names m)).map
        (·.request code cfg.consumerGroup) := by
  cases path with
  | filtered | acknowledged => exact ⟨_, rfl⟩
  | returned stamp delayLevel =>
    obtain ⟨ms, hms⟩ := changePopInvisibleTime_eq h (deliveredRow cfg.names stamp m) delayLevel
    exact ⟨_, hms⟩
  | exhausted stamp now => exact checkNeedAckOrDelay_eq h now _

theorem preparePopBatchForDelivery_answers
    (h : r ∈ (preparePopBatchForDelivery cfg hooks sub popped).2) :
    ∃ m ∈ popped, r = AnswerPath.filtered.answer cfg m := by
  obtain ⟨m, hm, rfl⟩ := mem_map.mp h
  refine ⟨m, ?_, rfl⟩
  unfold popDropped at hm
  split at hm
  · cases hm
  · exact mem_of_mem_filter hm

theorem preparePopBatchForDelivery_kept (hh : ∀ h ∈ hooks, ∀ ms, (h ms).Sublist ms) :
    (preparePopBatchForDelivery cfg hooks sub popped).1.Sublist popped :=
  filter_sublist.trans (filterMessagesForDelivery_sublist hh (some sub) popped)

theorem consumePopBatch_answers {pass : PopPass} {msgs : List MessageExt}
    (h : r ∈ (consumePopBatch cfg pass msgs).answers) :
    ∃ m ∈ msgs, ∃ path : AnswerPath, r = path.answer cfg m := by
  unfold consumePopBatch at h
  split at h
  · cases h
  · dsimp only at h
    split at h
    · cases h
    · split at h
      · cases h
      · rcases mem_append.mp h with h | h
        · obtain ⟨row, hrow, rfl⟩ := mem_map.mp h
          obtain ⟨m, hm, rfl⟩ := mem_map.mp (mem_of_mem_take hrow)
          exact ⟨m, hm, .acknowledged pass.stamp, rfl⟩
        · obtain ⟨row, hrow, hr⟩ := mem_map.mp h
          obtain ⟨m, hm, rfl⟩ := mem_map.mp (mem_of_mem_drop hrow)
          split at hr
          · exact ⟨m, hm, .exhausted pass.stamp _, hr.symm⟩
          · exact ⟨m, hm, .returned pass.stamp _, hr.symm⟩

/-! ## 4. The queue an answer names -/

/-- Where a row was popped from. -/
structure Origin where
  topic : String
  brokerName : String
  queueId : Int
  offset : Int
  queueId_range : ExtraInfo.InI32 queueId
  offset_range : Decimal.InI64 offset

/-- A row that was received from there: it carries the name it was asked for, the origin is that
topic or one of its two retry topics for the group, and the check-point is the one of the origin.
Retry topics are built on business topics. -/
structure Received (cfg : PopConfig) (kind : PopKind) (o : Origin) (m : MessageExt) : Prop where
  topic : o.topic = kind.physical cfg.consumerGroup m.topic
  checkPoint : ∃ ckQueueOffset popTime invisibleTime reviveQid, m.getProperty "POP_CK" =
    some (ExtraInfo.buildExtraInfo ckQueueOffset popTime invisibleTime reviveQid o.topic
      o.brokerName o.queueId (some o.offset))
  business : kind ≠ .normal → isRetryTopic m.topic = false

/-- The request names the topic, the queue and the offset of the origin. -/
def PopRequest.Names (r : PopRequest) (o : Origin) : Prop :=
  r.topic = o.topic ∧ r.brokerName = o.brokerName ∧ r.queueId = o.queueId ∧ r.offset = o.offset

/-- A path answers the row with a request that names its origin. -/
def NamesOrigin (cfg : PopConfig) (o : Origin) (m : MessageExt) (path : AnswerPath) : Prop :=
  ∃ r, path.answer cfg m = some r ∧ r.Names o

theorem deliveredRow_checkPoint (names : GroupNames) (stamp : Int) (m : MessageExt) :
    (deliveredRow names stamp m).getProperty "POP_CK" = m.getProperty "POP_CK" :=
  ExtFields.get_insert_ne _ _ (by decide)

theorem AnswerPath.row_checkPoint (names : GroupNames) (m : MessageExt) (path : AnswerPath) :
    (path.row names m).getProperty "POP_CK" = m.getProperty "POP_CK" := by
  cases path with
  | filtered => rfl
  | acknowledged stamp | returned stamp _ | exhausted stamp _ =>
    exact deliveredRow_checkPoint names stamp m

theorem flag_no_space (k : PopKind) : Text.containsChar k.flag ' ' = false := by
  cases k with
  | normal | retryV1 | retryV2 => rfl

section Target

variable {cfg : PopConfig} {kind : PopKind} {o : Origin} {m : MessageExt}

theorem Received.segments (h : Received cfg kind o m) :
    ∃ ck : ExtraInfo.CheckPoint, m.getProperty "POP_CK" = some ck.text ∧
      ck.retry = (PopKind.ofTopic o.topic).flag ∧ ck.brokerName = o.brokerName ∧
      ck.queueId = o.queueId ∧ ck.msgQueueOffset = some o.offset := by
  obtain ⟨ckQueueOffset, popTime, invisibleTime, reviveQid, hck⟩ := h.checkPoint
  exact ⟨_, hck, PopKind.retryOfTopic_eq o.topic, rfl, rfl, rfl⟩

/-- **The target of a row with the check-point of its origin**, whatever the row is called now. -/
theorem popCkTarget_names_iff (h : Received cfg kind o m) {row : MessageExt}
    (hrow : row.getProperty "POP_CK" = m.getProperty "POP_CK") (code : PopRequestCode) :
    (∃ r, (popCkTarget cfg.consumerGroup row).map (·.request code cfg.consumerGroup) = some r ∧
        r.Names o) ↔
      Text.containsChar o.brokerName ' ' = false ∧
        (PopKind.ofTopic o.topic).physical cfg.consumerGroup row.topic = o.topic := by
  obtain ⟨ck, hck, hflag, hbroker, hqueue, hoffset⟩ := h.segments
  have hretry : Text.containsChar ck.retry ' ' = false := hflag ▸ flag_no_space _
  have htarget : popCkTarget cfg.consumerGroup row =
      targetOfSegments cfg.consumerGroup row.topic ck.text (ExtraInfo.split ck.text) := by
    unfold popCkTarget
    rw [hrow, hck]
    dsimp only
    rw [ExtraInfo.text_not_empty ck hoffset hretry, if_neg Bool.false_ne_true]
  rw [htarget]
  by_cases hspace : Text.containsChar o.brokerName ' ' = true
  · -- the broker name falls apart: whatever is decoded names another one
    have hne := ExtraInfo.getBrokerName_text_ne ck hoffset hretry (hbroker ▸ hspace)
    rw [hspace]
    refine ⟨?_, fun hfalse => nomatch hfalse.1⟩
    rintro ⟨r, hr, _, hname, _⟩
    obtain ⟨t, ht, rfl⟩ := Option.map_eq_some_iff.mp hr
    rw [(targetOfSegments_some ht).1, hbroker] at hne
    exact absurd (congrArg Except.ok hname) hne
  · have hback := ExtraInfo.text_readBack ck hoffset hretry
      (by rw [hbroker]; exact Bool.eq_false_iff.mpr hspace) (hqueue ▸ o.queueId_range)
      o.offset_range
    obtain ⟨hr, hb, hq, ho⟩ := hback
    rw [targetOfSegments_ok hb hq ho (hr.trans (congrArg Except.ok hflag))]
    constructor
    · rintro ⟨r, hr, htopic, _⟩
      rw [← Option.some.inj hr] at htopic
      exact ⟨Bool.eq_false_iff.mpr hspace, htopic⟩
    · rintro ⟨_, htopic⟩
      exact ⟨_, rfl, htopic, hbroker, hqueue, rfl⟩

/-- **What one path needs**: a broker name in one piece, and the retry flag has to put back exactly
what the row has lost on its way. -/
theorem namesOrigin_iff (h : Received cfg kind o m) (path : AnswerPath) (hp : path.Answers cfg) :
    NamesOrigin cfg o m path ↔ Text.containsChar o.brokerName ' ' = false ∧
      (PopKind.ofTopic o.topic).physical cfg.consumerGroup (path.row cfg.names m).topic
        = o.topic := by
  obtain ⟨code, hcode⟩ := path.answer_eq hp m
  unfold NamesOrigin
  rw [hcode]
  exact popCkTarget_names_iff h (path.row_checkPoint cfg.names m) code

/-- The rows that are answered rightly. The broker name has no space, the row was asked for under
its business name, no `+` makes a first-version retry name a second-version one, and the topic does
not carry the client's namespace. -/
structure Answerable (cfg : PopConfig) (kind : PopKind) (o : Origin) (m : MessageExt) : Prop where
  brokerName : Text.containsChar o.brokerName ' ' = false
  business : isRetryTopic m.topic = false
  version : kind = .retryV1 → Text.containsChar (cfg.consumerGroup ++ m.topic) '+' = false
  nameSpace : NamespaceUtil.carriesNamespace m.topic cfg.nameSpace = false

/-- **In a namespace no row of a subscribed topic is answered rightly on every path**, the system's
own topics apart. -/
theorem subscribed_not_answerable {topic : String} (hns : cfg.nameSpace.isEmpty = false)
    (hpercent : Text.startsWith cfg.nameSpace "%" = false) (htopic : topic.isEmpty = false)
    (hsys : NamespaceUtil.isSystemResource topic = false)
    (hm : m.topic = NamespaceUtil.wrapNamespace cfg.nameSpace topic) :
    ¬ Answerable cfg kind o m := by
  intro ha
  have hcarries := NamespaceUtil.wrapNamespace_carries hns hpercent htopic hsys
  rw [← hm, ha.nameSpace] at hcarries
  cases hcarries

theorem Answerable.kind_eq (h : Received cfg kind o m) (ha : Answerable cfg kind o m) :
    PopKind.ofTopic o.topic = kind := by
  rw [h.topic, PopKind.ofTopic_physical]
  cases kind with
  | normal => exact ha.business
  | retryV1 => exact ha.version rfl
  | retryV2 => trivial

theorem Answerable.row_topic (ha : Answerable cfg kind o m) (path : AnswerPath) :
    (path.row cfg.names m).topic = m.topic := by
  have hdelivered := (delivered_topic_eq_iff (g := cfg.names) ha.business).mpr ha.nameSpace
  cases path with
  | filtered => rfl
  | acknowledged | returned | exhausted => exact hdelivered

theorem Answerable.namesOrigin (ha : Answerable cfg kind o m) (h : Received cfg kind o m)
    (path : AnswerPath) (hp : path.Answers cfg) : NamesOrigin cfg o m path := by
  rw [namesOrigin_iff h path hp, ha.kind_eq h, ha.row_topic path]
  exact ⟨ha.brokerName, h.topic.symm⟩

end Target

/-- **Which rows are answered rightly on every path.** -/
theorem answers_name_origin {cfg : PopConfig} {kind : PopKind} {o : Origin} {m : MessageExt}
    (h : Received cfg kind o m) :
    (∀ path : AnswerPath, path.Answers cfg → NamesOrigin cfg o m path) ↔
      Answerable cfg kind o m := by
  refine ⟨fun hall => ?_, fun ha path hp => ha.namesOrigin h path hp⟩
  -- the filtered path forces the kind, any path after delivery then forces the name
  obtain ⟨hbroker, hraw⟩ := (namesOrigin_iff h .filtered trivial).mp (hall .filtered trivial)
  obtain ⟨_, hdelivered⟩ :=
    (namesOrigin_iff h (.acknowledged 0) trivial).mp (hall (.acknowledged 0) trivial)
  have hkind : PopKind.ofTopic o.topic = kind := PopKind.physical_kind_inj.mp (hraw.trans h.topic)
  have hrec : kind.Recognised cfg.consumerGroup m.topic := by
    rw [← PopKind.ofTopic_physical, ← h.topic]
    exact hkind
  have hbusiness : isRetryTopic m.topic = false := by
    by_cases hnormal : kind = .normal
    · rwa [hnormal] at hrec
    · exact h.business hnormal
  refine ⟨hbroker, hbusiness, fun hv1 => ?_, ?_⟩
  · rwa [hv1] at hrec
  · rw [hkind, h.topic, PopKind.physical_inj] at hdelivered
    exact (delivered_topic_eq_iff hbusiness).mp hdelivered

theorem changePopInvisibleTime_nil (h : cfg.popDelayLevel = []) (m : MessageExt) (delayLevel : Int) :
    changePopInvisibleTime cfg m delayLevel = none := by
  unfold changePopInvisibleTime
  rw [h]
  split
  · rename_i hlast
    cases hlast
  · rfl

theorem checkNeedAckOrDelay_nil (h : cfg.popDelayLevel = []) (now : Int) (m : MessageExt) :
    checkNeedAckOrDelay cfg now m = none := by
  unfold checkNeedAckOrDelay
  rw [h]
  rfl

theorem AnswerPath.answers_of_some {m : MessageExt} {r : PopRequest}
    (h : path.answer cfg m = some r) : path.Answers cfg := by
  cases path with
  | filtered | acknowledged => trivial
  | returned stamp delayLevel =>
    intro hnil
    cases (changePopInvisibleTime_nil hnil _ delayLevel).symm.trans h
  | exhausted stamp now =>
    intro hnil
    cases (checkNeedAckOrDelay_nil hnil now _).symm.trans h

/-- **Every request of a round names the origin of a popped row**: those of the rows that are
dropped and those of any pass over a batch of the rows that are kept. -/
theorem round_names_origin (hh : ∀ h ∈ hooks, ∀ ms, (h ms).Sublist ms)
    (hrows : ∀ m ∈ popped, ∃ kind o, Received cfg kind o m ∧ Answerable cfg kind o m)
    {batch : List MessageExt}
    (hbatch : batch.Sublist (preparePopBatchForDelivery cfg hooks sub popped).1) (pass : PopPass)
    {r : PopRequest} (hr : some r ∈ (preparePopBatchForDelivery cfg hooks sub popped).2
      ++ (consumePopBatch cfg pass batch).answers) :
    ∃ m ∈ popped, ∃ kind o, Received cfg kind o m ∧ r.Names o := by
  have hpath : ∃ m ∈ popped, ∃ path : AnswerPath, path.answer cfg m = some r := by
    rcases mem_append.mp hr with hr | hr
    · obtain ⟨m, hm, heq⟩ := preparePopBatchForDelivery_answers hr
      exact ⟨m, hm, .filtered, heq.symm⟩
    · obtain ⟨m, hm, path, heq⟩ := consumePopBatch_answers hr
      exact ⟨m, (hbatch.trans (preparePopBatchForDelivery_kept hh)).mem hm, path, heq.symm⟩
  obtain ⟨m, hm, path, hsome⟩ := hpath
  obtain ⟨kind, o, hrec, ha⟩ := hrows m hm
  obtain ⟨r', hr', hnames⟩ := ha.namesOrigin hrec path (AnswerPath.answers_of_some hsome)
  rw [hsome] at hr'
  rw [← Option.some.inj hr'] at hnames
  exact ⟨m, hm, kind, o, hrec, hnames⟩

namespace Script

/-- A concurrent POP consumer of group `G`, as configured without a namespace. -/
def popConfig : PopConfig :=
  { consumerGroup := "G", nameSpace := "", messageModel := .clustering
    consumeMessageBatchMaxSize := 1, maxReconsumeTimes := -1, consumeTimeout := 15
    pullThresholdForQueue := 1000, pullThresholdSizeForQueue := 100
    consumeConcurrentlyMaxSpan := 2000
    popDelayLevel := [10, 30, 60] }

/-- The same consumer in the namespace `ns`, after its start. -/
def popNamespaced : PopConfig := { popConfig with consumerGroup := "ns%G", nameSpace := "ns" }

/-- The queue 3 of a topic at offset 99. -/
def popOrigin (topic : String) : Origin :=
  ⟨topic, "broker-a", 3, 99, by decide, by decide⟩

/-- A row asked for as `requested` and popped from `topic`. -/
def popRow (requested topic : String) : MessageExt :=
  { topic := requested, body := none
    properties :=
      ⟨[("POP_CK", ExtraInfo.buildExtraInfo 90 1000 60000 0 topic "broker-a" 3 (some 99))]⟩
    queueId := 3, queueOffset := 99, bornTimestamp := 0, msgId := some "id", reconsumeTimes := 0
    brokerName := some "broker-a" }

/-- A pass in time whose listener answers success. -/
def popPass : PopPass :=
  { droppedBefore := false, arrival := 2000, stamp := 2000
    listener := fun rows => (some .consumeSuccess, rows.length - 1, 0)
    droppedAfter := false, finish := 3000, clock := fun _ => 3000 }

theorem popRow_received {cfg : PopConfig} {kind : PopKind} {requested topic : String}
    (htopic : topic = kind.physical cfg.consumerGroup requested)
    (hbusiness : kind ≠ .normal → isRetryTopic requested = false) :
    Received cfg kind (popOrigin topic) (popRow requested topic) :=
  ⟨htopic, ⟨90, 1000, 60000, 0, rfl⟩, hbusiness⟩

end Script

open Script

/-- A revived row, popped from the second-version retry topic: all four paths name that topic. -/
theorem answers_name_origin_revived :
    Received popConfig .retryV2 (popOrigin "%RETRY%G+T")
        (popRow "T" "%RETRY%G+T") ∧
      ∀ path : AnswerPath, path.Answers popConfig →
        NamesOrigin popConfig (popOrigin "%RETRY%G+T")
          (popRow "T" "%RETRY%G+T") path := by
  have hrow : Received popConfig .retryV2 (popOrigin "%RETRY%G+T")
      (popRow "T" "%RETRY%G+T") := popRow_received (by decide) (fun _ => by decide)
  have hversion : PopKind.retryV2 ≠ .retryV1 := by decide
  exact ⟨hrow, (answers_name_origin hrow).mpr
    ⟨by decide, by decide, fun h => absurd h hversion, by decide⟩⟩

/-- A revived row is consumed: the one request of its round names where it was popped. -/
theorem round_names_origin_revived :
    (consumePopBatch popConfig popPass
      [popRow "T" "%RETRY%G+T"]).answers.map (Option.map (·.topic)) = [some "%RETRY%G+T"] ∧
    ∀ r, some r ∈ (consumePopBatch popConfig popPass
        [popRow "T" "%RETRY%G+T"]).answers →
      ∃ m ∈ [popRow "T" "%RETRY%G+T"], ∃ kind o, Received popConfig kind o m ∧
        r.Names o := by
  refine ⟨by decide, fun r hr => ?_⟩
  have hversion : PopKind.retryV2 ≠ .retryV1 := by decide
  refine @round_names_origin _ none default _ (by simp) ?_ _ (.refl _) popPass r
    (mem_append_right _ hr)
  exact forall_mem_singleton.mpr ⟨.retryV2, popOrigin "%RETRY%G+T",
    popRow_received (by decide) fun _ => by decide, by decide, by decide,
    fun h => absurd h hversion, by decide⟩

/-- **The answer names another topic.** With a namespace the row of `ns%T` is acknowledged on `T`
after its consumption, and on `ns%T` when it is filtered. A row that was asked for under its retry
name is acknowledged on a name wrapped twice when it is filtered. -/
theorem answer_names_other_topic :
    (Received popNamespaced .normal (popOrigin "ns%T") (popRow "ns%T" "ns%T")
      ∧ (preparePopBatchForDelivery popNamespaced (some fun _ => []) default
          [popRow "ns%T" "ns%T"]).2.map (Option.map (·.topic)) = [some "ns%T"]
      ∧ (consumePopBatch popNamespaced popPass
          [popRow "ns%T" "ns%T"]).answers.map (Option.map (·.topic)) = [some "T"]
      ∧ ¬ NamesOrigin popNamespaced (popOrigin "ns%T") (popRow "ns%T" "ns%T")
          (.acknowledged 2000))
    ∧ Received popConfig .normal (popOrigin "%RETRY%G_T")
        (popRow "%RETRY%G_T" "%RETRY%G_T")
      ∧ (preparePopBatchForDelivery popConfig (some fun _ => []) default
          [popRow "%RETRY%G_T" "%RETRY%G_T"]).2.map (Option.map (·.topic))
        = [some "%RETRY%G_%RETRY%G_T"]
      ∧ ¬ NamesOrigin popConfig (popOrigin "%RETRY%G_T")
          (popRow "%RETRY%G_T" "%RETRY%G_T") .filtered := by
  have hns : Received popNamespaced .normal (popOrigin "ns%T")
      (popRow "ns%T" "ns%T") := popRow_received rfl (fun h => absurd rfl h)
  have hretry : Received popConfig .normal (popOrigin "%RETRY%G_T")
      (popRow "%RETRY%G_T" "%RETRY%G_T") :=
    popRow_received rfl (fun h => absurd rfl h)
  refine ⟨⟨hns, by decide, by decide, ?_⟩, hretry, by decide, ?_⟩
  · rw [namesOrigin_iff hns (.acknowledged 2000) trivial]
    decide
  · rw [namesOrigin_iff hretry .filtered trivial]
    decide

end RocketMQ
