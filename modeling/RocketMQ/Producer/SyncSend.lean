/-
  File:      RocketMQ/Producer/SyncSend.lean
  Subject:   The synchronous send: its retry loop, and what it leaves in the caller's message.

  After `send`, `send_inner`, `send_with_retry`, `send_oneway`, `try_to_compress_message` and
  `restore_caller_message` in `producer.rs`. Each round of the loop finds the world anew
  (`SendRound`), and the outcomes of the attempts are kept beside the state.

  * `stored_result_kept_iff`: the last stored result is what the call returns, unless an attempt
    behind it ends with an error of no tier;
  * `caller_message_kept_iff`: when the caller finds topic and body as they were.
-/
import RocketMQ.Producer.BatchResult

namespace RocketMQ

open Text NamespaceUtil

/-! ## 1. The retry loop -/

inductive SendErrorKind where
  | broker
  | remoting
  | client
  deriving DecidableEq

def classifySendError : Error → Option SendErrorKind
  | .broker _ _ => some .broker
  | .connect _ | .sendRequest _ _ | .timeout _ _ | .tooMuchRequest _ | .remotingCommand _
  | .server _ _ => some .remoting
  | .client _ _ | .requestTimeout _ _ => some .client
  | .decode _ | .encode _ | .io _ | .json _ => none

/-- What a round of the loop finds. -/
structure SendRound where
  /-- `select_one_message_queue` of the fault strategy -/
  selected : Except Error MessageQueue
  /-- milliseconds since the first round began -/
  elapsed : Int
  /-- `send_msg_max_timeout_per_request` -/
  maxPerRequest : Int
  /-- `retry_another_broker_when_not_store_ok` -/
  retryAnother : Bool
  /-- `retry_response_codes` -/
  retryCodes : List Int
  /-- `send_with_hooks` to a queue within a time -/
  sendWithHooks : MessageQueue → Int → Except Error SendResult

/-- The variables of the loop, and what the attempts came back with. -/
structure RetryState where
  brokersSent : List String
  result : Option SendResult
  lastExc : Option Error
  outcomes : List (Except Error SendResult)

inductive RoundEnd where
  | next
  | callTimeout
  | returns (answer : Except Error SendResult)

/-- What a round does with the outcome of its attempt. -/
def afterAttempt (w : SendRound) (s : RetryState) :
    Except Error SendResult → RetryState × RoundEnd
  | .ok r =>
    if r.status ≠ .sendOk ∧ w.retryAnother then ({ s with result := some r }, .next)
    else (s, .returns (.ok r))
  | .error e =>
    match classifySendError e with
    | none => (s, .returns (.error e))
    | some .broker =>
      if e.responseCode.any w.retryCodes.contains then ({ s with lastExc := some e }, .next)
      else (s, .returns ((s.result.map Except.ok).getD (.error e)))
    | some _ => ({ s with lastExc := some e }, .next)

/-- One round of `send_with_retry`. -/
def sendRound (topic : String) (timeout : Int) (canRetryAgain : Bool) (w : SendRound)
    (s : RetryState) : RetryState × RoundEnd :=
  match w.selected with
  | .error e => ({ s with lastExc := some e }, .next)
  | .ok q =>
    let s := { s with brokersSent := s.brokersSent ++ [q.brokerName] }
    let left := timeout - w.elapsed
    if timeout < w.elapsed then (s, .callTimeout)
    else
      let capped := w.maxPerRequest > -1 ∧ canRetryAgain ∧ left > w.maxPerRequest
      let outcome := w.sendWithHooks ⟨topic, q.brokerName, q.queueId⟩
        (if capped then w.maxPerRequest else left)
      afterAttempt w { s with outcomes := s.outcomes ++ [outcome] } outcome

def sendRounds (topic : String) (timeout : Int) (rounds : Nat → SendRound) :
    Nat → Nat → RetryState → RetryState × RoundEnd
  | 0, _, s => (s, .next)
  | left + 1, attempt, s =>
    match sendRound topic timeout (decide (0 < left)) (rounds attempt) s with
    | (s, .next) => sendRounds topic timeout rounds left (attempt + 1) s
    | ended => ended

/-- The code of the final error. -/
def finalCode : Option Error → Option Int
  | some (.broker code _) => some code
  | some (.connect _) => some 10001
  | some (.timeout _ _) => some 10002
  | some (.client _ _) | some (.requestTimeout _ _) => some 10003
  | _ => none

/-- The end of `send_with_retry`, behind the loop. -/
def retriesEnded (topic : String) (cost : Int) (s : RetryState) (callTimeout : Bool) :
    Except Error SendResult :=
  match s.result with
  | some r => .ok r
  | none =>
    if callTimeout then .error (.tooMuchRequest "sendDefaultImpl call timeout")
    else .error (.client (finalCode s.lastExc) ("Send [" ++ toString s.brokersSent.length
      ++ "] times, still failed, cost [" ++ toString cost ++ "]ms, Topic: " ++ topic
      ++ ", BrokersSent: [" ++ String.intercalate ", " s.brokersSent ++ "], last error: "
      ++ (s.lastExc.map Error.display).getD ""))

/-- `send_with_retry`, with the state it ends in. The number of rounds saturates. -/
def sendWithRetry (route : Except Error Unit) (topic : String) (timeout retryTimes : Int)
    (rounds : Nat → SendRound) (cost : Int) : RetryState × Except Error SendResult :=
  let s : RetryState := ⟨[], none, none, []⟩
  match route with
  | .error (.client code m) =>
    (s, .error (.client (some (code.getD 10005)) (Error.client code m).display))
  | .error e => (s, .error e)
  | .ok () =>
    match sendRounds topic timeout rounds (min (retryTimes + 1) (2 ^ 31 - 1)).toNat 0 s with
    | (s, .returns answer) => (s, answer)
    | (s, .callTimeout) => (s, retriesEnded topic cost s true)
    | (s, .next) => (s, retriesEnded topic cost s false)

/-! ## 2. A stored result is kept -/

/-- The last result among the outcomes. -/
def lastStored (outcomes : List (Except Error SendResult)) : Option SendResult :=
  (outcomes.filterMap Except.toOption).getLast?

/-- The last attempt ended with an error that no tier catches. -/
def EndsUncaught (outcomes : List (Except Error SendResult)) : Prop :=
  ∃ e, outcomes.getLast? = some (.error e) ∧ classifySendError e = none

variable {s : RetryState} {outcomes : List (Except Error SendResult)}

@[simp] theorem lastStored_ok (r : SendResult) : lastStored (outcomes ++ [.ok r]) = some r := by
  simp [lastStored, Except.toOption]

@[simp] theorem lastStored_error (e : Error) :
    lastStored (outcomes ++ [.error e]) = lastStored outcomes := by
  simp [lastStored, Except.toOption]

@[simp] theorem endsUncaught_ok (r : SendResult) : ¬ EndsUncaught (outcomes ++ [.ok r]) := by
  rintro ⟨e, he, -⟩
  simp at he

@[simp] theorem endsUncaught_error (e : Error) :
    EndsUncaught (outcomes ++ [.error e]) ↔ classifySendError e = none := by
  simp [EndsUncaught]

/-- The loop remembers the last stored result, and goes on only behind errors it caught. -/
structure Remembers (s : RetryState) : Prop where
  result : s.result = lastStored s.outcomes
  caught : ¬ EndsUncaught s.outcomes

/-- The answer is the stored result, or the error that no tier caught. -/
structure AnswersStored (outcomes : List (Except Error SendResult))
    (answer : Except Error SendResult) : Prop where
  stored : ¬ EndsUncaught outcomes → ∀ r, lastStored outcomes = some r → answer = .ok r
  uncaught : EndsUncaught outcomes → ∃ e, answer = .error e

/-- What a round may end with. -/
def RoundEnd.Sound (s : RetryState) : RoundEnd → Prop
  | .returns answer => AnswersStored s.outcomes answer
  | _ => Remembers s

theorem afterAttempt_sound (h : Remembers s) (w : SendRound) (outcome : Except Error SendResult) :
    (afterAttempt w { s with outcomes := s.outcomes ++ [outcome] } outcome).2.Sound
      (afterAttempt w { s with outcomes := s.outcomes ++ [outcome] } outcome).1 := by
  cases outcome with
  | ok r =>
    simp only [afterAttempt]
    split
    · exact ⟨by simp, by simp⟩
    · exact ⟨by simp, by simp⟩
  | error e =>
    cases hk : classifySendError e with
    | none => exact by simpa [afterAttempt, hk] using ⟨by simp [hk], by simp⟩
    | some k =>
      have hnext : Remembers
          { s with lastExc := some e, outcomes := s.outcomes ++ [.error e] } :=
        ⟨by simpa using h.result, by simp [hk]⟩
      simp only [afterAttempt, hk]
      cases k with
      | broker =>
        dsimp only
        split
        · exact hnext
        · refine ⟨fun _ r hr => ?_, fun hu => ?_⟩
          · have hr' : s.result = some r := h.result.trans (by simpa using hr)
            simp [hr']
          · simp [hk] at hu
      | remoting => exact hnext
      | client => exact hnext

theorem sendRound_sound (h : Remembers s) (topic : String) (timeout : Int) (again : Bool)
    (w : SendRound) : (sendRound topic timeout again w s).2.Sound
      (sendRound topic timeout again w s).1 := by
  unfold sendRound
  split
  · exact ⟨h.result, h.caught⟩
  next q _ =>
    have h' : Remembers { s with brokersSent := s.brokersSent ++ [q.brokerName] } :=
      ⟨h.result, h.caught⟩
    split
    · exact h'
    · exact afterAttempt_sound h' w _

/-- **Every run of the loop keeps the last stored result.** -/
theorem sendRounds_sound (topic : String) (timeout : Int) (rounds : Nat → SendRound) (left : Nat) :
    ∀ (attempt : Nat) (s : RetryState), Remembers s →
      (sendRounds topic timeout rounds left attempt s).2.Sound
        (sendRounds topic timeout rounds left attempt s).1 := by
  induction left with
  | zero => exact fun _ _ h => h
  | succ left ih =>
    intro attempt s h
    have hround := sendRound_sound h topic timeout (decide (0 < left)) (rounds attempt)
    simp only [sendRounds]
    split
    next s' heq =>
      rw [heq] at hround
      exact ih _ _ hround
    next => exact hround

theorem retriesEnded_answers (h : Remembers s) (topic : String) (cost : Int) (late : Bool) :
    AnswersStored s.outcomes (retriesEnded topic cost s late) := by
  refine ⟨fun _ r hr => ?_, fun hu => absurd hu h.caught⟩
  unfold retriesEnded
  rw [h.result.trans hr]

variable (route : Except Error Unit) (topic : String) (timeout retryTimes : Int)
  (rounds : Nat → SendRound) (cost : Int)

theorem sendWithRetry_answers :
    AnswersStored (sendWithRetry route topic timeout retryTimes rounds cost).1.outcomes
      (sendWithRetry route topic timeout retryTimes rounds cost).2 := by
  have hstart : Remembers ⟨[], none, none, []⟩ := ⟨rfl, by rintro ⟨e, he, -⟩; cases he⟩
  have hrun := sendRounds_sound topic timeout rounds (min (retryTimes + 1) (2 ^ 31 - 1)).toNat 0 _
    hstart
  unfold sendWithRetry
  split
  · exact ⟨fun _ r hr => by simp [lastStored] at hr, fun hu => absurd hu hstart.caught⟩
  · exact ⟨fun _ r hr => by simp [lastStored] at hr, fun hu => absurd hu hstart.caught⟩
  · dsimp only
    split
    next heq =>
      rwa [heq] at hrun
    next heq =>
      rw [heq] at hrun
      exact retriesEnded_answers hrun topic cost true
    next heq =>
      rw [heq] at hrun
      exact retriesEnded_answers hrun topic cost false

/-- **A stored result is what the call returns**, unless the last attempt behind it ended with an
error that no tier catches. -/
theorem stored_result_kept_iff :
    (∀ r, lastStored (sendWithRetry route topic timeout retryTimes rounds cost).1.outcomes = some r →
        (sendWithRetry route topic timeout retryTimes rounds cost).2 = .ok r) ↔
      (EndsUncaught (sendWithRetry route topic timeout retryTimes rounds cost).1.outcomes →
        lastStored (sendWithRetry route topic timeout retryTimes rounds cost).1.outcomes =
          none) := by
  have h := sendWithRetry_answers route topic timeout retryTimes rounds cost
  constructor
  · intro hkept hu
    obtain ⟨e, he⟩ := h.uncaught hu
    rw [Option.eq_none_iff_forall_ne_some]
    intro r hr
    cases (hkept r hr).symm.trans he
  · intro hcond r hr
    by_cases hu : EndsUncaught
        (sendWithRetry route topic timeout retryTimes rounds cost).1.outcomes
    · cases (hcond hu).symm.trans hr
    · exact h.stored hu r hr

namespace Script

/-- The broker stored the message, but its slave was not there. -/
def slaveMissing : SendResult :=
  ⟨.slaveNotAvailable, some "7F00AB", none, 5, none, none, none, none, true⟩

/-- The first attempt is stored that way, the second cannot decode the route of its broker. -/
def storedThenUndecoded (attempt : Nat) : SendRound :=
  { selected := .ok ⟨"T", "a", 0⟩, elapsed := 0, maxPerRequest := -1, retryAnother := true
    retryCodes := []
    sendWithHooks := fun _ _ => if attempt = 0 then .ok slaveMissing else .error (.decode "route") }

end Script

open Script

theorem stored_result_dropped :
    (sendWithRetry (.ok ()) "T" 3000 2 storedThenUndecoded 0).1.outcomes =
        [.ok slaveMissing, .error (.decode "route")] ∧
      (sendWithRetry (.ok ()) "T" 3000 2 storedThenUndecoded 0).2 =
        .error (.decode "route") := by
  exact ⟨rfl, rfl⟩

/-! ## 3. The caller's message -/

def withNamespace (nameSpace topic : String) : String :=
  if nameSpace.isEmpty then topic else wrapNamespace nameSpace topic

/-- What surrounds a synchronous or one-way send. -/
structure SyncEnv where
  /-- `require_client` finds a client -/
  started : Bool
  autoBatch : Bool
  sendMsgTimeout : Int
  /-- `retry_times_when_send_failed` -/
  retryTimes : Int
  nameSpace : String
  maxMessageSize : Int
  /-- `compress_msg_body_over_howmuch` -/
  compressOver : Int
  /-- `compression::compress` with the type and level of the configuration -/
  compress : List UInt8 → Except Error (List UInt8)
  /-- the flag of a body compressed with that type -/
  compressedFlag : Int
  /-- the properties that the send path leaves in the message: it writes nothing else -/
  properties : ExtFields
  /-- `send_by_accumulator`, which gets a copy -/
  sendByAccumulator : Message → Option MessageQueue → Except Error SendResult
  sendPinned : Message → MessageQueue → Int → Int → Except Error SendResult
  /-- `topic_publish_info` -/
  publishInfo : Except Error Unit
  rounds : Message → Int → Nat → SendRound
  cost : Int
  /-- `select_one_message_queue` of a one-way send -/
  selected : Except Error MessageQueue
  needAddr : MessageQueue → Except Error String
  /-- the hook and `send_message_oneway` -/
  sendMessageOneway : Message → MessageQueue → String → Int → Except Error Unit

namespace SyncEnv

variable (env : SyncEnv) (msg : Message) (timeoutMillis : Option Int) (mq : Option MessageQueue)

/-- `try_to_compress_message`: the message, the flag and the body it had. -/
def tryToCompressMessage : Message × Int × Option (List UInt8) :=
  if msg.getBody.isEmpty ∨ Int.bmod msg.getBody.length (2 ^ 32) < env.compressOver then (msg, 0, none)
  else
    match env.compress msg.getBody with
    | .error _ | .ok [] => (msg, 0, none)
    | .ok compressed => ({ msg with body := some compressed }, env.compressedFlag, msg.body)

def restoreCallerMessage (prevBody : Option (List UInt8)) : Message :=
  { msg with body := prevBody.or msg.body, topic := withoutNamespace msg.topic env.nameSpace }

def notStarted : Error := .client none "producer not started, call start() first"

/-- The message under its topic in the namespace. -/
def wrapped : Message := { msg with topic := withNamespace env.nameSpace msg.topic }

/-- `check_message` and `check_pinned_topic` of the wrapped message. -/
def checked : Except Error Unit :=
  match (env.wrapped msg).checkMessage env.maxMessageSize with
  | .error e => .error e.toError
  | .ok () =>
    if mq.any fun q => withNamespace env.nameSpace (env.wrapped msg).topic !=
        withNamespace env.nameSpace q.topic then
      .error (.client none "message's topic not equal mq's topic")
    else .ok ()

/-- `send_inner`: the caller's message afterwards, and the answer. -/
def sendInner : Message × Except Error SendResult :=
  if !env.started then (msg, .error notStarted)
  else
    match env.checked msg mq with
    | .error e => (env.wrapped msg, .error e)
    | .ok () =>
      let timeout := timeoutMillis.getD env.sendMsgTimeout
      let (sent, sysFlag, prevBody) := env.tryToCompressMessage (env.wrapped msg)
      (env.restoreCallerMessage { sent with properties := env.properties } prevBody,
        match mq with
        | some q => env.sendPinned sent q timeout sysFlag
        | none => (sendWithRetry env.publishInfo sent.topic timeout env.retryTimes
            (env.rounds sent sysFlag) env.cost).2)

def send : Message × Except Error SendResult :=
  if timeoutMillis.isNone && env.autoBatch then
    (env.wrapped msg, env.sendByAccumulator (env.wrapped msg) mq)
  else env.sendInner msg timeoutMillis mq

/-- The checks, the queue and the address of a one-way send. -/
def onewayTarget : Except Error (MessageQueue × String) :=
  match env.checked msg none with
  | .error e => .error e
  | .ok () => do
    let q ← match mq with
      | some q => pure q
      | none => do
        env.publishInfo
        let q ← env.selected
        pure ⟨(env.wrapped msg).topic, q.brokerName, q.queueId⟩
    return (q, ← env.needAddr q)

def sendOneway : Message × Except Error Unit :=
  if !env.started then (msg, .error notStarted)
  else
    match env.onewayTarget msg mq with
    | .error e => (env.wrapped msg, .error e)
    | .ok (q, addr) =>
      let (sent, sysFlag, prevBody) := env.tryToCompressMessage (env.wrapped msg)
      (env.restoreCallerMessage { sent with properties := env.properties } prevBody,
        env.sendMessageOneway sent q addr sysFlag)

end SyncEnv

/-! ## 4. When it is left as it was -/

/-- How far a call gets with the caller's message. -/
inductive CallerPath where
  | refused
  | wrapped
  | restored

namespace CallerPath

/-- What the namespace and the topic must be for the topic to come back. A topic without a client
namespace loses what stands before its first `%`. -/
def Keeps (nameSpace topic : String) : CallerPath → Bool
  | refused => true
  | wrapped => nameSpace.isEmpty || topic.isEmpty || isSystemResource topic
  | restored =>
    if nameSpace.isEmpty then isSystemResource topic || (cutAt '%' (withOutRetryAndDlq topic)).all
      fun p => p.1.isEmpty
    else if isSystemResource topic then !carriesNamespace topic nameSpace
    else !containsChar nameSpace '%'

end CallerPath

namespace SyncEnv

variable (env : SyncEnv) (msg : Message) (timeoutMillis : Option Int) (mq : Option MessageQueue)

def sendPath : CallerPath :=
  if timeoutMillis.isNone && env.autoBatch then .wrapped
  else if !env.started then .refused
  else if (env.checked msg mq).isOk then .restored else .wrapped

def onewayPath : CallerPath :=
  if !env.started then .refused
  else if (env.onewayTarget msg mq).isOk then .restored else .wrapped

theorem wrapped_keeps_iff (hcarry : isAlreadyWithNamespace msg.topic env.nameSpace = false) :
    (env.wrapped msg).topic = msg.topic ↔ CallerPath.wrapped.Keeps env.nameSpace msg.topic = true := by
  unfold wrapped withNamespace CallerPath.Keeps
  cases hns : env.nameSpace.isEmpty with
  | true => simp
  | false =>
    cases hne : msg.topic.isEmpty with
    | true => simp [wrapNamespace, hne]
    | false =>
      cases hsys : isSystemResource msg.topic with
      | true => simp [wrapNamespace, hsys]
      | false => simpa using wrapNamespace_ne_self hns hne hsys hcarry

theorem restored_keeps_iff (hne : msg.topic.isEmpty = false)
    (hcarry : isAlreadyWithNamespace msg.topic env.nameSpace = false) :
    withoutNamespace (env.wrapped msg).topic env.nameSpace = msg.topic ↔
      CallerPath.restored.Keeps env.nameSpace msg.topic = true := by
  unfold wrapped withNamespace CallerPath.Keeps
  cases hns : env.nameSpace.isEmpty with
  | true =>
    cases hsys : isSystemResource msg.topic with
    | true => simp [withoutNamespace, hns, hsys]
    | false =>
      cases hcut : cutAt '%' (withOutRetryAndDlq msg.topic) with
      | none => simp [withoutNamespace, cutNamespace, hcut]
      | some p => simpa [withoutNamespace, hns, hsys, hne] using cutNamespace_eq_self_iff hcut
  | false =>
    cases hsys : isSystemResource msg.topic with
    | true =>
      have heq : withoutNamespace msg.topic _ = msg.topic ↔ _ := withoutNamespace_eq_self_iff hns
      simpa [wrapNamespace, hsys] using heq
    | false => simpa using withoutNamespace_wrapped_iff hns hne hsys hcarry

theorem restore_body (sent : Message) (properties : ExtFields) :
    (env.restoreCallerMessage { (env.tryToCompressMessage sent).1 with properties }
        (env.tryToCompressMessage sent).2.2).body = sent.body ∧
      (env.tryToCompressMessage sent).1.topic = sent.topic := by
  unfold tryToCompressMessage restoreCallerMessage
  split
  next => exact ⟨rfl, rfl⟩
  next hbody =>
    split
    · exact ⟨rfl, rfl⟩
    · exact ⟨rfl, rfl⟩
    · refine ⟨?_, rfl⟩
      cases hb : sent.body with
      | none => simp [Message.getBody, hb] at hbody
      | some b => rfl

theorem topic_of_checked (h : env.checked msg mq = .ok ()) : msg.topic.isEmpty = false := by
  rw [← Bool.not_eq_true]
  intro hempty
  have hblank : (env.wrapped msg).topic = "" := by
    rw [wrapped, String.isEmpty_iff.mp hempty, withNamespace]
    split
    · rfl
    · simp [wrapNamespace]
  have hcheck : Message.checkTopic "" = .error ⟨none, "The specified topic is blank"⟩ := rfl
  rw [checked, Message.checkMessage, hblank] at h
  cases h

theorem topic_of_target {p : MessageQueue × String} (h : env.onewayTarget msg mq = .ok p) :
    msg.topic.isEmpty = false := by
  unfold onewayTarget at h
  split at h
  · cases h
  next hc => exact env.topic_of_checked msg none hc

/-- What the restored message is. -/
theorem restored_kept_iff (hne : msg.topic.isEmpty = false)
    (hcarry : isAlreadyWithNamespace msg.topic env.nameSpace = false) :
    ((env.restoreCallerMessage
          { (env.tryToCompressMessage (env.wrapped msg)).1 with properties := env.properties }
          (env.tryToCompressMessage (env.wrapped msg)).2.2).topic = msg.topic ∧
        (env.restoreCallerMessage
          { (env.tryToCompressMessage (env.wrapped msg)).1 with properties := env.properties }
          (env.tryToCompressMessage (env.wrapped msg)).2.2).body = msg.body) ↔
      CallerPath.restored.Keeps env.nameSpace msg.topic = true := by
  obtain ⟨hbody, htopic⟩ := env.restore_body (env.wrapped msg) env.properties
  rw [hbody, restoreCallerMessage, htopic]
  exact (and_iff_left rfl).trans (env.restored_keeps_iff msg hne hcarry)

/-- **The caller's message is left as it was**, exactly if the call is refused at once, or stops
behind the wrapping of a topic that is not wrapped, or restores a topic that stripping gives back. -/
theorem caller_message_kept_iff (hcarry : isAlreadyWithNamespace msg.topic env.nameSpace = false) :
    (((env.send msg timeoutMillis mq).1.topic = msg.topic ∧
          (env.send msg timeoutMillis mq).1.body = msg.body) ↔
        (env.sendPath msg timeoutMillis mq).Keeps env.nameSpace msg.topic = true) ∧
      (((env.sendOneway msg mq).1.topic = msg.topic ∧ (env.sendOneway msg mq).1.body = msg.body) ↔
        (env.onewayPath msg mq).Keeps env.nameSpace msg.topic = true) := by
  have hwrapped : ((env.wrapped msg).topic = msg.topic ∧ (env.wrapped msg).body = msg.body) ↔
      CallerPath.wrapped.Keeps env.nameSpace msg.topic = true :=
    (and_iff_left rfl).trans (env.wrapped_keeps_iff msg hcarry)
  constructor
  · unfold send sendPath sendInner
    split
    · exact hwrapped
    · split
      · exact ⟨fun _ => rfl, fun _ => ⟨rfl, rfl⟩⟩
      · cases hc : env.checked msg mq with
        | error e => exact hwrapped
        | ok u => exact env.restored_kept_iff msg (env.topic_of_checked msg mq hc) hcarry
  · unfold sendOneway onewayPath
    split
    · exact ⟨fun _ => rfl, fun _ => ⟨rfl, rfl⟩⟩
    · cases hc : env.onewayTarget msg mq with
      | error e => exact hwrapped
      | ok p => exact env.restored_kept_iff msg (env.topic_of_target msg mq hc) hcarry

end SyncEnv

namespace Script

/-- A started producer without compression whose sends succeed. -/
def plainProducer (nameSpace : String) (autoBatch : Bool) : SyncEnv :=
  { started := true, autoBatch, sendMsgTimeout := 3000, retryTimes := 2, nameSpace
    maxMessageSize := 4194304, compressOver := 4096, compress := .ok, compressedFlag := 1
    properties := ⟨[]⟩, sendByAccumulator := fun _ _ => .ok slaveMissing
    sendPinned := fun _ _ _ _ => .ok slaveMissing, publishInfo := .ok ()
    rounds := fun _ _ => storedThenUndecoded, cost := 0, selected := .ok ⟨"T", "a", 0⟩
    needAddr := fun _ => .ok "10.0.0.1:10911", sendMessageOneway := fun _ _ _ _ => .ok () }

end Script

theorem caller_message_kept_oneway :
    ((plainProducer "NS" false).sendOneway ⟨"T", 0, ⟨[]⟩, some [1]⟩ none).1.topic = "T" :=
  (((plainProducer "NS" false).caller_message_kept_iff ⟨"T", 0, ⟨[]⟩, some [1]⟩ none none
    (by decide)).2.mpr (by decide +kernel)).1

theorem caller_message_changed :
    ((plainProducer "NS" true).send ⟨"T", 0, ⟨[]⟩, some [1]⟩ none none).1.topic = "NS%T" ∧
      ((plainProducer "" false).send ⟨"a%b", 0, ⟨[]⟩, some [1]⟩ none
        (some ⟨"a%b", "a", 0⟩)).1.topic = "b" := by
  decide +kernel

end RocketMQ
