/-
  File:      RocketMQ/Producer/AsyncSend.lean
  Subject:   One asynchronous send, from the call to its callback.

  After `send_async_inner`, `submit_async_job`, `run_async_send`, `async_send_inner`,
  `send_kernel_async`, `complete_async` and `AsyncSendChain` in `producer.rs`, with
  `build_send_request` and `send_message_async` in `mq_client.rs`. What surrounds the send (the
  configuration, the semaphores, the clock, name server, broker, fault strategy and hooks) answers
  anew at every section: `SendEnv`.
-/
import RocketMQ.Lib.Machine
import RocketMQ.Naming
import RocketMQ.Producer.BatchResult

namespace RocketMQ

open Text

/-! ## 1. The request -/

structure SendMessageRequestHeaderV2 where
  producerGroup : Option String
  topic : Option String
  defaultTopic : Option String
  defaultTopicQueueNums : Option Int
  queueId : Option Int
  sysFlag : Option Int
  bornTimestamp : Option Int
  flag : Option Int
  properties : Option String
  reconsumeTimes : Option Int
  unitMode : Option Bool
  maxReconsumeTimes : Option Int
  batch : Option Bool
  brokerName : Option String
  deriving DecidableEq, Repr

/-- The parts of a `RemotingCommand` that a send fills in. -/
structure SendRequest where
  code : Int
  /-- the number that matches the response to its request -/
  requestId : Int
  header : SendMessageRequestHeaderV2
  body : List UInt8
  deriving DecidableEq, Repr

def messageProperties2String (properties : ExtFields) : String :=
  properties.entries.foldl (fun text e => text ++ e.1 ++ "\x01" ++ e.2 ++ "\x02") ""

/-- `parse::<i32>`. -/
def parseI32 (text : String) : Option Int :=
  (Decimal.parseI64 text).filter fun z => decide (-2147483648 ≤ z ∧ z ≤ 2147483647)

def isReplyMessage (m : Message) : Bool := m.getProperty "MSG_TYPE" == some "reply"

/-- What the producer's configuration contributes to a request. -/
structure SendConfig where
  producerGroup : String
  unitMode : Bool
  createTopicKey : String
  defaultTopicQueueNums : Int
  deriving DecidableEq, Repr

/-- `build_send_request`, after `set_uniq_id`. -/
def buildSendRequest (cfg : SendConfig) (m : Message) (batch : Bool) (mq : MessageQueue)
    (sysFlag now requestId : Int) : SendRequest :=
  let retried := isRetryTopic m.topic
  { code := if isReplyMessage m then 325 else if batch then 320 else 310
    requestId
    header :=
      { producerGroup := some cfg.producerGroup
        topic := some m.topic
        defaultTopic := some (if cfg.createTopicKey.isEmpty then "TBW102" else cfg.createTopicKey)
        defaultTopicQueueNums := some cfg.defaultTopicQueueNums
        queueId := some mq.queueId
        sysFlag := some sysFlag
        bornTimestamp := some now
        flag := some m.flag
        properties := some (messageProperties2String m.properties)
        reconsumeTimes := some (if retried then
          ((m.getProperty "RECONSUME_TIME").bind parseI32).getD 0 else 0)
        unitMode := some cfg.unitMode
        maxReconsumeTimes :=
          if retried then (m.getProperty "MAX_RECONSUME_TIMES").bind parseI32 else none
        batch := some batch
        brokerName := if mq.brokerName.isEmpty then none else some mq.brokerName }
    body := m.getBody }

/-! ## 2. Permits, effects and the chain -/

/-- What a send does with the semaphores and with its callback. -/
inductive SendEffect where
  | acquireNum
  | acquireSize (permits : Int)
  | releaseNum
  | releaseSize (permits : Int)
  | callback (outcome : Except Error SendResult)
  deriving DecidableEq

structure SendPermits where
  numAcquired : Bool
  sizeAcquired : Bool
  msgLen : Int
  deriving DecidableEq, Repr

/-- `SendPermits::drop`. -/
def SendPermits.drop (p : SendPermits) : List SendEffect :=
  (if p.sizeAcquired then [.releaseSize p.msgLen] else []) ++
    (if p.numAcquired then [.releaseNum] else [])

def backPressureMsgLen (m : Message) : Int := if m.getBody.isEmpty then 1 else m.bodyLen

/-- `AsyncSendChain`. Its permits and its hook context are there until it finishes. -/
structure AsyncSendChain where
  /-- without its body -/
  msg : Message
  request : SendRequest
  /-- the caller named the queue: `publish` is `None` -/
  pinned : Bool
  brokerName : String
  mq : MessageQueue
  addr : String
  timeout : Int
  times : Int32
  hooked : Bool
  permits : SendPermits
  deriving DecidableEq, Repr

/-- A request that was handed to the remoting client. -/
structure WrittenRequest where
  addr : String
  request : SendRequest
  /-- the queue that was selected for this attempt -/
  mq : MessageQueue
  timeout : Int
  deriving DecidableEq, Repr

/-- Where the job of a send stands. -/
inductive AsyncPc where
  /-- in `send_async_inner` -/
  | called
  /-- before `acquire_send_permits` -/
  | queued
  /-- before the second semaphore -/
  | counted
  /-- `acquire_send_permits` is through -/
  | admitted (permits : SendPermits)
  /-- before `send_kernel_async` -/
  | routed (permits : SendPermits) (msg : Message) (mq : MessageQueue) (pinned : Bool)
      (timeout : Int)
  /-- the remoting client has the request -/
  | inFlight (chain : AsyncSendChain)
  | done
  deriving DecidableEq, Repr

/-- What surrounds the send, as one section finds it. -/
structure SendEnv where
  /-- `require_client` finds a client -/
  started : Bool
  /-- there is a runtime -/
  runtime : Bool
  /-- `try_submit`, or none after a shutdown -/
  executor : Option Bool
  /-- `is_enable_backpressure_for_async_mode` -/
  backpressure : Bool
  sendMsgTimeout : Int
  /-- `retry_times_when_send_async_failed` -/
  retryTimes : Int32
  nameSpace : String
  maxMessageSize : Int
  config : SendConfig
  /-- `latency_since`, in milliseconds -/
  cost : Int
  /-- the semaphore grants the permits within the budget -/
  granted : Bool
  /-- `topic_publish_info` -/
  publishInfo : Except Error Unit
  /-- `select_one_message_queue` of the fault strategy -/
  selected : Except Error MessageQueue
  /-- compression and trace context: the message as it is sent, and its system flag -/
  prepare : Message → Message × Int
  fresh : UniqId
  now : Int
  requestId : Int
  /-- `publish_addr_for` -/
  publishAddr : Except Error String
  /-- `execute_check_forbidden`, if there is a hook -/
  forbidden : Except Error Unit
  /-- there is a send hook -/
  hooked : Bool
  /-- the exception that the hooks leave in the context -/
  exceptionLeft : Error → Option Error
  /-- `find_broker_address_in_publish` -/
  brokerAddr : String → Option String
  /-- what the remoting client completes the invocation with -/
  response : Except Error SendResponse

def SendEnv.withNamespace (env : SendEnv) (topic : String) : String :=
  if env.nameSpace.isEmpty then topic else NamespaceUtil.wrapNamespace env.nameSpace topic

/-- **An asynchronous send.** -/
structure AsyncSend where
  msg : Message
  timeoutMillis : Option Int
  mq : Option MessageQueue
  timeout : Int
  pc : AsyncPc
  /-- what `send_async` returned -/
  returned : Option (Except Error Unit)
  written : List WrittenRequest
  effects : List SendEffect

/-! ## 3. Its sections -/

namespace AsyncSend

def start (msg : Message) (timeoutMillis : Option Int) (mq : Option MessageQueue) : AsyncSend :=
  { msg, timeoutMillis, mq, timeout := 0, pc := .called, returned := none, written := [],
    effects := [] }

variable (s : AsyncSend) (env : SendEnv)

/-- `send_async` returns an error; the job is dropped. -/
def refuse (message : String) : AsyncSend :=
  { s with pc := .done, returned := some (.error (.client none message)) }

/-- `send_async_inner` and `submit_async_job`. -/
def submit : AsyncSend :=
  if !env.started then s.refuse "producer not started, call start() first"
  else if !env.runtime then s.refuse "send_async needs a tokio runtime; call start() first"
  else
    match env.executor with
    | none => s.refuse "producer already shutdown"
    | some accepted =>
      -- with back-pressure a job that the executor does not take is spawned
      if !accepted && !env.backpressure then s.refuse "executor rejected"
      else
        { s with
          pc := .queued
          returned := some (.ok ())
          timeout := s.timeoutMillis.getD env.sendMsgTimeout }

/-- `complete_async`: the hooks, then the permits, then the callback. -/
def completeAsync (outcome : Except Error SendResult)
    (hooked : Bool) (permits : Option SendPermits) : AsyncSend :=
  let outcome :=
    match outcome with
    | .ok result => .ok result
    | .error e =>
      if hooked then
        match env.exceptionLeft e with
        | some e => .error e
        | none => .error (.client none "send message failed")
      else .error e
  { s with
    pc := .done
    effects := s.effects ++ permits.elim [] SendPermits.drop ++ [.callback outcome] }

def failAsync (e : Error) (permits : SendPermits) : AsyncSend :=
  s.completeAsync env (.error e) false (some permits)

/-- `acquire_send_permits`, up to the first semaphore. -/
def acquireNum : AsyncSend :=
  if !env.backpressure then
    { s with pc := .admitted ⟨false, false, backPressureMsgLen s.msg⟩ }
  else if s.timeout - env.cost > 0 ∧ env.granted then
    { s with pc := .counted, effects := s.effects ++ [.acquireNum] }
  else
    s.completeAsync env
      (.error (.tooMuchRequest "send message tryAcquire semaphoreAsyncNum timeout")) false none

/-- The rest of `acquire_send_permits`: without the second permit the first one is dropped. -/
def acquireSize : AsyncSend :=
  let len := backPressureMsgLen s.msg
  if s.timeout - env.cost > 0 ∧ env.granted then
    { s with pc := .admitted ⟨true, true, len⟩, effects := s.effects ++ [.acquireSize len] }
  else
    { s with effects := s.effects ++ SendPermits.drop ⟨true, false, len⟩ }.completeAsync env
      (.error (.tooMuchRequest "send message tryAcquire semaphoreAsyncSize timeout")) false none

/-- `async_send_inner`, up to `send_kernel_async`. -/
def route (permits : SendPermits) (timeout : Int) : AsyncSend :=
  if !env.started then
    s.failAsync env (.client none "producer not started, call start() first") permits
  else
    let topic := env.withNamespace s.msg.topic
    let msg := { s.msg with topic }
    match msg.checkMessage env.maxMessageSize with
    | .error e => s.failAsync env e.toError permits
    | .ok () =>
      match s.mq with
      | some mq =>
        if env.withNamespace msg.topic ≠ env.withNamespace mq.topic then
          s.failAsync env
            (.client none "Topic of the message does not match its target message queue")
            permits
        else { s with pc := .routed permits msg mq true timeout }
      | none =>
        match env.publishInfo with
        | .error (.client code m) =>
          s.failAsync env (.client (some (code.getD 10005)) (Error.client code m).display)
            permits
        | .error e => s.failAsync env e permits
        | .ok () =>
          match env.selected with
          | .ok q =>
            { s with pc := .routed permits msg ⟨topic, q.brokerName, q.queueId⟩ false timeout }
          | .error e =>
            s.failAsync env
              (.client none ("Send [0] times, still failed, Topic: " ++ topic
                ++ ", BrokersSent: [], last error: " ++ e.display)) permits

/-- `run_async_send`, after the permits. -/
def runAsyncSend (permits : SendPermits) : AsyncSend :=
  if s.timeout ≤ env.cost then
    s.failAsync env (.tooMuchRequest "DEFAULT ASYNC send call timeout") permits
  else s.route env permits (s.timeout - env.cost)

variable (chain : AsyncSendChain)

/-- `AsyncSendChain::attempt`. A repeated request gets a new number. -/
def attempt : AsyncSend :=
  let request :=
    if chain.times > 0 then { chain.request with requestId := env.requestId } else chain.request
  { s with
    pc := .inFlight { chain with request }
    written := s.written ++ [⟨chain.addr, request, chain.mq, chain.timeout⟩] }

def sendKernelAsync (permits : SendPermits) (msg : Message)
    (mq : MessageQueue) (pinned : Bool) (timeout : Int) : AsyncSend :=
  match env.publishAddr with
  | .error e => s.failAsync env e permits
  | .ok addr =>
    match env.forbidden with
    | .error e => s.failAsync env e permits
    | .ok () =>
      let sent := (env.prepare msg).1.setUniqId env.fresh
      if timeout < env.cost then
        s.completeAsync env (.error (.tooMuchRequest "sendKernelImpl call timeout")) env.hooked
          (some permits)
      else
        s.attempt env
          { msg := { sent with body := none }
            request := buildSendRequest env.config sent false mq (env.prepare msg).2 env.now
              env.requestId
            pinned, brokerName := mq.brokerName, mq, addr, timeout := timeout - env.cost
            times := 0, hooked := env.hooked, permits }

def classifyAsyncFailure (e : Error) (cost : Int) : Error × Bool :=
  match e with
  | .sendRequest _ _ => (.client none ("send request failed, last error: " ++ e.display), true)
  | .timeout _ _ =>
    (.client none ("wait response timeout, cost=" ++ toString cost ++ ", last error: "
      ++ e.display), true)
  | .tooMuchRequest _ => (.client none ("unknown reason, last error: " ++ e.display), false)
  | .connect _ => (.client none ("unknown reason, last error: " ++ e.display), true)
  | .remotingCommand _ => (.client none ("unknown reason, last error: " ++ e.display), true)
  | .io _ => (.client none ("unknown reason, last error: " ++ e.display), true)
  | e => (e, false)

/-- `AsyncSendChain::finish`. -/
def finish (outcome : Except Error SendResult) : AsyncSend :=
  s.completeAsync env outcome chain.hooked (some chain.permits)

/-- The queue for the next attempt: another one, unless the caller named it or there is none. -/
def nextQueue : String × MessageQueue :=
  if chain.pinned then (chain.brokerName, chain.mq)
  else
    match env.selected with
    | .ok q => (q.brokerName, ⟨chain.mq.topic, q.brokerName, q.queueId⟩)
    | .error _ => (chain.brokerName, chain.mq)

/-- `AsyncSendChain::on_exception`. The count of 32 bits wraps around. -/
def onException (e : Error) (needRetry : Bool) : AsyncSend :=
  let chain := { chain with times := chain.times + 1 }
  let remaining := chain.timeout - env.cost
  if needRetry ∧ chain.times ≤ env.retryTimes ∧ remaining > 0 then
    let (brokerName, mq) := nextQueue env chain
    match env.brokerAddr brokerName with
    | none => s.finish env chain (.error (.client none ("The broker[" ++ brokerName ++ "] not exist")))
    | some addr => s.attempt env { chain with brokerName, mq, addr, timeout := remaining }
  else s.finish env chain (.error e)

/-- `AsyncSendChain::on_response`, with the parsing of `send_message_async`. -/
def onResponse : AsyncSend :=
  match env.response.bind fun r => parseSendResponse r chain.msg chain.mq with
  | .ok result => s.finish env chain (.ok result)
  | .error e =>
    s.onException env chain (classifyAsyncFailure e env.cost).1
      (classifyAsyncFailure e env.cost).2

/-- **The next section.** -/
def step : AsyncSend :=
  match s.pc with
  | .called => s.submit env
  | .queued => s.acquireNum env
  | .counted => s.acquireSize env
  | .admitted permits => s.runAsyncSend env permits
  | .routed permits msg mq pinned timeout => s.sendKernelAsync env permits msg mq pinned timeout
  | .inFlight chain => s.onResponse env chain
  | .done => s

/-- The response makes the chain try again. -/
def triesAgain : Bool :=
  match env.response.bind fun r => parseSendResponse r chain.msg chain.mq with
  | .ok _ => false
  | .error e =>
    (classifyAsyncFailure e env.cost).2 && decide (chain.times + 1 ≤ env.retryTimes) &&
      decide (chain.timeout - env.cost > 0)

end AsyncSend

/-! ## 4. What a section can do -/

/-- The request names this queue, an empty broker name by leaving it out. -/
def SendRequest.names (request : SendRequest) (mq : MessageQueue) : Prop :=
  request.header.queueId = some mq.queueId ∧
    request.header.brokerName = if mq.brokerName.isEmpty then none else some mq.brokerName

/-- The permits of a job that is past the semaphores. -/
def AsyncPc.permits : AsyncPc → Option SendPermits
  | admitted permits => some permits
  | routed permits _ _ _ _ => some permits
  | inFlight chain => some chain.permits
  | _ => none

/-- **The sections, by what they change.** -/
inductive AsyncRule (s : AsyncSend) (env : SendEnv) : AsyncSend → Prop where
  /-- `send_async` returns an error -/
  | refused {message} (hpc : s.pc = .called) : AsyncRule s env (s.refuse message)
  | submitted {timeout} (hpc : s.pc = .called) :
      AsyncRule s env { s with pc := .queued, returned := some (.ok ()), timeout }
  /-- no back-pressure, no permits -/
  | unlimited (hpc : s.pc = .queued) :
      AsyncRule s env { s with pc := .admitted ⟨false, false, backPressureMsgLen s.msg⟩ }
  | counted (hpc : s.pc = .queued) :
      AsyncRule s env { s with pc := .counted, effects := s.effects ++ [.acquireNum] }
  /-- without the first permit -/
  | uncounted {r} (hpc : s.pc = .queued) :
      AsyncRule s env { s with pc := .done, effects := s.effects ++ [.callback r] }
  | sized {len} (hpc : s.pc = .counted) :
      AsyncRule s env
        { s with pc := .admitted ⟨true, true, len⟩, effects := s.effects ++ [.acquireSize len] }
  /-- without the second permit -/
  | unsized {r} (hpc : s.pc = .counted) :
      AsyncRule s env { s with pc := .done, effects := s.effects ++ [.releaseNum] ++ [.callback r] }
  | routed {permits msg mq pinned timeout} (hpc : s.pc = .admitted permits) :
      AsyncRule s env { s with pc := .routed permits msg mq pinned timeout }
  /-- the first attempt -/
  | written {permits msg mq pinned timeout chain}
      (hpc : s.pc = .routed permits msg mq pinned timeout) (hnames : chain.request.names chain.mq)
      (htimes : chain.times = 0) (hpermits : chain.permits = permits) :
      AsyncRule s env (s.attempt env chain)
  /-- another attempt, with the same request -/
  | again {chain addr timeout}
      (hpc : s.pc = .inFlight chain) (hagain : AsyncSend.triesAgain env chain = true) :
      AsyncRule s env (s.attempt env
        { chain with
          times := chain.times + 1
          brokerName := (AsyncSend.nextQueue env chain).1
          mq := (AsyncSend.nextQueue env chain).2
          addr, timeout })
  /-- the permits are dropped and the callback is called -/
  | finished {permits r} (hpc : s.pc.permits = some permits) :
      AsyncRule s env { s with pc := .done, effects := s.effects ++ permits.drop ++ [.callback r] }
  | idle (hpc : s.pc = .done) : AsyncRule s env s

namespace AsyncRule

variable {s : AsyncSend} {env : SendEnv} {permits : SendPermits}

theorem of_completeAsync (hpc : s.pc.permits = some permits)
    (outcome : Except Error SendResult) (hooked : Bool) :
    AsyncRule s env (s.completeAsync env outcome hooked (some permits)) :=
  .finished hpc

theorem of_submit (hpc : s.pc = .called) : AsyncRule s env (s.submit env) := by
  unfold AsyncSend.submit
  split
  · exact .refused hpc
  · split
    · exact .refused hpc
    · split
      · exact .refused hpc
      · split
        · exact .refused hpc
        · exact .submitted hpc

theorem of_acquireNum (hpc : s.pc = .queued) : AsyncRule s env (s.acquireNum env) := by
  unfold AsyncSend.acquireNum
  split
  · exact .unlimited hpc
  · split
    · exact .counted hpc
    · rw [AsyncSend.completeAsync, Option.elim_none, List.append_nil]
      exact .uncounted hpc

theorem of_acquireSize (hpc : s.pc = .counted) : AsyncRule s env (s.acquireSize env) := by
  unfold AsyncSend.acquireSize
  split
  · exact .sized hpc
  · rw [AsyncSend.completeAsync, Option.elim_none, List.append_nil]
    exact .unsized hpc

theorem of_route {timeout : Int} (hpc : s.pc = .admitted permits) :
    AsyncRule s env (s.route env permits timeout) := by
  have hpermits : s.pc.permits = some permits := congrArg _ hpc
  unfold AsyncSend.route AsyncSend.failAsync
  dsimp only
  split
  · exact of_completeAsync hpermits ..
  · generalize Message.checkMessage _ _ = check
    cases check with
    | error e => exact of_completeAsync hpermits ..
    | ok u =>
      dsimp only
      split
      · split
        · exact of_completeAsync hpermits ..
        · exact .routed hpc
      · split
        · exact of_completeAsync hpermits ..
        · exact of_completeAsync hpermits ..
        · split
          · exact .routed hpc
          · exact of_completeAsync hpermits ..

theorem of_runAsyncSend (hpc : s.pc = .admitted permits) :
    AsyncRule s env (s.runAsyncSend env permits) := by
  have hpermits : s.pc.permits = some permits := congrArg _ hpc
  unfold AsyncSend.runAsyncSend
  split
  · exact of_completeAsync hpermits ..
  · exact of_route hpc

theorem of_sendKernelAsync {msg : Message} {mq : MessageQueue}
    {pinned : Bool} {timeout : Int} (hpc : s.pc = .routed permits msg mq pinned timeout) :
    AsyncRule s env (s.sendKernelAsync env permits msg mq pinned timeout) := by
  have hpermits : s.pc.permits = some permits := congrArg _ hpc
  unfold AsyncSend.sendKernelAsync
  split
  · exact of_completeAsync hpermits ..
  · split
    · exact of_completeAsync hpermits ..
    · split
      · exact of_completeAsync hpermits ..
      · exact .written hpc ⟨rfl, rfl⟩ rfl rfl

theorem of_onResponse {chain : AsyncSendChain} (hpc : s.pc = .inFlight chain) :
    AsyncRule s env (s.onResponse env chain) := by
  have hpermits : s.pc.permits = some chain.permits := congrArg _ hpc
  unfold AsyncSend.onResponse
  split
  · exact of_completeAsync hpermits ..
  · rename_i e he
    unfold AsyncSend.onException
    dsimp only
    split
    · rename_i hretry
      have hagain : AsyncSend.triesAgain env chain = true := by
        unfold AsyncSend.triesAgain
        rw [he]
        simpa [and_assoc] using hretry
      split
      · exact of_completeAsync hpermits ..
      · exact .again hpc hagain
    · exact of_completeAsync hpermits ..

/-- **Every step follows one of the rules.** -/
theorem of_step (s : AsyncSend) (env : SendEnv) : AsyncRule s env (s.step env) := by
  unfold AsyncSend.step
  split
  · rename_i hpc
    exact of_submit hpc
  · rename_i hpc
    exact of_acquireNum hpc
  · rename_i hpc
    exact of_acquireSize hpc
  · rename_i hpc
    exact of_runAsyncSend hpc
  · rename_i hpc
    exact of_sendKernelAsync hpc
  · rename_i hpc
    exact of_onResponse hpc
  · rename_i hpc
    exact .idle hpc

end AsyncRule

end RocketMQ
