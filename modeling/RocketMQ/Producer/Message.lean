/-
  File:      RocketMQ/Producer/Message.lean
  Subject:   The message a producer sends, its checks and the batch it is merged into.

  After `Message` and `MessageBatch` in `message.rs`, `validators.rs`, `message_client_id_setter.rs`
  and the head of `produce_accumulator.rs`.

  * `Message.checkMessage`: the checks before a send, with their texts;
  * `Message.batchable`: the part of `can_batch` that looks at the message.
-/
import RocketMQ.Lib.Decimal
import RocketMQ.Naming

namespace RocketMQ

open Text

/-! ## 1. Messages -/

structure Message where
  topic : String
  flag : Int
  properties : ExtFields
  body : Option (List UInt8)
  deriving DecidableEq, Repr

namespace Message

/-- `Message::default`. -/
def empty : Message := ⟨"", 0, ⟨[]⟩, none⟩

variable (m : Message)

def getBody : List UInt8 := m.body.getD []

/-- The length of the body, as the accumulator counts it. -/
def bodyLen : Int := m.getBody.length

def getProperty (name : String) : Option String := m.properties.get name

def putProperty (name value : String) : Message :=
  { m with properties := m.properties.insert name value }

def getTags : Option String := m.getProperty "TAGS"

def getKeys : Option String := m.getProperty "KEYS"

/-- `str::eq_ignore_ascii_case`. -/
def eqIgnoreAsciiCase (a b : String) : Bool :=
  a.toList.map Char.toLower == b.toList.map Char.toLower

/-- `wait_store_msg_ok_of`: a missing property counts as true. -/
def waitStoreMsgOkOf : Option String → Bool
  | none => true
  | some value => eqIgnoreAsciiCase value "true"

def isWaitStoreMsgOk : Bool := waitStoreMsgOkOf (m.getProperty "WAIT")

def setWaitStoreMsgOk (ok : Bool) : Message :=
  m.putProperty "WAIT" (if ok then "true" else "false")

end Message

/-! ## 2. Client message ids -/

/-- What `bytes_2_string` writes. -/
def isUpperHex (c : Char) : Bool := "0123456789ABCDEF".toList.contains c

/-- A text that `create_uniq_id` can return. -/
structure UniqId where
  text : String
  hex : text.toList.all isUpperHex = true
  notEmpty : text ≠ ""

theorem UniqId.no_comma (u : UniqId) : containsChar u.text ',' = false := by
  rw [containsChar, List.contains_eq_mem, decide_eq_false_iff_not]
  intro hmem
  exact absurd (List.all_eq_true.mp u.hex _ hmem) (by decide)

namespace Message

def getUniqId (m : Message) : Option String := m.getProperty "UNIQ_KEY"

/-- `set_uniq_id`: an id that is there stays. -/
def setUniqId (m : Message) (fresh : UniqId) : Message :=
  if m.getUniqId.isNone then m.putProperty "UNIQ_KEY" fresh.text else m

end Message

/-! ## 3. Errors and checks -/

inductive Error where
  | remotingCommand (message : String)
  | connect (addr : String)
  | sendRequest (addr message : String)
  | timeout (addr : String) (timeoutMillis : Int)
  | tooMuchRequest (message : String)
  | server (responseCode : Int) (remark : String)
  | client (responseCode : Option Int) (message : String)
  | broker (responseCode : Int) (message : String)
  | requestTimeout (topic : String) (timeoutMillis : Int)
  | decode (message : String)
  | encode (message : String)
  /-- with the text of the system's error -/
  | io (text : String)
  /-- with the text of the parser's error -/
  | json (text : String)
  deriving DecidableEq, Repr

/-- `Error::fmt`. -/
def Error.display : Error → String
  | remotingCommand m => "remoting command error: " ++ m
  | connect addr => "connect to " ++ addr ++ " failed"
  | sendRequest addr m => "send request to " ++ addr ++ " failed: " ++ m
  | timeout addr t => "wait response on the channel " ++ addr ++ " timeout, " ++ toString t ++ "ms"
  | tooMuchRequest m => "too much request: " ++ m
  | server code remark => "response code " ++ toString code ++ ", remark " ++ remark.quote
  | client (some code) m => "MQClientException(code=" ++ toString code ++ "): " ++ m
  | client none m => "MQClientException: " ++ m
  | broker code m => "MQBrokerException(code=" ++ toString code ++ "): " ++ m
  | requestTimeout topic t =>
    "send request message to <" ++ topic ++ "> OK, but wait reply message timeout, " ++ toString t
      ++ " ms."
  | decode m => "decode error: " ++ m
  | encode m => "encode error: " ++ m
  | io text => "io error: " ++ text
  | json text => "json error: " ++ text

/-- `Error::response_code`. -/
def Error.responseCode : Error → Option Int
  | server code _ => some code
  | client code _ => code
  | broker code _ => some code
  | requestTimeout _ _ => some 10006
  | _ => none

/-- `Error::Client`. -/
structure ClientError where
  responseCode : Option Int
  message : String
  deriving DecidableEq, Repr

def ClientError.toError (e : ClientError) : Error := .client e.responseCode e.message

namespace Message

def messageIllegal : Int := 13

def topicMaxLength : Nat := 127

def validCharPattern : String := "^[%|a-zA-Z0-9_-]+$"

/-- `allowed_char`, on characters: a byte from 0x80 on belongs to a character that is not ASCII. -/
def allowedChar (c : Char) : Bool :=
  c.isAlphanum || c == '%' || c == '-' || c == '_' || c == '|'

def isTopicOrGroupIllegal (name : String) : Bool := name.toList.any fun c => !allowedChar c

def checkTopic (topic : String) : Except ClientError Unit :=
  if (trim topic).isEmpty then .error ⟨none, "The specified topic is blank"⟩
  else if topic.length > topicMaxLength then
    .error ⟨none, "The specified topic is longer than topic max length " ++ toString topicMaxLength
      ++ "."⟩
  else if isTopicOrGroupIllegal topic then
    .error ⟨none, "The specified topic[" ++ topic ++ "] contains illegal characters, allowing only "
      ++ validCharPattern⟩
  else .ok ()

def notAllowedSendTopicSet : List String :=
  ["SCHEDULE_TOPIC_XXXX", "RMQ_SYS_TRANS_HALF_TOPIC", "RMQ_SYS_TRANS_OP_HALF_TOPIC",
    "TRANS_CHECK_MAX_TIME_TOPIC", "SELF_TEST_TOPIC", "OFFSET_MOVED_EVENT",
    "RMQ_SYS_ROCKSDB_TRANS_HALF_TOPIC", "RMQ_SYS_ROCKSDB_TRANS_OP_HALF_TOPIC"]

def isNotAllowedSendTopic (topic : String) : Except ClientError Unit :=
  if notAllowedSendTopicSet.contains topic then
    .error ⟨none, "Sending message to topic[" ++ topic ++ "] is forbidden."⟩
  else .ok ()

/-- `x as usize` for an `i32`. -/
def asUsize (z : Int) : Nat := (z % 2 ^ 64).toNat

/-- The separator of paths on the systems the client runs on. -/
def fileSeparator : Char := '/'

def checkBody (maxMessageSize : Int) : Option (List UInt8) → Except ClientError Unit
  | none => .error ⟨some messageIllegal, "the message body is null"⟩
  | some [] => .error ⟨some messageIllegal, "the message body length is zero"⟩
  | some (b :: bs) =>
    if (b :: bs).length > asUsize maxMessageSize then
      .error ⟨some messageIllegal, "the message body size over max value, MAX: "
        ++ toString maxMessageSize⟩
    else .ok ()

def checkMultiDispatch : Option String → Except ClientError Unit
  | none => .ok ()
  | some path =>
    if !path.isEmpty && containsChar path fileSeparator then
      .error ⟨some messageIllegal, "INNER_MULTI_DISPATCH " ++ path ++ " can not contains "
        ++ String.singleton fileSeparator ++ " character"⟩
    else .ok ()

def checkMessage (m : Message) (maxMessageSize : Int) : Except ClientError Unit := do
  checkTopic m.topic
  isNotAllowedSendTopic m.topic
  checkBody maxMessageSize m.body
  checkMultiDispatch (m.getProperty "INNER_MULTI_DISPATCH")

def checkAndStamp (m : Message) (maxMessageSize : Int) (fresh : UniqId) :
    Except ClientError Message :=
  match m.checkMessage maxMessageSize with
  | .ok () => .ok (m.setUniqId fresh)
  | .error e => .error e

@[simp] theorem setUniqId_body (m : Message) (fresh : UniqId) :
    (m.setUniqId fresh).body = m.body := by
  unfold setUniqId
  split
  · rfl
  · rfl

/-! ## 4. Batching -/

def timerDelayKeys : List String := ["TIMER_DELAY_MS", "TIMER_DELAY_SEC", "TIMER_DELIVER_MS"]

/-- A delay property, unreadable text read as 0. -/
def delayOf (raw : String) : Int := (Decimal.parseI64 (trim raw)).getD 0

def maxDelayValue (m : Message) : Int :=
  timerDelayKeys.foldl
    (fun best key =>
      match m.getProperty key with
      | some raw => if delayOf raw > best then delayOf raw else best
      | none => best)
    ((m.getProperty "DELAY").elim 0 delayOf)

/-- What `can_batch` asks of the message after the reservation. -/
def batchable (m : Message) : Bool :=
  !decide (m.maxDelayValue > 0) && !startsWith m.topic retryGroupTopicPrefix
    && (m.getProperty "PGROUP").isNone

end Message

structure AggregateKey where
  topic : String
  mq : Option MessageQueue
  waitStoreMsgOk : Bool
  tag : Option String
  deriving DecidableEq, Repr

/-- `AggregateKey::of_message` and `of_message_with_mq`. -/
def AggregateKey.ofMessage (m : Message) (mq : Option MessageQueue) : AggregateKey :=
  ⟨m.topic, mq, m.isWaitStoreMsgOk, m.getTags⟩

structure MessageBatch where
  message : Message
  messages : List Message
  deriving DecidableEq, Repr

end RocketMQ
