/-
  File:      RocketMQ/Producer/BatchResult.lean
  Subject:   From a batch's response to the results its callers get.

  After `build_batch`, `split_send_results` and `send_result` in `produce_accumulator.rs` and
  `parse_send_response` in `mq_client.rs`. The splitting expects the comma-joined ids of the batch's
  messages in the result's message id; `build_batch` gives the batch an id of its own, and the
  parsing prefers that one.

  * `results_attributed_iff`: for which batches this is so.
-/
import RocketMQ.Producer.Message

namespace RocketMQ

open Text

/-! ## 1. The response -/

/-- `ext_i64`: missing and unreadable are the same. -/
def extI64 (ext : ExtFields) (key : String) : Option Int :=
  (ext.get key).bind fun v => Decimal.parseI64 (trim v)

def extI32 (ext : ExtFields) (key : String) : Option Int :=
  (extI64 ext key).filter fun z => decide (-2147483648 ≤ z ∧ z ≤ 2147483647)

structure SendMessageResponseHeader where
  msgId : Option String
  queueId : Option Int
  queueOffset : Option Int
  transactionId : Option String
  batchUniqId : Option String
  recallHandle : Option String
  deriving DecidableEq, Repr

/-- `SendMessageResponseHeader::from_ext_fields`. -/
def SendMessageResponseHeader.fromExtFields (ext : ExtFields) : SendMessageResponseHeader :=
  { msgId := ext.get "msgId"
    queueId := extI32 ext "queueId"
    queueOffset := extI64 ext "queueOffset"
    transactionId := ext.get "transactionId"
    batchUniqId := ext.get "batchUniqId"
    recallHandle := ext.get "recallHandle" }

/-- The part of a `RemotingCommand` that answers a send. -/
structure SendResponse where
  code : Int
  remark : Option String
  extFields : ExtFields
  deriving DecidableEq, Repr

inductive SendStatus where
  | sendOk
  | flushDiskTimeout
  | flushSlaveTimeout
  | slaveNotAvailable
  deriving DecidableEq, Repr

/-- The response codes that carry a result. -/
def sendStatusOf (code : Int) : Option SendStatus :=
  if code = 0 then some .sendOk
  else if code = 10 then some .flushDiskTimeout
  else if code = 12 then some .flushSlaveTimeout
  else if code = 11 then some .slaveNotAvailable
  else none

structure SendResult where
  status : SendStatus
  msgId : Option String
  messageQueue : Option MessageQueue
  queueOffset : Int
  transactionId : Option String
  offsetMsgId : Option String
  regionId : Option String
  recallHandle : Option String
  traceOn : Bool
  deriving DecidableEq, Repr

/-- The text, unless it is empty. -/
def nonEmptyText (text : Option String) : Option String := text.filter fun s => !s.isEmpty

def parseSendResponse (response : SendResponse) (msg : Message) (mq : MessageQueue) :
    Except Error SendResult :=
  match sendStatusOf response.code with
  | none => .error (.broker response.code (response.remark.getD ""))
  | some status =>
    let header := SendMessageResponseHeader.fromExtFields response.extFields
    let uniqId := (nonEmptyText msg.getUniqId).or (nonEmptyText header.batchUniqId)
    .ok
      { status
        msgId := uniqId.or header.msgId
        messageQueue := some ⟨mq.topic, mq.brokerName, header.queueId.getD mq.queueId⟩
        queueOffset := header.queueOffset.getD 0
        transactionId := header.transactionId
        offsetMsgId := header.msgId
        recallHandle := header.recallHandle
        regionId := some ((nonEmptyText (response.extFields.get "MSG_REGION")).getD
          "DefaultRegion")
        traceOn := (response.extFields.get "TRACE_ON").all fun value => value != "false" }

/-! ## 2. The batch -/

/-- `split_keys_into`: trailing empty parts do not count. -/
def splitKeysInto (keys : List String) (raw : String) : List String :=
  ((split ' ' raw).reverse.dropWhile String.isEmpty).reverse.foldl
    (fun keys part => if keys.contains part then keys else keys ++ [part]) keys

variable (encode : List Message → List UInt8) (key : AggregateKey) (keys : List String)
  (messages : List Message) (fresh : UniqId)

/-- `build_batch`. The keys of the messages are written in order, an empty set as `""`; the id is
written last, on a message that has none. `encode` is `encode_messages`. -/
def buildBatch : MessageBatch :=
  let outer := { Message.empty with topic := key.topic }
  let outer := outer.setWaitStoreMsgOk key.waitStoreMsgOk
  let outer := outer.putProperty "KEYS" (join ' ' (keys.insertionSort (· ≤ ·)))
  let outer := match key.tag with
    | some tag => outer.putProperty "TAGS" tag
    | none => outer
  let outer := outer.setUniqId fresh
  { message := { outer with body := some (encode messages) }, messages }

/-- One caller's part of the batch result. -/
def splitOne (r : SendResult) (i : Nat) (id offset : String) : SendResult :=
  { r with msgId := some id, offsetMsgId := some offset, queueOffset := r.queueOffset + i }

/-- `split_send_results`: with a comma in the message id one part for each message, without one the
result itself for all of them. -/
def splitSendResults (count : Nat) (r : SendResult) : Except Error (List SendResult) :=
  let msgId := r.msgId.getD ""
  if containsChar msgId ',' then
    let ids := split ',' msgId
    let offsets := split ',' (r.offsetMsgId.getD "")
    if ids.length ≠ count ∨ offsets.length ≠ count then .error (.client none "sendResult is illegal")
    else .ok ((List.range count).zipWith (fun i (p : String × String) => splitOne r i p.1 p.2)
      (ids.zip offsets))
  else .ok (List.replicate count r)

/-- The results of a batch whose send was answered by `response`. -/
def batchResults (response : SendResponse) (mq : MessageQueue) : Except Error (List SendResult) :=
  match parseSendResponse response (buildBatch encode key keys messages fresh).message mq with
  | .ok r => splitSendResults messages.length r
  | .error e => .error e

/-! ## 3. Attribution -/

/-- Every message's caller gets the message's own id, the offset id at its position, and the offset
of its position. -/
def Attributed (messages : List Message) (ids : List String) (q : Int) (results : List SendResult) :
    Prop :=
  ∀ (i : Nat) (m : Message) (id : String), messages[i]? = some m → ids[i]? = some id →
    ∃ r, results[i]? = some r ∧ r.msgId = m.getUniqId ∧ r.offsetMsgId = some id ∧
      r.queueOffset = q + i

theorem Message.getUniqId_putProperty_ne (m : Message) {name : String} (value : String)
    (h : "UNIQ_KEY" ≠ name) : (m.putProperty name value).getUniqId = m.getUniqId :=
  ExtFields.get_insert_ne _ _ h

/-- **The batch carries an id of its own.** -/
theorem buildBatch_uniqId :
    (buildBatch encode key keys messages fresh).message.getUniqId = some fresh.text := by
  have hset : ∀ m : Message, m.getUniqId = none → (m.setUniqId fresh).getUniqId = some fresh.text := by
    intro m hm
    unfold Message.setUniqId
    rw [hm]
    exact ExtFields.get_insert_of_none _ hm
  have hwait : ∀ m : Message, (m.setWaitStoreMsgOk key.waitStoreMsgOk).getUniqId = m.getUniqId :=
    fun m => Message.getUniqId_putProperty_ne m _ (by decide)
  apply hset
  cases key.tag with
  | none =>
    rfl
  | some tag =>
    rfl

theorem batchResults_eq {response : SendResponse} (mq : MessageQueue)
    (hok : (sendStatusOf response.code).isSome = true) :
    ∃ r, batchResults encode key keys messages fresh response mq
        = .ok (List.replicate messages.length r) ∧
      r.msgId = some fresh.text ∧
      r.offsetMsgId = (SendMessageResponseHeader.fromExtFields response.extFields).msgId ∧
      r.queueOffset
        = (SendMessageResponseHeader.fromExtFields response.extFields).queueOffset.getD 0 := by
  obtain ⟨status, hstatus⟩ := Option.isSome_iff_exists.mp hok
  have huniq := buildBatch_uniqId encode key keys messages fresh
  have hid : nonEmptyText (some fresh.text) = some fresh.text := by
    have hne : fresh.text.isEmpty = false := by simpa using fresh.notEmpty
    simp [nonEmptyText, hne]
  unfold batchResults parseSendResponse
  rw [hstatus, huniq, hid]
  unfold splitSendResults
  simp only [Option.some_or, Option.getD_some, fresh.no_comma]
  exact ⟨_, rfl, rfl, rfl, rfl⟩

/-- **Which batches are attributed**: the empty one, and one of a single message that happens to
carry the very id the batch got. -/
theorem results_attributed_iff (encode : List Message → List UInt8) (key : AggregateKey)
    (keys : List String) (messages : List Message) (fresh : UniqId) (response : SendResponse)
    (mq : MessageQueue) (ids : List String) (q : Int)
    (hok : (sendStatusOf response.code).isSome = true)
    (hids : (SendMessageResponseHeader.fromExtFields response.extFields).msgId
      = some (join ',' ids))
    (hlen : ids.length = messages.length)
    (hq : (SendMessageResponseHeader.fromExtFields response.extFields).queueOffset = some q) :
    (∃ results, batchResults encode key keys messages fresh response mq = .ok results ∧
        Attributed messages ids q results) ↔
      messages = [] ∨ ∃ m, messages = [m] ∧ m.getUniqId = some fresh.text := by
  obtain ⟨r, hr, hmsgId, hoffset, hqueue⟩ :=
    batchResults_eq encode key keys messages fresh mq hok
  rw [hids] at hoffset
  rw [hq, Option.getD_some] at hqueue
  constructor
  · rintro ⟨results, hres, hatt⟩
    cases hr.symm.trans hres
    match messages, ids, hlen with
    | [], _, _ => exact .inl rfl
    | [m], [id], _ =>
      obtain ⟨r', hr', hown, _⟩ := hatt 0 m id rfl rfl
      cases hr'
      exact .inr ⟨m, rfl, hown.symm.trans hmsgId⟩
    | m :: m' :: rest, id :: id' :: ids, _ =>
      -- the second caller gets the offset of the first
      obtain ⟨r', hr', _, _, hoff⟩ := hatt 1 m' id' rfl rfl
      cases hr'
      rw [hqueue] at hoff
      omega
  · intro h
    refine ⟨_, hr, fun i m id hm hid => ?_⟩
    rcases h with rfl | ⟨m₀, rfl, huniq⟩
    · cases hm
    · match ids, hlen with
      | [id₀], _ =>
        have hi : i = 0 := by
          have := (List.getElem?_eq_some_iff.mp hm).1
          simpa using this
        subst hi
        cases hm
        cases hid
        refine ⟨r, rfl, hmsgId.trans huniq.symm, hoffset.trans (by rw [join_singleton]), ?_⟩
        rw [hqueue]
        omega

namespace Script

/-- The id the generator gives next. -/
def nextId : UniqId := ⟨"7F00AB", by decide +kernel, by decide⟩

def stamped (id : String) : Message := ⟨"T", 0, ⟨[("UNIQ_KEY", id)]⟩, some [1]⟩

def batchAnswer (offsetIds : String) : SendResponse :=
  ⟨0, none, ⟨[("msgId", offsetIds), ("queueId", "0"), ("queueOffset", "7")]⟩⟩

def batchKey : AggregateKey := ⟨"T", none, true, none⟩

end Script

open Script

/-- Two messages in a batch: the condition decides. -/
theorem results_attributed_iff_two :
    (∃ results, batchResults (fun _ => []) batchKey [] [stamped "A1", stamped "A2"]
        nextId (batchAnswer "X,Y") ⟨"T", "b", 0⟩ = .ok results ∧
        Attributed [stamped "A1", stamped "A2"] ["X", "Y"] 7 results) ↔
      [stamped "A1", stamped "A2"] = [] ∨
        ∃ m, [stamped "A1", stamped "A2"] = [m] ∧ m.getUniqId = some "7F00AB" :=
  results_attributed_iff _ _ _ _ nextId _ _ ["X", "Y"] 7 (by decide) (by decide +kernel)
    rfl (by decide +kernel)

/-- **Both callers get the same result**: the batch's id, both offset ids, the first offset. -/
theorem results_not_attributed :
    (batchResults (fun _ => []) batchKey [] [stamped "A1", stamped "A2"]
      nextId (batchAnswer "X,Y") ⟨"T", "b", 0⟩).toOption.map
        (fun results => results.map fun r => (r.msgId, r.offsetMsgId, r.queueOffset))
      = some [(some "7F00AB", some "X,Y", 7), (some "7F00AB", some "X,Y", 7)] := by
  decide +kernel

end RocketMQ
