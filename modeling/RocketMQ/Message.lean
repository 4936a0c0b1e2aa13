/-
  File:      RocketMQ/Message.lean
  Subject:   Queues, messages and the table key of a queue.

  * `MessageQueue`, `MessageExt`, `ExtFields` (the insertion-ordered property table);
  * `mqKey`: the text under which every table of the push consumer stores a queue;
  * `offsets`: the queue offsets of a batch, the identity of a message within its queue;
  * `clientSideTagFilter` / `filterMessagesForDelivery`: what a delivery keeps of an answer.
-/
import Mathlib

namespace RocketMQ

open List

/-- One queue of a topic on a broker (`MessageQueue`). -/
structure MessageQueue where
  topic : String
  brokerName : String
  queueId : Int
  deriving DecidableEq, Repr, Inhabited

/-- `mq_key`: topic, broker name and queue id, with no separator. -/
def mqKey (mq : MessageQueue) : String :=
  mq.topic ++ mq.brokerName ++ toString mq.queueId

/-! ## 1. Properties -/

/-- `ExtFields` (`StringMap`): key-value pairs in insertion order. -/
structure ExtFields where
  entries : List (String × String)
  deriving DecidableEq, Repr, Inhabited

namespace ExtFields

/-- `ExtFields::get`: the last entry of that name. -/
def get (m : ExtFields) (key : String) : Option String :=
  (m.entries.reverse.find? (fun e => e.1 == key)).map (·.2)

/-- Overwrite the first entry of that name, or append a new one. -/
def insertEntry (key value : String) : List (String × String) → List (String × String)
  | [] => [(key, value)]
  | e :: es => if e.1 == key then (key, value) :: es else e :: insertEntry key value es

/-- `ExtFields::insert`. -/
def insert (m : ExtFields) (key value : String) : ExtFields :=
  ⟨insertEntry key value m.entries⟩

variable {key other : String}

theorem insertEntry_reverse_find_ne (value : String) (h : other ≠ key) (es : List (String × String)) :
    (insertEntry key value es).reverse.find? (fun e => e.1 == other)
      = es.reverse.find? (fun e => e.1 == other) := by
  induction es with
  | nil => simp [insertEntry, Ne.symm h]
  | cons e es ih =>
    unfold insertEntry
    by_cases he : e.1 = key
    · simp [he, Ne.symm h]
    · simp [he, ih]

/-- An insertion is invisible under every other name. -/
@[simp] theorem get_insert_ne (m : ExtFields) (value : String) (h : other ≠ key) :
    (m.insert key value).get other = m.get other := by
  simp only [get, insert, insertEntry_reverse_find_ne value h]

theorem insertEntry_of_absent (value : String) {es : List (String × String)}
    (h : ∀ e ∈ es, e.1 ≠ key) : insertEntry key value es = es ++ [(key, value)] := by
  induction es with
  | nil => rfl
  | cons e es ih =>
    have he : e.1 ≠ key := h e mem_cons_self
    have hes := ih fun e' he' => h e' (mem_cons_of_mem _ he')
    simp [insertEntry, he, hes]

theorem get_insert_of_none {m : ExtFields} (value : String) (h : m.get key = none) :
    (m.insert key value).get key = some value := by
  have habsent : ∀ e ∈ m.entries, e.1 ≠ key := by
    simpa [get] using h
  simp [get, insert, insertEntry_of_absent value habsent]

end ExtFields

/-! ## 2. Messages -/

/-- The part of `MessageExt` that the consumer reads. -/
structure MessageExt where
  topic : String
  body : Option (List UInt8)
  properties : ExtFields
  queueId : Int
  queueOffset : Int
  bornTimestamp : Int
  msgId : Option String
  reconsumeTimes : Int
  brokerName : Option String
  deriving DecidableEq, Repr, Inhabited

namespace MessageExt

variable (m : MessageExt)

/-- `MessageExt::get_property`. -/
def getProperty (name : String) : Option String := m.properties.get name

/-- `MessageExt::put_property`. -/
def putProperty (name value : String) : MessageExt :=
  { m with properties := m.properties.insert name value }

/-- `MessageExt::get_tags`. -/
def getTags : Option String := m.getProperty "TAGS"

/-- `MessageExt::get_body`, which reads a missing body as the empty one. -/
def getBody : List UInt8 := m.body.getD []

/-- The retry counter goes up by one. -/
def bumpReconsume : MessageExt :=
  { m with reconsumeTimes := m.reconsumeTimes + 1 }

@[simp] theorem putProperty_queueOffset (k v : String) :
    (m.putProperty k v).queueOffset = m.queueOffset := rfl

@[simp] theorem bumpReconsume_queueOffset :
    m.bumpReconsume.queueOffset = m.queueOffset := rfl

end MessageExt

/-- The queue offsets of a batch, in its order. -/
def offsets (ms : List MessageExt) : List Int := ms.map MessageExt.queueOffset

@[simp] theorem offsets_nil : offsets [] = [] := rfl

@[simp] theorem offsets_cons (m : MessageExt) (ms : List MessageExt) :
    offsets (m :: ms) = m.queueOffset :: offsets ms := rfl

@[simp] theorem offsets_append (a b : List MessageExt) :
    offsets (a ++ b) = offsets a ++ offsets b := map_append

theorem mem_offsets {ms : List MessageExt} {o : Int} :
    o ∈ offsets ms ↔ ∃ m ∈ ms, m.queueOffset = o := mem_map

theorem offsets_map {f : MessageExt → MessageExt}
    (hf : ∀ m, (f m).queueOffset = m.queueOffset) (ms : List MessageExt) :
    offsets (ms.map f) = offsets ms := by
  simp only [offsets, map_map]
  exact map_congr_left fun m _ => hf m

/-! ## 3. What is delivered of an answer -/

/-- The part of `SubscriptionData` that the delivery filter reads. -/
structure SubscriptionData where
  tagsSet : List String
  classFilterMode : Bool
  deriving DecidableEq, Repr, Inhabited

/-- `client_side_tag_filter`: the second pass over the tags the broker matched by hash. -/
def clientSideTagFilter (sub : Option SubscriptionData) (msgs : List MessageExt) :
    List MessageExt :=
  match sub with
  | none => msgs
  | some sub =>
    if msgs.isEmpty || sub.tagsSet.isEmpty || sub.classFilterMode then msgs
    else msgs.filter fun m => m.getTags.any fun t => sub.tagsSet.any (· == t)

/-- `filter_messages_for_delivery`: the tag pass, then the hooks (`none`: no hook is registered).
The hooks get the list itself and may leave any list behind. -/
def filterMessagesForDelivery (hooks : Option (List MessageExt → List MessageExt))
    (sub : Option SubscriptionData) (msgs : List MessageExt) : List MessageExt :=
  let out := clientSideTagFilter sub msgs
  match hooks with
  | none => out
  | some h => if out.isEmpty then out else h out

theorem clientSideTagFilter_sublist (sub : Option SubscriptionData) (msgs : List MessageExt) :
    (clientSideTagFilter sub msgs).Sublist msgs := by
  unfold clientSideTagFilter
  cases sub with
  | none => exact List.Sublist.refl msgs
  | some sub =>
    dsimp only
    split
    · exact List.Sublist.refl msgs
    · exact filter_sublist

/-- **The delivery filter only drops rows**, when the hooks do. -/
theorem filterMessagesForDelivery_sublist {hooks : Option (List MessageExt → List MessageExt)}
    (hh : ∀ h ∈ hooks, ∀ ms, (h ms).Sublist ms) (sub : Option SubscriptionData)
    (msgs : List MessageExt) : (filterMessagesForDelivery hooks sub msgs).Sublist msgs := by
  have htag := clientSideTagFilter_sublist sub msgs
  unfold filterMessagesForDelivery
  cases hooks with
  | none => exact htag
  | some h =>
    dsimp only
    split
    · exact htag
    · exact (hh h rfl _).trans htag

end RocketMQ
