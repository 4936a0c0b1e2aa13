/-
  File:      RocketMQ/Route/Data.lean
  Subject:   Routes of topics, as name servers tell them.

  After `remoting/protocol/route.rs`, and the reading of answers in `client/mq_client.rs`.

  * `unchanged_iff`: **when a route that is told again counts as the old one**.
-/
import RocketMQ.Lib.Assoc
import RocketMQ.Producer.Message
import RocketMQ.Remoting.Json

namespace RocketMQ.Route

/-! ## 1. Routes -/

structure QueueData where
  brokerName : String
  readQueueNums : Int32
  writeQueueNums : Int32
  perm : Int32
  topicSysFlag : Int32
  deriving DecidableEq, Repr

structure BrokerData where
  cluster : String
  brokerName : String
  brokerAddrs : List (Int × String)
  zoneName : String
  enableActingMaster : Bool
  deriving DecidableEq, Repr

structure TopicRouteData where
  orderTopicConf : Option String
  queueDatas : List QueueData
  brokerDatas : List BrokerData
  filterServerTable : List (String × List String)
  topicQueueMappingByBroker : Option (List (String × Json))

/-- `PermName::check_perm`. -/
def checkPerm (perm wanted : Int32) : Bool := perm &&& wanted == wanted

/-- `PermName::PERM_WRITE`. -/
def permWrite : Int32 := 0x2

/-- `MixAll::MASTER_ID`. -/
def masterId : Int := 0

/-- The queues `0..n` of a broker. -/
def queuesUpTo (topic brokerName : String) (n : Int32) : List MessageQueue :=
  (List.range n.toInt.toNat).map fun i => ⟨topic, brokerName, i⟩

variable (route : TopicRouteData)

/-- `get_all_message_queue`: only brokers that are written to and have a master. -/
def TopicRouteData.getAllMessageQueue (topic : String) : List MessageQueue :=
  route.queueDatas.flatMap fun qd =>
    if checkPerm qd.perm permWrite then
      match route.brokerDatas.find? fun bd => bd.brokerName == qd.brokerName with
      | some bd =>
        if bd.brokerAddrs.any fun e => e.1 == masterId then
          queuesUpTo topic qd.brokerName qd.writeQueueNums
        else []
      | none => []
    else []

/-- `MixAll::DEFAULT_TOPIC`. -/
def defaultTopic : String := "TBW102"

/-- `MixAll::DEFAULT_TOPIC_QUEUE_NUMS`. -/
def defaultTopicQueueNums : Int32 := 4

/-- The default topic's route, with as many queues as a new topic gets. -/
def TopicRouteData.capped : TopicRouteData :=
  { route with
    queueDatas := route.queueDatas.map fun qd =>
      { qd with
        writeQueueNums := min qd.writeQueueNums defaultTopicQueueNums
        readQueueNums := min qd.readQueueNums defaultTopicQueueNums } }

/-! ## 2. Answers of name servers -/

/-- What comes back from a name server. -/
inductive RouteAnswer where
  /-- the call failed -/
  | failed (e : Error)
  /-- a response with another code than success -/
  | refused (code : Int)
  /-- success without a body -/
  | empty
  /-- a body that is no route -/
  | undecodable (e : Error)
  | route (data : TopicRouteData)

/-- Behind the loop: the last error is returned, unless a broker has answered it. -/
def afterAnswers : Option Error → Except Error (Option TopicRouteData)
  | some (.broker _ _) => .ok none
  | some e => .error e
  | none => .ok none

/-- The loop of `fetch_topic_route_from_namesrv`: a response without a route ends it, an error
goes on to the next name server. -/
def fetchTopicRoute : List RouteAnswer → Option Error → Except Error (Option TopicRouteData)
  | [], lastExc => afterAnswers lastExc
  | .failed e :: rest, _ => fetchTopicRoute rest (some e)
  | .refused _ :: _, lastExc => afterAnswers lastExc
  | .empty :: _, lastExc => afterAnswers lastExc
  | .undecodable e :: rest, _ => fetchTopicRoute rest (some e)
  | .route data :: _, _ => .ok (some data)

/-! ## 3. Changes -/

/-- What the queues are sorted by. -/
def QueueData.sortKey (qd : QueueData) : String ×ₗ Int ×ₗ Int ×ₗ Int :=
  toLex (qd.brokerName, toLex (qd.readQueueNums.toInt,
    toLex (qd.writeQueueNums.toInt, qd.perm.toInt)))

/-- What `BrokerData::eq` compares. -/
def BrokerData.compared (bd : BrokerData) : String × String × List (Int × String) :=
  (bd.brokerName, bd.cluster, bd.brokerAddrs)

/-- `topic_route_data_changed`. -/
def TopicRouteData.topicRouteDataChanged : Option TopicRouteData → Bool
  | none => true
  | some old =>
    !(Assoc.stableSort QueueData.sortKey route.queueDatas
        == Assoc.stableSort QueueData.sortKey old.queueDatas
      && (Assoc.stableSort BrokerData.brokerName route.brokerDatas).map BrokerData.compared
        == (Assoc.stableSort BrokerData.brokerName old.brokerDatas).map BrokerData.compared)

/-- **Queues that are equal but for the flag keep their flags in the old order**, and so do brokers
of one name their addresses. -/
structure KeepsOrder (route old : TopicRouteData) : Prop where
  flags : ∀ k, route.queueDatas.filter (·.sortKey = k) = old.queueDatas.filter (·.sortKey = k)
  addrs : ∀ name, (route.brokerDatas.map BrokerData.compared).filter (·.1 = name)
    = (old.brokerDatas.map BrokerData.compared).filter (·.1 = name)

theorem sorted_compared (l : List BrokerData) :
    (Assoc.stableSort BrokerData.brokerName l).map BrokerData.compared
      = Assoc.stableSort Prod.fst (l.map BrokerData.compared) :=
  List.map_insertionSort _ _ _ _ fun _ _ _ _ => Iff.rfl

theorem unchanged_iff {route old : TopicRouteData} :
    route.topicRouteDataChanged (some old) = false ↔ KeepsOrder route old := by
  have hiff : route.topicRouteDataChanged (some old) = false ↔
      Assoc.stableSort QueueData.sortKey route.queueDatas
          = Assoc.stableSort QueueData.sortKey old.queueDatas ∧
        (Assoc.stableSort BrokerData.brokerName route.brokerDatas).map BrokerData.compared
          = (Assoc.stableSort BrokerData.brokerName old.brokerDatas).map BrokerData.compared := by
    simp [TopicRouteData.topicRouteDataChanged]
  rw [hiff, sorted_compared, sorted_compared, Assoc.stableSort_eq_iff, Assoc.stableSort_eq_iff]
  exact ⟨fun h => ⟨h.1, h.2⟩, fun h => ⟨h.flags, h.addrs⟩⟩

/-- A broker with the entries of its address map. -/
def BrokerData.known (bd : BrokerData) : String × Set (Int × String) :=
  (bd.brokerName, {e | e ∈ bd.brokerAddrs})

/-- **A route counts as the old one exactly if it keeps these orders**; one that has another set of
queues, or of brokers with their addresses, counts as changed. -/
theorem route_changed_iff (route old : TopicRouteData) :
    (route.topicRouteDataChanged (some old) = false ↔ KeepsOrder route old) ∧
    ({k | ∃ qd ∈ route.queueDatas, qd.sortKey = k} ≠ {k | ∃ qd ∈ old.queueDatas, qd.sortKey = k} ∨
      {b | ∃ bd ∈ route.brokerDatas, bd.known = b} ≠ {b | ∃ bd ∈ old.brokerDatas, bd.known = b} →
      route.topicRouteDataChanged (some old) = true) := by
  refine ⟨unchanged_iff, fun hother => ?_⟩
  by_contra hsame
  obtain ⟨hflags, haddrs⟩ := unchanged_iff.mp (Bool.not_eq_true _ ▸ hsame)
  rcases hother with hother | hother
  · exact hother (by simp only [Assoc.mem_iff_of_filter_eq hflags])
  · have hknown : ∀ l : List BrokerData, {b | ∃ bd ∈ l, bd.known = b}
        = {b | ∃ c ∈ l.map BrokerData.compared, (c.1, {e | e ∈ c.2.2}) = b} := by
      simp [BrokerData.known, BrokerData.compared]
    exact hother (by simp only [hknown, Assoc.mem_iff_of_filter_eq haddrs])

/-- **Only the system flag of a queue changes**, and the route counts as changed. -/
theorem system_flag_counts :
    TopicRouteData.topicRouteDataChanged ⟨none, [⟨"b", 4, 4, 6, 1⟩], [], [], none⟩
      (some ⟨none, [⟨"b", 4, 4, 6, 0⟩], [], [], none⟩) = true := by
  decide

end RocketMQ.Route
