/-
  File:      RocketMQ/Route/Refresh.lean
  Subject:   Refreshes of routes that run at the same time.

  After `update_topic_route_info_from_name_server` of `client/mq_client.rs`. A refresh stores the
  route under the lock of the tables and writes the publish info behind it, under a lock of its own.

  * `Timely`: **the window**: a refresh writes queues that are not those of the stored route;
  * `publish_info_fits_when`: outside of it **the publish info fits the route** in the end;
  * `older_route_published`: in it the queues of a route stay that is stored nowhere.
-/
import RocketMQ.Lib.Machine
import RocketMQ.Lib.Pool
import RocketMQ.Route.Data
import RocketMQ.Lib.Table

namespace RocketMQ.Route

open List Std

/-! ## 1. The tables -/

/-- `PublishState`, without the cursor of the round robin. -/
structure TopicPublishInfo where
  orderTopic : Bool
  msgQueueList : List MessageQueue
  topicRouteData : Option TopicRouteData

/-- `TopicPublishInfo::new`. -/
def TopicPublishInfo.new : TopicPublishInfo := ⟨false, [], none⟩

def routeQueueLists (route : TopicRouteData) (topic : String) : List MessageQueue :=
  (route.getAllMessageQueue topic).map fun q => ⟨q.topic, q.brokerName, q.queueId⟩

def TopicPublishInfo.updateFromRoute (_ : TopicPublishInfo) (route : TopicRouteData)
    (topic : String) : TopicPublishInfo :=
  { orderTopic := route.orderTopicConf.isSome
    topicRouteData := some route
    msgQueueList := routeQueueLists route topic }

structure RouteTables where
  topicRouteTable : ExtTreeMap String TopicRouteData
  topicPublishInfoTable : ExtTreeMap String TopicPublishInfo
  brokerAddrTable : ExtTreeMap String (List (Int × String))

namespace RouteTables

/-- The section under the lock of the tables. -/
def store (t : RouteTables) (topic : String) (route : TopicRouteData) : RouteTables :=
  { topicRouteTable := t.topicRouteTable.insert topic route
    brokerAddrTable := route.brokerDatas.foldl
      (fun table bd => table.insert bd.brokerName bd.brokerAddrs) t.brokerAddrTable
    topicPublishInfoTable :=
      if topic ∈ t.topicPublishInfoTable then t.topicPublishInfoTable
      else t.topicPublishInfoTable.insert topic .new }

/-- The publish info is written. The refresh holds the entry itself, which is never replaced. -/
def publish (t : RouteTables) (topic : String) (route : TopicRouteData) : RouteTables :=
  { t with
    topicPublishInfoTable :=
      t.topicPublishInfoTable.modify topic fun info => info.updateFromRoute route topic }

/-- The queues that a producer chooses from. -/
def published (t : RouteTables) (topic : String) : Option (List MessageQueue) :=
  t.topicPublishInfoTable[topic]?.map TopicPublishInfo.msgQueueList

end RouteTables

/-! ## 2. The refreshes -/

/-- Where a refresh stands. -/
inductive RefreshPhase where
  | fetch
  | fetchDefault
  | store (route : TopicRouteData)
  | publish (route : TopicRouteData)
  | done (result : Except Error Bool)

/-- A call of `update_topic_route_info_from_name_server`. -/
structure Refresh where
  topic : String
  isDefault : Bool
  addrs : List String
  phase : RefreshPhase

/-- `client_error_code::NO_NAME_SERVER_EXCEPTION`. -/
def noNameServerException : Int := 10004

namespace Refresh

/-- A refresh up to the first request. -/
def start (topic : String) (isDefault : Bool) (addrs : List String) : Refresh :=
  ⟨topic, isDefault, addrs,
    if addrs = [] then
      .done (.error (.client (some noNameServerException) "name server address list is empty"))
    else .fetch⟩

/-- The name servers have been asked for the topic. -/
def fetched (r : Refresh) : Except Error (Option TopicRouteData) → Refresh
  | .error e => { r with phase := .done (.error e) }
  | .ok (some route) => { r with phase := .store route }
  | .ok none =>
    if r.isDefault && r.topic != defaultTopic then { r with phase := .fetchDefault }
    else { r with phase := .done (.ok false) }

/-- The name servers have been asked for the default topic. -/
def fetchedDefault (r : Refresh) : Except Error (Option TopicRouteData) → Refresh
  | .error e => { r with phase := .done (.error e) }
  | .ok (some route) => { r with phase := .store route.capped }
  | .ok none => { r with phase := .done (.ok false) }

/-- The queues that the refresh is about to write, with their topic. -/
def pending (r : Refresh) : Option (String × List MessageQueue) :=
  match r.phase with
  | .publish route => some (r.topic, routeQueueLists route r.topic)
  | _ => none

/-- The refresh has returned. -/
def returned (r : Refresh) : Bool :=
  match r.phase with
  | .done _ => true
  | _ => false

end Refresh

/-- The tables and all refreshes, those that have returned included. -/
structure Refreshing where
  tables : RouteTables
  refreshes : List Refresh

inductive RefreshAct where
  | start (topic : String) (isDefault : Bool) (addrs : List String)
  /-- the name servers have answered -/
  | answered (i : Nat) (answers : List RouteAnswer)
  /-- the next section under a lock -/
  | run (i : Nat)

namespace Refreshing

def new : Refreshing := ⟨⟨∅, ∅, ∅⟩, []⟩

variable (s : Refreshing)

def set (i : Nat) (r : Refresh) : Refreshing :=
  { s with refreshes := s.refreshes.set i r }

/-- The answers come in. -/
def answered (i : Nat) (r : Refresh) (answers : List RouteAnswer) : Option Refreshing :=
  if answers.length = r.addrs.length then
    match r.phase with
    | .fetch => some (s.set i (r.fetched (fetchTopicRoute answers none)))
    | .fetchDefault => some (s.set i (r.fetchedDefault (fetchTopicRoute answers none)))
    | _ => none
  else none

/-- A section under a lock; the heartbeat behind the last one leaves the tables alone. -/
def underLock (i : Nat) (r : Refresh) : Option Refreshing :=
  match r.phase with
  | .store route =>
    some ⟨s.tables.store r.topic route, s.refreshes.set i { r with phase := .publish route }⟩
  | .publish route =>
    some ⟨s.tables.publish r.topic route, s.refreshes.set i { r with phase := .done (.ok true) }⟩
  | _ => none

def step : RefreshAct → Option Refreshing
  | .start topic isDefault addrs =>
    some { s with refreshes := s.refreshes ++ [.start topic isDefault addrs] }
  | .answered i answers => s.refreshes[i]?.bind fun r => s.answered i r answers
  | .run i => s.refreshes[i]?.bind fun r => s.underLock i r

end Refreshing

/-! ## 3. What a step does -/

/-- **The steps**: nothing but the two sections touches the tables. -/
inductive RefreshRule (s : Refreshing) : RefreshAct → Refreshing → Prop where
  | started {a r} (hr : r.pending = none) :
      RefreshRule s a { s with refreshes := s.refreshes ++ [r] }
  | moved {a i r r'} (hi : s.refreshes[i]? = some r) (hr : r.pending = none)
      (hr' : r'.pending = none) : RefreshRule s a (s.set i r')
  | stored {i r route} (hi : s.refreshes[i]? = some r) (hr : r.phase = .store route) :
      RefreshRule s (.run i)
        ⟨s.tables.store r.topic route, s.refreshes.set i { r with phase := .publish route }⟩
  | published {i r route} (hi : s.refreshes[i]? = some r) (hr : r.phase = .publish route) :
      RefreshRule s (.run i)
        ⟨s.tables.publish r.topic route, s.refreshes.set i { r with phase := .done (.ok true) }⟩

section

variable {s t : Refreshing} {a : RefreshAct}

theorem Refresh.pending_start (topic : String) (isDefault : Bool) (addrs : List String) :
    (Refresh.start topic isDefault addrs).pending = none := by
  unfold Refresh.start
  split <;> rfl

theorem Refresh.pending_fetched (r : Refresh) (res : Except Error (Option TopicRouteData)) :
    (r.fetched res).pending = none := by
  unfold Refresh.fetched
  split
  · rfl
  · rfl
  · split <;> rfl

theorem Refresh.pending_fetchedDefault (r : Refresh)
    (res : Except Error (Option TopicRouteData)) : (r.fetchedDefault res).pending = none := by
  unfold Refresh.fetchedDefault
  split <;> rfl

theorem refreshRule_of_step (h : s.step a = some t) : RefreshRule s a t := by
  cases a with
  | start topic isDefault addrs =>
    cases h
    exact .started (Refresh.pending_start topic isDefault addrs)
  | answered i answers =>
    obtain ⟨r, hi, h⟩ := Option.bind_eq_some_iff.mp h
    unfold Refreshing.answered at h
    split at h
    · cases hp : r.phase with
      | fetch =>
        rw [hp] at h
        cases h
        exact .moved hi (by rw [Refresh.pending, hp]) (r.pending_fetched _)
      | fetchDefault =>
        rw [hp] at h
        cases h
        exact .moved hi (by rw [Refresh.pending, hp]) (r.pending_fetchedDefault _)
      | store | publish | done =>
        rw [hp] at h
        cases h
    · cases h
  | run i =>
    obtain ⟨r, hi, h⟩ := Option.bind_eq_some_iff.mp h
    unfold Refreshing.underLock at h
    cases hp : r.phase with
    | store route =>
      rw [hp] at h
      cases h
      exact .stored hi hp
    | publish route =>
      rw [hp] at h
      cases h
      exact .published hi hp
    | fetch | fetchDefault | done result =>
      rw [hp] at h
      cases h

end

/-! ## 4. The publish info fits the route -/

/-- **The window**: a refresh writes queues that are not those of the stored route, and no other
refresh is still to write those. -/
def Refresh.Timely (s : Refreshing) (i : Nat) (r : Refresh) : Prop :=
  ∀ p ∈ r.pending, ∀ stored ∈ s.tables.topicRouteTable[p.1]?,
    p.2 = routeQueueLists stored p.1 ∨
      some (p.1, routeQueueLists stored p.1) ∈ (s.refreshes.eraseIdx i).map Refresh.pending

def Timely (s : Refreshing) : RefreshAct → Prop
  | .run i => ∀ r ∈ s.refreshes[i]?, r.Timely s i
  | _ => True

instance decidableRefreshTimely (s : Refreshing) (i : Nat) (r : Refresh) :
    Decidable (r.Timely s i) :=
  inferInstanceAs (Decidable (∀ p ∈ r.pending, ∀ stored ∈ s.tables.topicRouteTable[p.1]?,
    p.2 = routeQueueLists stored p.1 ∨
      some (p.1, routeQueueLists stored p.1) ∈ (s.refreshes.eraseIdx i).map Refresh.pending))

instance decidableTimely (s : Refreshing) (a : RefreshAct) : Decidable (Timely s a) := by
  apply RefreshAct.casesOn (motive := fun a => Decidable (Timely s a)) a
  case run => exact fun i => inferInstanceAs (Decidable (∀ r ∈ s.refreshes[i]?, r.Timely s i))
  all_goals
    intros
    exact .isTrue trivial

/-- **Between the two sections**: the queues of the stored route are published, or a refresh is
about to publish them. -/
structure Fitting (s : Refreshing) : Prop where
  entry : ∀ r ∈ s.refreshes, ∀ p ∈ r.pending, p.1 ∈ s.tables.topicPublishInfoTable
  queues : ∀ topic stored, s.tables.topicRouteTable[topic]? = some stored →
    s.tables.published topic = some (routeQueueLists stored topic) ∨
      some (topic, routeQueueLists stored topic) ∈ s.refreshes.map Refresh.pending

section

variable {tables : RouteTables} {topic other : String} {route : TopicRouteData}

namespace RouteTables

theorem published_store_ne (h : other ≠ topic) :
    (tables.store topic route).published other = tables.published other := by
  unfold store published
  split
  · rfl
  · rw [Table.get_insert_ne h]

theorem mem_publish_store_self : topic ∈ (tables.store topic route).topicPublishInfoTable := by
  unfold store
  split
  · assumption
  · exact ExtTreeMap.mem_insert_self

theorem mem_publish_store (h : other ∈ tables.topicPublishInfoTable) :
    other ∈ (tables.store topic route).topicPublishInfoTable := by
  unfold store
  split
  · exact h
  · exact ExtTreeMap.mem_insert.mpr (.inr h)

theorem published_publish_ne (h : other ≠ topic) :
    (tables.publish topic route).published other = tables.published other := by
  unfold publish published
  rw [ExtTreeMap.getElem?_modify, if_neg (by simpa using Ne.symm h)]

theorem published_publish_self (h : topic ∈ tables.topicPublishInfoTable) :
    (tables.publish topic route).published topic = some (routeQueueLists route topic) := by
  obtain ⟨info, hinfo⟩ := Option.isSome_iff_exists.mp
    (ExtTreeMap.mem_iff_isSome_getElem?.mp h)
  unfold publish published
  rw [ExtTreeMap.getElem?_modify, if_pos (by simp), hinfo]
  rfl

end RouteTables

end

namespace Fitting

variable {s t : Refreshing} {a : RefreshAct} {i : Nat} {r r' : Refresh}
  {p : String × List MessageQueue}

theorem new : Fitting .new where
  entry := by
    intro r hr
    cases hr
  queues := by
    intro topic stored h
    cases h

theorem pending_set (h : some p ∈ (s.refreshes.eraseIdx i).map Refresh.pending) :
    some p ∈ (s.refreshes.set i r').map Refresh.pending := by
  obtain ⟨x, hx, hp⟩ := mem_map.mp h
  exact mem_map.mpr ⟨x, Pool.mem_set_of_mem_eraseIdx hx, hp⟩

theorem pending_cases (hi : s.refreshes[i]? = some r)
    (h : some p ∈ s.refreshes.map Refresh.pending) :
    r.pending = some p ∨ some p ∈ (s.refreshes.eraseIdx i).map Refresh.pending := by
  obtain ⟨x, hx, hp⟩ := mem_map.mp h
  rcases Pool.mem_eraseIdx_of_mem hi hx with rfl | hx
  · exact .inl hp
  · exact .inr (mem_map.mpr ⟨x, hx, hp⟩)

/-- **Each step outside of the window keeps it.** -/
theorem rule (h : Fitting s) (hG : Timely s a) (hr : RefreshRule s a t) : Fitting t := by
  cases hr with
  | @started _ r hr =>
    refine ⟨fun x hx q hq => ?_, fun topic stored hstored => ?_⟩
    · rcases mem_append.mp hx with hx | hx
      · exact h.entry x hx q hq
      · rw [mem_singleton.mp hx, hr] at hq
        cases hq
    · refine (h.queues topic stored hstored).imp_right fun hmem => ?_
      rw [map_append]
      exact mem_append_left _ hmem
  | @moved _ i r r' hi hr hr' =>
    refine ⟨fun x hx q hq => ?_, fun topic stored hstored => ?_⟩
    · rcases mem_or_eq_of_mem_set hx with hx | rfl
      · exact h.entry x hx q hq
      · cases hr'.symm.trans hq
    · refine (h.queues topic stored hstored).imp_right fun hmem => pending_set ?_
      refine (pending_cases hi hmem).resolve_left ?_
      rw [hr]
      intro heq
      cases heq
  | @stored i r route hi hr =>
    refine ⟨fun x hx q hq => ?_, fun topic stored hstored => ?_⟩
    · rcases mem_or_eq_of_mem_set hx with hx | rfl
      · exact RouteTables.mem_publish_store (h.entry x hx q hq)
      · cases hq
        exact RouteTables.mem_publish_store_self
    · by_cases htopic : topic = r.topic
      · subst htopic
        have hroute : stored = route := by
          have hnew : (s.tables.store r.topic route).topicRouteTable[r.topic]? = some route :=
            ExtTreeMap.getElem?_insert_self
          exact Option.some.inj (hstored.symm.trans hnew)
        subst hroute
        exact .inr (mem_map.mpr
          ⟨_, mem_set (List.getElem?_eq_some_iff.mp hi).1 _, rfl⟩)
      · have hkeep : s.tables.topicRouteTable[topic]? = some stored := by
          rw [← hstored]
          exact (Table.get_insert_ne htopic).symm
        rw [RouteTables.published_store_ne htopic]
        refine (h.queues topic stored hkeep).imp_right fun hmem => pending_set ?_
        refine (pending_cases hi hmem).resolve_left ?_
        rw [Refresh.pending, hr]
        intro heq
        cases heq
  | @published i r route hi hr =>
    have hpending : r.pending = some (r.topic, routeQueueLists route r.topic) := by
      rw [Refresh.pending, hr]
    refine ⟨fun x hx q hq => ?_, fun topic stored hstored => ?_⟩
    · refine ExtTreeMap.mem_modify.mpr ?_
      rcases mem_or_eq_of_mem_set hx with hx | rfl
      · exact h.entry x hx q hq
      · cases hq
    · by_cases htopic : topic = r.topic
      · subst htopic
        have hentry := h.entry r (mem_of_getElem? hi) _ hpending
        rcases hG r hi _ hpending stored hstored with heq | hmem
        · refine .inl ((RouteTables.published_publish_self hentry).trans ?_)
          exact congrArg some heq
        · exact .inr (pending_set hmem)
      · rw [RouteTables.published_publish_ne htopic]
        refine (h.queues topic stored hstored).imp_right fun hmem => pending_set ?_
        refine (pending_cases hi hmem).resolve_left ?_
        rw [hpending]
        intro heq
        exact htopic (congrArg Prod.fst (Option.some.inj heq)).symm

end Fitting

/-- **The publish info fits the route**: in every run outside of the window, when all refreshes of a
topic have returned. -/
theorem publish_info_fits_when {s : Refreshing}
    (h : Machine.Reach Refreshing.step Timely .new s) {topic : String}
    (hreturned : ∀ r ∈ s.refreshes, r.topic = topic → r.returned = true) {route : TopicRouteData}
    (hroute : s.tables.topicRouteTable[topic]? = some route) :
    s.tables.published topic = some (routeQueueLists route topic) := by
  have hfitting : Fitting s := h.invariant .new fun _ _ _ hI hG hs =>
    hI.rule hG (refreshRule_of_step hs)
  refine (hfitting.queues topic route hroute).resolve_right fun hmem => ?_
  obtain ⟨r, hr, hpending⟩ := mem_map.mp hmem
  unfold Refresh.pending at hpending
  cases hp : r.phase with
  | publish route' =>
    rw [hp] at hpending
    have hreturn := hreturned r hr (congrArg Prod.fst (Option.some.inj hpending))
    rw [Refresh.returned, hp] at hreturn
    cases hreturn
  | fetch | fetchDefault | store route' | done result =>
    rw [hp] at hpending
    cases hpending

end RocketMQ.Route

namespace RocketMQ.Script

open Route

/-- A route with one broker of so many queues. -/
def routeOf (n : Int32) : TopicRouteData :=
  ⟨none, [⟨"b", n, n, 6, 0⟩], [⟨"C", "b", [(0, "b:1")], "", false⟩], [], none⟩

/-- Two refreshes of a topic have got different routes, and both have stored theirs. -/
def bothStored : List RefreshAct :=
  [.start "T" false ["n"], .start "T" false ["n"], .answered 0 [.route (routeOf 1)],
    .answered 1 [.route (routeOf 2)], .run 0, .run 1]

def refreshingAfter (acts : List RefreshAct) : Refreshing :=
  Machine.after Refreshing.step .new acts

end RocketMQ.Script

namespace RocketMQ.Route

open Script

/-- The refresh that stored last publishes last. -/
theorem publish_info_fits_when_last :
    (refreshingAfter (bothStored ++ [.run 0, .run 1])).tables.published "T"
      = some (routeQueueLists (routeOf 2) "T") := by
  have hmeets : Machine.Meets Refreshing.step Timely .new
      (bothStored ++ [.run 0, .run 1]) := by
    decide +kernel
  exact publish_info_fits_when hmeets.reach_after (by decide +kernel) rfl

/-- The refresh that stored first publishes last, and its route is stored nowhere. -/
theorem older_route_published :
    (∀ r ∈ (refreshingAfter (bothStored ++ [.run 1, .run 0])).refreshes,
      r.returned = true) ∧
    (refreshingAfter (bothStored ++ [.run 1, .run 0])).tables.topicRouteTable["T"]?.map
      (routeQueueLists · "T") = some [⟨"T", "b", 0⟩, ⟨"T", "b", 1⟩] ∧
    (refreshingAfter (bothStored ++ [.run 1, .run 0])).tables.published "T"
      = some [⟨"T", "b", 0⟩] := by
  decide +kernel

end RocketMQ.Route
