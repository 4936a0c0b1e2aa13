/-
  File:      RocketMQ/Heartbeat.lean
  Subject:   Heartbeats that leave the subscriptions out.

  After `heartbeat.rs` and the rounds of `client/mq_client.rs`. The client remembers for each broker
  the fingerprint of what it has registered there; while that stays the same, the broker gets a beat
  without subscriptions.

  * `HeartbeatData`, `computeHeartbeatFingerprint`: the body and the hash of its text;
  * `Recorded`: a fingerprint in the table is the one of **the last full beat that earned it**;
  * `light_beat_fingerprint`: and the current one whenever a light beat is sent;
  * `light_beat_on_other_content`: the content itself need not be the same.
-/
import RocketMQ.Lib.Machine
import RocketMQ.Remoting.Command
import RocketMQ.Remoting.Spelling
import RocketMQ.Lib.Table
import Std.Data.ExtTreeSet

namespace RocketMQ.Heartbeat

/-! ## 1. The body -/

/-- `SubscriptionData` of a heartbeat. -/
structure SubscriptionData where
  classFilterMode : Bool
  topic : String
  subString : String
  tagsSet : List String
  codeSet : List Int32
  subVersion : Int64
  expressionType : String
  deriving DecidableEq

structure ConsumerData where
  groupName : String
  consumeType : String
  messageModel : String
  consumeFromWhere : String
  subscriptionDataSet : List SubscriptionData
  unitMode : Bool
  deriving DecidableEq

structure ProducerData where
  groupName : String
  deriving DecidableEq

structure HeartbeatData where
  clientId : String
  producerDataSet : List ProducerData
  consumerDataSet : List ConsumerData
  heartbeatFingerprint : Int32
  withoutSub : Bool
  deriving DecidableEq

def jsonObject (pairs : List (String × Json)) : Json :=
  .obj (pairs.foldl (fun map e => Json.insert map e.1 e.2) [])

/-- `SubscriptionData::to_json_value`. -/
def SubscriptionData.toJsonValue (s : SubscriptionData) : Json :=
  jsonObject [("classFilterMode", .bool s.classFilterMode), ("topic", .str s.topic),
    ("subString", .str s.subString), ("tagsSet", .arr (s.tagsSet.map .str)),
    ("codeSet", .arr (s.codeSet.map fun c => .num (.int c.toInt))),
    ("subVersion", .num (.int s.subVersion.toInt)), ("expressionType", .str s.expressionType)]

/-- `ConsumerData::to_json_value`. -/
def ConsumerData.toJsonValue (c : ConsumerData) : Json :=
  jsonObject [("groupName", .str c.groupName), ("consumeType", .str c.consumeType),
    ("messageModel", .str c.messageModel), ("consumeFromWhere", .str c.consumeFromWhere),
    ("subscriptionDataSet", .arr (c.subscriptionDataSet.map (·.toJsonValue))),
    ("unitMode", .bool c.unitMode)]

/-- `ProducerData::to_json_value`. -/
def ProducerData.toJsonValue (p : ProducerData) : Json :=
  jsonObject [("groupName", .str p.groupName)]

def ConsumerData.addSubscriptionData (c : ConsumerData) (data : SubscriptionData) : ConsumerData :=
  if data ∈ c.subscriptionDataSet then c
  else { c with subscriptionDataSet := c.subscriptionDataSet ++ [data] }

namespace HeartbeatData

/-- `HeartbeatData::new`. -/
def new (clientId : String) : HeartbeatData := ⟨clientId, [], [], 0, false⟩

variable (d : HeartbeatData)

def addProducerData (data : ProducerData) : HeartbeatData :=
  if data ∈ d.producerDataSet then d
  else { d with producerDataSet := d.producerDataSet ++ [data] }

def addConsumerData (data : ConsumerData) : HeartbeatData :=
  if data ∈ d.consumerDataSet then d
  else { d with consumerDataSet := d.consumerDataSet ++ [data] }

theorem addProducerData_withoutSub (data : ProducerData) :
    (d.addProducerData data).withoutSub = d.withoutSub := by
  unfold addProducerData
  split <;> rfl

theorem addConsumerData_withoutSub (data : ConsumerData) :
    (d.addConsumerData data).withoutSub = d.withoutSub := by
  unfold addConsumerData
  split <;> rfl

/-- `HeartbeatData::to_json_value`. -/
def toJsonValue : Json :=
  jsonObject [("clientID", .str d.clientId),
    ("consumerDataSet", .arr (d.consumerDataSet.map (·.toJsonValue))),
    ("heartbeatFingerprint", .num (.int d.heartbeatFingerprint.toInt)),
    ("producerDataSet", .arr (d.producerDataSet.map (·.toJsonValue))),
    ("withoutSub", .bool d.withoutSub)]

/-- **The content of a beat**: the copy without what changes from beat to beat. -/
def content : HeartbeatData :=
  { clientId := ""
    producerDataSet := d.producerDataSet
    consumerDataSet := d.consumerDataSet.map fun c =>
      { c with subscriptionDataSet := c.subscriptionDataSet.map ({ · with subVersion := 0 }) }
    heartbeatFingerprint := 0
    withoutSub := false }

end HeartbeatData

/-- `java_string_hash`, of the characters of a text. -/
def javaStringHash (chars : List Char) : Int32 :=
  chars.foldl (fun h ch => h * 31 + Int32.ofNat ch.toNat) 0

def HeartbeatData.computeHeartbeatFingerprint (lib : StdLib) (d : HeartbeatData) : Int32 :=
  javaStringHash (d.content.toJsonValue.chars lib)

theorem HeartbeatData.fingerprint_stamped (d : HeartbeatData) (lib : StdLib) (fingerprint : Int32) :
    { d with heartbeatFingerprint := fingerprint }.computeHeartbeatFingerprint lib
      = d.computeHeartbeatFingerprint lib := by
  rfl

def HeartbeatData.withoutSubCopy (d : HeartbeatData) : HeartbeatData :=
  { d with
    consumerDataSet := d.consumerDataSet.map ({ · with subscriptionDataSet := [] })
    withoutSub := true }

/-! ## 2. What is registered -/

/-- What a beat reads of a `RegisteredConsumer`. -/
structure RegisteredConsumer where
  consumeType : String
  messageModel : String
  consumeFromWhere : String
  unitMode : Bool
  subscriptions : List SubscriptionData

structure Registry where
  producerTable : Std.ExtTreeSet String
  consumerTable : Std.ExtTreeMap String RegisteredConsumer

def Registry.hasRegistration (r : Registry) : Bool :=
  !r.producerTable.isEmpty || !r.consumerTable.isEmpty

def Registry.prepareHeartbeatData (r : Registry) (clientId : String) : HeartbeatData :=
  let hb := r.producerTable.toList.foldl (fun hb group => hb.addProducerData ⟨group⟩)
    (HeartbeatData.new clientId)
  r.consumerTable.toList.foldl (fun hb e =>
    hb.addConsumerData (e.2.subscriptions.foldl (·.addSubscriptionData ·)
      ⟨e.1, e.2.consumeType, e.2.messageModel, e.2.consumeFromWhere, [], e.2.unitMode⟩)) hb

theorem prepareHeartbeatData_withoutSub (r : Registry) (clientId : String) :
    (r.prepareHeartbeatData clientId).withoutSub = false := by
  refine List.foldlRecOn (motive := fun hb : HeartbeatData => hb.withoutSub = false) _ _
    (List.foldlRecOn (motive := fun hb : HeartbeatData => hb.withoutSub = false) _ _ rfl ?_) ?_
  · intro hb h group _
    rw [HeartbeatData.addProducerData_withoutSub, h]
  · intro hb h e _
    rw [HeartbeatData.addConsumerData_withoutSub, h]

/-! ## 3. Answers -/

structure HeartbeatV2Result where
  version : Int32
  subChange : Bool
  supportV2 : Bool

def isExtTrue (response : RemotingCommand) (key : String) : Bool :=
  match response.extFields.get key with
  | some v => (Text.trim v).toList.map Char.toLower = "true".toList
  | none => false

/-- `HeartbeatV2Result::from_response`. -/
def HeartbeatV2Result.fromResponse (response : RemotingCommand) : HeartbeatV2Result :=
  ⟨response.version, isExtTrue response "IS_SUB_CHANGE",
    isExtTrue response "IS_SUPPORT_HEART_BEAT_V2"⟩

/-- `send_heartbeat_v2`: what becomes of the answer (`none`: the invocation fails). -/
def sendHeartbeatV2 (answer : Option RemotingCommand) : Option HeartbeatV2Result :=
  (answer.filter fun response => response.code = 0).map .fromResponse

/-- A broker of the cached routes, and its answer in this round. -/
structure Target where
  brokerId : Int
  addr : String
  answer : Option RemotingCommand

/-- A beat that was sent. -/
structure Beat where
  addr : String
  /-- by `send_heartbeat_v2`, which reads the flags of the answer -/
  v2 : Bool
  body : HeartbeatData
  /-- what was registered then, with the subscriptions -/
  current : HeartbeatData
  answer : Option RemotingCommand

/-- The broker has accepted a full heartbeat. -/
def Beat.fullAccepted (b : Beat) : Bool := !b.body.withoutSub && (sendHeartbeatV2 b.answer).isSome

/-- It has, and has answered a round with fingerprints that it knows them. -/
def Beat.fullSupported (b : Beat) : Bool :=
  b.v2 && !b.body.withoutSub && (sendHeartbeatV2 b.answer).any (·.supportV2)

/-- The last of these beats to an address. -/
def lastBeat (p : Beat → Bool) (addr : String) (log : List Beat) : Option Beat :=
  (log.filter fun b => b.addr = addr ∧ p b = true).getLast?

section LastBeat

variable {p : Beat → Bool} {addr : String} {b : Beat}

theorem lastBeat_append_other (log : List Beat) (h : b.addr = addr → p b = false) :
    lastBeat p addr (log ++ [b]) = lastBeat p addr log := by
  have hskip : ¬ (b.addr = addr ∧ p b = true) := by
    rintro ⟨haddr, hp⟩
    cases (h haddr).symm.trans hp
  simp [lastBeat, hskip]

end LastBeat

/-! ## 4. Rounds -/

/-- The part of a client that its heartbeats use. -/
structure HeartbeatClient where
  clientId : String
  enableConcurrentHeartbeat : Bool
  useHeartbeatV2 : Bool
  registry : Registry
  brokerSupportV2HeartbeatSet : Std.ExtTreeSet String
  brokerAddrHeartbeatFingerprintTable : Std.ExtTreeMap String Int32
  /-- the beats so far -/
  log : List Beat

namespace HeartbeatClient

def new (clientId : String) (concurrent v2 : Bool) : HeartbeatClient :=
  ⟨clientId, concurrent, v2, ⟨∅, ∅⟩, ∅, ∅, []⟩

variable (c : HeartbeatClient)

/-- `reset_broker_addr_heartbeat_fingerprint_table`. -/
def resetTable : HeartbeatClient :=
  { c with brokerAddrHeartbeatFingerprintTable := ∅ }

def setUseHeartbeatV2 (enable : Bool) : HeartbeatClient :=
  { c with
    useHeartbeatV2 := enable
    brokerAddrHeartbeatFingerprintTable := ∅
    brokerSupportV2HeartbeatSet := ∅ }

def logged (b : Beat) : HeartbeatClient := { c with log := c.log ++ [b] }

/-- `send_heartbeat`: neither table is looked at. -/
def sendHeartbeat (data : HeartbeatData) (t : Target) : HeartbeatClient :=
  c.logged ⟨t.addr, false, data, data, t.answer⟩

/-- The broker is known to hold this fingerprint. -/
def simpleRound (addr : String) (fingerprint : Int32) : Bool :=
  c.brokerSupportV2HeartbeatSet.contains addr
    && c.brokerAddrHeartbeatFingerprintTable[addr]? == some fingerprint

/-- What an answer changes in the tables. -/
def answered (addr : String) (sentSimple : Bool) (fingerprint : Int32)
    (result : HeartbeatV2Result) : HeartbeatClient :=
  if sentSimple then
    if result.subChange then
      { c with
        brokerAddrHeartbeatFingerprintTable := c.brokerAddrHeartbeatFingerprintTable.erase addr }
    else c
  else if result.supportV2 then
    { c with
      brokerSupportV2HeartbeatSet := c.brokerSupportV2HeartbeatSet.insert addr
      brokerAddrHeartbeatFingerprintTable :=
        if result.subChange then c.brokerAddrHeartbeatFingerprintTable.erase addr
        else c.brokerAddrHeartbeatFingerprintTable.insert addr fingerprint }
  else c

def sendHeartbeatToBrokerV2 (withSub withoutSub : HeartbeatData)
    (fingerprint : Int32) (t : Target) : HeartbeatClient :=
  let simple := c.simpleRound t.addr fingerprint
  let body := if simple then withoutSub else withSub
  let c := c.logged ⟨t.addr, true, body, withSub, t.answer⟩
  match sendHeartbeatV2 t.answer with
  | some result => c.answered t.addr simple fingerprint result
  | none => c

/-- `send_heartbeat_round`, to these brokers. -/
def sendHeartbeatRound (lib : StdLib) (c : HeartbeatClient) (isRebalance : Bool)
    (targets : List Target) : HeartbeatClient :=
  let data := c.registry.prepareHeartbeatData c.clientId
  if !c.registry.hasRegistration then c
  else if data.producerDataSet = [] ∧ data.consumerDataSet = [] then c
  else if !c.useHeartbeatV2 then
    -- with no consumers the concurrent round leaves the slaves out
    let all := !c.enableConcurrentHeartbeat || !data.consumerDataSet.isEmpty
    (targets.filter fun t => all || t.brokerId == 0).foldl (·.sendHeartbeat data ·) c
  else
    let fingerprint := data.computeHeartbeatFingerprint lib
    let withSub := { data with heartbeatFingerprint := fingerprint }
    let c := if isRebalance then c.resetTable else c
    targets.foldl (·.sendHeartbeatToBrokerV2 withSub withSub.withoutSubCopy fingerprint ·) c

end HeartbeatClient

/-- What can happen to the heartbeats of a client. -/
inductive HeartbeatAct where
  /-- groups register or leave, subscriptions change -/
  | change (registry : Registry)
  /-- a round over the brokers of the routes -/
  | round (isRebalance : Bool) (targets : List Target)
  /-- a facade or a new connection sends a plain beat with registrations of its own -/
  | plain (registry : Registry) (target : Target)
  /-- the allocation of a consumer has moved -/
  | reset
  | setUseHeartbeatV2 (enable : Bool)

/-- **One step.** -/
def HeartbeatClient.step (lib : StdLib) (c : HeartbeatClient) :
    HeartbeatAct → Option HeartbeatClient
  | .change registry => some { c with registry }
  | .round isRebalance targets => some (c.sendHeartbeatRound lib isRebalance targets)
  | .plain registry target =>
    some (c.sendHeartbeat (registry.prepareHeartbeatData c.clientId) target)
  | .reset => some c.resetTable
  | .setUseHeartbeatV2 enable => some (c.setUseHeartbeatV2 enable)

/-- The client after these steps. -/
def HeartbeatClient.after (lib : StdLib) (c : HeartbeatClient) (acts : List HeartbeatAct) :
    HeartbeatClient :=
  Machine.after (step lib) c acts

/-! ## 5. What the table records -/

section Recorded

variable (lib : StdLib)

/-- The last full beat to the address that was answered with support was also answered with no
change of subscriptions, and its fingerprint is this one. -/
def Earned (log : List Beat) (addr : String) (fingerprint : Int32) : Prop :=
  ∃ f, lastBeat Beat.fullSupported addr log = some f ∧
    (sendHeartbeatV2 f.answer).any (·.subChange) = false ∧
    f.body.computeHeartbeatFingerprint lib = fingerprint

/-- A light beat is sent with the fingerprint the address has earned. -/
def LightEarned (before : List Beat) (b : Beat) : Prop :=
  b.body.withoutSub = true → Earned lib before b.addr (b.current.computeHeartbeatFingerprint lib)

/-- **What the table records.** -/
structure Recorded (c : HeartbeatClient) : Prop where
  rows : ∀ addr fingerprint, c.brokerAddrHeartbeatFingerprintTable[addr]? = some fingerprint →
    Earned lib c.log addr fingerprint
  beats : Machine.Along (LightEarned lib) [] c.log

variable {lib} {c : HeartbeatClient} {log : List Beat} {addr : String} {fingerprint : Int32}

variable {b : Beat} {c' : HeartbeatClient} {result : HeartbeatV2Result}

theorem Earned.append (h : Earned lib log addr fingerprint)
    (hb : b.addr = addr → b.fullSupported = false) : Earned lib (log ++ [b]) addr fingerprint := by
  obtain ⟨f, hlast, hf⟩ := h
  exact ⟨f, by rw [lastBeat_append_other log hb, hlast], hf⟩

variable (h : Recorded lib c)
include h

theorem Recorded.of_rows (hlog : c'.log = c.log)
    (hrows : ∀ (addr : String) (fingerprint : Int32),
      c'.brokerAddrHeartbeatFingerprintTable[addr]? = some fingerprint →
        c.brokerAddrHeartbeatFingerprintTable[addr]? = some fingerprint) : Recorded lib c' where
  rows addr fingerprint hrow := by
    rw [hlog]
    exact h.rows addr fingerprint (hrows addr fingerprint hrow)
  beats := by
    rw [hlog]
    exact h.beats

theorem Recorded.resetTable : Recorded lib c.resetTable :=
  h.of_rows rfl fun addr fingerprint hrow => by
    have hempty : (∅)[addr]? = some fingerprint := hrow
    simp at hempty

theorem Recorded.logged (hlight : LightEarned lib c.log b)
    (hb : b.fullSupported = false) : Recorded lib (c.logged b) where
  rows addr fingerprint hrow := (h.rows addr fingerprint hrow).append fun _ => hb
  beats := Machine.along_append.mpr ⟨h.beats, hlight, trivial⟩

theorem Recorded.sendHeartbeat {data : HeartbeatData}
    (hfull : data.withoutSub = false) (t : Target) : Recorded lib (c.sendHeartbeat data t) := by
  refine h.logged (fun hwithout => ?_) rfl
  cases hfull.symm.trans hwithout

theorem Recorded.answered_simple (result : HeartbeatV2Result) :
    Recorded lib (c.answered addr true fingerprint result) := by
  unfold HeartbeatClient.answered
  rw [if_pos rfl]
  split
  · exact h.of_rows rfl fun _ _ hrow => (Table.of_get_erase hrow).2
  · exact h

theorem Recorded.answered_supported (hlight : LightEarned lib c.log b)
    (hb : b.fullSupported = true) (hresult : sendHeartbeatV2 b.answer = some result)
    (hsupport : result.supportV2 = true) :
    Recorded lib ((c.logged b).answered b.addr false (b.body.computeHeartbeatFingerprint lib)
      result) := by
  have hother {addr : String} {fingerprint : Int32} hne
      hrow :
      Earned lib (c.log ++ [b]) addr fingerprint :=
    (h.rows addr fingerprint hrow).append fun haddr => absurd haddr hne
  unfold HeartbeatClient.answered
  rw [if_pos hsupport]
  refine ⟨fun addr fingerprint hrow => ?_,
    Machine.along_append.mpr ⟨h.beats, hlight, trivial⟩⟩
  cases hsub : result.subChange with
  | true =>
    simp only [hsub] at hrow
    obtain ⟨haddr, hrow⟩ := Table.of_get_erase hrow
    exact hother (Ne.symm haddr) hrow
  | false =>
    simp only [hsub, Bool.false_eq_true] at hrow
    rcases Table.of_get_insert hrow with ⟨rfl, rfl⟩ | ⟨haddr, hrow⟩
    · exact ⟨b, by simp [lastBeat, HeartbeatClient.logged, hb], by simp [hresult, hsub], rfl⟩
    · exact hother (Ne.symm haddr) hrow

/-- **One beat keeps it.** -/
theorem Recorded.sendHeartbeatToBrokerV2 {withSub withoutSub : HeartbeatData}
    (hfull : withSub.withoutSub = false) (hlight : withoutSub.withoutSub = true)
    (hfingerprint : withSub.computeHeartbeatFingerprint lib = fingerprint) (t : Target) :
    Recorded lib (c.sendHeartbeatToBrokerV2 withSub withoutSub fingerprint t) := by
  unfold HeartbeatClient.sendHeartbeatToBrokerV2
  cases hsimple : c.simpleRound t.addr fingerprint with
  | true =>
    -- a light beat: the row at the address says what was earned
    have hrow : c.brokerAddrHeartbeatFingerprintTable[t.addr]? = some fingerprint :=
      eq_of_beq (Bool.and_eq_true_iff.mp hsimple).2
    have hsent : Recorded lib (c.logged ⟨t.addr, true, withoutSub, withSub, t.answer⟩) := by
      refine h.logged (fun _ => ?_) (by simp [Beat.fullSupported, hlight])
      rw [hfingerprint]
      exact h.rows _ _ hrow
    cases sendHeartbeatV2 t.answer with
    | none => exact hsent
    | some result => exact hsent.answered_simple result
  | false =>
    have hnew : LightEarned lib c.log ⟨t.addr, true, withSub, withSub, t.answer⟩ := by
      intro hwithout
      cases hfull.symm.trans hwithout
    cases hresult : sendHeartbeatV2 t.answer with
    | none => exact h.logged hnew (by simp [Beat.fullSupported, hresult])
    | some result =>
      cases hsupport : result.supportV2 with
      | false =>
        show Recorded lib ((c.logged ⟨t.addr, true, withSub, withSub, t.answer⟩).answered
          t.addr false fingerprint result)
        rw [HeartbeatClient.answered, hsupport]
        exact h.logged hnew (by simp [Beat.fullSupported, hresult, hsupport])
      | true =>
        have hb : Beat.fullSupported ⟨t.addr, true, withSub, withSub, t.answer⟩ = true := by
          simp [Beat.fullSupported, hfull, hresult, hsupport]
        have hsent := h.answered_supported hnew hb hresult hsupport
        rwa [hfingerprint] at hsent

/-- **A round keeps it.** -/
theorem Recorded.sendHeartbeatRound (isRebalance : Bool)
    (targets : List Target) : Recorded lib (c.sendHeartbeatRound lib isRebalance targets) := by
  have hfull := prepareHeartbeatData_withoutSub c.registry c.clientId
  unfold HeartbeatClient.sendHeartbeatRound
  dsimp only
  generalize c.registry.prepareHeartbeatData c.clientId = data at hfull ⊢
  split
  · exact h
  · split
    · exact h
    · split
      · exact List.foldlRecOn (motive := Recorded lib) _ _ h fun c hc t _ =>
          hc.sendHeartbeat hfull t
      · have hstart : Recorded lib (if isRebalance = true then c.resetTable else c) := by
          split
          · exact h.resetTable
          · exact h
        have hstamped fingerprint := data.fingerprint_stamped lib fingerprint
        generalize data.computeHeartbeatFingerprint lib = fingerprint at hstamped ⊢
        refine List.foldlRecOn (motive := Recorded lib) _ _ hstart fun c hc t _ => ?_
        refine hc.sendHeartbeatToBrokerV2 ?_ ?_ (hstamped fingerprint) t
        · exact hfull
        · rfl

/-- **Every step keeps it.** -/
theorem Recorded.step {act : HeartbeatAct} (hs : c.step lib act = some c') : Recorded lib c' := by
  cases act with
  | change registry =>
    cases hs
    exact ⟨h.rows, h.beats⟩
  | round isRebalance targets =>
    cases hs
    exact h.sendHeartbeatRound isRebalance targets
  | plain registry target =>
    cases hs
    exact h.sendHeartbeat (prepareHeartbeatData_withoutSub registry c.clientId) target
  | reset =>
    cases hs
    exact h.resetTable
  | setUseHeartbeatV2 enable =>
    cases hs
    exact ⟨h.resetTable.rows, h.beats⟩

end Recorded

/-! ## 6. Light beats -/

/-- The last full beat that the address has accepted, of whatever kind, had the content of now. -/
def LightSame (before : List Beat) (b : Beat) : Prop :=
  b.body.withoutSub = true →
    ∃ f ∈ lastBeat Beat.fullAccepted b.addr before, f.body.content = b.current.content

instance (before : List Beat) (b : Beat) : Decidable (LightSame before b) :=
  inferInstanceAs (Decidable (_ → _))

/-- **A light beat goes out with the fingerprint of the last full one that earned it**: whatever
rounds, changes and answers there were, the last full beat of a fingerprint round that the address
answered with support had the fingerprint of what is registered now. -/
theorem light_beat_fingerprint {lib : StdLib} {clientId : String} {concurrent v2 : Bool}
    {c : HeartbeatClient}
    (h : Machine.Reach (HeartbeatClient.step lib) (fun _ _ => True)
      (.new clientId concurrent v2) c) {before later : List Beat} {b : Beat}
    (hlog : c.log = before ++ b :: later) (hlight : b.body.withoutSub = true) :
    ∃ f, lastBeat Beat.fullSupported b.addr before = some f ∧
      f.body.computeHeartbeatFingerprint lib = b.current.computeHeartbeatFingerprint lib := by
  have hstart : Recorded lib (.new clientId concurrent v2) := by
    refine ⟨fun addr fingerprint hrow => ?_, trivial⟩
    have hempty : (∅ : Std.ExtTreeMap String Int32)[addr]? = some fingerprint := hrow
    simp at hempty
  have hrecorded : Recorded lib c := h.invariant hstart fun _ _ _ hI _ hs => hI.step hs
  have hbeats := hrecorded.beats
  rw [hlog] at hbeats
  obtain ⟨f, hlast, _, hfingerprint⟩ := hbeats.at hlight
  exact ⟨f, hlast, hfingerprint⟩

end RocketMQ.Heartbeat

namespace RocketMQ.Script

open Heartbeat

/-- One consumer with one subscription to this tag. -/
def subscribed (tag : String) (code : Int32) (version : Int64) : Registry :=
  ⟨∅, (∅ : Std.ExtTreeMap String RegisteredConsumer).insert "g"
    ⟨"CONSUME_PASSIVELY", "CLUSTERING", "CONSUME_FROM_LAST_OFFSET", false,
      [⟨false, "T", tag, [tag], [code], version, "TAG"⟩]⟩⟩

/-- A broker that answers a heartbeat with these fields. -/
def beatAnswer (fields : List (String × String)) : Target :=
  ⟨0, "b:1", some ⟨0, 0, 0, 0, 1, none, 0, none, ⟨fields⟩, none⟩⟩

/-- The broker knows the fingerprints. -/
def knowsV2 : Target := beatAnswer [("IS_SUPPORT_HEART_BEAT_V2", "true")]

/-- A round for each of these, with these answers. -/
def beatActs (rounds : List (Registry × Target)) : List HeartbeatAct :=
  rounds.flatMap fun r => [.change r.1, .round false [r.2]]

def beatRounds (rounds : List (Registry × Target)) : HeartbeatClient :=
  HeartbeatClient.after noFloats (.new "c" false true) (beatActs rounds)

def renewedBeats : HeartbeatClient :=
  beatRounds [(subscribed "Aa" 2112 1, knowsV2), (subscribed "Aa" 2112 2, knowsV2)]

end RocketMQ.Script

namespace RocketMQ.Heartbeat

open Script

/-- The subscription is renewed with a new version number. -/
theorem light_beat_fingerprint_renewed :
    ∃ first second, renewedBeats.log = [first, second] ∧ second.body.withoutSub = true ∧
      ∃ f, lastBeat Beat.fullSupported second.addr [first] = some f ∧
        f.body.computeHeartbeatFingerprint noFloats
          = second.current.computeHeartbeatFingerprint noFloats := by
  have hmeets : Machine.Meets (HeartbeatClient.step noFloats) (fun _ _ => True)
      (.new "c" false true)
      (beatActs [(subscribed "Aa" 2112 1, knowsV2), (subscribed "Aa" 2112 2, knowsV2)]) := by
    decide +kernel
  have hkinds : renewedBeats.log.map (·.body.withoutSub) = [false, true] := by decide +kernel
  obtain ⟨first, second, hlog⟩ := List.length_eq_two.mp
    ((List.length_map _).symm.trans (congrArg List.length hkinds))
  rw [hlog] at hkinds
  have hlight : second.body.withoutSub = true := (List.cons.inj (List.cons.inj hkinds).2).1
  have hsplit : renewedBeats.log = [first] ++ second :: [] := hlog
  exact ⟨first, second, hlog, hlight,
    light_beat_fingerprint hmeets.reach_after hsplit hlight⟩

/-- Two tags with one hash; and a broker that once answers without the flag. Both times a light beat
is sent, and the last full one that was accepted had other content. -/
theorem light_beat_on_other_content :
    ¬ Machine.Along LightSame [] (beatRounds
        [(subscribed "Aa" 2112 1, knowsV2), (subscribed "BB" 2112 2, knowsV2)]).log ∧
    ¬ Machine.Along LightSame [] (beatRounds
        [(subscribed "Aa" 2112 1, knowsV2), (subscribed "x" 120 2, beatAnswer []),
          (subscribed "Aa" 2112 3, knowsV2)]).log := by
  decide +kernel

end RocketMQ.Heartbeat
