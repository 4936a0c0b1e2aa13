/-
  File:      RocketMQ/Rebalance/Nearby.lean
  Subject:   Queues go to the clients of their machine room.

  After `AllocateMachineRoomNearby` of `client/allocate_strategy.rs`. The strategy groups queues and
  clients by room and lets another strategy share out the queues of a room among its clients; the
  queues of a room without clients are shared out among all.

  * `mem_nearbyShare`: the way in which a client gets a queue;
  * `nearby_partition`: **over one that partitions, it partitions again**, and nobody gets a
    queue of a room that has clients of its own;
  * `nearby_passes_over`: a client without an id is passed over.
-/
import RocketMQ.Rebalance.Strategies

namespace RocketMQ

open List Shares Std

/-! ## 1. The strategy -/

structure MachineRoomResolver where
  brokerDeployIn : MessageQueue → String
  consumerDeployIn : String → String

/-- The table of the items by room; an item without a room is an error. -/
def groupByRoom {α : Type} (deployIn : α → String) (message : α → String) (items : List α) :
    Except String (ExtTreeMap String (List α)) :=
  items.foldlM (fun table x =>
    if (deployIn x).isEmpty then .error (message x)
    else .ok (table.alter (deployIn x) fun group => some (group.getD [] ++ [x]))) ∅

/-- What the other strategy gives of these tables, one behind the other. -/
def allocateEach (allocate : List MessageQueue → Except String (List MessageQueue))
    (results : List MessageQueue) (groups : List (String × List MessageQueue)) :
    Except String (List MessageQueue) :=
  groups.foldlM (fun results e => (allocate e.2).map (results ++ ·)) results

/-- `AllocateMachineRoomNearby::allocate`. -/
def allocateMachineRoomNearby (inner : AllocateStrategy) (resolver : MachineRoomResolver) :
    AllocateStrategy := fun consumerGroup currentCid mqAll cidAll =>
  match checkConfig currentCid mqAll cidAll with
  | none => .ok []
  | some _ => do
      let mr2Mq ← groupByRoom resolver.brokerDeployIn
        (fun mq => "Machine room is null for mq " ++ mq.toJavaString) mqAll
      let mr2C ← groupByRoom resolver.consumerDeployIn
        (fun cid => "Machine room is null for consumer id " ++ cid) cidAll
      let currentMachineRoom := resolver.consumerDeployIn currentCid
      let consumerInThisMachineRoom := mr2C[currentMachineRoom]?.getD []
      -- the queues of the own room, then those of the rooms that have no clients
      let results ← allocateEach
        (fun mqs => inner consumerGroup currentCid mqs consumerInThisMachineRoom) []
        ((mr2Mq[currentMachineRoom]?.filter fun mqs => !mqs.isEmpty).toList.map
          fun mqs => (currentMachineRoom, mqs))
      allocateEach (fun mqs => inner consumerGroup currentCid mqs cidAll) results
        ((mr2Mq.erase currentMachineRoom).toList.filter fun e => !mr2C.contains e.1)

/-! ## 2. The tables -/

/-- **The table holds the items of each room**, in order. -/
def Grouped {α : Type} (deployIn : α → String) (items : List α)
    (table : ExtTreeMap String (List α)) : Prop :=
  ∀ room group, table[room]? = some group ↔
    group = items.filter (fun x => deployIn x = room) ∧ group ≠ []

section Grouped

variable {α : Type} {deployIn : α → String} {items : List α}
  {table : ExtTreeMap String (List α)}

theorem Grouped.getD (h : Grouped deployIn items table) (room : String) :
    table[room]?.getD [] = items.filter fun x => deployIn x = room := by
  cases hget : table[room]? with
  | some group => exact ((h room group).mp hget).1
  | none =>
    refine Eq.symm (Classical.byContradiction fun hne => ?_)
    rw [(h room _).mpr ⟨rfl, hne⟩] at hget
    cases hget

theorem Grouped.mem_iff (h : Grouped deployIn items table) (room : String) :
    room ∈ table ↔ ∃ x ∈ items, deployIn x = room := by
  rw [ExtTreeMap.mem_iff_isSome_getElem?, Option.isSome_iff_exists]
  constructor
  · rintro ⟨group, hget⟩
    obtain ⟨rfl, hne⟩ := (h room group).mp hget
    obtain ⟨x, hx⟩ := exists_mem_of_ne_nil _ hne
    exact ⟨x, mem_of_mem_filter hx, of_decide_eq_true (mem_filter.mp hx).2⟩
  · rintro ⟨x, hx, hroom⟩
    refine ⟨_, (h room _).mpr ⟨rfl, ne_nil_of_mem (a := x) ?_⟩⟩
    exact mem_filter.mpr ⟨hx, decide_eq_true hroom⟩

theorem Grouped.insert (h : Grouped deployIn items table) (x : α) :
    Grouped deployIn (items ++ [x])
      (table.alter (deployIn x) fun group => some (group.getD [] ++ [x])) := by
  intro room group
  rw [ExtTreeMap.getElem?_alter]
  by_cases hroom : deployIn x = room
  · subst hroom
    rw [if_pos (Std.ReflCmp.compare_self), h.getD, Option.some.injEq]
    constructor
    · rintro rfl
      simp
    · rintro ⟨rfl, _⟩
      simp
  · rw [if_neg (by simpa using hroom), h room group]
    simp [hroom]

theorem groupByRoom_grouped (hrooms : ∀ x, deployIn x ≠ "") (message : α → String)
    (items : List α) :
    ∃ table, groupByRoom deployIn message items = .ok table ∧ Grouped deployIn items table := by
  suffices hgen : ∀ done table,
      Grouped deployIn done table → ∃ table', items.foldlM (fun table x =>
        if (deployIn x).isEmpty then .error (message x)
        else .ok (table.alter (deployIn x) fun group => some (group.getD [] ++ [x]))) table
          = Except.ok table' ∧ Grouped deployIn (done ++ items) table' by
    refine hgen [] ∅ fun room group => ?_
    simp
  induction items with
  | nil => exact fun done table h => ⟨table, rfl, by simpa using h⟩
  | cons x items ih =>
    intro done table h
    obtain ⟨table', hrest, hgrouped⟩ := ih (done ++ [x]) _ (h.insert x)
    refine ⟨table', ?_, by simpa using hgrouped⟩
    rw [foldlM_cons, if_neg (by simpa using hrooms x)]
    exact hrest

end Grouped

/-! ## 3. The shares -/

/-- What the strategy gives to a client. -/
def AllocateStrategy.share (allocate : AllocateStrategy) (group : String)
    (mqAll : List MessageQueue) (cidAll : List String) (cid : String) : List MessageQueue :=
  (allocate group cid mqAll cidAll).toOption.getD []

/-- **The strategy makes a partition** of any queues, for any clients with ids. -/
def AllocateStrategy.Partitions (allocate : AllocateStrategy) : Prop :=
  ∀ group mqAll cidAll, mqAll ≠ [] → mqAll.Nodup → cidAll ≠ [] → cidAll.Nodup → "" ∉ cidAll →
    allocate.Allots group mqAll cidAll mqAll (allocate.share group mqAll cidAll)

theorem AllocateStrategy.Allots.self {allocate : AllocateStrategy} {group : String}
    {mqAll all : List MessageQueue} {cidAll : List String} {share : String → List MessageQueue}
    (h : allocate.Allots group mqAll cidAll all share) :
    allocate.Allots group mqAll cidAll all (allocate.share group mqAll cidAll) := by
  have hshare : ∀ cid ∈ cidAll, allocate.share group mqAll cidAll cid = share cid := by
    intro cid hcid
    rw [AllocateStrategy.share, h.returns cid hcid]
    rfl
  refine ⟨fun cid hcid => ?_, fun a ha b hb hne => ?_, fun mq => ?_, fun cid hcid => ?_⟩
  · rw [hshare cid hcid, h.returns cid hcid]
  · rw [hshare a ha, hshare b hb]
    exact h.partition.apart a ha b hb hne
  · rw [← h.partition.whole mq]
    refine exists_congr fun cid => and_congr_right fun hcid => ?_
    rw [hshare cid hcid]
  · rw [hshare cid hcid]
    exact h.partition.once cid hcid

theorem allocateAveragely_partitions : AllocateStrategy.Partitions allocateAveragely := by
  intro group mqAll cidAll hmqs hnodup hne hcids hids
  obtain ⟨share, hallots, _⟩ : ∃ share, AllocateStrategy.Allots allocateAveragely group mqAll cidAll
      mqAll share ∧ Fair cidAll share := allocateAveragely_allots hmqs hnodup hcids hne hids
  exact hallots.self

theorem allocateEach_ok (allocate : List MessageQueue → Except String (List MessageQueue))
    (share : List MessageQueue → List MessageQueue) {groups : List (String × List MessageQueue)}
    (h : ∀ e ∈ groups, allocate e.2 = .ok (share e.2)) (results : List MessageQueue) :
    allocateEach allocate results groups
      = .ok (results ++ groups.flatMap fun e => share e.2) := by
  induction groups generalizing results with
  | nil =>
    rw [flatMap_nil, append_nil]
    rfl
  | cons e groups ih =>
    have hrest := ih (fun e' he' => h e' (mem_cons_of_mem _ he')) (results ++ share e.2)
    unfold allocateEach at hrest ⊢
    rw [foldlM_cons, h e mem_cons_self, flatMap_cons, ← append_assoc]
    exact hrest

section Nearby

variable (inner : AllocateStrategy) (resolver : MachineRoomResolver) (group : String)
  (mqAll : List MessageQueue) (cidAll : List String)

/-- The queues of a room. -/
def roomQueues (room : String) : List MessageQueue :=
  mqAll.filter fun mq => resolver.brokerDeployIn mq = room

/-- The clients of a room. -/
def roomClients (room : String) : List String :=
  cidAll.filter fun cid => resolver.consumerDeployIn cid = room

/-- The share of the own room. -/
def ownShare (cid : String) : List MessageQueue :=
  if roomQueues resolver mqAll (resolver.consumerDeployIn cid) = [] then []
  else inner.share group (roomQueues resolver mqAll (resolver.consumerDeployIn cid))
    (roomClients resolver cidAll (resolver.consumerDeployIn cid)) cid

/-- The share of the rooms without clients. -/
def otherShare (groups : List (String × List MessageQueue)) (cid : String) : List MessageQueue :=
  groups.flatMap fun e => inner.share group e.2 cidAll cid

variable {inner resolver group mqAll cidAll} {mq : MessageQueue} {cid room : String}

theorem mem_roomQueues : mq ∈ roomQueues resolver mqAll room ↔
    mq ∈ mqAll ∧ resolver.brokerDeployIn mq = room := by
  simp [roomQueues]

theorem mem_room (resolver : MachineRoomResolver) (hmq : mq ∈ mqAll) :
    mq ∈ roomQueues resolver mqAll (resolver.brokerDeployIn mq) :=
  mem_roomQueues.mpr ⟨hmq, rfl⟩

theorem mem_roomClients : cid ∈ roomClients resolver cidAll room ↔
    cid ∈ cidAll ∧ resolver.consumerDeployIn cid = room := by
  simp [roomClients]

theorem mem_own_room (resolver : MachineRoomResolver) (hcid : cid ∈ cidAll) :
    cid ∈ roomClients resolver cidAll (resolver.consumerDeployIn cid) :=
  mem_roomClients.mpr ⟨hcid, rfl⟩

/-- Who shares out the queues of a room: its clients, or all if it has none. -/
def servants (resolver : MachineRoomResolver) (cidAll : List String) (room : String) :
    List String :=
  if roomClients resolver cidAll room = [] then cidAll else roomClients resolver cidAll room

theorem servants_own (hcid : cid ∈ cidAll) : servants resolver cidAll (resolver.consumerDeployIn cid)
    = roomClients resolver cidAll (resolver.consumerDeployIn cid) :=
  if_neg (ne_nil_of_mem (mem_own_room resolver hcid))

theorem mem_servants : cid ∈ servants resolver cidAll room ↔ cid ∈ cidAll ∧
    (resolver.consumerDeployIn cid = room ∨ roomClients resolver cidAll room = []) := by
  unfold servants
  split
  · rename_i hempty
    exact ⟨fun hcid => ⟨hcid, .inr hempty⟩, fun h => h.1⟩
  · rename_i hne
    rw [mem_roomClients, or_iff_left hne]

/-- These are the groups of the rooms without clients. -/
structure Unserved (resolver : MachineRoomResolver) (mqAll : List MessageQueue)
    (cidAll : List String) (groups : List (String × List MessageQueue)) : Prop where
  mem_iff : ∀ e, e ∈ groups ↔ e.2 = roomQueues resolver mqAll e.1 ∧ e.2 ≠ [] ∧
    roomClients resolver cidAll e.1 = []
  rooms : groups.Pairwise fun a b => a.1 ≠ b.1

/-- **What is given**: a strategy that partitions, and queues and clients that are distinct. -/
structure Given (inner : AllocateStrategy) (mqAll : List MessageQueue) (cidAll : List String) :
    Prop where
  partitions : inner.Partitions
  queues : mqAll.Nodup
  clients : cidAll.Nodup
  ids : "" ∉ cidAll

section

variable (hgiven : Given inner mqAll cidAll)

include hgiven

theorem room_allots (group : String) (hmq : mq ∈ roomQueues resolver mqAll room)
    (hcid : cid ∈ cidAll) :
    inner.Allots group (roomQueues resolver mqAll room) (servants resolver cidAll room)
      (roomQueues resolver mqAll room)
      (inner.share group (roomQueues resolver mqAll room) (servants resolver cidAll room)) := by
  have hsub : (servants resolver cidAll room).Sublist cidAll := by
    unfold servants
    split
    · exact List.Sublist.refl _
    · exact filter_sublist
  refine hgiven.partitions _ _ _ (ne_nil_of_mem hmq) (hgiven.queues.filter _) ?_
    (hgiven.clients.sublist hsub) fun h => hgiven.ids (hsub.mem h)
  unfold servants
  split
  · exact ne_nil_of_mem hcid
  · assumption

/-- **The own room.** -/
theorem mem_ownShare (hcid : cid ∈ cidAll) : mq ∈ ownShare inner resolver group mqAll cidAll cid ↔
    mq ∈ roomQueues resolver mqAll (resolver.consumerDeployIn cid) ∧
    mq ∈ inner.share group (roomQueues resolver mqAll (resolver.consumerDeployIn cid))
      (servants resolver cidAll (resolver.consumerDeployIn cid)) cid := by
  unfold ownShare
  rw [← servants_own hcid]
  split
  · rename_i hempty
    simp [hempty]
  · rename_i hne
    refine ⟨fun hmq => ⟨?_, hmq⟩, fun h => h.2⟩
    obtain ⟨other, hother⟩ := exists_mem_of_ne_nil _ hne
    exact ((room_allots hgiven _ hother hcid).partition.whole mq).mp
      ⟨cid, mem_servants.mpr ⟨hcid, .inl rfl⟩, hmq⟩

variable {groups : List (String × List MessageQueue)}

variable (hgroups : Unserved resolver mqAll cidAll groups)
include hgroups

/-- What the other strategy does with a group of the rooms without clients. -/
theorem group_allots (group : String)
    (hcid : cid ∈ cidAll) {e : String × List MessageQueue} (he : e ∈ groups) :
    inner.Allots group e.2 cidAll e.2 (inner.share group e.2 cidAll) := by
  obtain ⟨hqueues, hne, hclients⟩ := (hgroups.mem_iff e).mp he
  obtain ⟨other, hother⟩ := exists_mem_of_ne_nil _ hne
  rw [hqueues] at hother ⊢
  have hallots := room_allots hgiven group hother hcid
  rwa [servants, if_pos hclients] at hallots

/-- **The rooms without clients.** -/
theorem mem_otherShare (hcid : cid ∈ cidAll) :
    mq ∈ otherShare inner group cidAll groups cid ↔
      mq ∈ mqAll ∧ roomClients resolver cidAll (resolver.brokerDeployIn mq) = [] ∧
      mq ∈ inner.share group (roomQueues resolver mqAll (resolver.brokerDeployIn mq))
        (servants resolver cidAll (resolver.brokerDeployIn mq)) cid := by
  unfold otherShare
  rw [mem_flatMap]
  constructor
  · rintro ⟨e, he, hmq⟩
    have hqueue := ((group_allots hgiven hgroups group hcid he).partition.whole
      mq).mp ⟨cid, hcid, hmq⟩
    obtain ⟨hqueues, _, hclients⟩ := (hgroups.mem_iff e).mp he
    rw [hqueues] at hqueue hmq
    obtain ⟨hmem, hroom⟩ := mem_roomQueues.mp hqueue
    rw [hroom, servants, if_pos hclients]
    exact ⟨hmem, hclients, hmq⟩
  · rintro ⟨hmem, hclients, hmq⟩
    rw [servants, if_pos hclients] at hmq
    refine ⟨(_, _), (hgroups.mem_iff (resolver.brokerDeployIn mq, _)).mpr ⟨rfl, ?_, hclients⟩, hmq⟩
    exact ne_nil_of_mem (mem_room resolver hmem)

/-- **The way to a queue**: the client serves its room, and the other strategy gives it. -/
theorem mem_nearbyShare (hcid : cid ∈ cidAll) :
    mq ∈ ownShare inner resolver group mqAll cidAll cid
        ++ otherShare inner group cidAll groups cid ↔
      mq ∈ mqAll ∧ cid ∈ servants resolver cidAll (resolver.brokerDeployIn mq) ∧
      mq ∈ inner.share group (roomQueues resolver mqAll (resolver.brokerDeployIn mq))
        (servants resolver cidAll (resolver.brokerDeployIn mq)) cid := by
  rw [mem_append, mem_ownShare hgiven hcid,
    mem_otherShare hgiven hgroups hcid, mem_servants, mem_roomQueues]
  constructor
  · rintro (⟨⟨hmem, hroom⟩, hmq⟩ | ⟨hmem, hempty, hmq⟩)
    · rw [hroom]
      exact ⟨hmem, ⟨hcid, .inl rfl⟩, hmq⟩
    · exact ⟨hmem, ⟨hcid, .inr hempty⟩, hmq⟩
  · rintro ⟨hmem, ⟨_, hroom | hempty⟩, hmq⟩
    · rw [hroom]
      exact .inl ⟨⟨hmem, rfl⟩, hmq⟩
    · exact .inr ⟨hmem, hempty, hmq⟩

theorem nearbyShare_nodup (hcid : cid ∈ cidAll) :
    (ownShare inner resolver group mqAll cidAll cid
      ++ otherShare inner group cidAll groups cid).Nodup := by
  have hgroup {e : String × List MessageQueue} (he : e ∈ groups) :=
    (group_allots hgiven hgroups group hcid he).partition
  refine List.Nodup.append ?_ (nodup_flatMap.mpr ⟨fun e he => (hgroup he).once cid hcid, ?_⟩)
    fun mq hown hother => ?_
  · unfold ownShare
    rw [← servants_own hcid]
    split
    · exact nodup_nil
    · rename_i hne
      obtain ⟨other, hother⟩ := exists_mem_of_ne_nil _ hne
      exact (room_allots hgiven _ hother hcid).partition.once cid
        (mem_servants.mpr ⟨hcid, .inl rfl⟩)
  · refine hgroups.rooms.imp_of_mem fun {a b} ha hb hne mq hmqa hmqb => hne ?_
    have hmema := ((hgroup ha).whole mq).mp ⟨cid, hcid, hmqa⟩
    have hmemb := ((hgroup hb).whole mq).mp ⟨cid, hcid, hmqb⟩
    rw [((hgroups.mem_iff a).mp ha).1] at hmema
    rw [((hgroups.mem_iff b).mp hb).1] at hmemb
    exact (mem_roomQueues.mp hmema).2.symm.trans (mem_roomQueues.mp hmemb).2
  · -- the own room has a client
    have hroom := (mem_roomQueues.mp
      ((mem_ownShare hgiven hcid).mp hown).1).2
    have hempty := ((mem_otherShare hgiven hgroups hcid).mp hother).2.1
    rw [hroom] at hempty
    exact ne_nil_of_mem (mem_own_room resolver hcid) hempty

omit hgroups

/-- **A partition again.** -/
theorem nearbyShare_partition {groups : String → List (String × List MessageQueue)}
    (hgroups : ∀ cid ∈ cidAll, Unserved resolver mqAll cidAll (groups cid)) (hne : cidAll ≠ []) :
    IsPartition cidAll (fun cid => ownShare inner resolver group mqAll cidAll cid
      ++ otherShare inner group cidAll (groups cid) cid) mqAll := by
  have hmem cid hcid {mq : MessageQueue} :
      mq ∈ ownShare inner resolver group mqAll cidAll cid
        ++ otherShare inner group cidAll (groups cid) cid ↔ _ :=
    mem_nearbyShare hgiven (hgroups cid hcid) hcid
  obtain ⟨first, hfirst⟩ := exists_mem_of_ne_nil _ hne
  have hroom mq (hmq : mq ∈ mqAll) :=
    (room_allots hgiven group (mem_room resolver hmq) hfirst).partition
  refine ⟨fun a ha b hb hab mq hmqa hmqb => ?_, fun mq => ⟨?_, fun hmq => ?_⟩,
    fun cid hcid => nearbyShare_nodup hgiven (hgroups cid hcid) hcid⟩
  · obtain ⟨hmq, hserves, hsa⟩ := (hmem a ha).mp hmqa
    obtain ⟨_, hserves', hsb⟩ := (hmem b hb).mp hmqb
    exact (hroom mq hmq).apart a hserves b hserves' hab hsa hsb
  · rintro ⟨cid, hcid, hmq⟩
    exact ((hmem cid hcid).mp hmq).1
  · obtain ⟨cid, hserves, hshare⟩ := ((hroom mq hmq).whole mq).mpr (mem_room resolver hmq)
    have hcid := (mem_servants.mp hserves).1
    exact ⟨cid, hcid, (hmem cid hcid).mpr ⟨hmq, hserves, hshare⟩⟩

end

variable {mr2Mq : ExtTreeMap String (List MessageQueue)}
  {mr2C : ExtTreeMap String (List String)}

theorem unserved_of_grouped (hmq : Grouped resolver.brokerDeployIn mqAll mr2Mq)
    (hc : Grouped resolver.consumerDeployIn cidAll mr2C) (hcid : cid ∈ cidAll) :
    Unserved resolver mqAll cidAll ((mr2Mq.erase (resolver.consumerDeployIn cid)).toList.filter
      fun e => !mr2C.contains e.1) := by
  have hclients room : (!mr2C.contains room) = true ↔
      roomClients resolver cidAll room = [] := by
    rw [Bool.not_eq_true', ← Bool.not_eq_true, ExtTreeMap.contains_iff_mem, hc.mem_iff,
      roomClients]
    simp
  refine ⟨fun e => ?_, ?_⟩
  · rw [mem_filter, hclients, ExtTreeMap.mem_toList_iff_getElem?_eq_some,
      ExtTreeMap.getElem?_erase]
    by_cases hroom : resolver.consumerDeployIn cid = e.1
    · have hne := ne_nil_of_mem (mem_own_room resolver hcid)
      rw [hroom] at hne
      simp [hne]
    · rw [if_neg (by simpa using hroom), hmq]
      exact and_assoc
  · refine List.Pairwise.filter _ (ExtTreeMap.distinct_keys_toList.imp fun {a b} hne heq => ?_)
    exact hne (by rw [heq]; exact Std.ReflCmp.compare_self)

theorem own_of_grouped (hmq : Grouped resolver.brokerDeployIn mqAll mr2Mq) (room : String) :
    (mr2Mq[room]?.filter fun mqs => !mqs.isEmpty).toList
      = if roomQueues resolver mqAll room = [] then [] else [roomQueues resolver mqAll room] := by
  have hqueues : mr2Mq[room]?.getD [] = roomQueues resolver mqAll room := hmq.getD room
  cases hget : mr2Mq[room]? with
  | none =>
    rw [hget, Option.getD_none] at hqueues
    rw [if_pos hqueues.symm]
    rfl
  | some mqs =>
    have hne := ((hmq room mqs).mp hget).2
    rw [hget] at hqueues
    obtain rfl : mqs = roomQueues resolver mqAll room := hqueues
    rw [if_neg hne, Option.filter_some, if_pos (by simpa using hne)]
    rfl

/-- **What a client is given.** -/
theorem allocateMachineRoomNearby_mem (hgiven : Given inner mqAll cidAll) (hmqs : mqAll ≠ [])
    (hmr2Mq : groupByRoom resolver.brokerDeployIn
      (fun mq => "Machine room is null for mq " ++ mq.toJavaString) mqAll = .ok mr2Mq)
    (hmr2C : groupByRoom resolver.consumerDeployIn
      (fun cid => "Machine room is null for consumer id " ++ cid) cidAll = .ok mr2C)
    (hmq : Grouped resolver.brokerDeployIn mqAll mr2Mq)
    (hc : Grouped resolver.consumerDeployIn cidAll mr2C) (hcid : cid ∈ cidAll) :
    allocateMachineRoomNearby inner resolver group cid mqAll cidAll
      = .ok (ownShare inner resolver group mqAll cidAll cid
        ++ otherShare inner group cidAll
          ((mr2Mq.erase (resolver.consumerDeployIn cid)).toList.filter
            fun e => !mr2C.contains e.1) cid) := by
  have hclients : mr2C[resolver.consumerDeployIn cid]?.getD []
      = roomClients resolver cidAll (resolver.consumerDeployIn cid) := hc.getD _
  have hown : allocateEach (fun mqs => inner group cid mqs
      (mr2C[resolver.consumerDeployIn cid]?.getD [])) []
      ((mr2Mq[resolver.consumerDeployIn cid]?.filter fun mqs => !mqs.isEmpty).toList.map
        fun mqs => (resolver.consumerDeployIn cid, mqs))
      = .ok (ownShare inner resolver group mqAll cidAll cid) := by
    rw [hclients, own_of_grouped hmq]
    unfold ownShare
    rw [← servants_own hcid]
    split
    · rfl
    · rename_i hne
      obtain ⟨other, hother⟩ := exists_mem_of_ne_nil _ hne
      have hreturns := (room_allots hgiven group hother hcid).returns cid
        (mem_servants.mpr ⟨hcid, .inl rfl⟩)
      rw [allocateEach_ok _ (fun mqs => inner.share group mqs
        (servants resolver cidAll (resolver.consumerDeployIn cid)) cid) fun e he => by
          rw [mem_singleton.mp he]
          exact hreturns]
      simp
  unfold allocateMachineRoomNearby
  rw [checkConfig_mem hmqs (ne_of_mem_of_not_mem hcid hgiven.ids) hcid, hmr2Mq, hmr2C]
  show (allocateEach _ [] _).bind _ = _
  rw [hown]
  exact allocateEach_ok (fun mqs => inner group cid mqs cidAll)
    (fun mqs => inner.share group mqs cidAll cid) (fun e he => (group_allots hgiven
      (unserved_of_grouped hmq hc hcid) group hcid he).returns cid hcid) _

end Nearby

/-- **Machine-room-nearby allocation is a partition again**, and a queue whose room has clients goes
to one of these. -/
theorem nearby_partition {inner : AllocateStrategy} {resolver : MachineRoomResolver}
    (hinner : inner.Partitions) (hqueueRooms : ∀ mq, resolver.brokerDeployIn mq ≠ "")
    (hclientRooms : ∀ cid, resolver.consumerDeployIn cid ≠ "") (group : String)
    {mqAll : List MessageQueue} {cidAll : List String} (hnodup : mqAll.Nodup)
    (hcids : cidAll.Nodup) (hids : mqAll ≠ [] → cidAll ≠ [] ∧ "" ∉ cidAll) :
    ∃ share, (allocateMachineRoomNearby inner resolver).Allots group mqAll cidAll mqAll share ∧
      ∀ cid ∈ cidAll, ∀ mq ∈ share cid,
        (∃ other ∈ cidAll, resolver.consumerDeployIn other = resolver.brokerDeployIn mq) →
          resolver.consumerDeployIn cid = resolver.brokerDeployIn mq := by
  by_cases hmqs : mqAll = []
  · -- no queues: the guard gives everyone nothing
    subst hmqs
    refine ⟨fun _ => [], ⟨fun cid _ => ?_, fun _ _ _ _ _ _ h => ?_, fun mq => ?_,
      fun _ _ => ?_⟩, ?_⟩
    · simp [allocateMachineRoomNearby, checkConfig]
    · cases h
    · simp
    · exact nodup_nil
    · simp
  · obtain ⟨hne, hids⟩ := hids hmqs
    obtain ⟨mr2Mq, hmr2Mq, hmq⟩ := groupByRoom_grouped hqueueRooms
      (fun mq => "Machine room is null for mq " ++ mq.toJavaString) mqAll
    obtain ⟨mr2C, hmr2C, hc⟩ := groupByRoom_grouped hclientRooms
      (fun cid => "Machine room is null for consumer id " ++ cid) cidAll
    have hgiven : Given inner mqAll cidAll := ⟨hinner, hnodup, hcids, hids⟩
    have hunserved (cid : String) (hcid : cid ∈ cidAll) := unserved_of_grouped hmq hc hcid
    refine ⟨_, ⟨fun cid hcid => allocateMachineRoomNearby_mem hgiven hmqs hmr2Mq
      hmr2C hmq hc hcid, nearbyShare_partition hgiven hunserved hne⟩, ?_⟩
    rintro cid hcid mq hshare ⟨other, hother, hroom⟩
    obtain ⟨_, hserves, _⟩ :=
      (mem_nearbyShare hgiven (hunserved cid hcid) hcid).mp hshare
    exact (mem_servants.mp hserves).2.resolve_right
      (ne_nil_of_mem (mem_roomClients.mpr ⟨hother, hroom⟩))

end RocketMQ

namespace RocketMQ.Script

/-- A strategy that gives everything to the first client, with or without an id. -/
def firstTakesAll : AllocateStrategy := fun _ cid mqAll cidAll =>
  .ok (if cidAll.head? = some cid then mqAll else [])

/-- A queue is in the room of its broker name, a client in the room of its id. -/
def namedRooms : MachineRoomResolver := ⟨fun mq => "r" ++ mq.brokerName, fun cid => "r" ++ cid⟩

end RocketMQ.Script

namespace RocketMQ

open List Script Shares

/-- Five queues in four rooms, two clients in one of them each. -/
theorem nearby_partition_five :
    ∃ share, (allocateMachineRoomNearby allocateAveragely namedRooms).Allots "g" fiveQueues
      ["a", "r@b"] fiveQueues share ∧
      ∀ cid ∈ ["a", "r@b"], ∀ mq ∈ share cid,
        (∃ other ∈ ["a", "r@b"], namedRooms.consumerDeployIn other = namedRooms.brokerDeployIn mq) →
          namedRooms.consumerDeployIn cid = namedRooms.brokerDeployIn mq :=
  nearby_partition allocateAveragely_partitions (fun mq h => by simp [namedRooms] at h)
    (fun cid h => by simp [namedRooms] at h) "g" (by decide) (by decide)
    fun _ => ⟨by decide, by decide⟩

/-- A client without an id is passed over, whatever it would get; and with no clients nobody gets
the queues. -/
theorem nearby_passes_over :
    (∀ group mqAll cidAll, mqAll ≠ [] → mqAll.Nodup → cidAll ≠ [] → cidAll.Nodup →
      ∃ share, firstTakesAll.Allots group mqAll cidAll mqAll share) ∧
    (¬ ∃ share, (allocateMachineRoomNearby firstTakesAll namedRooms).Allots "g"
      [⟨"T", "b", 0⟩] [""] [⟨"T", "b", 0⟩] share) ∧
    ¬ ∃ share, (allocateMachineRoomNearby firstTakesAll namedRooms).Allots "g"
      [⟨"T", "b", 0⟩] [] [⟨"T", "b", 0⟩] share := by
  refine ⟨fun group mqAll cidAll _ hnodup hne _ => ?_, ?_, ?_⟩
  · obtain ⟨first, rest, rfl⟩ := exists_cons_of_ne_nil hne
    refine ⟨fun cid => mqAll.filter fun _ => first = cid, fun cid _ => ?_,
      isPartition_filter hnodup fun _ _ => mem_cons_self⟩
    unfold firstTakesAll
    by_cases hfirst : first = cid <;> simp [hfirst]
  · rintro ⟨share, hallots⟩
    have hnothing : Except.ok [] = Except.ok (share "") := hallots.returns "" mem_cons_self
    obtain ⟨cid, hcid, hmq⟩ := (hallots.partition.whole ⟨"T", "b", 0⟩).mpr mem_cons_self
    rw [mem_singleton.mp hcid, ← Except.ok.inj hnothing] at hmq
    cases hmq
  · rintro ⟨share, hallots⟩
    obtain ⟨cid, hcid, _⟩ := (hallots.partition.whole ⟨"T", "b", 0⟩).mpr mem_cons_self
    cases hcid

end RocketMQ
