/-
  File:      RocketMQ/Rebalance/Strategies.lean
  Subject:   The strategies that share out the queues of a topic.

  After `client/allocate_strategy.rs`. Every instance of a group computes its own share, from the same
  queues and the same client ids.

  * `allocation_partition`: **the shares of the clients are a partition of the queues**, and but for
    the ring they are of the same size up to one;
  * `group_shares_partition`: instances that were told the queues and ids in different orders share
    them out alike.
-/
import RocketMQ.Lib.Shares
import RocketMQ.Lib.Text
import RocketMQ.Rebalance.Allocate
import RocketMQ.Rebalance.ConsistentHash

namespace RocketMQ

open List Shares

/-! ## 1. The strategies -/

/-- `AllocateMessageQueueAveragelyByCircle::allocate`. -/
def allocateAveragelyByCircle : AllocateStrategy := fun _ currentCid mqAll cidAll =>
  match checkConfig currentCid mqAll cidAll with
  | none => .ok []
  | some index => .ok (stepFrom cidAll.length 0 (mqAll.drop index))

def splitDroppingTrailingEmpty (text : String) (sep : Char) : List String :=
  let parts := Text.split sep text
  if parts.length = 1 then parts else (parts.reverse.dropWhile (·.isEmpty)).reverse

/-- The broker name has the form `room@name`, with one of these rooms. -/
def inRooms (rooms : List String) (mq : MessageQueue) : Bool :=
  match splitDroppingTrailingEmpty mq.brokerName '@' with
  | [room, _] => rooms.contains room
  | _ => false

/-- `AllocateMessageQueueByMachineRoom::allocate`, with these rooms on the list. -/
def allocateByMachineRoom (rooms : List String) : AllocateStrategy := fun _ currentCid mqAll cidAll =>
  match checkConfig currentCid mqAll cidAll with
  | none => .ok []
  | some index =>
    let premqAll := mqAll.filter (inRooms rooms)
    let modulo := premqAll.length / cidAll.length
    let rem := premqAll.length % cidAll.length
    let result := (premqAll.drop (modulo * index)).take modulo
    if rem > index then .ok (result ++ premqAll[index + modulo * cidAll.length]?.toList)
    else .ok result

/-- `MessageQueue::to_java_string`. -/
def MessageQueue.toJavaString (mq : MessageQueue) : String :=
  "MessageQueue [topic=" ++ mq.topic ++ ", brokerName=" ++ mq.brokerName ++ ", queueId="
    ++ toString mq.queueId ++ "]"

/-- `AllocateMessageQueueConsistentHash::allocate`. -/
def allocateConsistentHash (hashFunction : String → Int) (virtualNodeCnt : Int) :
    AllocateStrategy := fun _ currentCid mqAll cidAll =>
  match checkConfig currentCid mqAll cidAll with
  | none => .ok []
  | some _ => do
      let router ← ConsistentHashRouter.withHashFunction cidAll virtualNodeCnt hashFunction
      return mqAll.filter fun mq => router.routeNode mq.toJavaString == some currentCid

/-! ## 2. Shares -/

/-- **What a strategy gives to the clients of a group.** -/
structure AllocateStrategy.Allots (allocate : AllocateStrategy) (group : String)
    (mqAll : List MessageQueue) (cidAll : List String) (all : List MessageQueue)
    (share : String → List MessageQueue) : Prop where
  returns : ∀ cid ∈ cidAll, allocate group cid mqAll cidAll = .ok (share cid)
  partition : IsPartition cidAll share all

section

variable {group : String} {mqAll : List MessageQueue} {cidAll : List String}

theorem checkConfig_mem (hmqs : mqAll ≠ []) {cid : String} (hcid0 : cid ≠ "")
    (hcid : cid ∈ cidAll) : checkConfig cid mqAll cidAll = some (cidAll.idxOf cid) := by
  have hguards : (cid.isEmpty || mqAll.isEmpty || cidAll.isEmpty) = false := by
    simp [hcid0, hmqs, ne_nil_of_mem hcid]
  unfold checkConfig
  rw [hguards]
  exact findIdx?_eq_some_of_exists ⟨cid, hcid, beq_self_eq_true cid⟩

theorem AllocateStrategy.allots_of_index (allocate : AllocateStrategy) {all : List MessageQueue}
    (part : Nat → List MessageQueue) (hcids : cidAll.Nodup) (hall : all.Nodup)
    (hreturns : ∀ cid ∈ cidAll, allocate group cid mqAll cidAll = .ok (part (cidAll.idxOf cid)))
    (hperm : ((List.range cidAll.length).flatMap part).Perm all)
    (hsizes : ∀ i < cidAll.length, ∀ j < cidAll.length, (part i).length ≤ (part j).length + 1) :
    ∃ share, allocate.Allots group mqAll cidAll all share ∧ Fair cidAll share :=
  ⟨fun cid => part (cidAll.idxOf cid), ⟨hreturns, isPartition_of_index hcids hall hperm⟩,
    fair_of_index hsizes⟩

/-! ## 3. Slices of the queues -/

/-- Where the slice of a client begins, when the first `rem` clients have one queue more. -/
def sliceBound (average rem index : Nat) : Nat := index * average + min index rem

theorem sliceBound_succ (average rem index : Nat) : sliceBound average rem (index + 1)
    = sliceBound average rem index + (average + if index < rem then 1 else 0) := by
  unfold sliceBound
  rw [Nat.succ_mul]
  split <;> omega

theorem sliceBound_mono (average rem : Nat) {i j : Nat} (h : i ≤ j) :
    sliceBound average rem i ≤ sliceBound average rem j := by
  have hmul := Nat.mul_le_mul_right average h
  unfold sliceBound
  omega

variable (all : List MessageQueue)

/-- The slices of `n` clients. -/
def slice (n i : Nat) : List MessageQueue :=
  (all.drop (sliceBound (all.length / n) (all.length % n) i)).take
    (all.length / n + if i < all.length % n then 1 else 0)

section Slice

variable (all : List MessageQueue) {n : Nat} (hn : 0 < n)

include hn

theorem sliceBound_last : sliceBound (all.length / n) (all.length % n) n = all.length := by
  have hmod := Nat.mod_lt all.length hn
  have hdiv := Nat.div_add_mod all.length n
  rw [sliceBound]
  omega

/-- **The slices cover the queues.** -/
theorem flatMap_slice : (List.range n).flatMap (slice all n) = all := by
  have hbounds i : sliceBound (all.length / n) (all.length % n) (i + 1)
      - sliceBound (all.length / n) (all.length % n) i
      = all.length / n + if i < all.length % n then 1 else 0 := by
    rw [sliceBound_succ, Nat.add_sub_cancel_left]
  have hslices := flatMap_slices all (n := n) (show sliceBound (all.length / n) (all.length % n) 0 = 0
    by simp [sliceBound]) fun i => sliceBound_mono _ _ (Nat.le_succ i)
  simp only [hbounds] at hslices
  rwa [sliceBound_last all hn, take_length] at hslices

theorem length_slice {i : Nat} (hi : i < n) :
    (slice all n i).length = all.length / n + if i < all.length % n then 1 else 0 := by
  have hnext := sliceBound_mono (all.length / n) (all.length % n) (show i + 1 ≤ n from hi)
  rw [sliceBound_last all hn, sliceBound_succ] at hnext
  rw [slice, length_take, length_drop]
  omega

end Slice

theorem allocateAveragely_mem (hmqs : mqAll ≠ []) {cid : String} (hcid0 : cid ≠ "")
    (hcid : cid ∈ cidAll) : allocateAveragely group cid mqAll cidAll
      = .ok (slice mqAll cidAll.length (cidAll.idxOf cid)) := by
  unfold allocateAveragely
  rw [checkConfig_mem hmqs hcid0 hcid]
  generalize cidAll.idxOf cid = index
  dsimp only
  have hdiv := Nat.div_add_mod mqAll.length cidAll.length
  unfold slice sliceBound
  split
  · -- fewer queues than clients
    rename_i haverage
    rw [haverage, mul_zero, zero_add] at hdiv
    rw [haverage, hdiv]
    congr 1
    by_cases hindex : index < mqAll.length
    · rw [if_pos hindex]
      congr 2
      omega
    · rw [if_neg hindex, drop_eq_nil_of_le (not_lt.mp hindex)]
      rfl
  · split
    · rename_i hindex
      rw [if_pos hindex.2, min_eq_left (le_of_lt hindex.2)]
      rfl
    · have hle : mqAll.length % cidAll.length ≤ index := by omega
      rw [if_neg (not_lt.mpr hle), min_eq_right hle]
      obtain ⟨k, rfl⟩ := Nat.exists_eq_add_of_le hle
      rw [Nat.add_sub_cancel_left]
      congr 3
      ring

theorem allocateAveragely_allots (hmqs : mqAll ≠ []) (hnodup : mqAll.Nodup) (hcids : cidAll.Nodup)
    (hne : cidAll ≠ []) (hids : "" ∉ cidAll) :
    ∃ share, allocateAveragely.Allots group mqAll cidAll mqAll share ∧ Fair cidAll share := by
  have hpos := length_pos_of_ne_nil hne
  refine allocateAveragely.allots_of_index (slice mqAll cidAll.length) hcids hnodup
    (fun cid hcid => allocateAveragely_mem hmqs (ne_of_mem_of_not_mem hcid hids) hcid) ?_ fun i hi j hj => ?_
  · rw [flatMap_slice mqAll hpos]
  · rw [length_slice mqAll hpos hi, length_slice mqAll hpos hj]
    split <;> split <;> omega

/-! ### The closed form -/

/-- `averageSize` of the closed form. -/
def closedAverageSize (mq cid index : Nat) : Nat :=
  if mq ≤ cid then 1 else if 0 < mq % cid ∧ index < mq % cid then mq / cid + 1 else mq / cid

/-- `startIndex` of the closed form. -/
def closedStartIndex (mq cid index : Nat) : Nat :=
  if 0 < mq % cid ∧ index < mq % cid then index * closedAverageSize mq cid index
  else index * closedAverageSize mq cid index + mq % cid

/-- `range` of the closed form, nothing where the start is behind the end. -/
def closedRange (mq cid index : Nat) : Nat :=
  min (closedAverageSize mq cid index) (mq - closedStartIndex mq cid index)

theorem slice_closed {n index : Nat} (hindex : index < n) :
    slice all n index = (all.drop (closedStartIndex all.length n index)).take
      (closedRange all.length n index) := by
  rw [closedRange, ← length_drop, ← take_eq_take_min]
  unfold slice sliceBound closedStartIndex closedAverageSize
  rcases lt_trichotomy all.length n with hlt | heq | hgt
  · -- fewer queues than clients: one queue for the first ones, nothing for the others
    rw [Nat.div_eq_of_lt hlt, Nat.mod_eq_of_lt hlt, if_pos hlt.le, mul_zero,
      zero_add, zero_add, mul_one]
    split
    · rw [if_pos ⟨by omega, by assumption⟩, min_eq_left (by omega)]
    · rw [if_neg (by omega), drop_eq_nil_of_le (by omega), drop_eq_nil_of_le (by omega)]
      rfl
  · rw [heq, Nat.div_self (by omega)]
    simp
  · simp only [if_neg (not_le.mpr hgt)]
    by_cases hfirst : index < all.length % n
    · have hmod : 0 < all.length % n ∧ index < all.length % n := ⟨by omega, hfirst⟩
      rw [if_pos hfirst, if_pos hmod, if_pos hmod, Nat.mul_succ, min_eq_left (by omega)]
    · have hmod : ¬(0 < all.length % n ∧ index < all.length % n) := fun h => hfirst h.2
      rw [if_neg hfirst, if_neg hmod, if_neg hmod, min_eq_right (by omega)]
      rfl

/-- **The averages are the closed form**, for every number of queues and of clients. -/
theorem allocateAveragely_closed (group : String) (mqAll : List MessageQueue)
    {cidAll : List String} {cid : String} (hcid0 : cid ≠ "") (hcid : cid ∈ cidAll) :
    ∃ got, allocateAveragely group cid mqAll cidAll = .ok got ∧
      got = (mqAll.drop (closedStartIndex mqAll.length cidAll.length (cidAll.idxOf cid))).take
        (closedRange mqAll.length cidAll.length (cidAll.idxOf cid)) ∧
      got.length = closedRange mqAll.length cidAll.length (cidAll.idxOf cid) := by
  refine ⟨_, ?_, rfl, by rw [length_take, length_drop, closedRange]; omega⟩
  by_cases hmqs : mqAll = []
  · subst hmqs
    rw [drop_nil, take_nil]
    simp [allocateAveragely, checkConfig]
  · rw [allocateAveragely_mem hmqs hcid0 hcid, slice_closed _ (idxOf_lt_length_of_mem hcid)]

/-- The second of two clients has the last of three queues. -/
theorem allocateAveragely_closed_three : ∃ got, allocateAveragely "g" "d"
      [⟨"T", "a", 0⟩, ⟨"T", "a", 1⟩, ⟨"T", "a", 2⟩] ["c", "d"] = .ok got ∧
    got = [⟨"T", "a", 2⟩] ∧ got.length = 1 :=
  allocateAveragely_closed "g" _ (show "d" ≠ "" by decide) (by decide)

/-! ## 4. The queues in turn -/

theorem allocateAveragelyByCircle_allots (hmqs : mqAll ≠ []) (hnodup : mqAll.Nodup)
    (hcids : cidAll.Nodup) (hne : cidAll ≠ []) (hids : "" ∉ cidAll) :
    ∃ share, allocateAveragelyByCircle.Allots group mqAll cidAll mqAll share ∧
      Fair cidAll share := by
  refine allocateAveragelyByCircle.allots_of_index (fun i => stepFrom cidAll.length i mqAll)
    hcids hnodup (fun cid hcid => ?_) ?_ fun i hi j hj => ?_
  · unfold allocateAveragelyByCircle
    rw [checkConfig_mem hmqs (ne_of_mem_of_not_mem hcid hids) hcid]
    dsimp only
    rw [stepFrom_zero_drop]
  · obtain ⟨m, hm⟩ := Nat.exists_eq_succ_of_ne_zero
      (ne_of_gt (length_pos_of_ne_nil hne))
    rw [hm]
    exact flatMap_stepFrom_perm m mqAll
  · rcases le_total i j with h | h
    · exact (stepFrom_fair h hj mqAll).2
    · exact Nat.le_succ_of_le (stepFrom_fair h hi mqAll).1

/-! ## 5. Slices, and the rest in turn -/

theorem flatMap_rest {n : Nat} (hn : all.length ≤ n) :
    ((List.range n).flatMap fun i => if all.length > i then all[i]?.toList else []) = all := by
  have hslices := flatMap_slices all (n := n) (show min 0 all.length = 0 by simp)
    fun i => show min i all.length ≤ min (i + 1) all.length by omega
  rw [min_eq_right hn, take_length] at hslices
  refine Eq.trans (flatMap_congr fun i _ => ?_) hslices
  split
  · rw [min_eq_left (by omega), min_eq_left (by omega), Nat.add_sub_cancel_left,
      take_one, head?_drop]
  · rw [min_eq_right (by omega), min_eq_right (by omega), Nat.sub_self, take_zero]

/-- What a client gets of the queues of the rooms. -/
def roomShare (n i : Nat) : List MessageQueue :=
  (all.drop (all.length / n * i)).take (all.length / n)
    ++ if all.length % n > i then all[i + all.length / n * n]?.toList else []

theorem flatMap_roomShare_perm {n : Nat} (hn : 0 < n) :
    ((List.range n).flatMap (roomShare all n)).Perm all := by
  have hmod := Nat.mod_lt all.length hn
  have hdiv := Nat.div_add_mod' all.length n
  have hslices : ((List.range n).flatMap fun i =>
      (all.drop (all.length / n * i)).take (all.length / n)) = all.take (all.length / n * n) := by
    have h := flatMap_slices all (n := n) (show all.length / n * 0 = 0 from mul_zero _)
      fun i => Nat.mul_le_mul_left _ (Nat.le_succ i)
    simp only [Nat.mul_succ, Nat.add_sub_cancel_left] at h
    exact h
  have hlength : (all.drop (all.length / n * n)).length = all.length % n := by
    rw [length_drop]
    omega
  have hrest := flatMap_rest (all.drop (all.length / n * n)) (n := n) (by omega)
  simp only [hlength, getElem?_drop] at hrest
  refine (flatMap_append_perm _ _ _).symm.trans ?_
  rw [hslices]
  simp only [add_comm _ (all.length / n * n)]
  rw [hrest, take_append_drop]

theorem length_roomShare {n i : Nat} (hi : i < n) :
    (roomShare all n i).length = all.length / n + if i < all.length % n then 1 else 0 := by
  have hdiv := Nat.div_add_mod' all.length n
  have hnext : all.length / n * (i + 1) ≤ all.length / n * n := Nat.mul_le_mul_left _ hi
  rw [Nat.mul_succ] at hnext
  rw [roomShare, length_append, length_take, length_drop,
    min_eq_left (by omega)]
  split
  · rw [getElem?_eq_getElem (by omega)]
    rfl
  · rfl

theorem allocateByMachineRoom_allots (rooms : List String) (hmqs : mqAll ≠ [])
    (hnodup : mqAll.Nodup) (hcids : cidAll.Nodup) (hne : cidAll ≠ []) (hids : "" ∉ cidAll) :
    ∃ share, (allocateByMachineRoom rooms).Allots group mqAll cidAll
      (mqAll.filter (inRooms rooms)) share ∧ Fair cidAll share := by
  have hpos := length_pos_of_ne_nil hne
  refine (allocateByMachineRoom rooms).allots_of_index
    (roomShare (mqAll.filter (inRooms rooms)) cidAll.length) hcids (hnodup.filter _)
    (fun cid hcid => ?_) (flatMap_roomShare_perm _ hpos) fun i hi j hj => ?_
  · unfold allocateByMachineRoom
    rw [checkConfig_mem hmqs (ne_of_mem_of_not_mem hcid hids) hcid]
    unfold roomShare
    dsimp only
    split
    · rfl
    · rw [append_nil]
  · rw [length_roomShare _ hi, length_roomShare _ hj]
    split <;> split <;> omega

/-! ## 6. The ring -/

theorem allocateConsistentHash_allots (hashFunction : String → Int) {virtualNodeCnt : Int}
    (hcount : 1 ≤ virtualNodeCnt) (hmqs : mqAll ≠ []) (hnodup : mqAll.Nodup) (hne : cidAll ≠ [])
    (hids : "" ∉ cidAll) :
    ∃ share, (allocateConsistentHash hashFunction virtualNodeCnt).Allots group mqAll cidAll mqAll
      share := by
  obtain ⟨router, hrouter, hholds⟩ :=
    ConsistentHashRouter.withHashFunction_holds hcount cidAll hashFunction
  have hroute (mq : MessageQueue) := ConsistentHashRouter.routeNode_mem hholds hne mq.toJavaString
  choose owner howner hroute using hroute
  refine ⟨fun cid => mqAll.filter fun mq => owner mq = cid, fun cid hcid => ?_,
    isPartition_filter hnodup fun mq _ => howner mq⟩
  unfold allocateConsistentHash
  rw [checkConfig_mem hmqs (ne_of_mem_of_not_mem hcid hids) hcid]
  rw [hrouter]
  show Except.ok (mqAll.filter fun mq => router.routeNode mq.toJavaString == some cid) = _
  congr 1
  refine filter_congr fun mq _ => ?_
  rw [hroute]
  rfl

end

/-- **Allocation is a partition.** -/
theorem allocation_partition (group : String) {mqAll : List MessageQueue} {cidAll : List String}
    (hmqs : mqAll ≠ []) (hnodup : mqAll.Nodup) (hne : cidAll ≠ []) (hcids : cidAll.Nodup)
    (hids : "" ∉ cidAll) :
    (∃ share, allocateAveragely.Allots group mqAll cidAll mqAll share ∧ Fair cidAll share) ∧
    (∃ share, allocateAveragelyByCircle.Allots group mqAll cidAll mqAll share ∧
      Fair cidAll share) ∧
    (∀ rooms, ∃ share, (allocateByMachineRoom rooms).Allots group mqAll cidAll
      (mqAll.filter (inRooms rooms)) share ∧ Fair cidAll share) ∧
    ∀ hashFunction virtualNodeCnt, 1 ≤ virtualNodeCnt →
      ∃ share, (allocateConsistentHash hashFunction virtualNodeCnt).Allots group mqAll cidAll mqAll
        share :=
  ⟨allocateAveragely_allots hmqs hnodup hcids hne hids,
    allocateAveragelyByCircle_allots hmqs hnodup hcids hne hids,
    fun rooms => allocateByMachineRoom_allots rooms hmqs hnodup hcids hne hids,
    fun hashFunction _ hcount =>
      allocateConsistentHash_allots hashFunction hcount hmqs hnodup hne hids⟩

end RocketMQ

namespace RocketMQ.Script

/-- Five queues, three of them in the room `r`. -/
def fiveQueues : List MessageQueue :=
  [⟨"T", "a", 0⟩, ⟨"T", "r@a", 0⟩, ⟨"T", "r@a", 1⟩, ⟨"T", "r@b", 0⟩, ⟨"T", "s@a", 0⟩]

end RocketMQ.Script

namespace RocketMQ

open Script Shares

/-- Five queues for two clients, the ring with the length of a text as its hash. -/
theorem allocation_partition_five :
    (∃ share, (allocateByMachineRoom ["r"]).Allots "g" fiveQueues ["c", "d"]
      [⟨"T", "r@a", 0⟩, ⟨"T", "r@a", 1⟩, ⟨"T", "r@b", 0⟩] share ∧ Fair ["c", "d"] share) ∧
    ∃ share, (allocateConsistentHash (fun s => s.length) 3).Allots "g" fiveQueues ["c", "d"]
      fiveQueues share := by
  have h := allocation_partition "g" (show fiveQueues ≠ [] by decide) (by decide)
    (show ["c", "d"] ≠ [] by decide) (by decide) (by decide)
  refine ⟨?_, h.2.2.2 _ 3 (by decide)⟩
  have hrooms := h.2.2.1 ["r"]
  rw [show fiveQueues.filter (inRooms ["r"])
    = [⟨"T", "r@a", 0⟩, ⟨"T", "r@a", 1⟩, ⟨"T", "r@b", 0⟩] by decide +kernel] at hrooms
  exact hrooms

/-- The slices of the averages and the rooms differ. -/
example : (allocateAveragely "g" "d" fiveQueues ["c", "d"]).toOption
    = some [⟨"T", "r@b", 0⟩, ⟨"T", "s@a", 0⟩] := by decide +kernel

example : (allocateByMachineRoom ["r"] "g" "c" fiveQueues ["c", "d"]).toOption
    = some [⟨"T", "r@a", 0⟩, ⟨"T", "r@b", 0⟩] := by decide +kernel

/-! ## 7. The group -/

open List

/-- The key of the order, as `mq_sort_key` has it. -/
def mqSortKey (mq : MessageQueue) : String ×ₗ String ×ₗ Int :=
  toLex (mq.topic, toLex (mq.brokerName, mq.queueId))

theorem mqLe_iff {a b : MessageQueue} : mqLe a b ↔ mqSortKey a ≤ mqSortKey b := by
  simp [mqLe, mqSortKey, Prod.Lex.toLex_le_toLex]

theorem mqSortKey_injective : Function.Injective mqSortKey := by
  intro a b h
  cases a
  cases b
  simpa [mqSortKey] using h

/-- **The order in which the queues were listed does not matter.** -/
theorem sortMqs_eq_of_perm {a b : List MessageQueue} (h : a.Perm b) : sortMqs a = sortMqs b := by
  have htotal : Std.Total mqLe := ⟨fun a b => by simpa only [mqLe_iff] using le_total _ _⟩
  have htrans : IsTrans MessageQueue mqLe :=
    ⟨fun a b c => by simpa only [mqLe_iff] using le_trans⟩
  refine Perm.eq_of_pairwise ?_ (pairwise_insertionSort mqLe a) (pairwise_insertionSort mqLe b)
    (((perm_insertionSort mqLe a).trans h).trans (perm_insertionSort mqLe b).symm)
  intro x y _ _ hxy hyx
  exact mqSortKey_injective (le_antisymm (mqLe_iff.mp hxy) (mqLe_iff.mp hyx))

theorem sortCids_eq_of_perm {a b : List String} (h : a.Perm b) : sortCids a = sortCids b :=
  Perm.eq_of_pairwise' (pairwise_insertionSort (· ≤ ·) a) (pairwise_insertionSort (· ≤ ·) b)
    (((perm_insertionSort _ a).trans h).trans (perm_insertionSort _ b).symm)

/-- **The clients of a group share the queues without talking to each other**: told the same queues
and ids, each in an order of its own, they compute shares that are a partition. -/
theorem group_shares_partition (group topic : String) {mqs : List MessageQueue} {cids : List String}
    (hmqs : mqs ≠ []) (hnodup : mqs.Nodup) (hcids : cids.Nodup) (hne : cids ≠ []) (hids : "" ∉ cids)
    {allocate : AllocateStrategy}
    (ha : allocate = allocateAveragely ∨ allocate = allocateAveragelyByCircle)
    (assigned route : String → List MessageQueue) (ids : String → List String)
    (htold : ∀ c ∈ cids, (route c).Perm mqs ∧ (ids c).Perm cids) :
    ∃ share, (∀ c ∈ cids, topicShare allocate group c (assigned c) topic (route c) (some (ids c))
        = .ok (share c)) ∧ IsPartition cids share mqs ∧ Fair cids share := by
  have hpm : (sortMqs mqs).Perm mqs := perm_insertionSort mqLe mqs
  have hpc : (sortCids cids).Perm cids := perm_insertionSort _ cids
  have hmem : ∀ c, c ∈ sortCids cids ↔ c ∈ cids := fun c => hpc.mem_iff
  have hlot : ∃ share, allocate.Allots group (sortMqs mqs) (sortCids cids) (sortMqs mqs) share ∧
      Fair (sortCids cids) share := by
    have hmqs' : sortMqs mqs ≠ [] := fun h => hmqs (h ▸ hpm).nil_eq.symm
    have hne' : sortCids cids ≠ [] := fun h => hne (h ▸ hpc).nil_eq.symm
    rcases ha with rfl | rfl
    · exact allocateAveragely_allots hmqs' (hpm.nodup_iff.mpr hnodup) (hpc.nodup_iff.mpr hcids) hne'
        (mt (hmem "").mp hids)
    · exact allocateAveragelyByCircle_allots hmqs' (hpm.nodup_iff.mpr hnodup)
        (hpc.nodup_iff.mpr hcids) hne' (mt (hmem "").mp hids)
  obtain ⟨share, ⟨hreturns, hapart, hwhole, honce⟩, hfair⟩ := hlot
  simp only [hmem, Fair, mem_sortMqs] at hreturns hapart hwhole honce hfair
  refine ⟨share, fun c hc => ?_, ⟨hapart, hwhole, honce⟩, hfair⟩
  obtain ⟨hr, hi⟩ := htold c hc
  rw [← hreturns c hc, ← sortMqs_eq_of_perm hr, ← sortCids_eq_of_perm hi]
  cases hcase : ids c with
  | nil => exact absurd (hcase ▸ hi).nil_eq.symm hne
  | cons => exact if_neg fun h => hmqs (h ▸ hr).nil_eq.symm

/-- Two clients that were told the queues and the ids in opposite orders. -/
theorem group_shares_partition_two : ∃ share,
    topicShare allocateAveragely "g" "d" [] "T" [⟨"T", "a", 1⟩, ⟨"T", "a", 0⟩] (some ["d", "c"])
      = .ok (share "d") ∧
    IsPartition ["c", "d"] share [⟨"T", "a", 0⟩, ⟨"T", "a", 1⟩] ∧ Fair ["c", "d"] share := by
  obtain ⟨share, h, hpart, hfair⟩ := group_shares_partition "g" "T"
    (show [⟨"T", "a", 0⟩, ⟨"T", "a", 1⟩] ≠ [] by decide) (by decide)
    (show ["c", "d"].Nodup by decide) (by decide) (by decide) (.inl rfl) (fun _ => [])
    (fun c => if c = "c" then [⟨"T", "a", 0⟩, ⟨"T", "a", 1⟩] else [⟨"T", "a", 1⟩, ⟨"T", "a", 0⟩])
    (fun c => if c = "c" then ["c", "d"] else ["d", "c"]) (by decide)
  exact ⟨share, h "d" (by decide), hpart, hfair⟩

end RocketMQ
