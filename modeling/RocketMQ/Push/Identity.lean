/-
  File:      RocketMQ/Push/Identity.lean
  Subject:   Which queues the push consumer can tell apart.

  Every table of the consumer is keyed by `mqKey`, the three fields of a queue written one after the
  other. Two queues share a key when the texts of topic and broker differ by leading characters of
  the other queue's id (`Clash`).

  * `mqKey_eq_iff`: this is the only way to share a key;
  * `queues_kept_apart`: every queue has its own entries exactly when no two of the
    assigned queues clash;
  * `queues_share_key`: queue 10 of `broker-1` and queue 0 of `broker-11`.
-/
import RocketMQ.Lib.Table
import RocketMQ.Lib.Text
import RocketMQ.Push.Ownership

namespace RocketMQ

open List Std

/-! ## 1. Keys -/

/-- The texts of topic and broker agree up to leading characters of the other queue's id. -/
def Clash (a b : MessageQueue) : Prop :=
  ∃ u,
    (b.topic ++ b.brokerName = a.topic ++ a.brokerName ++ u ∧
      toString a.queueId = u ++ toString b.queueId) ∨
    (a.topic ++ a.brokerName = b.topic ++ b.brokerName ++ u ∧
      toString b.queueId = u ++ toString a.queueId)

/-- **Two queues share a key exactly when they clash.** -/
theorem mqKey_eq_iff {a b : MessageQueue} : mqKey a = mqKey b ↔ Clash a b :=
  Text.append_eq_append_iff

/-! ## 2. The queues of a round -/

/-- The queues the round goes through. -/
def roundQueues (assigned : List MessageQueue) : List MessageQueue :=
  (currentOf assigned []).toList.map (·.2)

theorem currentOf_eq_fill (assigned : List MessageQueue) :
    currentOf assigned [] = Table.fill mqKey assigned ∅ := by
  have hall : assigned.filter (fun mq => !([]).contains (mqKey mq)) = assigned :=
    filter_eq_self.mpr fun _ _ => rfl
  unfold currentOf
  rw [hall]
  rfl

variable {assigned : List MessageQueue} {mq : MessageQueue}

theorem mem_roundQueues (hinj : ∀ a ∈ assigned, ∀ b ∈ assigned, mqKey a = mqKey b → a = b) :
    mq ∈ roundQueues assigned ↔ mq ∈ assigned := by
  unfold roundQueues
  rw [currentOf_eq_fill, Table.mem_values_keyed (Table.fill_keyed assigned),
    Table.get_fill_iff hinj]
  exact and_iff_left rfl

theorem roundQueues_nodup (assigned : List MessageQueue) :
    ((roundQueues assigned).map mqKey).Nodup := by
  unfold roundQueues
  rw [currentOf_eq_fill]
  exact Table.keys_nodup (Table.fill_keyed assigned)

/-- **Registering queues with different keys** gives each of them its own row and its own loop. -/
theorem registerOne_foldl (now : Int) (mqs : List MessageQueue) (a : Registering)
    (hkeys : (mqs.map mqKey).Nodup)
    (hfree : ∀ mq ∈ mqs, (rowOf a.rows (mqKey mq)).queueOwners = none) :
    (∀ mq ∈ mqs, ∃ t, (mq, t) ∈ (mqs.foldl (registerOne now) a).toSpawn ∧
      (rowOf (mqs.foldl (registerOne now) a).rows (mqKey mq)).queueOwners = some t ∧
      (rowOf (mqs.foldl (registerOne now) a).rows (mqKey mq)).mqMap = some mq) ∧
    (∀ x ∈ a.toSpawn, x ∈ (mqs.foldl (registerOne now) a).toSpawn) ∧
    (∀ k, k ∉ mqs.map mqKey →
      rowOf (mqs.foldl (registerOne now) a).rows k = rowOf a.rows k) ∧
    ((∀ x ∈ a.toSpawn, x.2 < a.nextToken) → (a.toSpawn.map (·.2)).Nodup →
      ((mqs.foldl (registerOne now) a).toSpawn.map (·.2)).Nodup) := by
  induction mqs generalizing a with
  | nil => exact ⟨fun _ h => (nomatch h), fun _ h => h, fun _ _ => rfl, fun _ h => h⟩
  | cons mq mqs ih =>
    obtain ⟨hnot, hkeys'⟩ := nodup_cons.mp hkeys
    have hone := registerOne_free now (hfree mq mem_cons_self)
    have hfree' : ∀ x ∈ mqs, (rowOf (registerOne now a mq).rows (mqKey x)).queueOwners = none := by
      intro x hx
      have hne : mqKey mq ≠ mqKey x := fun h => hnot (h ▸ mem_map_of_mem hx)
      rw [hone, rowOf_insert, if_neg hne]
      exact hfree x (mem_cons_of_mem _ hx)
    obtain ⟨hloops, hspawn, hrows, htok⟩ := ih (registerOne now a mq) hkeys' hfree'
    rw [foldl_cons]
    refine ⟨?_, ?_, ?_, ?_⟩
    · intro x hx
      rcases mem_cons.mp hx with rfl | hx
      · have hrow := hrows (mqKey x) hnot
        refine ⟨a.nextToken, hspawn _ ?_, ?_⟩
        · rw [hone]
          exact mem_append_right _ (mem_singleton.mpr rfl)
        · rw [hrow, hone, rowOf_insert, if_pos rfl]
          exact ⟨rfl, rfl⟩
      · exact hloops x hx
    · intro x hx
      refine hspawn x ?_
      rw [hone]
      exact mem_append_left _ hx
    · intro k hk
      have hne : mqKey mq ≠ k := fun h => hk (h ▸ mem_cons_self ..)
      rw [hrows k fun h => hk (mem_cons_of_mem _ h), hone, rowOf_insert, if_neg hne]
    · intro hlt hnodup
      apply htok
      · rw [hone]
        intro x hx
        show x.2 < a.nextToken + 1
        rcases mem_append.mp hx with hx | hx
        · have := hlt x hx
          omega
        · rw [mem_singleton.mp hx]
          exact Nat.lt_succ_self _
      · rw [hone]
        rw [map_append]
        refine nodup_append.mpr ⟨hnodup, by simp, ?_⟩
        intro t ht t' ht'
        obtain ⟨x, hx, rfl⟩ := mem_map.mp ht
        have := hlt x hx
        have ht0 : t' = a.nextToken := by simpa using ht'
        omega

/-! ## 3. Flushing the offsets of revoked queues -/

/-- One entry of `merge_retired_offsets`: the offset overwrites, the queue does not. -/
def mergeRetired (t : ExtTreeMap String Int × ExtTreeMap String MessageQueue)
    (x : Revoked) : ExtTreeMap String Int × ExtTreeMap String MessageQueue :=
  match x.2 with
  | none => t
  | some off => (t.1.insert (mqKey x.1) off, t.2.insertIfNew (mqKey x.1) x.1)

def mergeRetiredOffsets (items : ExtTreeMap String Int)
    (mqMap : ExtTreeMap String MessageQueue) (extra : List Revoked) :
    ExtTreeMap String Int × ExtTreeMap String MessageQueue :=
  extra.foldl mergeRetired (items, mqMap)

theorem mergeRetired_foldl (off : MessageQueue → Int)
    (hinj : ∀ a ∈ assigned, ∀ b ∈ assigned, mqKey a = mqKey b → a = b) (extra : List MessageQueue)
    (hsub : ∀ mq ∈ extra, mq ∈ assigned)
    (t : ExtTreeMap String Int × ExtTreeMap String MessageQueue) (hmem : mq ∈ assigned)
    (h : mq ∈ extra ∨ (t.1[mqKey mq]? = some (off mq) ∧ t.2[mqKey mq]? = some mq))
    (hown : ∀ x, t.2[mqKey mq]? = some x → x = mq) :
    ((extra.map fun mq => (mq, some (off mq))).foldl mergeRetired t).1[mqKey mq]? = some (off mq) ∧
      ((extra.map fun mq => (mq, some (off mq))).foldl mergeRetired t).2[mqKey mq]? = some mq := by
  induction extra generalizing t with
  | nil =>
    rcases h with h | h
    · cases h
    · exact h
  | cons x extra ih =>
    have hstep : mergeRetired t (x, some (off x))
        = (t.1.insert (mqKey x) (off x), t.2.insertIfNew (mqKey x) x) := rfl
    by_cases hk : mqKey x = mqKey mq
    · have hx : x = mq := hinj x (hsub x mem_cons_self) mq hmem hk
      subst hx
      have hnew : (mergeRetired t (x, some (off x))).2[mqKey x]? = some x := by
        rw [hstep]
        rw [ExtTreeMap.getElem?_insertIfNew]
        split
        · rfl
        · cases hget : t.2[mqKey x]? with
          | none => simp_all
          | some y => rw [hown y hget]
      refine ih (fun mq h => hsub mq (mem_cons_of_mem _ h)) _ (.inr ⟨?_, hnew⟩) ?_
      · rw [hstep]
        simp
      · intro y hy
        rw [hnew] at hy
        exact (Option.some.inj hy).symm
    · have h1 : (mergeRetired t (x, some (off x))).1[mqKey mq]? = t.1[mqKey mq]? := by
        rw [hstep]
        simp [ExtTreeMap.getElem?_insert, hk]
      have h2 : (mergeRetired t (x, some (off x))).2[mqKey mq]? = t.2[mqKey mq]? := by
        rw [hstep]
        simp [ExtTreeMap.getElem?_insertIfNew, hk]
      refine ih (fun mq h => hsub mq (mem_cons_of_mem _ h)) _ ?_ ?_
      · rw [h1, h2]
        rcases h with h | h
        · rcases mem_cons.mp h with rfl | h
          · exact absurd rfl hk
          · exact .inl h
        · exact .inr h
      · rw [h2]
        exact hown

/-! ## 4. Queues kept apart -/

/-- The locked section of the first round of a fresh consumer to which these queues are assigned. -/
def firstRound (cfg : ConsumerConfig) (orderly : Bool) (clientId : String)
    (assigned : List MessageQueue) : Registering :=
  (rebalancePullThreads (.init cfg orderly clientId) (currentOf assigned [])).2

/-- **The assigned queues are kept apart.** All tables are keyed by `mqKey`, so with its own key a
queue has its own cursor, buffer, generation and consume offset. -/
structure KeptApart (cfg : ConsumerConfig) (orderly : Bool) (clientId : String)
    (assigned : List MessageQueue) : Prop where
  keys : ∀ a ∈ assigned, ∀ b ∈ assigned, a ≠ b → mqKey a ≠ mqKey b
  loops : ∀ mq ∈ assigned, ∃ t, (mq, t) ∈ (firstRound cfg orderly clientId assigned).toSpawn ∧
    (rowOf (firstRound cfg orderly clientId assigned).rows (mqKey mq)).queueOwners = some t ∧
    (rowOf (firstRound cfg orderly clientId assigned).rows (mqKey mq)).mqMap = some mq
  tokens : ((firstRound cfg orderly clientId assigned).toSpawn.map (·.2)).Nodup
  flushed : ∀ (items : ExtTreeMap String Int) (off : MessageQueue → Int), ∀ mq ∈ assigned,
    (mergeRetiredOffsets items ∅ (assigned.map fun mq => (mq, some (off mq)))).1[mqKey mq]?
        = some (off mq) ∧
      (mergeRetiredOffsets items ∅ (assigned.map fun mq => (mq, some (off mq)))).2[mqKey mq]?
        = some mq

/-- **The consumer keeps its queues apart exactly when no two of them clash.** -/
theorem queues_kept_apart (cfg : ConsumerConfig) (orderly : Bool) (clientId : String)
    (assigned : List MessageQueue) :
    KeptApart cfg orderly clientId assigned ↔
      ∀ a ∈ assigned, ∀ b ∈ assigned, a ≠ b → ¬ Clash a b := by
  constructor
  · intro h a ha b hb hne hclash
    exact h.keys a ha b hb hne (mqKey_eq_iff.mpr hclash)
  · intro h
    have hkeys : ∀ a ∈ assigned, ∀ b ∈ assigned, a ≠ b → mqKey a ≠ mqKey b :=
      fun a ha b hb hne heq => h a ha b hb hne (mqKey_eq_iff.mp heq)
    have hinj : ∀ a ∈ assigned, ∀ b ∈ assigned, mqKey a = mqKey b → a = b := by
      intro a ha b hb heq
      by_contra hne
      exact hkeys a ha b hb hne heq
    have hfree : ∀ mq ∈ roundQueues assigned,
        (rowOf (retireDoomed (currentOf assigned []) true 0 ∅) (mqKey mq)).queueOwners = none := by
      intro mq _
      simp [rowOf, retireDoomed, Row.empty]
    obtain ⟨hloops, _, _, htok⟩ := registerOne_foldl 0 (roundQueues assigned)
      { rows := retireDoomed (currentOf assigned []) true 0 ∅
        nextToken := 1
        toSpawn := []
        events := retireDoomedEvents (currentOf assigned []) true 0 ∅ }
      (roundQueues_nodup assigned) hfree
    refine ⟨hkeys, ?_, ?_, ?_⟩
    · intro mq hmem
      exact hloops mq ((mem_roundQueues hinj).mpr hmem)
    · exact htok (fun _ h => nomatch h) nodup_nil
    · intro items off mq hmem
      exact mergeRetired_foldl off hinj assigned (fun _ h => h) (items, ∅) hmem (.inl hmem)
        (fun x hx => by simp at hx)

namespace Script

def queue10 : MessageQueue := ⟨"T", "broker-1", 10⟩

def queue0 : MessageQueue := ⟨"T", "broker-11", 0⟩

end Script

open Script

/-- **Two queues share a key**: the round starts one pull loop for both, and the offset flushed for
the second is the one found for the first. -/
theorem queues_share_key :
    queue10 ≠ queue0 ∧ mqKey queue10 = mqKey queue0 ∧
      (firstRound cfg false "c" [queue10, queue0]).toSpawn
        = [(queue0, 1)] ∧
      (mergeRetiredOffsets ∅ ∅ [(queue10, some 5), (queue0, some 7)]).1[mqKey
        queue10]? = some 7 :=
  ⟨by decide, by decide, by decide, by decide⟩

end RocketMQ
