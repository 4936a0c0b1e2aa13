/-
  File:      RocketMQ/InitialOffset.lean
  Subject:   Where a consumer starts to pull a queue, when it has no cursor for it.

  After `plan_initial_offset` and `resolve_initial_offset` in `consumer.rs` and
  `resolve_initial_offset` in `pull_consumer.rs`. Both consumers read the stored offset first and
  fall back to the policy when there is none; they differ in what they do when the read fails.

  * `failed_read_keeps_cursor`: in which rounds a failed read leaves every cursor alone.
-/
import RocketMQ.Naming
import RocketMQ.Push.Row

namespace RocketMQ

/-! ## 1. The policy -/

/-- `consume_from_where`; any other text reads as the last one. -/
inductive ConsumeFromWhere where
  | firstOffset
  | timestamp
  | lastOffset
  deriving DecidableEq, Repr

inductive StartOffsetPlan where
  | stored (offset : Int)
  | fromZero
  | queueTail
  | searchAtConfiguredTime
  deriving DecidableEq, Repr

/-- `plan_initial_offset`: a negative stored offset is none. -/
def planInitialOffset (stored : Int) (fromWhere : ConsumeFromWhere) (isRetryTopic : Bool) :
    StartOffsetPlan :=
  if stored ≥ 0 then .stored stored
  else
    match fromWhere with
    | .firstOffset => .fromZero
    | .timestamp => if isRetryTopic then .queueTail else .searchAtConfiguredTime
    | .lastOffset => if isRetryTopic then .fromZero else .queueTail

/-- What the calls of a resolution return. -/
structure StartCalls (ε : Type) where
  /-- `query_consumer_offset`; `ok none` is the broker's "not found" -/
  committed : Except ε (Option Int)
  /-- the entry of the local offset file -/
  localOffset : Option Int
  /-- `get_max_offset` -/
  maxOffset : Except ε Int
  /-- `consume_timestamp_millis` -/
  timestamp : Except ε Int
  /-- `search_offset_by_timestamp` -/
  search : Int → Except ε Int

section Resolve

variable {ε : Type}

def StartOffsetPlan.execute (calls : StartCalls ε) : StartOffsetPlan → Except ε Int
  | stored offset => .ok offset
  | fromZero => .ok 0
  | queueTail => calls.maxOffset
  | searchAtConfiguredTime =>
    match calls.timestamp with
    | .ok ts => calls.search ts
    | .error e => .error e

/-- The knobs a resolution reads. -/
structure StartConfig where
  messageModel : MessageModel
  consumeFromWhere : ConsumeFromWhere
  deriving DecidableEq, Repr

variable (cfg : StartConfig) (mq : MessageQueue)

/-- Go on with this stored offset (`-1`: none). -/
def startFrom (calls : StartCalls ε) (stored : Int) : Except ε Int :=
  (planInitialOffset stored cfg.consumeFromWhere (isRetryTopic mq.topic)).execute calls

/-- `resolve_initial_offset` of the push consumer: a failed read is passed on. -/
def resolveInitialOffset (calls : StartCalls ε) : Except ε Int :=
  match cfg.messageModel with
  | .broadcasting => startFrom cfg mq calls (calls.localOffset.getD (-1))
  | .clustering =>
    match calls.committed with
    | .ok committed => startFrom cfg mq calls (committed.getD (-1))
    | .error e => .error e

namespace Lite

/-- `resolve_initial_offset` of the lite pull consumer: a sought offset comes first, and a failed
read is only logged. -/
def resolveInitialOffset (seekOffset : Option Int) (calls : StartCalls ε) : Except ε Int :=
  match seekOffset with
  | some offset => .ok offset
  | none =>
    match cfg.messageModel with
    | .broadcasting => startFrom cfg mq calls (calls.localOffset.getD (-1))
    | .clustering =>
      match calls.committed with
      | .ok committed => startFrom cfg mq calls (committed.getD (-1))
      | .error _ => startFrom cfg mq calls (-1)

end Lite

/-! ## 2. The cursor -/

/-- Where a resolved offset becomes a cursor. -/
inductive StartSite where
  /-- `do_rebalance`, for a queue that is new in the assignment -/
  | pushRebalance
  /-- `run_queue_pull_loop` -/
  | pushLoop
  /-- `pull_one` -/
  | litePull
  /-- `resolve_offsets_for`, at the start and after a rebalance -/
  | liteResolve
  deriving DecidableEq, Repr

namespace StartSite

/-- Whether the round gets to ask the broker for the committed offset. -/
def asks (seekOffset cursor : Option Int) : StartSite → Bool
  | pushRebalance => cfg.messageModel == .clustering
  | pushLoop => cfg.messageModel == .clustering && cursor.isNone
  | litePull => cfg.messageModel == .clustering && cursor.isNone && seekOffset.isNone
  | liteResolve => cfg.messageModel == .clustering && cursor.isNone && seekOffset.isNone

/-- The cursor after the round. -/
def round (seekOffset : Option Int)
    (calls : StartCalls ε) (cursor : Option Int) : StartSite → Option Int
  | pushRebalance =>
    -- `or_insert`: a cursor that is there stays
    match resolveInitialOffset cfg mq calls with
    | .ok off => some (cursor.getD off)
    | .error _ => cursor
  | pushLoop =>
    match cursor with
    | some off => some off
    | none => (resolveInitialOffset cfg mq calls).toOption
  | litePull =>
    match cursor with
    | some off => some off
    | none => (Lite.resolveInitialOffset cfg mq seekOffset calls).toOption
  | liteResolve =>
    match cursor with
    | some off => some off
    | none => (Lite.resolveInitialOffset cfg mq seekOffset calls).toOption

/-- A read that was asked for and failed leaves the cursor alone. -/
def Respects (seekOffset : Option Int)
    (calls : StartCalls ε) (cursor : Option Int) (site : StartSite) : Prop :=
  site.asks cfg seekOffset cursor = true → calls.committed.isOk = false →
    site.round cfg mq seekOffset calls cursor = cursor

end StartSite

/-- What the policy asks for in place of a stored offset fails as well. Starting at 0 asks for
nothing. -/
def FallbackFails (calls : StartCalls ε) : Prop :=
  match cfg.consumeFromWhere, isRetryTopic mq.topic with
  | .firstOffset, _ => False
  | .lastOffset, true => False
  | .lastOffset, false => calls.maxOffset.isOk = false
  | .timestamp, true => calls.maxOffset.isOk = false
  | .timestamp, false => ∀ ts, calls.timestamp = .ok ts → (calls.search ts).isOk = false

theorem startFrom_none_iff {cfg : StartConfig} {mq : MessageQueue} {calls : StartCalls ε} :
    (startFrom cfg mq calls (-1)).toOption = none ↔ FallbackFails cfg mq calls := by
  have hmax : calls.maxOffset.toOption = none ↔ calls.maxOffset.isOk = false := by
    cases calls.maxOffset with
    | ok | error => simp [Except.toOption, Except.toBool]
  unfold startFrom planInitialOffset FallbackFails
  cases cfg.consumeFromWhere with
  | firstOffset => simp [StartOffsetPlan.execute, Except.toOption]
  | lastOffset =>
    cases isRetryTopic mq.topic with
    | true => simp [StartOffsetPlan.execute, Except.toOption]
    | false => exact hmax
  | timestamp =>
    cases isRetryTopic mq.topic with
    | true => exact hmax
    | false =>
      dsimp only [StartOffsetPlan.execute]
      cases calls.timestamp with
      | error e => simp [Except.toOption]
      | ok ts =>
        cases h : calls.search ts with
        | ok | error => simp [h, Except.toOption, Except.toBool]

/-! ## 3. A failed read -/

section Failed

variable {cfg : StartConfig} {mq : MessageQueue} {seekOffset cursor : Option Int}
  {calls : StartCalls ε}

variable (hmodel : cfg.messageModel = .clustering)
include hmodel

/-- **The push consumer passes a failed read on.** -/
theorem resolveInitialOffset_failed
    (hfail : calls.committed.isOk = false) : (resolveInitialOffset cfg mq calls).toOption = none := by
  unfold resolveInitialOffset
  rw [hmodel]
  cases hc : calls.committed with
  | ok committed =>
    rw [hc] at hfail
    cases hfail
  | error e => rfl

/-- **The lite consumer goes on as if nothing were stored.** -/
theorem lite_resolveInitialOffset_failed (hfail : calls.committed.isOk = false) :
    Lite.resolveInitialOffset cfg mq none calls = startFrom cfg mq calls (-1) := by
  unfold Lite.resolveInitialOffset
  rw [hmodel]
  cases hc : calls.committed with
  | ok committed =>
    rw [hc] at hfail
    cases hfail
  | error e => rfl

theorem push_respects :
    StartSite.pushRebalance.Respects cfg mq seekOffset calls cursor ∧
      StartSite.pushLoop.Respects cfg mq seekOffset calls cursor := by
  constructor
  · intro _ hfail
    have hnone : (resolveInitialOffset cfg mq calls).toOption = none :=
      resolveInitialOffset_failed hmodel hfail
    unfold StartSite.round
    cases hr : resolveInitialOffset cfg mq calls with
    | ok off =>
      rw [hr] at hnone
      cases hnone
    | error e => rfl
  · intro _ hfail
    have hnone : (resolveInitialOffset cfg mq calls).toOption = none :=
      resolveInitialOffset_failed hmodel hfail
    cases cursor with
    | some off => rfl
    | none => exact hnone

theorem lite_respects_iff {site : StartSite} (hsite : site = .litePull ∨ site = .liteResolve) :
    site.Respects cfg mq none calls none ↔
      (calls.committed.isOk = true ∨ FallbackFails cfg mq calls) := by
  have hround : site.round cfg mq none calls none =
      (Lite.resolveInitialOffset cfg mq none calls).toOption := by
    rcases hsite with rfl | rfl <;> rfl
  have hasks : site.asks cfg none none = true := by
    rcases hsite with rfl | rfl <;> simp [StartSite.asks, hmodel]
  unfold StartSite.Respects
  rw [hround, hasks]
  cases hok : calls.committed.isOk with
  | true => simp
  | false =>
    rw [lite_resolveInitialOffset_failed hmodel hok, startFrom_none_iff]
    simp

omit hmodel

theorem lite_respects_of_known {site : StartSite} (hsite : site = .litePull ∨ site = .liteResolve)
    (hknown : cursor.isSome = true ∨ seekOffset.isSome = true) :
    site.Respects cfg mq seekOffset calls cursor := by
  intro hasks
  rcases hsite with rfl | rfl <;> rcases hknown with hc | hs <;>
    simp_all [StartSite.asks]

end Failed

end Resolve

/-- **A failed read of the committed offset** leaves the cursor of the queue alone at every site of
both consumers, exactly in the rounds where it does not fail, where the cursor or a sought offset is
there already, or where what the lite consumer falls back to fails too. -/
theorem failed_read_keeps_cursor {ε : Type} {cfg : StartConfig}
    (hmodel : cfg.messageModel = .clustering) (mq : MessageQueue) (seekOffset cursor : Option Int)
    (calls : StartCalls ε) :
    (∀ site : StartSite, site.Respects cfg mq seekOffset calls cursor) ↔
      (calls.committed.isOk = true ∨ cursor.isSome = true ∨ seekOffset.isSome = true ∨
        FallbackFails cfg mq calls) := by
  by_cases hknown : cursor.isSome = true ∨ seekOffset.isSome = true
  · refine ⟨fun _ => by tauto, fun _ site => ?_⟩
    cases site with
    | pushRebalance => exact (push_respects hmodel).1
    | pushLoop => exact (push_respects hmodel).2
    | litePull => exact lite_respects_of_known (.inl rfl) hknown
    | liteResolve => exact lite_respects_of_known (.inr rfl) hknown
  · have hcursor : cursor = none := by
      cases cursor with
      | none => rfl
      | some off => exact absurd (.inl rfl) hknown
    have hseek : seekOffset = none := by
      cases seekOffset with
      | none => rfl
      | some off => exact absurd (.inr rfl) hknown
    subst hcursor hseek
    refine ⟨fun h => ?_, fun h site => ?_⟩
    · rcases (lite_respects_iff hmodel (.inl rfl)).mp (h .litePull) with hok | hfails
      · exact .inl hok
      · exact .inr (.inr (.inr hfails))
    · have hlite : calls.committed.isOk = true ∨ FallbackFails cfg mq calls := by
        rcases h with h | h | h | h
        · exact .inl h
        · cases h
        · cases h
        · exact .inr h
      cases site with
      | pushRebalance => exact (push_respects hmodel).1
      | pushLoop => exact (push_respects hmodel).2
      | litePull => exact (lite_respects_iff hmodel (.inl rfl)).mpr hlite
      | liteResolve => exact (lite_respects_iff hmodel (.inr rfl)).mpr hlite

namespace Script

/-- A clustering consumer that starts at the tail. -/
def fromLast : StartConfig := ⟨.clustering, .lastOffset⟩

/-- The broker does not answer the read; the other calls find the tail at 100. -/
def readFails : StartCalls Unit :=
  ⟨.error (), none, .ok 100, .ok 0, fun _ => .ok 50⟩

/-- The broker does not answer at all. -/
def brokerDown : StartCalls Unit :=
  ⟨.error (), none, .error (), .ok 0, fun _ => .error ()⟩

end Script

open Script

/-- While the broker is down no site installs a cursor. -/
theorem failed_read_keeps_cursor_down :
    fromLast.messageModel = .clustering ∧ ∀ site : StartSite,
      site.Respects fromLast ⟨"T", "b", 0⟩ none brokerDown none :=
  ⟨rfl, (failed_read_keeps_cursor rfl _ _ _ _).mpr (.inr (.inr (.inr rfl)))⟩

/-- **The lite consumer starts at the tail** when the read of the committed offset fails and the
next call succeeds; in the same round the push consumer installs nothing. -/
theorem failed_read_moves_start :
    StartSite.litePull.asks fromLast none none = true ∧
      readFails.committed.isOk = false ∧
      StartSite.litePull.round fromLast ⟨"T", "b", 0⟩ none readFails none
        = some 100 ∧
      StartSite.pushLoop.round fromLast ⟨"T", "b", 0⟩ none readFails none = none := by
  decide

end RocketMQ
