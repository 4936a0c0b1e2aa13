/-
  File:      RocketMQ/Producer/ExactlyOnce.lean
  Subject:   Each accepted message is sent in exactly one batch, exactly once.

  The guard that cleans up empty batches reads a size of zero in one section and closes the batch in
  another. A message that is accepted in between is in a closed batch that nobody sends.

  * `accumulated_exactly_once`: in runs in which no guard closes a batch that holds messages by then,
    the guarantee holds throughout, and every accepted message can still be given to the sender.
-/
import RocketMQ.Producer.HoldSize
import RocketMQ.Producer.Progress

namespace RocketMQ

open List ProduceAccumulator

/-! ## 1. What was given to the sender -/

/-- The sender has been given the batch. -/
def SendStage.given : SendStage → Bool
  | unclaimed => false
  | claimed => false
  | inFlight => true
  | rejected => true
  | completed _ => true

/-- **The sender was given each batch at most once**, and with all its contents. -/
structure Sent (batches : List Accumulation) (handed : List Handover) : Prop where
  nodup : (handed.map (·.batch)).Nodup
  recorded : ∀ h ∈ handed, ∃ B, batches[h.batch]? = some B ∧ B.closed = true ∧
    B.stage.given = true ∧ h.messages = B.messages ∧ h.callbacks = B.callbacks
  given : ∀ (b : Nat) (B : Accumulation), batches[b]? = some B → B.stage.given = true →
    ∃ h ∈ handed, h.batch = b

namespace Sent

variable {batches : List Accumulation} {handed : List Handover} {b : Nat} {B C : Accumulation}

theorem set (h : Sent batches handed) (hB : batches[b]? = some B) (hgrows : B.Grows C)
    (hstage : B.closed = true → B.stage.given = true → C.stage.given = true)
    (hback : C.stage.given = true → B.stage.given = true) : Sent (batches.set b C) handed := by
  obtain ⟨hlt, _⟩ := List.getElem?_eq_some_iff.mp hB
  refine ⟨h.nodup, fun e he => ?_, fun b' C' hC' hgiven => ?_⟩
  · obtain ⟨B', hB', hclosed, hgiven, hmessages, hcallbacks⟩ := h.recorded e he
    by_cases heb : e.batch = b
    · rw [heb, hB] at hB'
      cases hB'
      obtain ⟨hclosed', hmessages', hcallbacks'⟩ := hgrows.closed hclosed
      refine ⟨C, ?_, hclosed', hstage hclosed hgiven, hmessages.trans hmessages'.symm,
        hcallbacks.trans hcallbacks'.symm⟩
      rw [heb]
      exact getElem?_set_self hlt
    · refine ⟨B', ?_, hclosed, hgiven, hmessages, hcallbacks⟩
      rw [getElem?_set_ne fun hbe => heb hbe.symm]
      exact hB'
  · rcases Pool.of_getElem?_set hC' with ⟨rfl, rfl⟩ | ⟨_, hold⟩
    · exact h.given b' B hB (hback hgiven)
    · exact h.given b' C' hold hgiven

theorem append {key : AggregateKey} {sync : Bool} {now : Int} (h : Sent batches handed) :
    Sent (batches ++ [Accumulation.new key sync now]) handed := by
  refine ⟨h.nodup, fun e he => ?_, fun b' C' hC' hgiven => ?_⟩
  · obtain ⟨B', hB', hrest⟩ := h.recorded e he
    obtain ⟨hlt, _⟩ := List.getElem?_eq_some_iff.mp hB'
    exact ⟨B', (getElem?_append_left hlt).trans hB', hrest⟩
  · rcases Pool.of_getElem?_concat hC' with hold | ⟨_, rfl⟩
    · exact h.given b' C' hold hgiven
    · cases hgiven

theorem hand (h : Sent batches handed) (hB : batches[b]? = some B) (hclosed : B.closed = true)
    (hstage : B.stage = .claimed) {stage : SendStage} (hgiven : stage.given = true) :
    Sent (batches.set b { B with stage }) (handed ++ [⟨b, B.messages, B.callbacks⟩]) := by
  obtain ⟨hlt, _⟩ := List.getElem?_eq_some_iff.mp hB
  have hfresh e (he : e ∈ handed) : e.batch ≠ b := by
    intro heb
    obtain ⟨B', hB', _, hgiven', _⟩ := h.recorded e he
    rw [heb, hB] at hB'
    cases hB'
    rw [hstage] at hgiven'
    cases hgiven'
  refine ⟨?_, fun e he => ?_, fun b' C' hC' hgiven' => ?_⟩
  · rw [map_append, nodup_append]
    refine ⟨h.nodup, nodup_singleton _, fun x hx y hy hxy => ?_⟩
    obtain ⟨e, he, rfl⟩ := mem_map.mp hx
    exact hfresh e he (hxy.trans (mem_singleton.mp hy))
  · rcases mem_append.mp he with he | he
    · obtain ⟨B', hB', hrest⟩ := h.recorded e he
      refine ⟨B', ?_, hrest⟩
      rw [getElem?_set_ne fun hbe => hfresh e he hbe.symm]
      exact hB'
    · rw [mem_singleton.mp he]
      exact ⟨_, getElem?_set_self hlt, hclosed, hgiven, rfl, rfl⟩
  · rcases Pool.of_getElem?_set hC' with ⟨rfl, rfl⟩ | ⟨_, hold⟩
    · exact ⟨_, mem_append_right _ (mem_singleton_self _), rfl⟩
    · obtain ⟨e, he, heb⟩ := h.given b' C' hold hgiven'
      exact ⟨e, mem_append_left _ he, heb⟩

/-- **Each section keeps the record.** -/
theorem rule {s t : ProduceAccumulator} {a : AccAct} (h : Sent s.batches s.handed)
    (hclosed : ClaimedClosed s) (hr : AccRule s a t) : Sent t.batches t.handed := by
  cases hr with
  | quiet _ hbatches _ _ _ _ hhanded =>
    rw [hbatches, hhanded]
    exact h
  | created =>
    rw [setTable_handed]
    exact h.append
  | joined _ hB hc => exact h.set hB (.push hc _ _) (fun _ => id) id
  | removed | dropped => simpa [become] using h
  | locked _ _ hB | left _ _ _ _ hB =>
    exact h.set hB (.of_eq rfl rfl rfl rfl rfl id) (fun _ => id) id
  | claimed _ _ hB =>
    refine h.set hB (.claim _) (fun hc hgiven => ?_) fun hgiven => ?_
    · rw [Accumulation.claim, hc]
      exact hgiven
    · unfold Accumulation.claim at hgiven
      split at hgiven
      · exact hgiven
      · cases hgiven
  | marked _ hB =>
    exact h.set hB (.of_eq rfl rfl rfl rfl rfl fun _ => rfl) (fun _ => id) id
  | @handed b accepted B hB hstage =>
    have hc : B.closed = true :=
      hclosed B (mem_of_getElem? hB) (by rw [hstage]; intro h; cases h)
    refine h.hand hB hc hstage ?_
    cases accepted <;> rfl
  | completed hB hstage =>
    refine h.set hB (.of_eq rfl rfl rfl rfl rfl id) (fun _ _ => rfl) fun _ => ?_
    rw [hstage]
    rfl
  | _ => exact h

end Sent

/-! ## 2. The guarantee -/

/-- **The guarantee in one state.** -/
structure ExactlyOnce (s : ProduceAccumulator) : Prop where
  /-- every message is on its way into a batch, or at one place of one batch -/
  placed : ((s.tasks.filterMap (·.placing)).map (·.call) ++ s.batches.flatMap (·.callers)).Perm
    (List.range s.calls.length)
  aligned : ∀ B ∈ s.batches,
    B.callers.map (fun c => s.calls[c]?) = B.messages.map fun m => some ⟨m, B.sync⟩
  /-- no batch is given to the sender twice -/
  once : (s.handed.map (·.batch)).Nodup
  /-- what is given to the sender is all that the batch will ever hold -/
  whole : ∀ h ∈ s.handed, ∃ B, s.batches[h.batch]? = some B ∧ B.closed = true ∧
    h.messages = B.messages ∧ h.callbacks = if B.sync then [] else B.callers
  /-- a closed batch with messages has been given to the sender, or is about to -/
  sent : ∀ (b : Nat) (B : Accumulation), s.batches[b]? = some B → B.closed = true →
    B.messages ≠ [] → B.stage = .claimed ∨ ∃ h ∈ s.handed, h.batch = b
  /-- the index of a synchronous caller is the place of its message in the closed batch -/
  index : ∀ r ∈ s.returned, ∃ B, s.batches[r.batch]? = some B ∧ B.closed = true ∧
    B.callers[r.index]? = some r.call ∧ B.messages[r.index]? = (s.calls[r.call]?).map (·.msg)
  /-- no callback belongs to two batches that are sent, or twice to one -/
  callbacks : (s.handed.flatMap (·.callbacks)).Nodup

/-- The message of this call is in a batch. -/
def ProduceAccumulator.Accepted (s : ProduceAccumulator) (c : Nat) : Prop :=
  ∃ B ∈ s.batches, c ∈ B.callers

/-- The message of this call is in a batch that was given to the sender. -/
def ProduceAccumulator.HandedOver (s : ProduceAccumulator) (c : Nat) : Prop :=
  ∃ h ∈ s.handed, ∃ B, s.batches[h.batch]? = some B ∧ c ∈ B.callers

/-- What is invariant. -/
structure AccInv (s : ProduceAccumulator) : Prop where
  place : PlaceInv s
  going : OpenInv s
  sent : Sent s.batches s.handed
  claimed : ClaimedClosed s

namespace AccInv

variable {s t : ProduceAccumulator} {a : AccAct}

theorem init (maxMessageSize : Int) : AccInv (.new maxMessageSize) :=
  ⟨.init maxMessageSize, .init maxMessageSize,
    ⟨nodup_nil, (by intro _ h; cases h), (by intro _ _ h; cases h)⟩, (by intro _ h; cases h)⟩

theorem step (h : AccInv s) (hG : s.Calm a) (hs : s.step a = some t) : AccInv t :=
  ⟨h.place.step hG hs, h.going.step h.place hs, h.sent.rule h.claimed (.of_step hs),
    h.claimed.rule (.of_step hs)⟩

theorem count_placing (c : Nat) (tasks : List AccTask) :
    ((tasks.filterMap (·.placing)).map (·.call)).count c
      = (tasks.map (AccTask.carried (Offer.ofCall c))).sum := by
  induction tasks with
  | nil => rfl
  | cons x xs ih =>
    rw [map_cons, sum_cons, ← ih, filterMap_cons]
    cases hx : x.placing with
    | none =>
      rw [carried_none _ hx, zero_add]
    | some o =>
      have hone : x.carried (Offer.ofCall c) = if o.call = c then 1 else 0 := by
        rw [AccTask.carried, hx]
        rfl
      rw [hone, map_cons, count_cons, add_comm]
      simp only [beq_iff_eq]

variable (h : AccInv s)
include h

theorem placed :
    ((s.tasks.filterMap (·.placing)).map (·.call) ++ s.batches.flatMap (·.callers)).Perm
      (List.range s.calls.length) := by
  rw [perm_iff_count]
  intro c
  have hrange : (List.range s.calls.length).count c = callMade s.calls c := by
    rw [nodup_range.count, callMade]
    simp only [mem_range]
  rw [count_append, count_placing, count_flatMap, hrange]
  exact h.place.placed c

theorem callers_nodup : (s.batches.flatMap (·.callers)).Nodup :=
  (nodup_append.mp (h.placed.nodup_iff.mpr nodup_range)).2.1

theorem callers_disjoint {b b' c : Nat} {B B' : Accumulation}
    (hB : s.batches[b]? = some B) (hB' : s.batches[b']? = some B') (hc : c ∈ B.callers)
    (hc' : c ∈ B'.callers) : b = b' := by
  have hpair := (nodup_flatMap.mp h.callers_nodup).2
  obtain ⟨hlt, rfl⟩ := List.getElem?_eq_some_iff.mp hB
  obtain ⟨hlt', rfl⟩ := List.getElem?_eq_some_iff.mp hB'
  rcases lt_trichotomy b b' with hbb | hbb | hbb
  · exact absurd hc' (pairwise_iff_getElem.mp hpair b b' hlt hlt' hbb hc)
  · exact hbb
  · exact absurd hc (pairwise_iff_getElem.mp hpair b' b hlt' hlt hbb hc')

theorem callbacks_sub {e : Handover} (he : e ∈ s.handed) :
    ∃ B, s.batches[e.batch]? = some B ∧ e.callbacks.Sublist B.callers := by
  obtain ⟨B, hB, _, _, _, hcallbacks⟩ := h.sent.recorded e he
  refine ⟨B, hB, ?_⟩
  rw [hcallbacks, (h.place.sound B (mem_of_getElem? hB)).callbacks]
  split
  · exact nil_sublist _
  · exact List.Sublist.refl _

theorem callbacks_nodup : (s.handed.flatMap (·.callbacks)).Nodup := by
  refine nodup_flatMap.mpr ⟨fun e he => ?_, ?_⟩
  · obtain ⟨B, hB, hsub⟩ := h.callbacks_sub he
    exact hsub.nodup ((nodup_flatMap.mp h.callers_nodup).1 B (mem_of_getElem? hB))
  · have hpair : s.handed.Pairwise fun e e' => e.batch ≠ e'.batch := pairwise_map.mp h.sent.nodup
    refine hpair.imp_of_mem fun he he' hne c hc hc' => ?_
    obtain ⟨B, hB, hsub⟩ := h.callbacks_sub he
    obtain ⟨B', hB', hsub'⟩ := h.callbacks_sub he'
    exact hne (h.callers_disjoint hB hB' (hsub.subset hc) (hsub'.subset hc'))

theorem exactlyOnce : ExactlyOnce s := by
  have hsound {b : Nat} {B : Accumulation} (hB : s.batches[b]? = some B) : B.Sound s.calls :=
    h.place.sound B (mem_of_getElem? hB)
  refine ⟨h.placed, fun B hB => (h.place.sound B hB).aligned, h.sent.nodup, fun e he => ?_,
    fun b B hB hc hne => ?_, fun r hr => ?_, h.callbacks_nodup⟩
  · obtain ⟨B, hB, hclosed, _, hmessages, hcallbacks⟩ := h.sent.recorded e he
    exact ⟨B, hB, hclosed, hmessages, hcallbacks.trans (hsound hB).callbacks⟩
  · cases hstage : B.stage with
    | unclaimed => exact absurd hstage ((hsound hB).sent hc hne)
    | claimed => exact .inl rfl
    | inFlight | rejected | completed => exact .inr (h.sent.given b B hB (by rw [hstage]; rfl))
  · obtain ⟨B, hB, hclosed, hcaller⟩ := h.place.returned r hr
    exact ⟨B, hB, hclosed, hcaller, (hsound hB).message hcaller⟩

theorem canSend {b c : Nat} {B : Accumulation} (hB : s.batches[b]? = some B)
    (hc : c ∈ B.callers) : CanSend s b := by
  have hsound := h.place.sound B (mem_of_getElem? hB)
  cases hclosed : B.closed with
  | false => exact .of_open h.place h.going hB hclosed hc
  | true =>
    have hne : B.messages ≠ [] := by
      intro hnil
      have hlen := hsound.length_eq
      rw [hnil, length_nil, length_eq_zero_iff] at hlen
      rw [hlen] at hc
      cases hc
    rcases h.exactlyOnce.sent b B hB hclosed hne with hstage | hhanded
    · exact .claimed hB hstage
    · exact ⟨s, .start, hhanded⟩

end AccInv

/-! ## 3. Exactly once -/

theorem later_of_reach {s t : ProduceAccumulator} {G : ProduceAccumulator → AccAct → Prop}
    (h : Machine.Reach step G s t) : Later s t := by
  induction h with
  | start => exact .of_eq rfl rfl
  | next _ _ hs ih =>
    have hstep := (AccRule.of_step hs).later
    refine ⟨fun b B hB => ?_, ih.calls.trans hstep.calls⟩
    exact hstep.batch (ih.batches b B hB) fun hgrows hold => hold.trans hgrows

/-- **Exactly once.** For every interleaving of callers, guards and sends in which no guard closes an
open batch that holds messages by then: the guarantee holds in every state reached, and from there
every message that is in a batch can be given to the sender. -/
theorem accumulated_exactly_once (maxMessageSize : Int) {s : ProduceAccumulator}
    (h : Machine.Reach ProduceAccumulator.step ProduceAccumulator.Calm (.new maxMessageSize) s) :
    ExactlyOnce s ∧ ∀ c, s.Accepted c →
      ∃ t, Machine.Reach ProduceAccumulator.step ProduceAccumulator.Calm s t ∧ t.HandedOver c := by
  have hinv : AccInv s := h.invariant (.init maxMessageSize) fun _ _ _ hi hG hs => hi.step hG hs
  refine ⟨hinv.exactlyOnce, fun c ⟨B, hB, hc⟩ => ?_⟩
  obtain ⟨b, hb⟩ := mem_iff_getElem?.mp hB
  obtain ⟨t, hreach, e, he, heb⟩ := hinv.canSend hb hc
  obtain ⟨C, hC, hgrows⟩ := (later_of_reach hreach).batches b B hb
  exact ⟨t, hreach, e, he, C, heb ▸ hC, hgrows.callers.subset hc⟩

namespace Script

/-- A synchronous caller whose batch is not ready, and is once ten milliseconds have passed. -/
def syncDelivered : List AccAct :=
  [.offer plainMessage none true nextId, .run 0, .run 0, .run 0, .run 0, .tick 10, .run 0, .run 0,
    .run 0, .run 0, .hand 0 true, .complete 0 true, .run 0]

/-- The guard reads a size of zero, the message comes in, the guard closes the batch. -/
def guardOverlaps : List AccAct :=
  [.offer plainMessage none true nextId, .run 0, .scan true, .visit 1 0, .run 1, .run 0, .run 1,
    .run 1, .run 1, .run 0, .run 0]

end Script

open Script

/-- A synchronous message: sent once, and its caller got index 0. -/
theorem accumulated_exactly_once_sync :
    ((accAfter syncDelivered).handed.map (·.batch) = [0] ∧
      (accAfter syncDelivered).returned = [⟨0, 0, 0⟩]) ∧
    ExactlyOnce (accAfter syncDelivered) ∧
      ∀ c, (accAfter syncDelivered).Accepted c →
        ∃ t, Machine.Reach ProduceAccumulator.step ProduceAccumulator.Calm
          (accAfter syncDelivered) t ∧ t.HandedOver c := by
  have hmeets : Machine.Meets step ProduceAccumulator.Calm (.new 4194304)
      syncDelivered := by
    decide +kernel
  exact ⟨by decide +kernel, accumulated_exactly_once 4194304 hmeets.reach_after⟩

/-- **A message that is never sent**: the batch it was accepted into is closed and in no table,
nobody has claimed it, the caller has left with its index, and nothing is left to run. -/
theorem accepted_never_sent :
    (Machine.exec ProduceAccumulator.step (.new 4194304) guardOverlaps).map
        (fun s => s.batches.map fun B => (B.closed, B.stage, B.callers))
      = some [(true, .unclaimed, [0])] ∧
    (Machine.exec ProduceAccumulator.step (.new 4194304) guardOverlaps).map
        (fun s => (s.syncBatches.length, s.handed.length, s.tasks, s.returned))
      = some (0, 0, [], [⟨0, 0, 0⟩]) := by
  decide +kernel

end RocketMQ
