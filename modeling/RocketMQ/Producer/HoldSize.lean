/-
  File:      RocketMQ/Producer/HoldSize.lean
  Subject:   The size the accumulator believes it holds, against what it does hold.

  `try_add_message` reserves a message's size before the message is examined, and the size comes back
  when the batch's send completes. A message that is then not batched, and a batch that the
  asynchronous sender refuses, keep their reservation for good.

  * `hold_conserved`: in runs of `Balanced` sections nothing is held but what is outstanding.
-/
import RocketMQ.Producer.Sections

namespace RocketMQ

open List ProduceAccumulator

/-! ## 1. What is held -/

def SendStage.isCompleted : SendStage → Bool
  | completed _ => true
  | _ => false

/-- What has been reserved for a message that is on its way into a batch. -/
def Offer.size (o : Offer) : Int := o.msg.bodyLen

/-- What is to be released when the batch's send completes. -/
def Accumulation.owed (B : Accumulation) : Int := if B.stage.isCompleted then 0 else B.messagesSize

variable (s : ProduceAccumulator)

/-- The messages of the batches whose send has not completed. -/
def ProduceAccumulator.outstanding : List Message :=
  (s.batches.filter fun B => !B.stage.isCompleted).flatMap (·.messages)

theorem Message.bodyLen_nonneg (m : Message) : 0 ≤ m.bodyLen := by
  unfold Message.bodyLen
  omega

theorem Message.bodyLen_of_checkAndStamp {m msg : Message} {maxMessageSize : Int} {fresh : UniqId}
    (h : m.checkAndStamp maxMessageSize fresh = .ok msg) : msg.bodyLen = m.bodyLen := by
  unfold Message.checkAndStamp at h
  split at h
  · cases h
    rw [Message.bodyLen, Message.getBody, Message.setUniqId_body]
    rfl
  · cases h

theorem reserve_held (m : Message) :
    (s.reserve m).currentlyHoldSize = s.currentlyHoldSize + m.bodyLen := by
  have hpos := m.bodyLen_nonneg
  simp only [reserve]
  split <;> omega

theorem push_messagesSize (B : Accumulation) (call : Nat) (m : Message) :
    (B.push call m).messagesSize = B.messagesSize + m.bodyLen := by
  have hpos := m.bodyLen_nonneg
  simp only [Accumulation.push]
  split <;> omega

/-! ## 2. Each section keeps the balance -/

/-- **The sections without a leak**: a message for which there is room can be batched, or has no
body; the sender takes every batch. -/
def ProduceAccumulator.Balanced : AccAct → Prop
  | .offer m _ _ _ =>
    s.currentlyHoldSize < s.totalHoldSize → 0 < m.bodyLen →
      m.batchable = true ∧ (m.checkMessage s.maxMessageSize).isOk = true
  | .hand _ accepted => accepted = true
  | _ => True

instance (s : ProduceAccumulator) (a : AccAct) : Decidable (s.Balanced a) := by
  cases a <;> unfold ProduceAccumulator.Balanced <;> infer_instance

/-- **The balance.** -/
structure HoldInv (s : ProduceAccumulator) : Prop where
  held : s.currentlyHoldSize
    = (s.tasks.map (AccTask.carried Offer.size)).sum + (s.batches.map Accumulation.owed).sum
  sized : ∀ B ∈ s.batches, B.messagesSize = (B.messages.map Message.bodyLen).sum
  claimed : ClaimedClosed s

namespace HoldInv

variable {s t : ProduceAccumulator} {a : AccAct}

theorem init (maxMessageSize : Int) : HoldInv (.new maxMessageSize) :=
  ⟨rfl, (by intro _ h; cases h), (by intro _ h; cases h)⟩

theorem sized_rule (h : HoldInv s) (hr : AccRule s a t) :
    ∀ B ∈ t.batches, B.messagesSize = (B.messages.map Message.bodyLen).sum := by
  have hof {b : Nat} {B : Accumulation} (hB : s.batches[b]? = some B) :
      B.messagesSize = (B.messages.map Message.bodyLen).sum :=
    h.sized B (mem_of_getElem? hB)
  cases hr with
  | quiet _ hbatches =>
    rw [hbatches]
    exact h.sized
  | reserved | offered | found | late | moved | scanned => exact h.sized
  | created =>
    intro B hB
    rcases mem_append.mp hB with hB | hB
    · exact h.sized B (by simpa using hB)
    · rw [mem_singleton.mp hB]
      rfl
  | joined _ hB =>
    refine Pool.forall_set h.sized ?_
    rw [push_messagesSize, hof hB, Accumulation.push, map_append, sum_append,
      map_singleton, sum_singleton]
  | removed | dropped =>
    intro B hB
    exact h.sized B (by simpa [become] using hB)
  | locked _ _ hB | left _ _ _ _ hB | marked _ hB | handed hB | completed hB =>
    have hold := hof hB
    exact Pool.forall_set h.sized hold
  | claimed _ _ hB =>
    have hold := hof hB
    refine Pool.forall_set h.sized ?_
    unfold Accumulation.claim
    split
    · exact hold
    · exact hold

theorem weighs_size (h : HoldInv s) : Weighs Offer.size Accumulation.owed s where
  new := fun _ _ _ => rfl
  push := by
    intro B hB hc o
    have hstage : B.stage = .unclaimed := by
      by_contra hne
      have hclosed := h.claimed B hB hne
      cases hc.symm.trans hclosed
    have hpush : (B.push o.call o.msg).stage = .unclaimed := hstage
    rw [Accumulation.owed, Accumulation.owed, hpush, hstage, push_messagesSize]
    rfl
  lock := fun _ _ => rfl
  close := fun _ => rfl
  claim := by
    intro B hB
    unfold Accumulation.claim
    split
    · rfl
    next hopen =>
      have hstage : B.stage = .unclaimed := by
        by_contra hne
        exact hopen (h.claimed B hB hne)
      rw [Accumulation.owed, Accumulation.owed, hstage]
      rfl

/-- **Each section keeps the balance.** -/
theorem held_rule (h : HoldInv s) (hG : s.Balanced a) (hr : AccRule s a t) :
    t.currentlyHoldSize
      = (t.tasks.map (AccTask.carried Offer.size)).sum + (t.batches.map Accumulation.owed).sum := by
  have hheld := h.held
  have hw := hr.weight h.weighs_size
  cases hr with
  | quiet hsize hbatches _ _ htasks =>
    rw [hsize, htasks, hbatches]
    exact hheld
  | @reserved m mq sync fresh hroom href =>
    -- under the condition this is a message without a body
    have hempty : m.bodyLen = 0 := by
      by_contra hne
      have hpos := m.bodyLen_nonneg
      obtain ⟨hbatchable, hok⟩ := hG hroom (by omega)
      rcases href with href | href
      · cases hbatchable.symm.trans href
      · cases hcheck : m.checkMessage s.maxMessageSize with
        | error e =>
          rw [hcheck] at hok
          cases hok
        | ok u => exact href _ (by rw [Message.checkAndStamp, hcheck])
    rw [reserve_held, hempty, Int.add_zero]
    exact hheld
  | offered hcheck =>
    rw [map_append, sum_append, map_singleton, sum_singleton]
    show (s.reserve _).currentlyHoldSize = _ + (s.batches.map Accumulation.owed).sum
    rw [reserve_held, ← Message.bodyLen_of_checkAndStamp hcheck]
    simp only [AccTask.carried, AccTask.placing, Option.elim_some, Offer.size]
    omega
  | moved hi hgo =>
    exact hheld.trans (weight_become hi (carried_goesOn hgo.carries hgo.placing)).symm
  | @handed b accepted B hB hstage =>
    have haccepted : accepted = true := hG
    refine hheld.trans (weight_setBatch hB ?_).symm
    rw [haccepted, Accumulation.owed, Accumulation.owed, hstage]
    rfl
  | @completed b ok B hB hstage =>
    have hsum := Pool.sum_set (x := { B with stage := .completed ok }) Accumulation.owed hB
    have hbefore : B.owed = B.messagesSize := by
      rw [Accumulation.owed, hstage]
      rfl
    have hafter : Accumulation.owed { B with stage := .completed ok } = 0 := rfl
    simp only [setBatch]
    omega
  | created | removed | dropped =>
    refine .trans ?_ (hheld.trans (hw rfl).symm)
    simp [become]
  | _ => exact hheld.trans (hw rfl).symm

theorem step (h : HoldInv s) (hG : s.Balanced a) (hs : s.step a = some t) : HoldInv t :=
  ⟨h.held_rule hG (.of_step hs), h.sized_rule (.of_step hs), h.claimed.rule (.of_step hs)⟩

theorem owed_outstanding {Bs : List Accumulation}
    (hsized : ∀ B ∈ Bs, B.messagesSize = (B.messages.map Message.bodyLen).sum) :
    (Bs.map Accumulation.owed).sum
      = (((Bs.filter fun B => !B.stage.isCompleted).flatMap (·.messages)).map
          Message.bodyLen).sum := by
  induction Bs with
  | nil => rfl
  | cons B Bs ih =>
    have hrest := ih fun C hC => hsized C (mem_cons_of_mem _ hC)
    rw [map_cons, sum_cons, hrest, filter_cons, Accumulation.owed]
    cases B.stage.isCompleted with
    | true => simp
    | false =>
      simp only [Bool.not_false, if_true, flatMap_cons, map_append, sum_append,
        Bool.false_eq_true, if_false]
      rw [hsized B mem_cons_self]

end HoldInv

/-! ## 3. Conservation -/

/-- **Hold-size conservation.** In every state that sections without a leak reach, if no message is
on its way into a batch, then the held size is that of the accepted messages whose batch has not
completed; it is zero once all batches have. -/
theorem hold_conserved (maxMessageSize : Int) {s : ProduceAccumulator}
    (h : Machine.Reach ProduceAccumulator.step ProduceAccumulator.Balanced (.new maxMessageSize) s)
    (hidle : ∀ x ∈ s.tasks, x.placing = none) :
    s.currentlyHoldSize = (s.outstanding.map Message.bodyLen).sum ∧
      ((∀ B ∈ s.batches, B.stage.isCompleted = true) → s.currentlyHoldSize = 0) := by
  have hinv : HoldInv s := h.invariant (.init maxMessageSize) fun _ _ _ hi hG hs => hi.step hG hs
  have hheld : s.currentlyHoldSize = (s.outstanding.map Message.bodyLen).sum := by
    rw [hinv.held, carried_sum _ hidle, Int.zero_add, HoldInv.owed_outstanding hinv.sized]
    rfl
  refine ⟨hheld, fun hall => ?_⟩
  have hnone : s.outstanding = [] := by
    unfold outstanding
    rw [filter_eq_nil_iff.mpr fun B hB => by simp [hall B hB]]
    rfl
  rw [hheld, hnone]
  rfl

namespace Script

def plainMessage : Message := ⟨"T", 0, ⟨[]⟩, some [1, 2, 3]⟩

def delayedMessage : Message := { plainMessage with properties := ⟨[("DELAY", "1")]⟩ }

/-- An asynchronous message is in its batch, which is not ready. -/
def oneAccepted : List AccAct := [.offer plainMessage none false nextId, .run 0, .run 0, .run 0]

/-- The guard finds the batch old enough and closes it. -/
def guardClaims : List AccAct := [.tick 10, .scan false, .visit 0 0, .run 0, .run 0]

def oneDelivered : List AccAct := oneAccepted ++ guardClaims ++ [.hand 0 true]

def oneRefused : List AccAct := oneAccepted ++ guardClaims ++ [.hand 0 false, .run 0, .run 0]

def delayedOffered : List AccAct := [.offer delayedMessage none true nextId]

def accAfter (acts : List AccAct) : ProduceAccumulator :=
  Machine.after step (.new 4194304) acts

end Script

open Script

/-- A batch of one message of three bytes, given to the sender: three bytes are held. -/
theorem hold_conserved_in_flight :
    (accAfter oneDelivered).currentlyHoldSize = 3 ∧
      (accAfter oneDelivered).currentlyHoldSize
        = ((accAfter oneDelivered).outstanding.map Message.bodyLen).sum ∧
      ((∀ B ∈ (accAfter oneDelivered).batches, B.stage.isCompleted = true) →
        (accAfter oneDelivered).currentlyHoldSize = 0) := by
  have hmeets : Machine.Meets step ProduceAccumulator.Balanced (.new 4194304)
      oneDelivered := by
    decide +kernel
  have hidle : ∀ x ∈ (accAfter oneDelivered).tasks, x.placing = none := by
    decide +kernel
  exact ⟨by decide +kernel, hold_conserved 4194304 hmeets.reach_after hidle⟩

/-- **Two leaks**: a delayed message is sent directly and its three bytes stay held; so do those of a
batch that the asynchronous sender refused. Nothing is on its way and nothing will be sent. -/
theorem hold_size_leaks :
    (Machine.exec ProduceAccumulator.step (.new 4194304) delayedOffered).map
        (fun s => (s.currentlyHoldSize, s.tasks, s.batches.map (·.stage))) = some (3, [], []) ∧
    (Machine.exec ProduceAccumulator.step (.new 4194304) oneRefused).map
        (fun s => (s.currentlyHoldSize, s.tasks, s.batches.map (·.stage)))
      = some (3, [], [.rejected]) := by
  decide +kernel

end RocketMQ
