/-
  File:      RocketMQ/Producer/Progress.lean
  Subject:   An open batch of the accumulator is never forgotten.

  * `CanSend`: **every batch with messages can still be given to the sender**, by the guard for
    asynchronous callers, by one of its callers for synchronous ones.
-/
import RocketMQ.Producer.Placement

namespace RocketMQ

open ProduceAccumulator Pool
open List hiding lookup

/-! ## 1. Open batches -/

/-- Every caller of an open synchronous batch waits at it. -/
def Waits (batches : List Accumulation) (tasks : List AccTask) : Prop :=
  ∀ (b : Nat) (B : Accumulation) (i c : Nat), batches[b]? = some B → B.closed = false →
    B.sync = true → B.callers[i]? = some c → ∃ x ∈ tasks, x.awaits = some (c, b, i)

/-- A lock that is taken has a holder. -/
def Held (batches : List Accumulation) (tasks : List AccTask) : Prop :=
  ∀ (b : Nat) (B : Accumulation), batches[b]? = some B → B.waitLock = true →
    ∃ x ∈ tasks, x.holds = some b

/-- What keeps an open batch going. -/
structure OpenInv (s : ProduceAccumulator) : Prop where
  registered : ∀ (b : Nat) (B : Accumulation), s.batches[b]? = some B → B.closed = false →
    lookup (s.table B.sync) B.key = some b
  waiting : Waits s.batches s.tasks
  locked : Held s.batches s.tasks

namespace OpenInv

variable {s t : ProduceAccumulator} {a : AccAct}

theorem init (maxMessageSize : Int) : OpenInv (.new maxMessageSize) :=
  ⟨(by intro _ _ h; cases h), (by intro _ _ _ _ h; cases h), (by intro _ _ h; cases h)⟩

theorem back {b : Nat} {C : Accumulation} (hl : Later s t) (hb : b < s.batches.length)
    (hC : t.batches[b]? = some C) : ∃ B, s.batches[b]? = some B ∧ B.Grows C := by
  obtain ⟨C', hC', hgrows⟩ := hl.batches b _ (getElem?_eq_getElem hb)
  cases hC.symm.trans hC'
  exact ⟨_, getElem?_eq_getElem hb, hgrows⟩

theorem open_of_grows {B C : Accumulation} (h : B.Grows C) (hc : C.closed = false) :
    B.closed = false := by
  by_contra hne
  have hclosed := (h.closed (by simpa using hne)).1
  cases hc.symm.trans hclosed

theorem registered_of_sub (h : OpenInv s) (hl : Later s t)
    (hlen : t.batches.length = s.batches.length)
    (hsub : ∀ sync key b B, s.batches[b]? = some B → B.closed = false →
      lookup (s.table sync) key = some b → lookup (t.table sync) key = some b)
    (b : Nat) (C : Accumulation) (hC : t.batches[b]? = some C) (hc : C.closed = false) :
    lookup (t.table C.sync) C.key = some b := by
  have hb : b < s.batches.length := by
    obtain ⟨hlt, _⟩ := List.getElem?_eq_some_iff.mp hC
    omega
  obtain ⟨B, hB, hgrows⟩ := back hl hb hC
  have hopen := open_of_grows hgrows hc
  rw [hgrows.sync, hgrows.key]
  exact hsub _ _ b B hB hopen (h.registered b B hB hopen)

theorem lookup_drop {sync sync' : Bool} {key key' : AggregateKey} {b b' i : Nat}
    {B B' : Accumulation} {ts : List AccTask} (hB : s.batches[b]? = some B)
    (hc : B.closed = true) (hB' : s.batches[b']? = some B') (hc' : B'.closed = false)
    (h : lookup (s.table sync') key' = some b') :
    lookup (((s.setTable sync (dropEntry (s.table sync) key b)).become i ts).table sync') key'
      = some b' := by
  have hne : b' ≠ b := by
    intro heq
    rw [heq, hB] at hB'
    cases hB'
    cases hc.symm.trans hc'
  show lookup ((s.setTable sync (dropEntry (s.table sync) key b)).table sync') key' = some b'
  rw [table_setTable]
  split
  · rename_i hsync
    rw [← hsync] at h
    exact lookup_dropEntry h hne
  · exact h

/-- **An open batch stands in its table.** -/
theorem registered_rule (h : OpenInv s) (hp : PlaceInv s) (hr : AccRule s a t) (b : Nat)
    (C : Accumulation) (hC : t.batches[b]? = some C) (hc : C.closed = false) :
    lookup (t.table C.sync) C.key = some b := by
  have hl := hr.later
  cases hr with
  | quiet _ hbatches hsync hasync =>
    refine h.registered_of_sub hl (by rw [hbatches]) (fun sync key b B _ _ hlookup => ?_) b C hC hc
    rwa [table, hsync, hasync]
  | @created i o hi hnone =>
    show lookup (((s.become i [.joining o s.batches.length]).setTable o.sync
      (s.table o.sync ++ [(o.key, s.batches.length)])).table C.sync) C.key = some b
    rw [table_setTable]
    rcases of_getElem?_concat hC with hold | ⟨rfl, rfl⟩
    · have hlookup := h.registered b C hold hc
      split
      · rename_i hsync
        rw [hsync]
        exact lookup_append_left hlookup
      · exact hlookup
    · have hsync : o.sync = (Accumulation.new o.key o.sync s.clock).sync := rfl
      rw [if_pos hsync]
      exact lookup_append_new hnone
  | @removed i b₀ _ hi | @dropped i b₀ _ _ _ hi =>
    obtain ⟨B₀, hB₀, hc₀⟩ := (hp.task hi).knows b₀ rfl
    exact h.registered_of_sub hl (by simp [become])
      (fun sync key b B hB hopen hlookup => lookup_drop hB₀ hc₀ hB hopen hlookup) b C hC hc
  | reserved | offered | found | late | moved | scanned => exact h.registered b C hC hc
  | _ =>
    exact h.registered_of_sub hl length_set (fun _ _ _ _ _ _ hlookup => hlookup) b C hC hc

end OpenInv

/-! ## 2. Callers wait -/

namespace Waits

variable {batches : List Accumulation} {tasks ts : List AccTask} {b₀ : Nat} {B₀ C₀ : Accumulation}

theorem mono (h : Waits batches tasks)
    (htasks : ∀ e, (∃ x ∈ tasks, x.awaits = some e) → ∃ x ∈ ts, x.awaits = some e) :
    Waits batches ts :=
  fun b B i c hB hc hsync hi => htasks _ (h b B i c hB hc hsync hi)

theorem set (h : Waits batches tasks) (hB₀ : batches[b₀]? = some B₀)
    (hsame : C₀.closed = false →
      B₀.closed = false ∧ C₀.sync = B₀.sync ∧ C₀.callers = B₀.callers)
    (htasks : ∀ c b i, (b = b₀ → C₀.closed = false) →
      (∃ x ∈ tasks, x.awaits = some (c, b, i)) → ∃ x ∈ ts, x.awaits = some (c, b, i)) :
    Waits (batches.set b₀ C₀) ts := by
  intro b C i c hC hc hsync hi
  rcases of_getElem?_set hC with ⟨rfl, rfl⟩ | ⟨hne, hold⟩
  · obtain ⟨hopen, hs, hcallers⟩ := hsame hc
    rw [hcallers] at hi
    exact htasks c b i (fun _ => hc) (h b B₀ i c hB₀ hopen (hs ▸ hsync) hi)
  · exact htasks c b i (fun heq => absurd heq hne) (h b C i c hold hc hsync hi)

theorem append {key : AggregateKey} {sync : Bool} {now : Int} (h : Waits batches tasks) :
    Waits (batches ++ [Accumulation.new key sync now]) tasks := by
  intro b C i c hC hc hsync hi
  rcases of_getElem?_concat hC with hold | ⟨_, rfl⟩
  · exact h b C i c hold hc hsync hi
  · cases hi

theorem push {i₀ : Nat} {o : Offer} {calls : List Call} (h : Waits batches tasks)
    (hi₀ : tasks[i₀]? = some (.joining o b₀)) (hB₀ : batches[b₀]? = some B₀)
    (hc₀ : B₀.closed = false) (hsync₀ : B₀.sync = o.sync) (hsound : B₀.Sound calls) :
    Waits (batches.set b₀ (B₀.push o.call o.msg)) (Pool.replace tasks i₀
      [if o.sync then .waiting o.call b₀ B₀.count.toNat else .checking b₀ none]) := by
  intro b C i c hC hc hsync hi
  rcases of_getElem?_set hC with ⟨rfl, rfl⟩ | ⟨_, hold⟩
  · have hosync : o.sync = true := hsync₀ ▸ hsync
    rcases of_getElem?_concat hi with hold | ⟨rfl, rfl⟩
    · exact exists_replace _ hi₀ (.inl rfl) (h b B₀ i c hB₀ hc₀ hsync hold)
    · -- the new place is the number of messages so far
      refine ⟨_, mem_replace_new (mem_singleton_self _), ?_⟩
      rw [if_pos hosync, hsound.count_toNat]
      rfl
  · exact exists_replace _ hi₀ (.inl rfl) (h b C i c hold hc hsync hi)

end Waits

namespace OpenInv

variable {s t : ProduceAccumulator} {a : AccAct}

/-- **Every caller of an open synchronous batch still waits at it.** -/
theorem waiting_rule (h : OpenInv s) (hp : PlaceInv s) (hr : AccRule s a t) :
    Waits t.batches t.tasks := by
  cases hr with
  | quiet _ hbatches _ _ htasks =>
    rw [hbatches, htasks]
    exact h.waiting
  | reserved => exact h.waiting
  | offered | scanned => exact h.waiting.mono fun _ => exists_append
  | found hi | late hi => exact h.waiting.mono fun _ => exists_replace _ hi (.inl rfl)
  | created hi =>
    simp only [setTable_tasks]
    exact h.waiting.append.mono fun _ => exists_replace _ hi (.inl rfl)
  | joined hi hB hc =>
    exact h.waiting.push hi hB hc (hp.joining_call hi hB).2 (hp.sound _ (mem_of_getElem? hB))
  | removed hi | dropped hi =>
    simp only [become, setTable_tasks, setTable_batches]
    exact h.waiting.mono fun _ => exists_replace _ hi (.inl rfl)
  | moved hi hgo => exact h.waiting.mono fun _ => exists_replace _ hi hgo.awaits
  | locked hi hgo hB =>
    exact h.waiting.set hB (fun hopen => ⟨hopen, rfl, rfl⟩)
      fun _ _ _ _ => exists_replace _ hi hgo.awaits
  | @left i call b index x B r hi hx _ _ hB hclosed =>
    refine h.waiting.set hB (fun hopen => ⟨hopen, rfl, rfl⟩) fun c' b' i' hne he => ?_
    -- the caller that leaves waited at a closed batch
    have hBclosed := hp.closed_of_left hi hB hclosed
    obtain ⟨z, hz, hw⟩ := he
    rcases mem_replace_of_mem [] hi hz with rfl | hz
    · cases hx.symm.trans hw
      have hopen : B.closed = false := hne rfl
      cases hBclosed.symm.trans hopen
    · exact ⟨z, hz, hw⟩
  | claimed hi hgo hB =>
    refine h.waiting.set hB (fun hopen => ?_) fun _ _ _ _ => exists_replace _ hi hgo.awaits
    rw [Accumulation.claim_closed] at hopen
    cases hopen
  | marked hi hB =>
    refine h.waiting.set hB (fun hopen => ?_) fun _ _ _ _ => exists_replace _ hi (.inl rfl)
    cases hopen
  | handed hB | completed hB =>
    exact h.waiting.set hB (fun hopen => ⟨hopen, rfl, rfl⟩) fun _ _ _ _ he => he

end OpenInv

/-! ## 3. Locks have holders -/

namespace Held

variable {batches : List Accumulation} {tasks ts : List AccTask} {b₀ : Nat} {B₀ C₀ : Accumulation}

theorem mono (h : Held batches tasks)
    (htasks : ∀ e, (∃ x ∈ tasks, x.holds = some e) → ∃ x ∈ ts, x.holds = some e) :
    Held batches ts :=
  fun b B hB hl => htasks _ (h b B hB hl)

theorem set (h : Held batches tasks) (hB₀ : batches[b₀]? = some B₀)
    (hsame : C₀.waitLock = B₀.waitLock)
    (htasks : ∀ e, (∃ x ∈ tasks, x.holds = some e) → ∃ x ∈ ts, x.holds = some e) :
    Held (batches.set b₀ C₀) ts := by
  intro b C hC hl
  rcases of_getElem?_set hC with ⟨rfl, rfl⟩ | ⟨_, hold⟩
  · exact htasks _ (h b B₀ hB₀ (hsame ▸ hl))
  · exact htasks _ (h b C hold hl)

theorem setLock {i : Nat} {x : AccTask} (h : Held batches tasks) (hi : tasks[i]? = some x)
    (hfrom : x.holds = none ∨ x.holds = some b₀)
    (hto : C₀.waitLock = true → ∃ y ∈ ts, y.holds = some b₀) :
    Held (batches.set b₀ C₀) (Pool.replace tasks i ts) := by
  intro b C hC hl
  rcases of_getElem?_set hC with ⟨rfl, rfl⟩ | ⟨hne, hold⟩
  · obtain ⟨y, hy, hh⟩ := hto hl
    exact ⟨y, mem_replace_new hy, hh⟩
  · obtain ⟨z, hz, hh⟩ := h b C hold hl
    rcases mem_replace_of_mem ts hi hz with rfl | hz
    · rcases hfrom with hfrom | hfrom
      · cases hfrom.symm.trans hh
      · rw [hfrom, Option.some.injEq] at hh
        exact absurd hh.symm hne
    · exact ⟨z, hz, hh⟩

theorem append {key : AggregateKey} {sync : Bool} {now : Int} (h : Held batches tasks) :
    Held (batches ++ [Accumulation.new key sync now]) tasks := by
  intro b C hC hl
  rcases of_getElem?_concat hC with hold | ⟨_, rfl⟩
  · exact h b C hold hl
  · cases hl

end Held

namespace OpenInv

variable {s t : ProduceAccumulator} {a : AccAct}

/-- **A lock that is taken has a holder.** -/
theorem locked_rule (h : OpenInv s) (hr : AccRule s a t) : Held t.batches t.tasks := by
  cases hr with
  | quiet _ hbatches _ _ htasks =>
    rw [hbatches, htasks]
    exact h.locked
  | reserved => exact h.locked
  | offered | scanned => exact h.locked.mono fun _ => exists_append
  | found hi | late hi => exact h.locked.mono fun _ => exists_replace _ hi (.inl rfl)
  | created hi =>
    simp only [setTable_tasks]
    exact h.locked.append.mono fun _ => exists_replace _ hi (.inl rfl)
  | joined hi hB | marked hi hB =>
    exact h.locked.set hB rfl fun _ => exists_replace _ hi (.inl rfl)
  | removed hi | dropped hi =>
    simp only [become, setTable_tasks, setTable_batches]
    exact h.locked.mono fun _ => exists_replace _ hi (.inl rfl)
  | moved hi _ hholds => exact h.locked.mono fun _ => exists_replace _ hi hholds
  | @locked i b x y B l hi _ hB hfrom hto =>
    exact h.locked.setLock hi hfrom fun hl => ⟨y, mem_singleton_self y, hto hl⟩
  | left hi _ hholds _ hB => exact h.locked.setLock hi (.inr hholds) (by intro hl; cases hl)
  | @claimed i b x ts B hi _ hB hholds =>
    refine h.locked.set hB ?_ fun _ => exists_replace _ hi hholds
    unfold Accumulation.claim
    split
    · rfl
    · rfl
  | handed hB | completed hB => exact h.locked.set hB rfl fun _ he => he

/-- **Each section keeps open batches going.** -/
theorem step (h : OpenInv s) (hp : PlaceInv s) (hs : s.step a = some t) : OpenInv t :=
  have hr := AccRule.of_step hs
  ⟨h.registered_rule hp hr, h.waiting_rule hp hr, h.locked_rule hr⟩

end OpenInv

/-! ## 4. Every batch can be sent -/

/-- Sections that meet the condition can give the batch to the sender. -/
def CanSend (s : ProduceAccumulator) (b : Nat) : Prop :=
  ∃ t, Machine.Reach step Calm s t ∧
    ∃ h ∈ t.handed, h.batch = b

namespace CanSend

variable {s t : ProduceAccumulator} {a : AccAct} {b i : Nat} {B : Accumulation}

theorem of_step (hmarks : s.marks a = none) (hs : s.step a = some t) (h : CanSend t b) :
    CanSend s b := by
  obtain ⟨u, hreach, hhanded⟩ := h
  have hcalm := calm_of_marks hmarks
  exact ⟨u, (Machine.Reach.next .start hcalm hs).trans hreach, hhanded⟩

variable {x : AccTask} {next : Option (List Nat)} {call index c : Nat}

theorem of_run (hi : s.tasks[i]? = some x) (hx : ∀ sync b p, x ≠ .marking sync b p)
    (hs : s.runTask i = some t) (h : CanSend t b) : CanSend s b := by
  refine of_step (a := .run i) ?_ hs h
  simp only [marks, hi]
  split
  · rename_i sync b' p heq
    cases heq
    exact absurd rfl (hx sync b' p)
  · rfl

section Sending

variable (hB : s.batches[b]? = some B)

include hB

theorem claimed (hstage : B.stage = .claimed) : CanSend s b := by
  have hs : s.step (.hand b true)
      = some { s.setBatch b { B with stage := .inFlight } with
          handed := s.handed ++ [⟨b, B.messages, B.callbacks⟩] } := by
    simp [step, hand, hB, hstage]
  exact .of_step rfl hs ⟨_, .start, _, mem_append_right _ (mem_singleton_self _), rfl⟩

variable (hopen : B.closed = false)

include hopen

theorem claim {ts : List AccTask} : CanSend ((s.setBatch b B.claim).become i ts) b := by
  obtain ⟨hlt, _⟩ := List.getElem?_eq_some_iff.mp hB
  refine claimed (getElem?_set_self hlt) ?_
  rw [Accumulation.claim, hopen]
  rfl

theorem claiming (hi : s.tasks[i]? = some (.claiming b next)) : CanSend s b := by
  have hs : s.runTask i
      = some ((s.setBatch b B.claim).become i (after b next)) := by
    simp only [runTask, hi, hB, Option.map_some]
  exact of_run hi (by intro _ _ _ h; cases h) hs (claim hB hopen)

theorem closing (hi : s.tasks[i]? = some (.closing call b index)) : CanSend s b := by
  have hs : s.runTask i
      = some ((s.setBatch b B.claim).become i [.delivering call b index]) := by
    simp only [runTask, hi, hB, Option.map_some, hopen, Bool.false_eq_true,
      if_false]
  exact of_run hi (by intro _ _ _ h; cases h) hs (claim hB hopen)

variable (hready : s.ready B = true)

include hready

theorem checking (hi : s.tasks[i]? = some (.checking b next)) : CanSend s b := by
  have hs : s.runTask i = some (s.become i [.claiming b next]) := by
    simp only [runTask, hi, hB, Option.map_some, hready, if_true]
  exact of_run hi (by intro _ _ _ h; cases h) hs
    (claiming hB hopen (getElem?_replace_self [] hi))

theorem scanning {j : Nat} {pending : List Nat}
    (hi : s.tasks[i]? = some (.scanning false pending)) (hj : pending[j]? = some b) :
    CanSend s b := by
  have hs : s.step (.visit i j)
      = some (s.become i [.checking b (some (pending.eraseIdx j))]) := by
    simp only [step, visit, hi, hj, Option.map_some,
      Bool.false_eq_true, if_false]
  exact of_step rfl hs (checking hB hopen hready (getElem?_replace_self [] hi))

/-- **The guard sends an asynchronous batch that is ready.** -/
theorem async {key : AggregateKey} (hlookup : lookup (s.table false) key = some b) :
    CanSend s b := by
  obtain ⟨e, he, hb⟩ := Option.map_eq_some_iff.mp hlookup
  have hmem : b ∈ (s.table false).map (·.2) :=
    hb ▸ mem_map_of_mem (mem_of_find?_eq_some he)
  obtain ⟨j, hj⟩ := mem_iff_getElem?.mp hmem
  exact of_step (a := .scan false) rfl rfl
    (scanning hB hopen hready getElem?_concat_length hj)

theorem looping (hi : s.tasks[i]? = some (.looping call b index)) : CanSend s b := by
  have hs : s.runTask i = some (s.become i [.closing call b index]) := by
    simp only [runTask, hi, hB, Option.map_some, hopen, hready,
      Bool.false_eq_true, if_false, if_true]
  exact of_run hi (by intro _ _ _ h; cases h) hs
    (closing hB hopen (getElem?_replace_self [] hi))

variable (hp : PlaceInv s)

include hp

theorem holder (hx : x ∈ s.tasks) (hholds : x.holds = some b) : CanSend s b := by
  obtain ⟨i, hi⟩ := mem_iff_getElem?.mp hx
  cases x with
  | looping call b' index =>
    cases hholds
    exact looping hB hopen hready hi
  | closing call b' index =>
    cases hholds
    exact closing hB hopen hi
  | delivering call b' index =>
    cases hholds
    obtain ⟨C, hC, hclosed⟩ := (hp.task hi).knows b rfl
    cases hB.symm.trans hC
    cases hopen.symm.trans hclosed
  | _ => cases hholds

variable (ho : OpenInv s)

include ho

theorem waiting (hi : s.tasks[i]? = some (.waiting call b index)) : CanSend s b := by
  cases hlock : B.waitLock with
  | true =>
    obtain ⟨x, hx, hholds⟩ := ho.locked b B hB hlock
    exact holder hB hopen hready hp hx hholds
  | false =>
    obtain ⟨hlt, _⟩ := List.getElem?_eq_some_iff.mp hB
    have hs : s.runTask i = some ((s.setBatch b { B with waitLock := true }).become i
        [.looping call b index]) := by
      simp only [runTask, hi, hB, Option.bind_some, hlock,
        Bool.false_eq_true, if_false]
    exact of_run hi (by intro _ _ _ h; cases h) hs
      (looping (B := { B with waitLock := true }) (getElem?_set_self hlt) hopen hready
        (getElem?_replace_self [] hi))

/-- **A caller sends a synchronous batch that is ready.** -/
theorem sync (hsync : B.sync = true) (hc : B.callers[index]? = some c) : CanSend s b := by
  obtain ⟨x, hx, hw⟩ := ho.waiting b B index c hB hopen hsync hc
  obtain ⟨i, hi⟩ := mem_iff_getElem?.mp hx
  cases x with
  | waiting call b' index' =>
    cases hw
    exact waiting hB hopen hready hp ho hi
  | parked call b' index' =>
    cases hw
    have hs : s.step (.run i) = some (s.become i [.waiting c b index]) := by
      simp only [step, runTask, hi]
    have hcalm : s.Calm (.run i) :=
      calm_of_marks (by simp only [marks, hi])
    exact of_run hi (by intro _ _ _ h; cases h) hs
      (waiting hB hopen hready (hp.step hcalm hs) (ho.step hp hs)
        (getElem?_replace_self [] hi))
  | looping | closing | delivering =>
    cases hw
    exact holder hB hopen hready hp hx rfl
  | _ => cases hw

end Sending

/-- **Every open batch with a message can be sent**, once it is old enough. -/
theorem of_open (hp : PlaceInv s) (ho : OpenInv s) (hB : s.batches[b]? = some B)
    (hopen : B.closed = false) (hc : c ∈ B.callers) : CanSend s b := by
  obtain ⟨index, hindex⟩ := mem_iff_getElem?.mp hc
  have hs : s.step (.tick (B.createTime + s.holdMs - s.clock).toNat)
      = some { s with clock := s.clock + (B.createTime + s.holdMs - s.clock).toNat } := rfl
  have hready : ready
      { s with clock := s.clock + (B.createTime + s.holdMs - s.clock).toNat } B = true := by
    simp only [ready, Accumulation.readyToSend, Bool.or_eq_true,
      decide_eq_true_eq]
    omega
  have hp' : PlaceInv { s with clock := s.clock + (B.createTime + s.holdMs - s.clock).toNat } :=
    hp.step (calm_of_marks rfl) hs
  refine of_step rfl hs ?_
  cases hsync : B.sync with
  | true => exact sync hB hopen hready hp' (ho.step hp hs) hsync hindex
  | false =>
    have hlookup := ho.registered b B hB hopen
    rw [hsync] at hlookup
    exact async hB hopen hready hlookup

end CanSend

end RocketMQ
