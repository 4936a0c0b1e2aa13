/-
  File:      RocketMQ/Producer/Placement.lean
  Subject:   Where the messages of the accumulator are: with a caller, or at one place of one batch.

  * `Accumulation.Grows`, `Later`: what no section undoes. `AccRule.later`: sections only go on;
  * `Accumulation.Sound`: the messages of a batch, its callers and its callbacks agree;
  * `PlaceInv`: every call is being placed or stands at one place of one batch, and every task knows
    what it may know. `PlaceInv.step`: kept as long as guards close no batch that holds messages.
-/
import RocketMQ.Producer.Sections

namespace RocketMQ

open ProduceAccumulator Pool
open List hiding lookup

/-! ## 1. What no section undoes -/

/-- A batch later on: a closed one has its final contents. -/
structure Accumulation.Grows (B C : Accumulation) : Prop where
  key : C.key = B.key
  sync : C.sync = B.sync
  callers : B.callers <+: C.callers
  closed : B.closed = true →
    C.closed = true ∧ C.messages = B.messages ∧ C.callbacks = B.callbacks

namespace Accumulation.Grows

variable {B C : Accumulation}

theorem refl (B : Accumulation) : B.Grows B :=
  ⟨rfl, rfl, prefix_refl _, fun h => ⟨h, rfl, rfl⟩⟩

theorem trans {D : Accumulation} (h : B.Grows C) (h' : C.Grows D) : B.Grows D := by
  refine ⟨h'.key.trans h.key, h'.sync.trans h.sync, h.callers.trans h'.callers, fun hc => ?_⟩
  obtain ⟨hclosed, hmessages, hcallbacks⟩ := h.closed hc
  obtain ⟨hclosed', hmessages', hcallbacks'⟩ := h'.closed hclosed
  exact ⟨hclosed', hmessages'.trans hmessages, hcallbacks'.trans hcallbacks⟩

theorem push (hc : B.closed = false) (call : Nat) (m : Message) : B.Grows (B.push call m) := by
  refine ⟨rfl, rfl, prefix_append _ _, fun h => ?_⟩
  cases hc.symm.trans h

theorem claim (B : Accumulation) : B.Grows B.claim := by
  unfold Accumulation.claim
  split
  · exact refl B
  · exact ⟨rfl, rfl, prefix_refl _, fun _ => ⟨rfl, rfl, rfl⟩⟩

theorem of_eq (hkey : C.key = B.key) (hsync : C.sync = B.sync) (hcallers : C.callers = B.callers)
    (hmessages : C.messages = B.messages) (hcallbacks : C.callbacks = B.callbacks)
    (hclosed : B.closed = true → C.closed = true) : B.Grows C :=
  ⟨hkey, hsync, hcallers ▸ prefix_refl _, fun h => ⟨hclosed h, hmessages, hcallbacks⟩⟩

theorem caller {i c : Nat} (h : B.Grows C) (hi : B.callers[i]? = some c) : C.callers[i]? = some c :=
  getElem?_of_prefix h.callers hi

end Accumulation.Grows

/-- A state later on. -/
structure Later (s t : ProduceAccumulator) : Prop where
  batches : ∀ (b : Nat) (B : Accumulation), s.batches[b]? = some B →
    ∃ C, t.batches[b]? = some C ∧ B.Grows C
  calls : s.calls <+: t.calls

namespace Later

variable {s t : ProduceAccumulator}

theorem of_eq (hbatches : t.batches = s.batches) (hcalls : t.calls = s.calls) : Later s t := by
  refine ⟨fun b B hB => ⟨B, ?_, .refl B⟩, hcalls ▸ prefix_refl _⟩
  rw [hbatches]
  exact hB

theorem of_set {b : Nat} {B C : Accumulation} (hbatches : t.batches = s.batches.set b C)
    (hcalls : t.calls = s.calls) (hB : s.batches[b]? = some B) (hgrows : B.Grows C) :
    Later s t := by
  refine ⟨fun b' B' hB' => ?_, hcalls ▸ prefix_refl _⟩
  rw [hbatches]
  by_cases hbb : b = b'
  · subst hbb
    cases hB.symm.trans hB'
    obtain ⟨hlt, _⟩ := List.getElem?_eq_some_iff.mp hB
    exact ⟨C, getElem?_set_self hlt, hgrows⟩
  · exact ⟨B', (getElem?_set_ne hbb).trans hB', .refl B'⟩

theorem batch {P : Accumulation → Prop} {b : Nat} (h : Later s t)
    (hex : ∃ B, s.batches[b]? = some B ∧ P B) (hP : ∀ {B C : Accumulation}, B.Grows C → P B → P C) :
    ∃ C, t.batches[b]? = some C ∧ P C := by
  obtain ⟨B, hB, hPB⟩ := hex
  obtain ⟨C, hC, hgrows⟩ := h.batches b B hB
  exact ⟨C, hC, hP hgrows hPB⟩

theorem call {c : Nat} {k : Call} (h : Later s t) (hc : s.calls[c]? = some k) :
    t.calls[c]? = some k :=
  getElem?_of_prefix h.calls hc

end Later

/-- **Sections only go on.** -/
theorem AccRule.later {s t : ProduceAccumulator} {a : AccAct} (hr : AccRule s a t) : Later s t := by
  cases hr with
  | quiet _ hbatches _ _ _ hcalls => exact .of_eq hbatches hcalls
  | reserved | found | late | moved | scanned => exact .of_eq rfl rfl
  | offered => exact ⟨fun b B hB => ⟨B, hB, .refl B⟩, prefix_append _ _⟩
  | created =>
    refine ⟨fun b B hB => ⟨B, ?_, .refl B⟩, ?_⟩
    · obtain ⟨hlt, _⟩ := List.getElem?_eq_some_iff.mp hB
      rw [getElem?_append_left hlt]
      exact hB
    · rw [setTable_calls]
      exact prefix_refl _
  | joined _ hB hc => exact .of_set rfl rfl hB (.push hc _ _)
  | removed | dropped =>
    refine .of_eq ?_ ?_
    · simp [become]
    · simp [become]
  | locked _ _ hB | left _ _ _ _ hB | handed hB | completed hB =>
    exact .of_set rfl rfl hB (.of_eq rfl rfl rfl rfl rfl id)
  | claimed _ _ hB => exact .of_set rfl rfl hB (.claim _)
  | marked _ hB => exact .of_set rfl rfl hB (.of_eq rfl rfl rfl rfl rfl fun _ => rfl)

/-! ## 2. Batches -/

/-- The contents of a batch agree with the calls they come from; a closed batch with messages is
sent. -/
structure Accumulation.Sound (calls : List Call) (B : Accumulation) : Prop where
  count : B.count = B.messages.length
  aligned : B.callers.map (fun c => calls[c]?) = B.messages.map fun m => some ⟨m, B.sync⟩
  callbacks : B.callbacks = if B.sync then [] else B.callers
  sent : B.closed = true → B.messages ≠ [] → B.stage ≠ .unclaimed

namespace Accumulation.Sound

variable {calls calls' : List Call} {B : Accumulation}

theorem length_eq (h : B.Sound calls) : B.callers.length = B.messages.length := by
  have hlen := congrArg length h.aligned
  simpa using hlen

theorem count_toNat (h : B.Sound calls) : B.count.toNat = B.callers.length := by
  rw [h.count, h.length_eq]
  omega

theorem mono (h : B.Sound calls) (hcalls : calls <+: calls') : B.Sound calls' := by
  refine ⟨h.count, ?_, h.callbacks, h.sent⟩
  rw [← h.aligned]
  refine map_congr_left fun c hc => ?_
  have hmem := mem_map_of_mem (f := fun c => calls[c]?) hc
  rw [h.aligned] at hmem
  obtain ⟨m, _, hm⟩ := mem_map.mp hmem
  rw [← hm]
  exact getElem?_of_prefix hcalls hm.symm

theorem new (calls : List Call) (key : AggregateKey) (sync : Bool) (now : Int) :
    (Accumulation.new key sync now).Sound calls := by
  refine ⟨rfl, rfl, ?_, (by intro h; cases h)⟩
  cases sync <;> rfl

theorem push {call : Nat} {m : Message} (h : B.Sound calls) (hc : B.closed = false)
    (hcall : calls[call]? = some ⟨m, B.sync⟩) : (B.push call m).Sound calls := by
  refine ⟨?_, ?_, ?_, fun hclosed => ?_⟩
  · simp [Accumulation.push, h.count]
  · simp only [Accumulation.push, map_append, h.aligned, map_singleton, hcall]
  · simp only [Accumulation.push, h.callbacks]
    split <;> rfl
  · rw [show (B.push call m).closed = B.closed from rfl, hc] at hclosed
    cases hclosed

theorem claim (h : B.Sound calls) : B.claim.Sound calls := by
  unfold Accumulation.claim
  split
  · exact h
  · exact ⟨h.count, h.aligned, h.callbacks, (by intro _ _ hstage; cases hstage)⟩

theorem message {i c : Nat} (h : B.Sound calls) (hi : B.callers[i]? = some c) :
    B.messages[i]? = (calls[c]?).map (·.msg) := by
  have hat := congrArg (·[i]?) h.aligned
  simp only [getElem?_map, hi, Option.map_some] at hat
  cases hm : B.messages[i]? with
  | none =>
    rw [hm] at hat
    cases hat
  | some m =>
    rw [hm, Option.map_some, Option.some.injEq] at hat
    rw [hat]
    rfl

end Accumulation.Sound

/-! ## 3. Tables -/

namespace ProduceAccumulator

variable {table : List (AggregateKey × Nat)} {key k : AggregateKey} {b b' n : Nat}

theorem lookup_append_left (h : lookup table k = some b) :
    lookup (table ++ [(key, n)]) k = some b := by
  obtain ⟨e, he, rfl⟩ := Option.map_eq_some_iff.mp h
  rw [lookup, find?_append, he]
  rfl

theorem lookup_append_new (h : lookup table key = none) :
    lookup (table ++ [(key, n)]) key = some n := by
  have hnone := Option.map_eq_none_iff.mp h
  simp [lookup, hnone]

theorem of_lookup_append (h : lookup (table ++ [(key, n)]) k = some b) :
    lookup table k = some b ∨ (key = k ∧ n = b) := by
  rw [lookup, find?_append] at h
  cases hfind : table.find? (fun e => e.1 == k) with
  | some e =>
    rw [hfind] at h
    exact .inl (by rw [lookup, hfind]; exact h)
  | none =>
    rw [hfind, find?_singleton] at h
    split at h
    · rename_i heq
      exact .inr ⟨by simpa using heq, by simpa using h⟩
    · cases h

theorem lookup_filter_ne (h : k ≠ key) :
    lookup (table.filter fun e => e.1 != key) k = lookup table k := by
  rw [lookup, find?_filter]
  congr 2
  funext e
  by_cases hek : e.1 = k
  · simp [hek, h]
  · simp [hek]

theorem lookup_filter_self : lookup (table.filter fun e => e.1 != key) key = none := by
  rw [lookup, find?_filter, Option.map_eq_none_iff, find?_eq_none]
  intro e _ hboth
  simp at hboth

theorem lookup_dropEntry (h : lookup table k = some b') (hne : b' ≠ b) :
    lookup (dropEntry table key b) k = some b' := by
  unfold dropEntry
  split
  · rename_i hdrop
    have hkey : k ≠ key := by
      intro heq
      rw [heq, hdrop, Option.some.injEq] at h
      exact hne h.symm
    rw [lookup_filter_ne hkey]
    exact h
  · exact h

theorem of_lookup_dropEntry (h : lookup (dropEntry table key b) k = some b') :
    lookup table k = some b' := by
  unfold dropEntry at h
  split at h
  · by_cases hkey : k = key
    · rw [hkey, lookup_filter_self] at h
      cases h
    · rwa [lookup_filter_ne hkey] at h
  · exact h

end ProduceAccumulator

/-! ## 4. Tasks -/

/-- What a task relies on. -/
structure AccTask.Valid (s : ProduceAccumulator) (x : AccTask) : Prop where
  placing : ∀ o, x.placing = some o → s.calls[o.call]? = some ⟨o.msg, o.sync⟩
  joins : ∀ o b, x.joins = some (o, b) → ∃ B, s.batches[b]? = some B ∧ B.sync = o.sync
  knows : ∀ b, x.knowsClosed = some b → ∃ B, s.batches[b]? = some B ∧ B.closed = true
  awaits : ∀ c b i, x.awaits = some (c, b, i) →
    ∃ B, s.batches[b]? = some B ∧ B.callers[i]? = some c

namespace AccTask.Valid

variable {s t : ProduceAccumulator} {x y : AccTask} {ts : List AccTask}

theorem later (h : x.Valid s) (hl : Later s t) : x.Valid t where
  placing o ho := hl.call (h.placing o ho)
  joins o b hx := hl.batch (h.joins o b hx) fun hgrows hsync => hgrows.sync.trans hsync
  knows b hx := hl.batch (h.knows b hx) fun hgrows hclosed => (hgrows.closed hclosed).1
  awaits c b i hx := hl.batch (h.awaits c b i hx) Accumulation.Grows.caller

theorem joins_none (h : y.placing = none) : y.joins = none := by
  cases y with
  | joining o b => cases h
  | _ => rfl

variable {o : Offer} {b : Nat} {B : Accumulation}

theorem adding (h : s.calls[o.call]? = some ⟨o.msg, o.sync⟩) : (AccTask.adding o).Valid s := by
  refine ⟨fun o' ho => ?_, (by intro _ _ h; cases h), (by intro _ h; cases h),
    (by intro _ _ _ h; cases h)⟩
  cases ho
  exact h

theorem joining (h : s.calls[o.call]? = some ⟨o.msg, o.sync⟩) (hB : s.batches[b]? = some B)
    (hsync : B.sync = o.sync) : (AccTask.joining o b).Valid s := by
  refine ⟨fun o' ho => ?_, fun o' b' hj => ?_, (by intro _ h; cases h), (by intro _ _ _ h; cases h)⟩
  · cases ho
    exact h
  · cases hj
    exact ⟨B, hB, hsync⟩

theorem removing (h : s.calls[o.call]? = some ⟨o.msg, o.sync⟩) (hB : s.batches[b]? = some B)
    (hc : B.closed = true) : (AccTask.removing o b).Valid s := by
  refine ⟨fun o' ho => ?_, (by intro _ _ h; cases h), fun b' hk => ?_, (by intro _ _ _ h; cases h)⟩
  · cases ho
    exact h
  · cases hk
    exact ⟨B, hB, hc⟩

theorem idle (hplacing : y.placing = none) (hawaits : y.awaits = none)
    (hknows : ∀ b, y.knowsClosed = some b → ∃ B, s.batches[b]? = some B ∧ B.closed = true) :
    y.Valid s := by
  refine ⟨fun o ho => ?_, fun o b hj => ?_, hknows, fun c b i hw => ?_⟩
  · cases hplacing.symm.trans ho
  · cases (joins_none hplacing).symm.trans hj
  · cases hawaits.symm.trans hw

theorem goesOn (h : x.Valid s) (hgo : GoesOn x ts)
    (hknows : ∀ y ∈ ts, ∀ b, y.knowsClosed = some b →
      ∃ B, s.batches[b]? = some B ∧ B.closed = true) : ∀ y ∈ ts, y.Valid s := by
  intro y hy
  refine ⟨fun o ho => ?_, fun o b hj => ?_, hknows y hy, fun c b i hw => ?_⟩
  · cases (hgo.placing y hy).symm.trans ho
  · rw [joins_none (hgo.placing y hy)] at hj
    cases hj
  · rcases hgo.same y hy with hsame | hsame
    · cases hsame.symm.trans hw
    · exact h.awaits c b i (hsame.symm.trans hw)

end AccTask.Valid

/-! ## 5. Every call has its place -/

/-- One for the offer of this call, else zero. -/
def Offer.ofCall (c : Nat) (o : Offer) : Nat := if o.call = c then 1 else 0

/-- One for a call that has been made, else zero. -/
def callMade (calls : List Call) (c : Nat) : Nat := if c < calls.length then 1 else 0

/-- The batch that a guard is about to close because it has read a size of zero. -/
def ProduceAccumulator.marks (s : ProduceAccumulator) : AccAct → Option Nat
  | .run i =>
    match s.tasks[i]? with
    | some (.marking _ b _) => some b
    | _ => none
  | _ => none

/-- **No guard closes an open batch that holds messages by now.** -/
def ProduceAccumulator.Calm (s : ProduceAccumulator) (a : AccAct) : Prop :=
  ∀ b ∈ s.marks a, ∀ B ∈ s.batches[b]?, B.closed = true ∨ B.messages = []

instance (s : ProduceAccumulator) (a : AccAct) : Decidable (s.Calm a) :=
  inferInstanceAs (Decidable (∀ b ∈ s.marks a, ∀ B ∈ s.batches[b]?, _))

theorem ProduceAccumulator.calm_of_marks {s : ProduceAccumulator} {a : AccAct}
    (h : s.marks a = none) : s.Calm a := by
  intro b hb
  cases h.symm.trans hb

/-- **The placement of messages.** -/
structure PlaceInv (s : ProduceAccumulator) : Prop where
  sound : ∀ B ∈ s.batches, B.Sound s.calls
  tasks : ∀ x ∈ s.tasks, x.Valid s
  entries : ∀ sync key b, lookup (s.table sync) key = some b →
    ∃ B, s.batches[b]? = some B ∧ B.sync = sync ∧ B.key = key
  placed : ∀ c, (s.tasks.map (AccTask.carried (Offer.ofCall c))).sum
    + (s.batches.map (·.callers.count c)).sum = callMade s.calls c
  returned : ∀ r ∈ s.returned, ∃ B, s.batches[r.batch]? = some B ∧ B.closed = true ∧
    B.callers[r.index]? = some r.call

namespace PlaceInv

variable {s t : ProduceAccumulator} {a : AccAct}

theorem init (maxMessageSize : Int) : PlaceInv (.new maxMessageSize) := by
  refine ⟨(by intro _ h; cases h), (by intro _ h; cases h), fun sync key b h => ?_, fun c => ?_,
    (by intro _ h; cases h)⟩
  · cases sync <;> cases h
  · simp [new, callMade]

variable {i b : Nat} {x : AccTask} {o : Offer} {B : Accumulation} {ts : List AccTask}

variable (h : PlaceInv s)
include h

theorem task (hi : s.tasks[i]? = some x) : x.Valid s :=
  h.tasks x (mem_of_getElem? hi)

theorem joining_call (hi : s.tasks[i]? = some (.joining o b))
    (hB : s.batches[b]? = some B) : s.calls[o.call]? = some ⟨o.msg, B.sync⟩ ∧ B.sync = o.sync := by
  obtain ⟨C, hC, hsync⟩ := (h.task hi).joins o b rfl
  cases hB.symm.trans hC
  rw [hsync]
  exact ⟨(h.task hi).placing o rfl, rfl⟩

/-- **A batch stays sound.** -/
theorem sound_rule (hG : s.Calm a) (hr : AccRule s a t) : ∀ B ∈ t.batches, B.Sound t.calls := by
  have hof {b : Nat} {B : Accumulation} (hB : s.batches[b]? = some B) : B.Sound s.calls :=
    h.sound B (mem_of_getElem? hB)
  cases hr with
  | quiet _ hbatches _ _ _ hcalls =>
    rw [hbatches, hcalls]
    exact h.sound
  | reserved | found | late | moved | scanned => exact h.sound
  | offered => exact fun B hB => (h.sound B hB).mono (prefix_append _ _)
  | created =>
    intro B hB
    rw [setTable_calls]
    rcases mem_append.mp hB with hB | hB
    · exact h.sound B hB
    · rw [mem_singleton.mp hB]
      exact .new ..
  | joined hi hB hc =>
    exact forall_set h.sound ((hof hB).push hc (h.joining_call hi hB).1)
  | removed | dropped =>
    simpa [become] using h.sound
  | locked _ _ hB | left _ _ _ _ hB =>
    have hold := hof hB
    exact forall_set h.sound ⟨hold.count, hold.aligned, hold.callbacks, hold.sent⟩
  | claimed _ _ hB => exact forall_set h.sound (hof hB).claim
  | @marked i b sync pending B hi hB =>
    have hold := hof hB
    have hmarks : s.marks (.run i) = some b := by
      simp only [marks, hi]
    refine forall_set h.sound ⟨hold.count, hold.aligned, hold.callbacks, fun _ hne => ?_⟩
    rcases hG b hmarks B hB with hc | hempty
    · exact hold.sent hc hne
    · exact absurd hempty hne
  | @handed b accepted B hB =>
    have hold := hof hB
    refine forall_set h.sound ⟨hold.count, hold.aligned, hold.callbacks, fun _ _ hs => ?_⟩
    cases accepted <;> cases hs
  | completed hB =>
    have hold := hof hB
    exact forall_set h.sound
      ⟨hold.count, hold.aligned, hold.callbacks, (by intro _ _ h; cases h)⟩

theorem valid_replace (hl : Later s t)
    (htasks : t.tasks = Pool.replace s.tasks i ts) (hnew : ∀ y ∈ ts, y.Valid t) :
    ∀ x ∈ t.tasks, x.Valid t := by
  intro x hx
  rw [htasks] at hx
  rcases mem_replace hx with hx | hx
  · exact hnew x hx
  · exact (h.tasks x hx).later hl

theorem valid_replace_one {y : AccTask} (hl : Later s t)
    (htasks : t.tasks = Pool.replace s.tasks i [y]) (hnew : y.Valid t) : ∀ x ∈ t.tasks, x.Valid t :=
  h.valid_replace hl htasks fun _ hz => mem_singleton.mp hz ▸ hnew

theorem joined_valid (hB : s.batches[b]? = some B)
    (hbatches : t.batches = s.batches.set b (B.push o.call o.msg)) :
    (if o.sync then AccTask.waiting o.call b B.count.toNat else .checking b none).Valid t := by
  cases o.sync with
  | false => exact .idle rfl rfl (by intro _ h; cases h)
  | true =>
    refine ⟨(by intro _ h; cases h), (by intro _ _ h; cases h), (by intro _ h; cases h),
      fun c b' i hw => ?_⟩
    cases hw
    have hsound := h.sound B (mem_of_getElem? hB)
    obtain ⟨hlt, _⟩ := List.getElem?_eq_some_iff.mp hB
    refine ⟨_, by rw [hbatches]; exact getElem?_set_self hlt, ?_⟩
    rw [hsound.count_toNat]
    exact getElem?_concat_length

/-- **Every task may rely on what it knows.** -/
theorem tasks_rule (hr : AccRule s a t) : ∀ x ∈ t.tasks, x.Valid t := by
  have hl := hr.later
  have hcall {i : Nat} {x : AccTask} {o : Offer} (hi : s.tasks[i]? = some x)
      hx : t.calls[o.call]? = some ⟨o.msg, o.sync⟩ :=
    hl.call ((h.task hi).placing o hx)
  have hcome {y : AccTask} (hy : y.Valid t) : ∀ x ∈ s.tasks ++ [y], x.Valid t := by
    intro x hx
    rcases mem_append.mp hx with hx | hx
    · exact (h.tasks x hx).later hl
    · exact mem_singleton.mp hx ▸ hy
  cases hr with
  | quiet _ _ _ _ htasks =>
    rw [htasks]
    exact fun x hx => (h.tasks x hx).later hl
  | reserved | handed | completed => exact fun x hx => (h.tasks x hx).later hl
  | offered =>
    exact hcome (.adding getElem?_concat_length)
  | found hi hlookup =>
    obtain ⟨B, hB, hsync, _⟩ := h.entries _ _ _ hlookup
    exact h.valid_replace_one hl rfl (.joining (hcall hi rfl) hB hsync)
  | @created i o hi =>
    exact h.valid_replace_one (i := i) (y := .joining o s.batches.length) hl
      (by simp [become])
      (.joining (hcall hi rfl) getElem?_concat_length rfl)
  | late hi hB hc => exact h.valid_replace_one hl rfl (.removing (hcall hi rfl) hB hc)
  | joined hi hB => exact h.valid_replace_one hl rfl (h.joined_valid hB rfl)
  | @removed i b o hi =>
    exact h.valid_replace_one (i := i) hl (by simp [become])
      (.adding (hcall hi rfl))
  | moved hi hgo _ hknows =>
    refine h.valid_replace hl rfl (((h.task hi).later hl).goesOn hgo fun y hy b hb => ?_)
    cases (hknows y hy).symm.trans hb
  | locked hi hgo _ _ _ hknows =>
    refine h.valid_replace hl rfl (((h.task hi).later hl).goesOn hgo fun y hy b hb => ?_)
    rw [mem_singleton.mp hy, hknows] at hb
    cases hb
  | left => exact h.valid_replace hl rfl (by intro _ h; cases h)
  | @claimed i b x ts B hi hgo hB _ hknows =>
    refine h.valid_replace hl rfl (((h.task hi).later hl).goesOn hgo fun y hy b' hb => ?_)
    rcases hknows y hy with hnone | hsome
    · cases hnone.symm.trans hb
    · cases hsome.symm.trans hb
      obtain ⟨hlt, _⟩ := List.getElem?_eq_some_iff.mp hB
      exact ⟨B.claim, getElem?_set_self hlt, B.claim_closed⟩
  | marked hi hB =>
    obtain ⟨hlt, _⟩ := List.getElem?_eq_some_iff.mp hB
    refine h.valid_replace_one hl rfl (.idle rfl rfl fun b' hb => ?_)
    cases hb
    exact ⟨_, getElem?_set_self hlt, rfl⟩
  | @dropped i b sync pending B hi =>
    exact h.valid_replace_one (i := i) (y := .scanning sync pending) hl
      (by simp [become]) (.idle rfl rfl (by intro _ h; cases h))
  | scanned => exact hcome (.idle rfl rfl (by intro _ h; cases h))

omit h in
theorem lookup_of_drop {sync sync' : Bool} {key key' : AggregateKey} {b' : Nat}
    (hlookup : lookup
      (((s.setTable sync (dropEntry (s.table sync) key b)).become i ts).table
        sync') key' = some b') :
    lookup (s.table sync') key' = some b' := by
  have htable : lookup ((s.setTable sync
      (dropEntry (s.table sync) key b)).table sync') key' = some b' := hlookup
  rw [table_setTable] at htable
  split at htable
  · rename_i hsync
    rw [← hsync]
    exact of_lookup_dropEntry htable
  · exact htable

theorem entry_later {sync : Bool} {key : AggregateKey} (hl : Later s t)
    (hlookup : lookup (s.table sync) key = some b) :
    ∃ B, t.batches[b]? = some B ∧ B.sync = sync ∧ B.key = key :=
  hl.batch (h.entries sync key b hlookup) fun hgrows hB =>
    ⟨hgrows.sync.trans hB.1, hgrows.key.trans hB.2⟩

theorem entries_of_sub (hl : Later s t)
    (hsub : ∀ sync key b, lookup (t.table sync) key = some b →
      lookup (s.table sync) key = some b) (sync : Bool) (key : AggregateKey)
    (b : Nat) (hlookup : lookup (t.table sync) key = some b) :
    ∃ B, t.batches[b]? = some B ∧ B.sync = sync ∧ B.key = key :=
  h.entry_later hl (hsub sync key b hlookup)

/-- **The tables name batches of their kind and key.** -/
theorem entries_rule (hr : AccRule s a t) (sync : Bool) (key : AggregateKey)
    (b : Nat) (hlookup : lookup (t.table sync) key = some b) :
    ∃ B, t.batches[b]? = some B ∧ B.sync = sync ∧ B.key = key := by
  have hl := hr.later
  cases hr with
  | quiet _ _ hsync hasync =>
    refine h.entries_of_sub hl (fun sync' key' b' hl' => ?_) sync key b hlookup
    rwa [table, hsync, hasync] at hl'
  | @created i o hi hnone =>
    have htable : lookup
        (((s.become i [.joining o s.batches.length]).setTable o.sync
          (s.table o.sync ++ [(o.key, s.batches.length)])).table sync) key = some b := hlookup
    rw [table_setTable] at htable
    split at htable
    · rename_i hsync
      rcases of_lookup_append htable with hold | ⟨hkey, hb⟩
      · exact h.entry_later hl (hsync ▸ hold)
      · rw [← hb]
        exact ⟨_, getElem?_concat_length, hsync, hkey⟩
    · exact h.entry_later hl htable
  | removed | dropped =>
    exact h.entries_of_sub hl (fun _ _ _ => lookup_of_drop) sync key b hlookup
  | _ => exact h.entries_of_sub hl (fun _ _ _ hl' => hl') sync key b hlookup

omit h in
theorem weighs_call (s : ProduceAccumulator) (c : Nat) :
    Weighs (Offer.ofCall c) (·.callers.count c) s where
  new := fun _ _ _ => rfl
  push := by
    intro B _ _ o
    simp only [Accumulation.push, count_append, count_singleton, beq_iff_eq, Offer.ofCall]
  lock := fun _ _ => rfl
  close := fun _ => rfl
  claim := fun B _ => by rw [B.claim_callers]

/-- **Every call stays at its place.** -/
theorem placed_rule (hr : AccRule s a t) (c : Nat) :
    (t.tasks.map (AccTask.carried (Offer.ofCall c))).sum
      + (t.batches.map (·.callers.count c)).sum = callMade t.calls c := by
  have hold := h.placed c
  have hw := hr.weight (weighs_call s c)
  cases hr with
  | quiet _ hbatches _ _ htasks hcalls =>
    rw [htasks, hbatches, hcalls]
    exact hold
  | reserved => exact hold
  | @offered m msg mq sync fresh key hcheck =>
    have hnew : (AccTask.adding ⟨s.calls.length, key, msg, sync⟩).carried (Offer.ofCall c)
        = if s.calls.length = c then 1 else 0 := rfl
    have hcall : callMade (s.calls ++ [⟨msg, sync⟩]) c
        = callMade s.calls c + if s.calls.length = c then 1 else 0 := by
      simp only [callMade, length_append, length_singleton]
      split <;> split <;> split <;> omega
    rw [map_append, sum_append, map_singleton, sum_singleton, hcall]
    show _ + _ + (s.batches.map (·.callers.count c)).sum = _
    omega
  | moved hi hgo => exact (weight_become hi (carried_goesOn hgo.carries hgo.placing)).trans hold
  | handed hB | completed hB => exact (weight_setBatch hB (by rfl)).trans hold
  | created | removed | dropped =>
    refine (hw rfl).trans (hold.trans ?_)
    simp [become]
  | _ => exact (hw rfl).trans hold

theorem closed_of_left (hi : s.tasks[i]? = some x) (hB : s.batches[b]? = some B)
    (hc : B.closed = true ∨ x.knowsClosed = some b) : B.closed = true := by
  rcases hc with hc | hc
  · exact hc
  · obtain ⟨C, hC, hclosed⟩ := (h.task hi).knows b hc
    cases hB.symm.trans hC
    exact hclosed

/-- **A caller that has its index has that of its message in a closed batch.** -/
theorem returned_rule (hr : AccRule s a t) :
    ∀ r ∈ t.returned, ∃ B, t.batches[r.batch]? = some B ∧ B.closed = true ∧
      B.callers[r.index]? = some r.call := by
  have hl := hr.later
  have hlater {r : ReturnedIndex} (hex : ∃ B, s.batches[r.batch]? = some B ∧ B.closed = true ∧
      B.callers[r.index]? = some r.call) := hl.batch hex fun hgrows hB =>
    ⟨(hgrows.closed hB.1).1, hgrows.caller hB.2⟩
  have hkeep := fun r hr => hlater (h.returned r hr)
  cases hr with
  | quiet _ _ _ _ _ _ _ hreturned =>
    rw [hreturned]
    exact hkeep
  | created =>
    rw [setTable_returned]
    exact hkeep
  | removed | dropped => simpa [become] using hkeep
  | @left i call b index x B r₀ hi hx _ _ hB hc hr₀ =>
    intro r hr
    rcases mem_append.mp hr with hr | hr
    · exact hkeep r hr
    · rw [hr₀ r hr]
      obtain ⟨C, hC, hcaller⟩ := (h.task hi).awaits call b index hx
      cases hB.symm.trans hC
      exact hlater ⟨B, hB, h.closed_of_left hi hB hc, hcaller⟩
  | _ => exact hkeep

/-- **Each section keeps the placement.** -/
theorem step (hG : s.Calm a) (hs : s.step a = some t) : PlaceInv t :=
  have hr := AccRule.of_step hs
  ⟨h.sound_rule hG hr, h.tasks_rule hr, h.entries_rule hr, h.placed_rule hr, h.returned_rule hr⟩

end PlaceInv

end RocketMQ
