/-
  File:      RocketMQ/Push/Orderly.lean
  Subject:   The order in which an orderly listener sees the messages of a generation.

  * `handed_in_order`: a message is handed over only when every smaller one of the generation is
    settled or comes with it, and after a suspension or a manual rollback the same messages come
    first again, in the same order;
  * `rollback_not_redelivered`: a rollback under auto-commit counts as a success, a batch is handed
    over as a whole, and what is sent back does not come again.
-/
import RocketMQ.Push.ManualCommit

namespace RocketMQ

open List Machine

/-! ## 1. Nothing overtakes -/

/-- The batch, until it is handed over. -/
def HeldPc.unhanded : HeldPc → Option (List MessageExt)
  | .taken b | .checked b => some b
  | _ => none

/-- The message at `o` of generation `g` is settled by the orderly listener: answered with Success
or Commit, with Rollback under auto-commit, or sent back. -/
def QEvent.settlesOrderly (g : Nat) (o : Int) : QEvent → Prop
  | .sentBack g' off _ => g' = g ∧ off = o
  | .answered g' auto status offs => g' = g ∧ o ∈ offs ∧
      (status = some .success ∨ status = some .commit ∨ (auto = true ∧ status = some .rollback))
  | _ => False

/-- **Nothing overtakes**: a batch that waits for the listener holds every unsettled smaller message
of its generation. -/
def NoOvertaking (tr : List QEvent) (q : Queue) : Prop :=
  ∀ g pc b, q.held = some (g, pc) → pc.unhanded = some b →
    ∀ o ∈ offsets b, ∀ p, p < o → Fetched tr g p → p ∈ offsets b ∨ Settled tr g p

theorem noOvertaking_init : NoOvertaking [] Queue.init := fun _ _ _ h => nomatch h

variable {m : Mode} {g : Nat} {r r' : Row} {pc pc' : HeldPc} {evs tr : List QEvent}
  {b : List MessageExt} {q : Queue} {o : Int}

theorem HeldRule.unhanded_back (h : HeldRule m g r pc evs r' pc') (hb : pc'.unhanded = some b) :
    pc.unhanded = some b := by
  cases h with
  | fresh hg => exact hb
  | answer auto status hm hp =>
    unfold orderlyNext at hb
    split at hb <;> cases hb
  | reconsumed =>
    unfold afterReconsume at hb
    split at hb
    · cases hb
    · split at hb <;> cases hb
  | _ => cases hb

section Step

variable {m : Mode} {tr evs : List QEvent} {q q' : Queue}

theorem noOvertaking_step (hr : QRun m Queue.init tr q) (hin : ∀ e ∈ tr ++ evs, InOrder e)
    (hi : NoOvertaking tr q) (hs : QStep m q evs q') : NoOvertaking (tr ++ evs) q' := by
  have hin' : ∀ e ∈ tr, InOrder e := fun e he => hin e (mem_append_left _ he)
  have hprov := provenance_run hr fun e he => (hin' e he).2.1
  -- a batch of before: what is pulled meanwhile lies behind it
  have hkeep : ∀ g pc b, q.held = some (g, pc) → pc.unhanded = some b →
      ∀ o ∈ offsets b, ∀ p, p < o → Fetched (tr ++ evs) g p →
        p ∈ offsets b ∨ Settled (tr ++ evs) g p := by
    intro g pc b hh hb o ho p hlt hf
    rcases fetched_append.mp hf with hf | ⟨t, req, res, ms, he, hp⟩
    · exact (hi g pc b hh hb o ho p hlt hf).imp_right fun hset => hset.mono evs
    · have hmine : Fetched tr g o := by
        refine (hprov.held g pc hh o ?_).fetched
        cases pc with
        | taken | checked => cases hb; exact ho
        | _ => cases hb
      have := hmine.lt_pulled hr hin hs he hp
      omega
  intro g pc b hh hb
  cases hs.consume with
  | quiet hev hp hc hn hm he hq | pulled mq res msgs hl ho hrow hq | retired hev hrow hq =>
    exact hkeep g pc b (hq ▸ hh) hb
  | removed | swept => exact hkeep g pc b hh hb
  | taken hq hne hp =>
    rename_i b' rest
    cases hh
    cases hb
    -- the batch is the head of an increasing line that holds everything unsettled
    have hsplit := (lineInv_run hr hin').taken hq hp
    have hline : q.line = offsets b ++ offsets rest := by
      unfold Queue.line Row.buffer
      rw [Queue.owed_none hq, hp]
      exact offsets_append b rest
    intro o ho p hlt hf
    rw [append_nil] at hf ⊢
    rcases (coverage_run hr).covered p hf with hset | hmem
    · exact .inr hset
    · rw [hline] at hmem
      rcases mem_append.mp hmem with hmem | hmem
      · exact .inl hmem
      · have hgt := (pairwise_append.mp hsplit).2.2 o ho p hmem
        omega
  | held hq h =>
    cases hh
    exact hkeep g _ b hq (h.unhanded_back hb)
  | finished hq => cases hh

theorem noOvertaking_run (h : QRun m Queue.init tr q) (hin : ∀ e ∈ tr, InOrder e) :
    NoOvertaking tr q :=
  Run.invariant_of noOvertaking_init
    (fun _ _ _ _ hr hev hi hs => noOvertaking_step hr hev hi hs) h hin

end Step

/-! ## 2. What is suspended comes first again -/

/-- The answer keeps the batch: a suspension, a panic, or a rollback without auto-commit. -/
def suspends (auto : Bool) : Option ConsumeOrderlyStatus → Bool
  | none | some .suspendCurrentQueueAMoment => true
  | some .rollback => !auto
  | some .success | some .commit => false

/-- One event, seen by the record of the suspended batch of generation `g`. -/
def trackSuspended (g : Nat) (batch : Option (List Int)) : QEvent → Option (List Int)
  | .handed g' _ => if g' = g then none else batch
  | .answered g' auto status offs =>
    if g' = g then (if suspends auto status then some offs else none) else batch
  | _ => batch

/-- The batch whose last answer kept it, if nothing was handed over since. -/
def suspendedBatch (g : Nat) (tr : List QEvent) : Option (List Int) :=
  tr.foldl (trackSuspended g) none

theorem suspendedBatch_append (g : Nat) (tr : List QEvent) (e : QEvent) :
    suspendedBatch g (tr ++ [e]) = trackSuspended g (suspendedBatch g tr) e :=
  foldl_concat ..

theorem suspendedBatch_same (hhand : ∀ ms, .handed g ms ∉ evs)
    (hans : ∀ auto status offs, .answered g auto status offs ∉ evs) :
    suspendedBatch g (tr ++ evs) = suspendedBatch g tr := by
  unfold suspendedBatch
  rw [foldl_append]
  refine foldl_unchanged fun e he => ?_
  cases e with
  | handed g' ms => exact if_neg fun (hg : g' = g) => hhand ms (hg ▸ he)
  | answered g' auto status offs =>
    exact if_neg fun (hg : g' = g) => hans auto status offs (hg ▸ he)
  | _ => rfl

/-- The batch in dispatch leads to a new delivery of `offs`. -/
def HeldPc.redelivers (offs : List Int) : HeldPc → Prop
  | .taken b | .checked b => offsets b <+: offs ∨ offs <+: offsets b
  | .reconsuming _ done rest => offsets (done.map (·.1)) ++ offsets rest = offs
  | .reconsumeAwait _ done x rest => offsets (done.map (·.1)) ++ offsets (x :: rest) = offs
  | .requeuing b _ => offsets b = offs
  | .finishing => True
  | _ => False

/-- **What is suspended comes first again**, unless all of it was sent back: it is in the batch in
dispatch, or it stands in front of the buffer. -/
def ComesFirst (tr : List QEvent) (q : Queue) : Prop :=
  ∀ g offs, suspendedBatch g tr = some offs → g ≤ q.row.epoch ∧
    ((∀ o ∈ offs, SentBack tr g o) ∨
      ((∀ pc, q.held = some (g, pc) → pc.redelivers offs) ∧
        (g = q.row.epoch → (∀ pc, q.held = some (g, pc) → pc = .finishing) →
          offs <+: offsets q.row.buffer)))

theorem comesFirst_init : ComesFirst [] Queue.init := fun _ _ h => nomatch h

theorem orderlyNext_redelivers {auto : Bool} {status : Option ConsumeOrderlyStatus}
    (hp : status = none → auto = true) (hs : suspends auto status = true) :
    (orderlyNext auto status b).redelivers (offsets b) ∧ orderlyNext auto status b ≠ .finishing := by
  unfold orderlyNext
  match auto, status, hp, hs with
  | true, none, _, _
  | true, some .suspendCurrentQueueAMoment, _, _
  | false, some .suspendCurrentQueueAMoment, _, _
  | false, some .rollback, _, _ => exact ⟨rfl, by simp⟩
  | false, none, hp, _ => cases hp rfl
  | true, some .rollback, _, hs
  | true, some .success, _, hs
  | true, some .commit, _, hs
  | false, some .success, _, hs
  | false, some .commit, _, hs => cases hs

theorem HeldRule.handed_single {g' : Nat} {ms : List MessageExt} (h : HeldRule m g r pc evs r' pc')
    (he : .handed g' ms ∈ evs) :
    evs = [.handed g ms] ∧ g' = g ∧ ∃ b, pc = .checked b ∧ offsets ms = offsets b := by
  cases h with
  | handOrderly hm hb | handConcurrent hm hb =>
    cases mem_singleton.mp he
    exact ⟨rfl, rfl, _, rfl, hb⟩
  | _ => simp at he

/-- Between the answer and the next hand-over the batch keeps leading to its new delivery, until it
stands in front of the buffer or all of it was sent back. -/
theorem HeldRule.redelivers {offs : List Int} (h : HeldRule m g r pc evs r' pc')
    (hhand : ∀ g ms, .handed g ms ∉ evs)
    (hans : ∀ g auto status offs, .answered g auto status offs ∉ evs) (hred : pc.redelivers offs) :
    (pc'.redelivers offs ∧ (pc' = .finishing → g = r.epoch → r.pending.isSome = true →
      offs <+: offsets r'.buffer)) ∨
    ∀ o ∈ offs, ∃ d ∈ pc.done, d.2 = true ∧ d.1.queueOffset = o := by
  cases h with
  | fresh | exhausted => exact .inl ⟨hred, fun h => nomatch h⟩
  | stale hg => exact .inl ⟨trivial, fun _ hg' => absurd hg' hg⟩
  | handOrderly | handConcurrent => exact absurd (mem_singleton.mpr rfl) (hhand _ _)
  | answer auto status hm hp => exact absurd (mem_singleton.mpr rfl) (hans _ _ _ _)
  | retry | reconsumeSent | reconsumeFailed =>
    rw [← show _ = offs from hred]
    simp [HeldPc.redelivers]
  | reconsumed =>
    rename_i auto done
    have hoffs : offsets (done.map (·.1)) = offs := by
      rw [← show _ = offs from hred]
      simp
    rcases afterReconsume_lost auto done with ⟨sent, heq⟩ | hall
    · rw [heq]
      exact .inl ⟨hoffs, fun h => nomatch h⟩
    · right
      intro o ho
      rw [← hoffs] at ho
      obtain ⟨x, hx, rfl⟩ := mem_offsets.mp ho
      obtain ⟨d, hd, rfl⟩ := mem_map.mp hx
      exact ⟨d, hd, hall d hd, rfl⟩
  | requeue =>
    rename_i b sent
    refine .inl ⟨trivial, fun _ _ hp => ?_⟩
    rw [Row.requeuePending_buffer hp, offsets_append, ← show offsets b = offs from hred]
    exact prefix_append _ _
  | _ => exact hred.elim

section Redelivery

variable {m : Mode} {tr evs : List QEvent} {q q' : Queue}

theorem ComesFirst.frame (hi : ComesFirst tr q) (hev : ∀ e ∈ evs, e.ofBatch = false)
    (hh : q'.held = q.held)
    (hb : q'.row.epoch = q.row.epoch ∧ offsets q.row.buffer <+: offsets q'.row.buffer ∨
      q'.row.epoch = q.row.epoch + 1) : ComesFirst (tr ++ evs) q' := by
  have hnone : ∀ e : QEvent, e.ofBatch = true → e ∉ evs := by
    intro e he hm
    cases (hev e hm).symm.trans he
  intro g offs hsus
  rw [suspendedBatch_same (fun ms => hnone _ rfl) fun _ _ _ => hnone _ rfl] at hsus
  obtain ⟨hle, hcase⟩ := hi g offs hsus
  refine ⟨by omega, ?_⟩
  rcases hcase with hsent | ⟨hred, hfirst⟩
  · exact .inl fun o ho => (hsent o ho).mono evs
  · rw [hh]
    refine .inr ⟨hred, fun hg hfin => ?_⟩
    rcases hb with ⟨he, hpre⟩ | he
    · exact (hfirst (hg.trans he) hfin).trans hpre
    · omega

theorem ComesFirst.section (hr : QRun m Queue.init tr q) (hput : ∀ e ∈ evs, OwnPutBack e)
    (hi : ComesFirst tr q) {g0 : Nat} {pc pc' : HeldPc} {r' : Row} (hh : q.held = some (g0, pc))
    (h : HeldRule m g0 q.row pc evs r' pc') :
    ComesFirst (tr ++ evs) { q with row := r', held := some (g0, pc') } := by
  have hep := h.epoch
  have hle0 := (unowned_run hr).held_le g0 pc hh
  intro g offs hsus
  rw [hep]
  by_cases hg : g = g0
  · subst hg
    refine ⟨hle0, ?_⟩
    rcases h.answer_cases with ⟨auto, status, b, rfl, hr', rfl, rfl⟩ | ⟨hans, _⟩
    · -- the answer: a kept batch is the one just answered
      rw [suspendedBatch_append] at hsus
      have hkept : suspends auto status = true ∧ offsets b = offs := by
        by_cases hsp : suspends auto status = true
        · simpa [trackSuspended] using hsus
        · simp [trackSuspended, hsp] at hsus
      have hpanic : status = none → auto = true := by
        cases h with
        | answer auto status hm hp => exact hp
      obtain ⟨hred, hne⟩ := orderlyNext_redelivers hpanic hkept.1
      rw [hkept.2] at hred
      refine .inr ⟨fun pc0 hq => ?_, fun _ hfin => absurd (hfin _ rfl) hne⟩
      cases hq
      exact hred
    · by_cases hhand : ∃ g' ms, .handed g' ms ∈ evs
      · -- a hand-over clears the record
        obtain ⟨g', ms, he⟩ := hhand
        obtain ⟨rfl, _, _⟩ := h.handed_single he
        rw [suspendedBatch_append] at hsus
        simp [trackSuspended] at hsus
      · have hno : ∀ g' ms, .handed g' ms ∉ evs := fun g' ms he => hhand ⟨g', ms, he⟩
        rw [suspendedBatch_same (hno g) (hans g)] at hsus
        rcases (hi g offs hsus).2 with hsent | ⟨hred, _⟩
        · exact .inl fun o ho => (hsent o ho).mono evs
        · have hcov := coverage_run hr
          rcases h.redelivers hno hans (hred pc hh) with ⟨hred', hfirst⟩ | hdone
          · refine .inr ⟨fun pc0 hq => ?_, fun hg hfin => ?_⟩
            · cases hq
              exact hred'
            · exact hfirst (hfin _ rfl) hg (hcov.entry pc (hg ▸ hh))
          · refine .inl fun o ho => ?_
            obtain ⟨d, hd, hsent, rfl⟩ := hdone o ho
            exact (hcov.sent g pc hh d hd hsent).mono evs
  · -- another generation: its record and its buffer are left alone
    have hother : ∀ pc1, q.held ≠ some (g, pc1) := by
      intro pc1 hq
      rw [hh] at hq
      exact hg (Prod.mk.inj (Option.some.inj hq)).1.symm
    have hsame : suspendedBatch g (tr ++ evs) = suspendedBatch g tr := by
      refine suspendedBatch_same (fun ms he => ?_) fun auto status offs he => ?_
      · exact hg (h.handed_single he).2.1
      · rcases h.answer_cases with ⟨_, _, _, _, _, rfl, _⟩ | ⟨hans, _⟩
        · cases mem_singleton.mp he
          exact hg rfl
        · exact hans _ _ _ _ he
    rw [hsame] at hsus
    obtain ⟨hle, hcase⟩ := hi g offs hsus
    refine ⟨hle, ?_⟩
    rcases hcase with hsent | ⟨_, hfirst⟩
    · exact .inl fun o ho => (hsent o ho).mono evs
    · refine .inr ⟨fun pc1 hq => ?_, fun hge _ => ?_⟩
      · exact absurd (Prod.mk.inj (Option.some.inj hq)).1.symm hg
      · have hbuf := hfirst hge fun pc1 hq => absurd hq (hother pc1)
        have hkeep := h.stale_buffer hput fun hg0 => hg (hge.trans hg0.symm)
        rw [hkeep]
        exact hbuf

theorem comesFirst_step (hm : m.orderly = true) (hr : QRun m Queue.init tr q)
    (hput : ∀ e ∈ evs, OwnPutBack e) (hi : ComesFirst tr q) (hs : QStep m q evs q') :
    ComesFirst (tr ++ evs) q' := by
  cases hs.consume with
  | quiet hev hp hc hn hmsg he hh =>
    refine hi.frame (fun e hmem => QEvent.not_ofBatch (hev e hmem)) hh (.inl ⟨he, ?_⟩)
    exact Row.buffer_congr hp ▸ prefix_refl _
  | pulled mq res msgs hl ho hrow hh =>
    obtain ⟨hep, hbuf⟩ := Row.of_bookPull hrow
    refine hi.frame pulled_not_ofBatch hh (.inl ⟨hep, ?_⟩)
    rw [hbuf, offsets_append]
    exact prefix_append _ _
  | retired hev hrow hh =>
    exact hi.frame (forall_mem_singleton.mpr (QEvent.not_ofBatch hev)) hh
      (.inr (by rw [hrow]; rfl))
  | removed =>
    exact hi.frame (forall_mem_singleton.mpr rfl) rfl (.inl ⟨rfl, prefix_refl _⟩)
  | swept off ho =>
    cases hm.symm.trans ho
  | taken hh hb hp =>
    rename_i b rest
    have hall := Row.offsets_buffer hp
    intro g offs hsus
    rw [append_nil] at hsus ⊢
    obtain ⟨hle, hcase⟩ := hi g offs hsus
    refine ⟨hle, ?_⟩
    rcases hcase with hsent | ⟨_, hfirst⟩
    · exact .inl hsent
    · refine .inr ⟨fun pc hq => ?_, fun hg hfin => ?_⟩
      · -- the batch comes off the buffer that starts with the suspended messages
        obtain ⟨hg, rfl⟩ := Prod.mk.inj (Option.some.inj hq)
        have hpre := hfirst hg.symm fun pc1 hq1 => by rw [hh] at hq1; cases hq1
        rw [hall] at hpre
        exact prefix_or_prefix_of_prefix (prefix_append _ _) hpre
      · have hbad := hfin (.taken b) (by rw [hg]; rfl)
        cases hbad
  | held hh h => exact hi.section hr hput hh h
  | finished hh =>
    intro g offs hsus
    rw [append_nil] at hsus ⊢
    obtain ⟨hle, hcase⟩ := hi g offs hsus
    refine ⟨hle, ?_⟩
    rcases hcase with hsent | ⟨_, hfirst⟩
    · exact .inl hsent
    · refine .inr ⟨fun pc hq => (nomatch hq), fun hg _ => hfirst hg fun pc hq => ?_⟩
      rw [hh] at hq
      exact (Prod.mk.inj (Option.some.inj hq)).2.symm

theorem comesFirst_run (hm : m.orderly = true) (h : QRun m Queue.init tr q)
    (hput : ∀ e ∈ tr, OwnPutBack e) : ComesFirst tr q :=
  Run.invariant_of comesFirst_init
    (fun _ _ _ _ hr hev hi hs => comesFirst_step hm hr
      (fun e he => hev e (mem_append_right _ he)) hi hs) h hput

end Redelivery

/-! ## 3. The order of the hand-overs -/

theorem QStep.settles_orderly {q' : Queue} {e : QEvent} (hm : m.orderly = true)
    (hs : QStep m q evs q') (he : e ∈ evs) (h : e.settles g o) : e.settlesOrderly g o := by
  have hconc : m.orderly = false → False := fun hf => by rw [hm] at hf; cases hf
  cases e with
  | sentBack | answered => exact h
  | acked g' offs =>
    obtain ⟨_, _, _, _, _, hr⟩ := hs.batch_event he rfl
    cases hr with
    | broadcast n ho | ackedWhole ho | ackedSome n delay ho => exact (hconc ho).elim
    | _ => simp at he
  | dropped g' offs =>
    obtain ⟨_, _, _, _, _, hr⟩ := hs.batch_event he rfl
    cases hr with
    | broadcast n ho => exact (hconc ho).elim
    | _ => simp at he
  | swept g' off =>
    cases hs.consume with
    | quiet hev => exact absurd he (notMem_of_quiet hev rfl)
    | pulled mq res msgs hl ho hr hh => split at he <;> simp at he
    | retired hev hr hh =>
      rw [← mem_singleton.mp he] at hev
      cases hev
    | swept off' ho => exact (hconc ho).elim
    | held hh hr => cases hr <;> simp at he
    | _ => simp at he
  | _ => exact h.elim

theorem settled_orderly (hm : m.orderly = true) (h : QRun m Queue.init tr q) (hset : Settled tr g o) :
    ∃ e ∈ tr, e.settlesOrderly g o := by
  have hall : ∀ e ∈ tr, e.settles g o → e.settlesOrderly g o := by
    refine Run.invariant (I := fun tr _ => ∀ e ∈ tr, e.settles g o → e.settlesOrderly g o)
      (fun _ h => nomatch h) ?_ h
    intro tr q evs q' _ hi hs e he
    rcases mem_append.mp he with he | he
    · exact hi e he
    · exact hs.settles_orderly hm he
  obtain ⟨e, he, hs⟩ := hset
  exact ⟨e, he, hall e he hs⟩

/-- A hand-over keeps the order of the generation: the batch is increasing, and every smaller
message the generation has fetched is settled or comes ahead in the same batch. -/
def HandedInOrder (pre : List QEvent) : QEvent → Prop
  | .handed g ms => (offsets ms).Pairwise (· < ·) ∧
      ∀ o ∈ offsets ms, ∀ p, p < o → Fetched pre g p →
        p ∈ offsets ms ∨ ∃ e ∈ pre, e.settlesOrderly g p
  | _ => True

/-- The first hand-over after a suspension is the suspended batch again, or as much of it as is
taken now, unless all of it was sent back. -/
def Redelivered (pre : List QEvent) : QEvent → Prop
  | .handed g ms => ∀ offs, suspendedBatch g pre = some offs →
      (∀ o ∈ offs, SentBack pre g o) ∨ offsets ms <+: offs ∨ offs <+: offsets ms
  | _ => True

/-- **An orderly listener sees the messages of a generation in order**, and sees suspended ones
first again. -/
theorem handed_in_order {cfg : ConsumerConfig} {clientId : String} {tr : List (String × QEvent)}
    {s : Sys} (h : Sys.Run (.init cfg true clientId) tr s) (k : String)
    (hbroker : ∀ e ∈ onKey k tr, BrokerOrdered e)
    (hfence : ∀ e ∈ onKey k tr, OwnPutBack e ∧ OwnCursor e) :
    Along (fun pre e => HandedInOrder pre e ∧ Redelivered pre e) [] (onKey k tr) := by
  refine Run.invariant_of (G := InOrder)
    (I := fun tr _ => Along (fun pre e => HandedInOrder pre e ∧ Redelivered pre e) [] tr) trivial ?_
    (init_run_refines k h) fun e he => ⟨hbroker e he, hfence e he⟩
  intro tr q evs q' hr hin hi hs
  refine along_append.mpr ⟨hi, ?_⟩
  have hin' : ∀ e ∈ tr, InOrder e := fun e he => hin e (mem_append_left _ he)
  by_cases hhand : ∃ g ms, .handed g ms ∈ evs
  · obtain ⟨g, ms, he⟩ := hhand
    obtain ⟨g0, pc, pc', row', hh, hrule⟩ := hs.batch_event he rfl
    obtain ⟨rfl, rfl, b, rfl, hb⟩ := hrule.handed_single he
    refine ⟨⟨⟨?_, ?_⟩, ?_⟩, trivial⟩
    · rw [hb]
      exact (lineInv_run hr hin').owed g _ hh
    · intro o ho p hlt hf
      rw [hb] at ho ⊢
      refine (noOvertaking_run hr hin' g _ b hh rfl o ho p hlt hf).imp_right ?_
      exact settled_orderly rfl hr
    · intro offs hsus
      rw [hb]
      rcases (comesFirst_run rfl hr (fun e he => (hin' e he).2.1) g offs hsus).2 with hsent | hred
      · exact .inl hsent
      · exact .inr (hred.1 _ hh)
  · refine along_of_forall fun x e he => ?_
    cases e with
    | handed g ms => exact absurd ⟨g, ms, he⟩ hhand
    | _ => exact ⟨trivial, trivial⟩

namespace Script

/-- Messages 0 and 1 are pulled under the lock, and the first batch is handed over. -/
def orderlyTwo : List Action := orderlyStart 0 ++ round 0 ++ [answer 0 [0, 1] 2] ++ deliver

/-- The orderly listener answers under auto-commit, and the batch is finished. -/
def auto (status : ConsumeOrderlyStatus) (sections : Nat) : List Action :=
  .dispatch (.orderly (some status) true) :: List.replicate sections (.dispatch .go)

/-- A suspension whose first message has reached the limit and is sent back. -/
def suspendSent (sections : Nat) : List Action :=
  auto .suspendCurrentQueueAMoment 1 ++ .dispatch (.sendBack true) ::
    List.replicate sections (.dispatch .go)

def suspendedOnce : List Action :=
  orderlyTwo ++ auto .suspendCurrentQueueAMoment 4 ++ deliver ++ auto .success 2 ++ deliver

def rolledBack : List Action := orderlyTwo ++ auto .rollback 2 ++ deliver

/-- A configuration without retries. -/
def noRetry : ConsumerConfig := { cfg with maxReconsumeTimes := 0 }

def sentBackOnce : List Action := orderlyTwo ++ suspendSent 3 ++ deliver

/-- The deliveries in a trace: what is handed over, answered or sent back. -/
def deliveries (tr : List (String × QEvent)) : List QEvent :=
  (onKey "Tb0" tr).filter fun
    | .handed _ _ | .answered _ _ _ _ | .sentBack _ _ _ => true
    | _ => false

end Script

open Script

/-- The message at 0 is suspended, handed over again and answered with Success; then comes the
message at 1. -/
theorem handed_in_order_suspended :
    deliveries ((Sys.init cfg true "c").traceOf suspendedOnce) =
      [.handed 0 [msg 0], .answered 0 true (some .suspendCurrentQueueAMoment) [0],
        .handed 0 [(msg 0).bumpReconsume], .answered 0 true (some .success) [0],
        .handed 0 [msg 1]] ∧
      Along (fun pre e => HandedInOrder pre e ∧ Redelivered pre e) []
        (onKey "Tb0" ((Sys.init cfg true "c").traceOf suspendedOnce)) :=
  ⟨by decide, handed_in_order
    (Sys.run_after (.init cfg true "c") suspendedOnce (by decide)) "Tb0" (by decide)
    (by decide)⟩

/-- **A rollback under auto-commit is not redelivered**: the next hand-over is the message behind.
And a batch of two is handed over at once, and a suspended message that is sent back does not come
again. -/
theorem rollback_not_redelivered :
    (∃ tr s, Sys.Run (.init cfg true "c") tr s ∧
      (∀ e ∈ onKey "Tb0" tr, BrokerOrdered e ∧ Undisturbed e) ∧
      deliveries tr = [.handed 0 [msg 0], .answered 0 true (some .rollback) [0],
        .handed 0 [msg 1]]) ∧
    (∃ tr s, Sys.Run (.init cfg2 true "c") tr s ∧
      (∀ e ∈ onKey "Tb0" tr, BrokerOrdered e ∧ Undisturbed e) ∧
      deliveries tr = [.handed 0 [msg 0, msg 1]]) ∧
    ∃ tr s, Sys.Run (.init noRetry true "c") tr s ∧
      (∀ e ∈ onKey "Tb0" tr, BrokerOrdered e ∧ Undisturbed e) ∧
      deliveries tr = [.handed 0 [msg 0],
        .answered 0 true (some .suspendCurrentQueueAMoment) [0], .sentBack 0 0 3,
        .handed 0 [msg 1]] :=
  ⟨⟨_, _, Sys.run_after _ rolledBack (by decide), by decide, by decide⟩,
    ⟨_, _, Sys.run_after _ orderlyTwo (by decide), by decide, by decide⟩,
    ⟨_, _, Sys.run_after _ sentBackOnce (by decide), by decide, by decide⟩⟩

end RocketMQ
