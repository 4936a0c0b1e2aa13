/-
  File:      RocketMQ/Push/Exhausted.lean
  Subject:   Messages that leave an orderly consumer by being sent back.

  `check_orderly_reconsume_times` decides message by message, but the suspended batch is put back as
  a whole as soon as one message of it is kept.

  * `exhausted_leaves_once`: what was sent back is neither handed over nor sent back again, in
    the runs whose put-backs contain nothing that was sent back (`Unmixed`);
  * `sent_back_message_returns`: a batch that mixes both brings it back.
-/
import RocketMQ.Push.Orderly

namespace RocketMQ

open List Machine

/-! ## 1. What a section sends back -/

/-- The offsets the current pass over the reconsume counts has sent back. -/
def HeldPc.gone : HeldPc → List Int
  | .reconsuming _ done _ | .reconsumeAwait _ done _ _ => offsets ((done.filter (·.2)).map (·.1))
  | .requeuing _ sent => sent
  | _ => []

/-- The condition on a put-back that finds a buffer entry: nothing in it was sent back. -/
def Unmixed : QEvent → Prop
  | .putBack _ _ entry _ sent => entry = true → sent = []
  | _ => True

instance : DecidablePred Unmixed := fun e => by
  apply QEvent.casesOn (motive := fun e => Decidable (Unmixed e)) e
  case putBack =>
    exact fun _ _ entry _ sent => inferInstanceAs (Decidable (entry = true → sent = []))
  all_goals intros; exact .isTrue trivial

variable {m : Mode} {g g' : Nat} {r r' : Row} {pc pc' : HeldPc} {evs tr : List QEvent} {o : Int}

theorem HeldRule.gone_keep (h : HeldRule m g r pc evs r' pc') :
    ∀ o ∈ pc'.owed, o ∈ pc.gone → o ∈ pc'.gone := by
  intro o ho hgone
  cases h with
  | exhausted => exact hgone
  | retry | reconsumeFailed => simpa [HeldPc.gone] using hgone
  | reconsumeSent =>
    rename_i auto done x rest
    show o ∈ offsets (((done ++ [(x, true)]).filter (·.2)).map (·.1))
    rw [filter_append, map_append, offsets_append]
    exact mem_append_left _ hgone
  | reconsumed =>
    unfold afterReconsume at ho ⊢
    split
    · exact hgone
    · rename_i hany
      rw [if_neg hany] at ho
      split at ho <;> cases ho
  | requeue => cases ho
  | _ => cases hgone

/-- **What a section sends back** comes from the batch, was not sent back in this pass, and is known
to be gone afterwards. -/
theorem HeldRule.sentBack_mem {level : Int} (h : HeldRule m g r pc evs r' pc')
    (hsort : pc.owed.Pairwise (· < ·)) (he : .sentBack g' o level ∈ evs) :
    evs = [.sentBack g o level] ∧ g' = g ∧ r' = r ∧ o ∈ pc.owed ∧ o ∉ pc.gone ∧
      (o ∈ pc'.owed → o ∈ pc'.gone) := by
  cases h with
  | sent hx =>
    rename_i b delay i failed x
    cases mem_singleton.mp he
    have howed : (HeldPc.sendAwait b delay i failed).owed =
        offsets (failed.map (·.2)) ++ x.queueOffset :: offsets (b.drop (i + 1)) :=
      congrArg _ (offsets_drop_getElem? hx)
    rw [howed] at hsort ⊢
    refine ⟨rfl, rfl, rfl, by simp, fun h => (nomatch h), fun hmem => ?_⟩
    -- in an increasing list the sent message stands once
    obtain ⟨_, hright, hcross⟩ := pairwise_append.mp hsort
    rcases mem_append.mp hmem with hmem | hmem
    · have := hcross _ hmem _ mem_cons_self
      omega
    · have := (pairwise_cons.mp hright).1 _ hmem
      omega
  | reconsumeSent =>
    rename_i auto done x rest
    cases mem_singleton.mp he
    refine ⟨rfl, rfl, rfl, by simp [HeldPc.owed], fun hmem => ?_, fun _ => ?_⟩
    · have hdone : x.queueOffset ∈ offsets (done.map (·.1)) :=
        offsets_subset (fun y hy => by
          obtain ⟨d, hd, rfl⟩ := mem_map.mp hy
          exact mem_map_of_mem (mem_of_mem_filter hd)) _ hmem
      have := (pairwise_append.mp hsort).2.2 _ hdone _ mem_cons_self
      omega
    · show x.queueOffset ∈ offsets (((done ++ [(x, true)]).filter (·.2)).map (·.1))
      simp
  | _ => simp at he

theorem HeldRule.putBack_owed {cur : Nat} {entry : Bool} {offs sent : List Int}
    (h : HeldRule m g r pc evs r' pc') (he : .putBack g' cur entry offs sent ∈ evs) :
    offs = pc.owed ∧ sent = pc.gone := by
  cases h with
  | putBack | requeue =>
    cases mem_singleton.mp he
    exact ⟨rfl, rfl⟩
  | _ => simp at he

/-! ## 2. The invariant -/

/-- **What was sent back has left.** -/
structure Departed (tr : List QEvent) (q : Queue) : Prop where
  fetched : ∀ g o, SentBack tr g o → Fetched tr g o
  held : ∀ g pc, q.held = some (g, pc) → ∀ o ∈ pc.owed, SentBack tr g o → o ∈ pc.gone
  buffer : ∀ o ∈ offsets q.row.buffer, ¬ SentBack tr q.row.epoch o

theorem departed_init : Departed [] Queue.init where
  fetched := fun _ _ ⟨_, h⟩ => nomatch h
  held := fun _ _ h => nomatch h
  buffer := fun _ h => nomatch h

theorem Fetched.mono (h : Fetched tr g o) (evs : List QEvent) : Fetched (tr ++ evs) g o :=
  fetched_append.mpr (.inl h)

theorem SentBack.of_append (hev : ∀ e ∈ evs, e.ofBatch = false) (h : SentBack (tr ++ evs) g o) :
    SentBack tr g o := by
  obtain ⟨level, hm⟩ := h
  rcases mem_append.mp hm with hm | hm
  · exact ⟨level, hm⟩
  · cases hev _ hm

section Step

variable {m : Mode} {tr evs : List QEvent} {q q' : Queue}

theorem Departed.frame (hi : Departed tr q) (hev : ∀ e ∈ evs, e.ofBatch = false)
    (hh : q'.held = q.held) (hb : ∀ o ∈ offsets q'.row.buffer, ¬ SentBack tr q'.row.epoch o) :
    Departed (tr ++ evs) q' where
  fetched := fun g o h => (hi.fetched g o (h.of_append hev)).mono evs
  held := fun g pc hq o ho h => hi.held g pc (hh ▸ hq) o ho (h.of_append hev)
  buffer := fun o ho h => hb o ho (h.of_append hev)

theorem Departed.section (hr : QRun m Queue.init tr q)
    (hin : ∀ e ∈ tr ++ evs, InOrder e ∧ Unmixed e) (hi : Departed tr q) {g : Nat}
    {pc pc' : HeldPc} {r' : Row} (hh : q.held = some (g, pc))
    (h : HeldRule m g q.row pc evs r' pc') :
    Departed (tr ++ evs) { q with row := r', held := some (g, pc') } := by
  have hin' : ∀ e ∈ tr, InOrder e := fun e he => (hin e (mem_append_left _ he)).1
  have hline := lineInv_run hr hin'
  have hsort := hline.owed g pc hh
  have hep := h.epoch
  refine ⟨?_, ?_, ?_⟩
  · rintro g1 o ⟨level, hm⟩
    rcases mem_append.mp hm with hm | hm
    · exact (hi.fetched g1 o ⟨level, hm⟩).mono evs
    · obtain ⟨_, rfl, _, ho, _⟩ := h.sentBack_mem hsort hm
      have hprov := provenance_run hr fun e he => (hin' e he).2.1
      exact (hprov.held g1 pc hh o (pc.owed_subset o ho)).fetched.mono evs
  · intro g1 pc1 hq o ho hsent
    obtain ⟨rfl, rfl⟩ := Prod.mk.inj (Option.some.inj hq)
    obtain ⟨level, hm⟩ := hsent
    rcases mem_append.mp hm with hm | hm
    · have hold := hi.held g pc hh o (h.owed_sublist.1.subset ho) ⟨level, hm⟩
      exact h.gone_keep o ho hold
    · exact (h.sentBack_mem hsort hm).2.2.2.2.2 ho
  · rw [hep]
    rintro o ho ⟨level, hm⟩
    rcases mem_append.mp hm with hm | hm
    · -- sent back before: a put-back of this batch would have to contain it
      rcases h.pending_cases with hp | ⟨b, sent, he, hr', hpc⟩
      · rw [Row.buffer_congr hp] at ho
        exact hi.buffer o ho ⟨level, hm⟩
      · have hput : .putBack g q.row.epoch q.row.pending.isSome (offsets b) sent ∈ evs :=
          he ▸ mem_singleton.mpr rfl
        obtain ⟨howed, hgone⟩ := h.putBack_owed hput
        obtain ⟨⟨_, hown, _⟩, hunmixed⟩ := hin _ (mem_append_right _ hput)
        rw [hr'] at ho
        by_cases hp : q.row.pending.isSome = true
        · rw [Row.requeuePending_buffer hp, offsets_append] at ho
          rcases mem_append.mp ho with ho | ho
          · have hg : g = q.row.epoch := hown hp
            have hnone : pc.gone = [] := hgone ▸ hunmixed hp
            have hmem := hi.held g pc hh o (howed ▸ ho) (hg ▸ ⟨level, hm⟩)
            rw [hnone] at hmem
            cases hmem
          · exact hi.buffer o ho ⟨level, hm⟩
        · rw [Row.requeuePending_none hp] at ho
          exact hi.buffer o ho ⟨level, hm⟩
    · obtain ⟨_, hg, hrow, howed, _⟩ := h.sentBack_mem hsort hm
      have hg' : g = q.row.epoch := hg.symm
      subst hg'
      have hord := hline.line
      unfold Queue.line at hord
      rw [Queue.owed_own hh] at hord
      rw [hrow] at ho
      have := (pairwise_append.mp hord).2.2 o howed o ho
      omega

theorem departed_step (hr : QRun m Queue.init tr q)
    (hin : ∀ e ∈ tr ++ evs, InOrder e ∧ Unmixed e) (hi : Departed tr q) (hs : QStep m q evs q') :
    Departed (tr ++ evs) q' := by
  cases hs.consume with
  | quiet hev hp hc hn hm he hh =>
    refine hi.frame (fun e hmem => QEvent.not_ofBatch (hev e hmem)) hh ?_
    rw [Row.buffer_congr hp, he]
    exact hi.buffer
  | pulled mq res msgs hl ho hrow hh =>
    obtain ⟨hep, hbuf⟩ := Row.of_bookPull hrow
    refine hi.frame pulled_not_ofBatch hh ?_
    rw [hep, hbuf, offsets_append]
    intro o ho hsent
    rcases mem_append.mp ho with ho | ho
    · exact hi.buffer o ho hsent
    · -- what is pulled now lies behind everything the generation has fetched
      have := (hi.fetched _ o hsent).lt_pulled hr (fun e he => (hin e he).1) hs
        mem_cons_self ho
      omega
  | retired hev hrow hh =>
    have hbuf : q'.row.buffer = [] := by rw [hrow]; rfl
    refine hi.frame (forall_mem_singleton.mpr (QEvent.not_ofBatch hev)) hh ?_
    rw [hbuf]
    exact fun _ ho => nomatch ho
  | removed => exact hi.frame (forall_mem_singleton.mpr rfl) rfl hi.buffer
  | swept off ho =>
    refine hi.frame (fun e hmem => ?_) rfl fun o ho hsent => ?_
    · split at hmem
      · rw [mem_singleton.mp hmem]
        rfl
      · cases hmem
    · have hep := q.row.removeExpired_epoch off
      exact hi.buffer o ((offsets_sublist (q.row.removeExpired_buffer off)).subset ho) (hep ▸ hsent)
  | taken hh hb hp =>
    have hbuf := hi.buffer
    rw [Row.offsets_buffer hp] at hbuf
    rw [append_nil]
    refine ⟨hi.fetched, fun g pc hq o ho hsent => ?_, fun o ho => ?_⟩
    · obtain ⟨rfl, rfl⟩ := Prod.mk.inj (Option.some.inj hq)
      exact absurd hsent (hbuf o (mem_append_left _ ho))
    · exact hbuf o (mem_append_right _ ho)
  | held hh h => exact hi.section hr hin hh h
  | finished hh =>
    rw [append_nil]
    exact ⟨hi.fetched, fun g pc hq => (nomatch hq), hi.buffer⟩

theorem departed_run (h : QRun m Queue.init tr q) (hin : ∀ e ∈ tr, InOrder e ∧ Unmixed e) :
    Departed tr q :=
  Run.invariant_of departed_init (fun _ _ _ _ hr hev hi hs => departed_step hr hev hi hs) h hin

end Step

/-! ## 3. The consumer -/

/-- What was sent back is neither handed over nor sent back again. -/
def LeavesOnce (pre : List QEvent) : QEvent → Prop
  | .handed g ms => ∀ o ∈ offsets ms, ¬ SentBack pre g o
  | .sentBack g o _ => ¬ SentBack pre g o
  | _ => True

/-- **Exhausted orderly messages leave once**, in every run whose put-backs contain nothing that was
sent back. -/
theorem exhausted_leaves_once {cfg : ConsumerConfig} {clientId : String}
    {tr : List (String × QEvent)} {s : Sys} (h : Sys.Run (.init cfg true clientId) tr s) (k : String)
    (hbroker : ∀ e ∈ onKey k tr, BrokerOrdered e)
    (hfence : ∀ e ∈ onKey k tr, OwnPutBack e ∧ OwnCursor e)
    (hmix : ∀ e ∈ onKey k tr, Unmixed e) : Along LeavesOnce [] (onKey k tr) := by
  refine Run.invariant_of (G := fun e => InOrder e ∧ Unmixed e)
    (I := fun tr _ => Along LeavesOnce [] tr) trivial ?_ (init_run_refines k h)
    fun e he => ⟨⟨hbroker e he, hfence e he⟩, hmix e he⟩
  intro tr q evs q' hr hin hi hs
  have hin' : ∀ e ∈ tr, InOrder e ∧ Unmixed e := fun e he => hin e (mem_append_left _ he)
  have hdep := departed_run hr hin'
  refine along_append.mpr ⟨hi, ?_⟩
  by_cases hhand : ∃ g ms, .handed g ms ∈ evs
  · obtain ⟨g, ms, he⟩ := hhand
    obtain ⟨g0, pc, pc', row', hh, hrule⟩ := hs.batch_event he rfl
    obtain ⟨rfl, rfl, b, rfl, hb⟩ := hrule.handed_single he
    refine ⟨fun o ho hsent => ?_, trivial⟩
    rw [hb] at ho
    have hgone := hdep.held g _ hh o ho hsent
    cases hgone
  · by_cases hback : ∃ g o level, .sentBack g o level ∈ evs
    · obtain ⟨g, o, level, he⟩ := hback
      obtain ⟨g0, pc, pc', row', hh, hrule⟩ := hs.batch_event he rfl
      have hsort := (lineInv_run hr fun e he => (hin' e he).1).owed g0 pc hh
      obtain ⟨rfl, rfl, _, howed, hnot, _⟩ := hrule.sentBack_mem hsort he
      exact ⟨fun hsent => hnot (hdep.held g pc hh o howed hsent), trivial⟩
    · refine along_of_forall fun x e he => ?_
      cases e with
      | handed g ms => exact absurd ⟨g, ms, he⟩ hhand
      | sentBack g o level => exact absurd ⟨g, o, level, he⟩ hback
      | _ => trivial

namespace Script

/-- At most one retry, batches of two. -/
def oneRetry : ConsumerConfig := { cfg2 with maxReconsumeTimes := 1 }

/-- Messages 0 and 1 are pulled, the first of them delivered once before. -/
def mixedTwo : List Action :=
  orderlyStart 0 ++ round 0 ++
    [.task 0 (.loop (.response none (some ⟨.found, 2, [(msg 0).bumpReconsume, msg 1]⟩)))] ++ deliver

/-- The batch is suspended, delivered again, and suspended again. -/
def mixedAgain : List Action := mixedTwo ++ suspendSent 4 ++ deliver ++ suspendSent 0

end Script

open Script

/-- A message that leaves by the retry limit, and the message behind it. -/
theorem exhausted_leaves_once_single :
    deliveries ((Sys.init noRetry true "c").traceOf sentBackOnce) =
      [.handed 0 [msg 0], .answered 0 true (some .suspendCurrentQueueAMoment) [0],
        .sentBack 0 0 3, .handed 0 [msg 1]] ∧
      Along LeavesOnce []
        (onKey "Tb0" ((Sys.init noRetry true "c").traceOf sentBackOnce)) :=
  ⟨by decide, exhausted_leaves_once
    (Sys.run_after (.init noRetry true "c") sentBackOnce (by decide)) "Tb0"
    (by decide) (by decide) (by decide)⟩

/-- **A sent-back message returns.** Of two suspended messages the first has reached the limit and
is sent back, the second is kept: both are handed over again, and the first is sent back again. -/
theorem sent_back_message_returns :
    ∃ tr s, Sys.Run (.init oneRetry true "c") tr s ∧
      (∀ e ∈ onKey "Tb0" tr, BrokerOrdered e ∧ Undisturbed e) ∧
      deliveries tr =
        [.handed 0 [(msg 0).bumpReconsume, msg 1],
          .answered 0 true (some .suspendCurrentQueueAMoment) [0, 1], .sentBack 0 0 4,
          .handed 0 [(msg 0).bumpReconsume, (msg 1).bumpReconsume],
          .answered 0 true (some .suspendCurrentQueueAMoment) [0, 1], .sentBack 0 0 4] :=
  ⟨_, _, Sys.run_after _ mixedAgain (by decide), by decide, by decide⟩

end RocketMQ
