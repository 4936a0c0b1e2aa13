/-
  File:      RocketMQ/Push/Settled.lean
  Subject:   What becomes of the messages a generation has pulled.

  A message leaves the line of its generation only when it is settled: acknowledged, dropped, sent
  back, swept, or answered by an orderly listener with something else than a suspension.

  * `HeldRule.owed_lost`: why a message leaves the batch;
  * `messages_conserved`: along every run of the consumer nothing pulled is lost before it is
    settled, and nothing reaches the listener or the offset that was not pulled.
-/
import RocketMQ.Push.Line

namespace RocketMQ

open List Machine

/-! ## 1. Settling -/

/-- The event settles the message at `o` of generation `g`. A rollback under auto-commit counts:
the code acknowledges it like a success. -/
def QEvent.settles (g : Nat) (o : Int) : QEvent → Prop
  | .acked g' offs => g' = g ∧ o ∈ offs
  | .dropped g' offs => g' = g ∧ o ∈ offs
  | .sentBack g' off _ => g' = g ∧ off = o
  | .swept g' off => g' = g ∧ off = o
  | .answered g' auto status offs => g' = g ∧ o ∈ offs ∧
      (status = some .success ∨ status = some .commit ∨ (auto = true ∧ status = some .rollback))
  | _ => False

def Settled (tr : List QEvent) (g : Nat) (o : Int) : Prop := ∃ e ∈ tr, e.settles g o

variable {tr evs : List QEvent} {g : Nat} {o : Int} {m : Mode} {r r' : Row} {pc pc' : HeldPc}

theorem Settled.mono (h : Settled tr g o) (evs : List QEvent) : Settled (tr ++ evs) g o := by
  obtain ⟨e, he, hs⟩ := h
  exact ⟨e, mem_append_left _ he, hs⟩

theorem Settled.of_new (h : Settled evs g o) : Settled (tr ++ evs) g o := by
  obtain ⟨e, he, hs⟩ := h
  exact ⟨e, mem_append_right _ he, hs⟩

/-- The message at `o` of generation `g` was sent back. -/
def SentBack (tr : List QEvent) (g : Nat) (o : Int) : Prop := ∃ level, .sentBack g o level ∈ tr

theorem SentBack.mono (h : SentBack tr g o) (evs : List QEvent) : SentBack (tr ++ evs) g o := by
  obtain ⟨level, hm⟩ := h
  exact ⟨level, mem_append_left _ hm⟩

theorem SentBack.of_new (h : SentBack evs g o) : SentBack (tr ++ evs) g o := by
  obtain ⟨level, hm⟩ := h
  exact ⟨level, mem_append_right _ hm⟩

theorem SentBack.settled (h : SentBack tr g o) : Settled tr g o := by
  obtain ⟨level, hm⟩ := h
  exact ⟨_, hm, rfl, rfl⟩

/-- The batch is registered as being in the listener's hands. -/
def HeldPc.registered (m : Mode) : HeldPc → Bool
  | .listening _ => !m.orderly
  | .sendingBack _ _ _ _ | .sendAwait _ _ _ _ => true
  | _ => false

/-- What the pass over the reconsume counts has decided so far. -/
def HeldPc.done : HeldPc → List (MessageExt × Bool)
  | .reconsuming _ done _ => done
  | .reconsumeAwait _ done _ _ => done
  | _ => []

theorem orderlyNext_lost (g : Nat) (auto : Bool) (status : Option ConsumeOrderlyStatus)
    (hp : status = none → auto = true) (b : List MessageExt) :
    (orderlyNext auto status b).owed = offsets b ∨
      ∀ o ∈ offsets b, (QEvent.answered g auto status (offsets b)).settles g o := by
  match auto, status, hp with
  | true, none, _
  | true, some .suspendCurrentQueueAMoment, _
  | false, some .suspendCurrentQueueAMoment, _
  | false, some .rollback, _ => exact .inl rfl
  | true, some .success, _ | false, some .success, _ => exact .inr fun o ho => ⟨rfl, ho, .inl rfl⟩
  | true, some .commit, _ | false, some .commit, _ =>
    exact .inr fun o ho => ⟨rfl, ho, .inr (.inl rfl)⟩
  | true, some .rollback, _ => exact .inr fun o ho => ⟨rfl, ho, .inr (.inr ⟨rfl, rfl⟩)⟩
  | false, none, hp => cases hp rfl

theorem afterReconsume_lost (auto : Bool) (done : List (MessageExt × Bool)) :
    (∃ sent, afterReconsume auto done = .requeuing (done.map (·.1)) sent) ∨
      ∀ d ∈ done, d.2 = true := by
  unfold afterReconsume
  split
  · exact .inl ⟨_, rfl⟩
  · rename_i hany
    refine .inr fun d hd => ?_
    by_contra hne
    refine hany (any_eq_true.mpr ⟨d, hd, ?_⟩)
    simpa using hne

theorem mem_take_or_drop (n : Nat) {b : List MessageExt} (h : o ∈ offsets b) :
    o ∈ offsets (b.take n) ∨ o ∈ offsets (b.drop n) := by
  rw [← mem_append, ← offsets_append, take_append_drop]
  exact h

theorem mem_next {i : Nat} {b : List MessageExt} {x : MessageExt} {os : List Int}
    (hx : b[i]? = some x) (h : o ∈ os ++ offsets (b.drop i)) :
    o = x.queueOffset ∨ o ∈ os ++ offsets (b.drop (i + 1)) := by
  rw [offsets_drop_getElem? hx] at h
  simpa [or_left_comm] using h

variable (h : HeldRule m g r pc evs r' pc')
include h

/-- **Why a message leaves the batch.** It is back in the buffer, it is settled now, it was settled
before by the sweep (the skipped messages), or by the reconsume pass. -/
theorem HeldRule.owed_lost (hg : g = r.epoch) (hp : r.pending.isSome = true) :
    ∀ o ∈ pc.owed, o ∈ pc'.owed ∨ o ∈ offsets r'.buffer ∨ Settled evs g o ∨
      (pc.registered m = true ∧ r.processQueueContainsLocked o = false) ∨
      ∃ d ∈ pc.done, d.2 = true ∧ d.1.queueOffset = o := by
  intro o ho
  have hone : ∀ {e : QEvent}, e.settles g o → Settled [e] g o :=
    fun hs => ⟨_, mem_singleton.mpr rfl, hs⟩
  cases h with
  | stale hne => exact absurd hg hne
  | handOrderly hm hb | handConcurrent hm hb =>
    exact .inl (by show o ∈ offsets _; rw [hb]; exact ho)
  | broadcast n hm hb =>
    refine .inr (.inr (.inl ?_))
    rcases mem_take_or_drop n ho with ho' | ho'
    · exact ⟨_, mem_cons_self .., rfl, ho'⟩
    · exact ⟨_, mem_cons_of_mem _ (mem_singleton.mpr rfl), rfl, ho'⟩
  | ackedWhole hm => exact .inr (.inr (.inl (hone ⟨rfl, ho⟩)))
  | ackedSome n delay hm hn =>
    rcases mem_take_or_drop n ho with ho' | ho'
    · exact .inr (.inr (.inl (hone ⟨rfl, ho'⟩)))
    · exact .inl ho'
  | skip hx hc =>
    rcases mem_next hx ho with rfl | ho
    · exact .inr (.inr (.inr (.inl ⟨rfl, hc⟩)))
    · exact .inl ho
  | sent hx =>
    rcases mem_next hx ho with rfl | ho
    · exact .inr (.inr (.inl (hone ⟨rfl, rfl⟩)))
    · exact .inl ho
  | failed hx =>
    left
    show o ∈ offsets (List.map _ (_ ++ [_])) ++ _
    rw [map_append, offsets_append, append_assoc]
    rcases mem_append.mp ho with ho | ho
    · exact mem_append_left _ ho
    · rw [offsets_drop_getElem? hx] at ho
      exact mem_append_right _ ho
  | allBack hi =>
    rename_i b delay i
    have ho' : o ∈ offsets (b.drop i) := ho
    rw [drop_eq_nil_of_le hi] at ho'
    cases ho'
  | someLeft hi hf =>
    rcases mem_append.mp ho with ho | ho
    · exact .inl ho
    · rw [drop_eq_nil_of_le hi] at ho
      cases ho
  | putBack | requeue =>
    refine .inr (.inl ?_)
    rw [Row.requeuePending_buffer hp, offsets_append]
    exact mem_append_left _ ho
  | answer auto status hm hpanic =>
    rename_i b
    rcases orderlyNext_lost g auto status hpanic b with heq | hset
    · exact .inl (by rw [heq]; exact ho)
    · exact .inr (.inr (.inl (hone (hset o ho))))
  | retry | reconsumeSent | reconsumeFailed => exact .inl (by simpa [HeldPc.owed] using ho)
  | reconsumed =>
    rename_i auto done
    have ho' : o ∈ offsets (done.map (·.1)) := by simpa [HeldPc.owed] using ho
    rcases afterReconsume_lost auto done with ⟨sent, heq⟩ | hall
    · exact .inl (by rw [heq]; exact ho')
    · obtain ⟨x, hx, rfl⟩ := mem_offsets.mp ho'
      obtain ⟨d, hd, rfl⟩ := mem_map.mp hx
      exact .inr (.inr (.inr (.inr ⟨d, hd, hall d hd, rfl⟩)))
  | advance | deregister | commit => cases ho
  | _ => exact .inl ho

/-! ## 2. The rest of what the sections keep -/

theorem HeldRule.buffer_subset :
    (r.pending.isSome = true → r'.pending.isSome = true) ∧
      ∀ o ∈ offsets r.buffer, o ∈ offsets r'.buffer := by
  rcases h.pending_cases with hp | ⟨b, sent, _, hr, _⟩
  · rw [Row.buffer_congr hp, hp]
    exact ⟨id, fun _ ho => ho⟩
  · rw [hr]
    by_cases hp : r.pending.isSome = true
    · rw [Row.requeuePending_buffer hp, offsets_append]
      refine ⟨fun _ => ?_, fun o ho => mem_append_right _ ho⟩
      unfold Row.requeuePending
      rw [Option.isSome_map]
      exact hp
    · rw [Row.requeuePending_none hp]
      exact ⟨id, fun _ ho => ho⟩

theorem HeldRule.hands (hreg : pc'.registered m = true) :
    (∀ o ∈ pc'.owed, o ∈ offsets r'.inHands) ∨
      (pc.registered m = true ∧ r'.inflightMsgs = r.inflightMsgs) := by
  cases h with
  | handOrderly hm hb =>
    rw [HeldPc.registered, hm] at hreg
    cases hreg
  | handConcurrent hm hb =>
    rename_i b b'
    obtain ⟨i, hw, hi⟩ := r.registerInflightMsgs_writes b'
    left
    intro o ho
    show o ∈ offsets (Option.getD _ [])
    rw [hw, hi, offsets_append]
    exact mem_append_right _ ho
  | ackedSome n delay hm hn =>
    refine .inr ⟨?_, rfl⟩
    show (!m.orderly) = true
    rw [hm]
    rfl
  | answer auto status hm hp =>
    unfold orderlyNext at hreg
    split at hreg <;> cases hreg
  | reconsumed =>
    unfold afterReconsume at hreg
    split at hreg
    · cases hreg
    · split at hreg <;> cases hreg
  | skip | send | sent | failed => exact .inr ⟨rfl, rfl⟩
  | _ => cases hreg

theorem HeldRule.done_sent :
    ∀ d ∈ pc'.done, d.2 = true → d ∈ pc.done ∨ SentBack evs g d.1.queueOffset := by
  intro d hd hsent
  cases h with
  | answer auto status hm hp =>
    unfold orderlyNext at hd
    split at hd <;> cases hd
  | reconsumed =>
    unfold afterReconsume at hd
    split at hd
    · cases hd
    · split at hd <;> cases hd
  | exhausted => exact .inl hd
  | retry | reconsumeFailed =>
    rcases mem_append.mp hd with hd | hd
    · exact .inl hd
    · cases mem_singleton.mp hd
      cases hsent
  | reconsumeSent =>
    rcases mem_append.mp hd with hd | hd
    · exact .inl hd
    · cases mem_singleton.mp hd
      exact .inr ⟨_, mem_singleton.mpr rfl⟩
  | _ => cases hd

omit h

theorem mem_filter_or {off : Int} {l : Option (List MessageExt)} (h : o ∈ offsets (l.getD [])) :
    o ∈ offsets ((l.map (List.filter fun x => x.queueOffset != off)).getD []) ∨ o = off := by
  cases l with
  | none => cases h
  | some b =>
    obtain ⟨x, hx, rfl⟩ := mem_offsets.mp h
    by_cases hne : x.queueOffset = off
    · exact .inr hne
    · exact .inl (mem_offsets.mpr ⟨x, mem_filter.mpr ⟨hx, by simpa using hne⟩, rfl⟩)

theorem Row.removeExpired_lost (off : Int) (r : Row) :
    (∀ o ∈ offsets r.buffer, o ∈ offsets (r.removeExpiredEntryIfStillHead off).buffer ∨
      (r.stillHead off = true ∧ o = off)) ∧
    (∀ o ∈ offsets r.inHands, o ∈ offsets (r.removeExpiredEntryIfStillHead off).inHands ∨
      (r.stillHead off = true ∧ o = off)) := by
  unfold Row.removeExpiredEntryIfStillHead
  by_cases hhead : r.stillHead off = true
  · rw [if_pos hhead]
    unfold Row.removeProcessQueueEntryLocked Row.buffer Row.inHands
    refine ⟨fun o ho => (mem_filter_or ho).imp_right fun hne => ⟨hhead, hne⟩, fun o ho => ?_⟩
    rw [Row.nonEmpty_getD]
    exact (mem_filter_or ho).imp_right fun hne => ⟨hhead, hne⟩
  · rw [if_neg hhead]
    exact ⟨fun _ ho => .inl ho, fun _ ho => .inl ho⟩

theorem Row.bookPull_entry (h : r.pending.isSome = true) (mq : MessageQueue) (res : PullResult)
    (msgs : List MessageExt) : (r.bookPull mq res msgs).pending.isSome = true := by
  have hf : (r.bookFetched mq res msgs).pending.isSome = true := by
    unfold Row.bookFetched
    split
    · exact h
    · rfl
  unfold Row.bookPull
  split
  · exact hf
  · obtain ⟨c, hc⟩ := Row.correctTagsOffsetLocked_writes res.status res.nextBeginOffset
      (r.bookFetched mq res msgs)
    rw [hc]
    exact hf

/-! ## 3. Coverage -/

/-- **What a generation has pulled is settled or in the line.** The other fields carry it: a batch
of the current generation finds its buffer entry, a registered batch is on the books unless
swept, and the reconsume pass has sent back what it says. -/
structure Coverage (m : Mode) (tr : List QEvent) (q : Queue) : Prop where
  entry : ∀ pc, q.held = some (q.row.epoch, pc) → q.row.pending.isSome = true
  hands : ∀ pc, q.held = some (q.row.epoch, pc) → pc.registered m = true →
    ∀ o ∈ pc.owed, o ∈ offsets q.row.inHands ∨ Settled tr q.row.epoch o
  sent : ∀ g pc, q.held = some (g, pc) → ∀ d ∈ pc.done, d.2 = true →
    SentBack tr g d.1.queueOffset
  covered : ∀ o, Fetched tr q.row.epoch o → Settled tr q.row.epoch o ∨ o ∈ q.line

theorem coverage_init (m : Mode) : Coverage m [] Queue.init where
  entry := fun _ h => nomatch h
  hands := fun _ h => nomatch h
  sent := fun _ _ h => nomatch h
  covered := fun _ ⟨_, _, _, _, h, _⟩ => nomatch h

theorem not_fetched_of_unpulled (h : Unpulled evs g) (o : Int) :
    ¬ Fetched evs g o := fun ⟨t, req, res, ms, hm, _⟩ => h t req res ms hm

theorem unpulled_of_quiet (h : ∀ e ∈ evs, e.consumeSide = false) (g : Nat) :
    Unpulled evs g := fun _ _ _ _ => notMem_of_quiet h rfl

section Step

variable {m : Mode} {tr evs : List QEvent} {q q' : Queue}

theorem Coverage.frame (hi : Coverage m tr q)
    (hev : ∀ o, Fetched evs q.row.epoch o → o ∈ q'.line) (hh : q'.held = q.held)
    (he : q'.row.epoch = q.row.epoch)
    (hp : q.row.pending.isSome = true → q'.row.pending.isSome = true)
    (hm : ∀ o ∈ offsets q.row.inHands, o ∈ offsets q'.row.inHands ∨ Settled evs q.row.epoch o)
    (hl : ∀ o ∈ q.line, o ∈ q'.line ∨ Settled evs q.row.epoch o) : Coverage m (tr ++ evs) q' := by
  refine ⟨?_, ?_, ?_, ?_⟩
  · intro pc hq
    rw [hh, he] at hq
    exact hp (hi.entry pc hq)
  · intro pc hq hreg o ho
    rw [hh, he] at hq
    rw [he]
    rcases hi.hands pc hq hreg o ho with hin | hset
    · exact (hm o hin).imp_right Settled.of_new
    · exact .inr (hset.mono evs)
  · intro g pc hq d hd hsent
    rw [hh] at hq
    exact (hi.sent g pc hq d hd hsent).mono evs
  · intro o ho
    rw [he] at ho ⊢
    rcases fetched_append.mp ho with ho | ho
    · rcases hi.covered o ho with hset | hin
      · exact .inl (hset.mono evs)
      · exact (hl o hin).symm.imp_left Settled.of_new
    · exact .inr (hev o ho)

theorem HeldRule.coverage {g : Nat} {pc pc' : HeldPc} {r' : Row} (hi : Coverage m tr q)
    (hh : q.held = some (g, pc)) (h : HeldRule m g q.row pc evs r' pc') :
    Coverage m (tr ++ evs) { q with row := r', held := some (g, pc') } := by
  have hep := h.epoch
  refine ⟨?_, ?_, ?_, ?_⟩
  · intro pc0 hq
    obtain ⟨hg, _⟩ := Prod.mk.inj (Option.some.inj hq)
    have hg' : g = q.row.epoch := hg.trans hep
    exact h.buffer_subset.1 (hi.entry pc (hg' ▸ hh))
  · intro pc0 hq hreg o ho
    obtain ⟨hg, rfl⟩ := Prod.mk.inj (Option.some.inj hq)
    have hg' : g = q.row.epoch := hg.trans hep
    rcases h.hands hreg with hin | ⟨hreg', hsame⟩
    · exact .inl (hin o ho)
    · have ho' : o ∈ pc.owed := h.owed_sublist.1.subset ho
      rcases hi.hands pc (hg' ▸ hh) hreg' o ho' with hin | hset
      · left
        unfold Row.inHands
        rw [hsame]
        exact hin
      · exact .inr (hep ▸ hset.mono evs)
  · intro g' pc0 hq d hd hsent
    cases hq
    rcases h.done_sent d hd hsent with hd | hset
    · exact (hi.sent g pc hh d hd hsent).mono evs
    · exact hset.of_new
  · intro o ho
    show Settled (tr ++ evs) r'.epoch o ∨ o ∈ Queue.owed _ ++ offsets r'.buffer
    have ho' : Fetched (tr ++ evs) r'.epoch o := ho
    rw [hep] at ho' ⊢
    rcases fetched_append.mp ho' with ho | ho
    · rcases hi.covered o ho with hset | hin
      · exact .inl (hset.mono evs)
      · rcases mem_append.mp hin with hin | hin
        · -- in the batch: it stays there, or there is a reason why not
          by_cases hg : g = q.row.epoch
          · subst hg
            rw [Queue.owed_own hh] at hin
            have howed : ({ q with row := r', held := some (q.row.epoch, pc') }).owed
                = pc'.owed := Queue.owed_own (by rw [← hep])
            rw [howed]
            rcases h.owed_lost rfl (hi.entry pc hh) o hin with h1 | h1 | h1 | ⟨hreg, hc⟩ | h1
            · exact .inr (mem_append_left _ h1)
            · exact .inr (mem_append_right _ h1)
            · exact .inl h1.of_new
            · rcases hi.hands pc hh hreg o hin with hbook | hset
              · -- a skipped message is not on the books
                obtain ⟨x, hx, rfl⟩ := mem_offsets.mp hbook
                have hany : q.row.processQueueContainsLocked x.queueOffset = true :=
                  any_eq_true.mpr ⟨x, mem_append_left _ hx, by simp⟩
                cases hc.symm.trans hany
              · exact .inl (hset.mono evs)
            · obtain ⟨d, hd, hsent, rfl⟩ := h1
              exact .inl ((hi.sent _ pc hh d hd hsent).mono evs).settled
          · rw [Queue.owed_stale hh hg] at hin
            cases hin
        · exact .inr (mem_append_right _ (h.buffer_subset.2 o hin))
    · refine absurd ho (not_fetched_of_unpulled ?_ o)
      exact fun t req res ms hm => h.not_pulled t _ req res ms hm

theorem coverage_step (hu : Unowned tr q) (hi : Coverage m tr q) (hs : QStep m q evs q') :
    Coverage m (tr ++ evs) q' := by
  cases hs.consume with
  | quiet hev hp _ _ hm he hh =>
    refine hi.frame (fun o ho => absurd ho (not_fetched_of_unpulled (unpulled_of_quiet hev _) o)) hh
      he (by rw [hp]; exact id) ?_ ?_
    · unfold Row.inHands
      rw [hm]
      exact fun o ho => .inl ho
    · rw [Queue.line_congr hh he hp]
      exact fun o ho => .inl ho
  | pulled mq res msgs hl ho hr hh =>
    obtain ⟨mq', p, c, f, hw, hbp⟩ := q.row.bookPull_writes mq res msgs
    obtain ⟨hep, hbuf⟩ := Row.of_bookPull hr
    have hhands : q'.row.inHands = q.row.inHands := by rw [hr, hw]; rfl
    refine hi.frame ?_ hh hep (fun h => hr ▸ Row.bookPull_entry h mq res msgs) ?_ ?_
    all_goals simp only [Queue.line_pulled hh hr, hhands]
    · intro o hmem
      obtain ⟨t', req, res', ms, hm, hmem⟩ := hmem
      rcases mem_cons.mp hm with hm | hm
      · cases hm
        exact mem_append_right _ hmem
      · split at hm <;> simp at hm
    · exact fun o ho => .inl ho
    · exact fun o ho => .inl (mem_append_left _ ho)
  | retired hev hr hh =>
    have hep : q'.row.epoch = q.row.epoch + 1 := by rw [hr]; rfl
    have hnew : ∀ pc, q'.held ≠ some (q'.row.epoch, pc) := by
      intro pc hq
      have hle := hu.held_le _ pc (hh ▸ hq)
      omega
    refine ⟨fun pc hq => absurd hq (hnew pc), fun pc hq => absurd hq (hnew pc), ?_, ?_⟩
    · intro g pc hq d hd hsent
      exact (hi.sent g pc (hh ▸ hq) d hd hsent).mono _
    · intro o hmem
      exfalso
      rcases fetched_append.mp hmem with ⟨t, req, res, ms, hm, _⟩ | hmem
      · have hle := hu.pulled_le t _ req res ms hm
        omega
      · have hquiet := unpulled_of_quiet (forall_mem_singleton.mpr hev) (q.row.epoch + 1)
        exact not_fetched_of_unpulled hquiet o (hep ▸ hmem)
  | removed =>
    refine hi.frame ?_ rfl rfl id (fun o ho => .inl ho) fun o ho => .inl ho
    simp [Fetched]
  | swept off ho =>
    have hset : q.row.stillHead off = true →
        Settled (if q.row.stillHead off then [.swept q.row.epoch off] else []) q.row.epoch off := by
      intro hhead
      rw [if_pos hhead]
      exact ⟨_, mem_singleton.mpr rfl, rfl, rfl⟩
    have hlost := q.row.removeExpired_lost off
    refine hi.frame ?_ rfl (q.row.removeExpired_epoch off) ?_ ?_ ?_
    · split <;> simp [Fetched]
    · unfold Row.removeExpiredEntryIfStillHead Row.removeProcessQueueEntryLocked
      intro hp
      split
      · rw [Option.isSome_map]
        exact hp
      · exact hp
    · intro o hmem
      rcases hlost.2 o hmem with h | ⟨hhead, rfl⟩
      · exact .inl h
      · exact .inr (hset hhead)
    · intro o hmem
      rcases mem_append.mp hmem with hmem | hmem
      · left
        refine mem_append_left _ ?_
        unfold Queue.owed at hmem ⊢
        rw [show (Queue.row _).epoch = q.row.epoch from q.row.removeExpired_epoch off]
        exact hmem
      · rcases hlost.1 o hmem with h | ⟨hhead, rfl⟩
        · exact .inl (mem_append_right _ h)
        · exact .inr (hset hhead)
  | taken hh hb hp =>
    refine ⟨fun _ _ => rfl, ?_, ?_, ?_⟩
    · intro pc hq hreg
      cases hq
      cases hreg
    · intro g pc hq d hd
      cases hq
      cases hd
    · intro o hmem
      rw [append_nil] at hmem ⊢
      rw [Queue.line_taken hh hp]
      exact hi.covered o hmem
  | held hh h => exact h.coverage hi hh
  | finished hh =>
    refine ⟨fun _ hq => (nomatch hq), fun _ hq => (nomatch hq), fun _ _ hq => (nomatch hq), ?_⟩
    intro o hmem
    rw [append_nil] at hmem ⊢
    rcases hi.covered o hmem with hset | hin
    · exact .inl hset
    · refine .inr (mem_append_right _ ?_)
      rcases mem_append.mp hin with hin | hin
      · unfold Queue.owed at hin
        rw [hh] at hin
        dsimp only at hin
        split at hin <;> cases hin
      · exact hin

/-- **Coverage along every run.** -/
theorem coverage_run (h : QRun m Queue.init tr q) : Coverage m tr q :=
  h.invariant (coverage_init m) fun _ _ _ _ hr hi hs => coverage_step (unowned_run hr) hi hs

end Step

/-! ## 4. The consumer -/

/-- The messages an event hands over or counts as handled. -/
def QEvent.touches : QEvent → List Int
  | .handed _ ms => offsets ms
  | .advanced _ _ _ offs => offs
  | _ => []

/-- The queue pulled a message at `o`, in some generation. -/
def Known (tr : List QEvent) (_ : Nat) (o : Int) : Prop := ∃ g, Fetched tr g o

/-- **No message is lost or made up.** -/
structure Conserved (tr : List QEvent) (q : Queue) : Prop where
  /-- what the current generation pulled is settled, in dispatch or in the buffer -/
  kept : ∀ o, Fetched tr q.row.epoch o → Settled tr q.row.epoch o ∨ o ∈ q.line
  /-- what waits, what the listener was handed and what the offset was advanced for was pulled -/
  buffer : ∀ o ∈ offsets q.row.buffer, ∃ g, Fetched tr g o
  touched : ∀ e ∈ tr, ∀ o ∈ e.touches, ∃ g, Fetched tr g o

section Account

variable {m : Mode} {tr evs : List QEvent} {q q' : Queue} {g : Nat} {o : Int}

theorem Known.mono (h : Known tr g o) : Known (tr ++ evs) g o := by
  obtain ⟨g', hf⟩ := h
  exact ⟨g', fetched_append.mpr (.inl hf)⟩

theorem known_run (h : QRun m Queue.init tr q) : Carried Known tr q := by
  refine h.invariant (carried_init _) fun tr q evs q' _ hi hs => ?_
  refine carried_step (fun _ _ h => h.mono) ?_ (fun _ _ _ _ _ h => h) hi hs
  intro t req res ms he o ho
  exact ⟨_, t, req, res, ms, mem_append_right _ he, ho⟩

theorem QStep.touches_held {e : QEvent} (hs : QStep m q evs q') (he : e ∈ evs)
    (ho : o ∈ e.touches) : ∃ g pc, q.held = some (g, pc) ∧ o ∈ pc.offs := by
  cases e with
  | handed g ms =>
    obtain ⟨pc, hh, hsub⟩ := hs.handed_mem he
    exact ⟨g, pc, hh, hsub o ho⟩
  | advanced g cur manual offs =>
    obtain ⟨pc, hh, hsub⟩ := hs.advanced_mem he
    exact ⟨g, pc, hh, hsub o ho⟩
  | _ => cases ho

theorem conserved_run (h : QRun m Queue.init tr q) : Conserved tr q := by
  refine ⟨(coverage_run h).covered, (known_run h).buffer, ?_⟩
  refine h.invariant (I := fun tr _ => ∀ e ∈ tr, ∀ o ∈ e.touches, Known tr 0 o) (by simp) ?_
  intro tr q evs q' hr hi hs e he o ho
  rcases mem_append.mp he with he | he
  · exact (hi e he o ho).mono
  · obtain ⟨g, pc, hh, hoffs⟩ := hs.touches_held he ho
    exact ((known_run hr).held g pc hh o hoffs).mono

end Account

/-- **The consumer neither loses nor makes up a message**, in either mode and whatever retires or
resets its queues meanwhile. -/
theorem messages_conserved {cfg : ConsumerConfig} {orderly : Bool} {clientId : String}
    {tr : List (String × QEvent)} {s : Sys} (h : Sys.Run (.init cfg orderly clientId) tr s)
    (k : String) : Conserved (onKey k tr) (s.queue k) := conserved_run (init_run_refines k h)

/-- The message of an old generation that is put back is accounted for as well. -/
theorem messages_conserved_reset :
    Conserved (onKey "Tb0" ((Sys.init Script.cfg false "c").traceOf Script.resetThenPutBack))
      (((Sys.init Script.cfg false "c").after Script.resetThenPutBack).queue "Tb0") :=
  messages_conserved (Sys.run_after _ _ (by decide)) "Tb0"

end RocketMQ
