/-
  File:      RocketMQ/Push/Generation.lean
  Subject:   Which generation a message belongs to.

  A batch leaves the lock while the listener and the send-backs run, and the queue can be retired
  and assigned again meanwhile. The put-back asks for a buffer entry only, not for the generation.

  * `ownPutBack_run`: without a retirement between the check of a batch and its put-back
    (`PutBackInTime`), the batch goes back into its own generation;
  * `StartedAt`: what a generation pulls lies at or after every cursor installed for it, given a
    broker that answers in order (`BrokerOrdered`);
  * `stale_batch_put_back`: without the fence a batch of the old generation is delivered by the
    new one.
-/
import RocketMQ.Push.Cursor

namespace RocketMQ

open List Machine

/-! ## 1. What a batch in dispatch refers to -/

/-- Every offset the program still holds. -/
def HeldPc.offs : HeldPc → List Int
  | .taken b | .checked b | .listening b | .deregistering b | .requeuing b _ | .committing _ b =>
    offsets b
  | .sendingBack b _ _ failed | .sendAwait b _ _ failed | .puttingBack b failed =>
    offsets b ++ offsets (failed.map (·.2))
  | .advancing b handled _ => offsets b ++ offsets handled
  | .reconsuming _ done rest => offsets (done.map (·.1)) ++ offsets rest
  | .reconsumeAwait _ done x rest => offsets (done.map (·.1)) ++ offsets (x :: rest)
  | .finishing => []

theorem handledOf_sublist (b : List MessageExt) (failed : List (Nat × MessageExt)) :
    (handledOf b failed).Sublist b := by
  have h : ((b.zipIdx.filter fun p => !failed.any fun f => f.1 == p.2).map (·.1)).Sublist
      (b.zipIdx.map (·.1)) := filter_sublist.map _
  rwa [zipIdx_map_fst] at h

variable {b ms : List MessageExt} {m : Mode} {g g' cur : Nat} {r r' : Row} {pc pc' : HeldPc}
  {evs tr : List QEvent} {manual : Bool} {offs : List Int} {q q' : Queue}

theorem offsets_subset {a : List MessageExt} (h : ∀ x ∈ a, x ∈ b) :
    ∀ o ∈ offsets a, o ∈ offsets b := by
  intro o ho
  obtain ⟨x, hx, rfl⟩ := mem_offsets.mp ho
  exact mem_offsets.mpr ⟨x, h x hx, rfl⟩

theorem orderlyNext_offs (auto : Bool) (status : Option ConsumeOrderlyStatus)
    (b : List MessageExt) : ∀ o ∈ (orderlyNext auto status b).offs, o ∈ offsets b := by
  intro o ho
  unfold orderlyNext at ho
  split at ho <;> first | exact ho | cases ho

theorem afterReconsume_offs (auto : Bool) (done : List (MessageExt × Bool)) :
    ∀ o ∈ (afterReconsume auto done).offs, o ∈ offsets (done.map (·.1)) := by
  intro o ho
  unfold afterReconsume at ho
  split at ho
  · exact ho
  · split at ho
    · exact ho
    · cases ho

variable (h : HeldRule m g r pc evs r' pc')
include h

theorem HeldRule.offs_subset : ∀ o ∈ pc'.offs, o ∈ pc.offs := by
  intro o ho
  cases h with
  | handOrderly hm hb | handConcurrent hm hb =>
    have ho' : o ∈ offsets _ := ho
    rwa [hb] at ho'
  | broadcast | ackedWhole | ackedSome | retry | reconsumeSent | reconsumeFailed =>
    simpa [HeldPc.offs] using ho
  | failed hx =>
    have hmem := mem_offsets.mpr ⟨_, mem_of_getElem? hx, rfl⟩
    simp only [HeldPc.offs, map_append, map_cons, map_nil, offsets_append,
      offsets_cons, offsets_nil, mem_append,
      mem_singleton] at ho ⊢
    rcases ho with ho | ho | rfl
    · exact .inl ho
    · exact .inr ho
    · exact .inl hmem
  | allBack | putBack =>
    rcases mem_append.mp ho with ho | ho
    · exact mem_append_left _ ho
    · exact mem_append_left _
        (offsets_subset (fun x hx => (handledOf_sublist _ _).subset hx) o ho)
  | advance now => exact mem_append_left _ ho
  | answer auto status hm hp => exact orderlyNext_offs auto status _ o ho
  | reconsumed => exact mem_append_left _ (afterReconsume_offs _ _ o ho)
  | stale | deregister | requeue | commit => cases ho
  | _ => exact ho

theorem HeldRule.pending_cases :
    r'.pending = r.pending ∨ ∃ b sent,
      evs = [.putBack g r.epoch r.pending.isSome (offsets b) sent] ∧
      r' = r.requeuePending b ∧ ∀ o ∈ offsets b, o ∈ pc.offs := by
  cases h with
  | putBack => exact .inr ⟨_, _, rfl, rfl, fun o ho => mem_append_right _ ho⟩
  | requeue => exact .inr ⟨_, _, rfl, rfl, fun o ho => ho⟩
  | handConcurrent hm hb =>
    rename_i b b'
    obtain ⟨i, h, _⟩ := r.registerInflightMsgs_writes b'
    exact .inl (by rw [h])
  | advance now =>
    rename_i b handled floor
    obtain ⟨c, a, h⟩ := r.advanceConsumeOffset_writes handled floor g now
    exact .inl (by rw [h])
  | deregister =>
    rename_i b
    obtain ⟨i, h⟩ := r.deregisterInflightMsgs_writes b
    exact .inl (by rw [h])
  | commit now =>
    rename_i b manual
    obtain ⟨c, a, h⟩ := r.advanceConsumeOffset_writes b none g now
    exact .inl (by rw [h])
  | _ => exact .inl rfl

theorem HeldRule.handed_mem (he : .handed g' ms ∈ evs) :
    g' = g ∧ ∀ o ∈ offsets ms, o ∈ pc.offs := by
  cases h with
  | handOrderly hm hb | handConcurrent hm hb =>
    cases mem_singleton.mp he
    refine ⟨rfl, fun o ho => ?_⟩
    rwa [hb] at ho
  | _ => simp at he

theorem HeldRule.advanced_mem
    (he : .advanced g' cur manual offs ∈ evs) : g' = g ∧ ∀ o ∈ offs, o ∈ pc.offs := by
  cases h with
  | advance now =>
    cases mem_singleton.mp he
    exact ⟨rfl, fun o ho => mem_append_right _ ho⟩
  | commit now =>
    cases mem_singleton.mp he
    exact ⟨rfl, fun o ho => ho⟩
  | _ => simp at he

omit h

/-! ## 2. Provenance -/

/-- A put-back that finds a buffer meets the generation its batch was taken under. -/
def OwnPutBack : QEvent → Prop
  | .putBack g cur buffered _ _ => buffered = true → g = cur
  | _ => True

instance : DecidablePred OwnPutBack := fun e => by
  apply QEvent.casesOn (motive := fun e => Decidable (OwnPutBack e)) e
  case putBack =>
    exact fun g cur buffered _ _ => inferInstanceAs (Decidable (buffered = true → g = cur))
  all_goals intros; exact .isTrue trivial

/-- The batch in dispatch passes its check. -/
def QEvent.checks : QEvent → Bool
  | .checked _ => true
  | _ => false

/-- What has happened since a batch last passed its check. -/
def sinceChecked (tr : List QEvent) : List QEvent := tr.reverse.takeWhile fun e => !e.checks

/-- **The condition on the schedule**: no retirement or reset of the queue falls between the check
of a batch and its put-back into a buffer. -/
def PutBackInTime (pre : List QEvent) : QEvent → Prop
  | .putBack _ _ buffered _ _ => buffered = true → ∀ e ∈ sinceChecked pre, e.retires = false
  | _ => True

instance (pre : List QEvent) : DecidablePred (PutBackInTime pre) := fun e => by
  apply QEvent.casesOn (motive := fun e => Decidable (PutBackInTime pre e)) e
  case putBack =>
    exact fun _ _ buffered _ _ =>
      inferInstanceAs (Decidable (buffered = true → ∀ e ∈ sinceChecked pre, e.retires = false))
  all_goals intros; exact .isTrue trivial

/-- The program has passed the check and has not ended. -/
def HeldPc.past : HeldPc → Bool
  | .taken _ | .finishing => false
  | _ => true

/-- The generation of a batch is current as long as nothing was retired since its check. -/
def InTime (tr : List QEvent) (q : Queue) : Prop :=
  ∀ g pc, q.held = some (g, pc) → pc.past = true →
    (∀ e ∈ sinceChecked tr, e.retires = false) → q.row.epoch = g

theorem sinceChecked_append (h : ∀ e ∈ evs, e.checks = false) (tr : List QEvent) :
    sinceChecked (tr ++ evs) = evs.reverse ++ sinceChecked tr := by
  unfold sinceChecked
  rw [reverse_append, takeWhile_append_of_pos]
  intro e he
  rw [h e (mem_reverse.mp he)]
  rfl

theorem QEvent.not_checks {e : QEvent} (h : e.ofBatch = false) : e.checks = false := by
  cases e <;> first | rfl | cases h

theorem Row.removeExpired_epoch (off : Int) (r : Row) :
    (r.removeExpiredEntryIfStillHead off).epoch = r.epoch := by
  obtain ⟨i, p, h⟩ := r.removeExpiredEntryIfStillHead_writes off
  rw [h]
  rfl

theorem inTime_step (hi : InTime tr q) (hs : QStep m q evs q') : InTime (tr ++ evs) q' := by
  have hkeep : ∀ g pc, q.held = some (g, pc) → pc.past = true → (∀ e ∈ evs, e.checks = false) →
      (q'.row.epoch = q.row.epoch ∨ ∃ e ∈ evs, e.retires = true) →
      (∀ e ∈ sinceChecked (tr ++ evs), e.retires = false) → q'.row.epoch = g := by
    intro g pc hh hpast hno hep hsince
    rw [sinceChecked_append hno] at hsince
    rcases hep with hep | ⟨e, he, hret⟩
    · rw [hep]
      exact hi g pc hh hpast fun e he => hsince e (mem_append_right _ he)
    · cases hret.symm.trans (hsince e (mem_append_left _ (mem_reverse.mpr he)))
  intro g pc hh' hpast
  cases hs.consume with
  | quiet hev hp hc hn hm he hh =>
    exact hkeep g pc (hh ▸ hh') hpast
      (fun e h => QEvent.not_checks (QEvent.not_ofBatch (hev e h))) (.inl he)
  | pulled mq res msgs hl ho hr hh =>
    exact hkeep g pc (hh ▸ hh') hpast (fun e h => QEvent.not_checks (pulled_not_ofBatch e h))
      (.inl (Row.of_bookPull hr).1)
  | retired hev hr hh he =>
    exact hkeep g pc (hh ▸ hh') hpast
      (forall_mem_singleton.mpr (QEvent.not_checks (QEvent.not_ofBatch hev)))
      (.inr ⟨_, mem_singleton_self _, he⟩)
  | removed => exact hkeep g pc hh' hpast (forall_mem_singleton.mpr rfl) (.inl rfl)
  | swept off ho =>
    refine hkeep g pc hh' hpast (fun e h => ?_) (.inl (q.row.removeExpired_epoch off))
    split at h
    · cases mem_singleton.mp h
      rfl
    · cases h
  | taken =>
    cases hh'
    cases hpast
  | held hh h =>
    have hep := h.epoch
    cases hh'
    cases h with
    | fresh hg => exact fun _ => hg.symm
    | stale => cases hpast
    | _ => exact hkeep _ _ hh rfl (by simp [QEvent.checks]) (.inl hep)
  | finished => cases hh'

theorem HeldRule.putBack_mem {buffered : Bool} {sent : List Int} (h : HeldRule m g r pc evs r' pc')
    (he : .putBack g' cur buffered offs sent ∈ evs) :
    g' = g ∧ cur = r.epoch ∧ pc.past = true ∧ evs = [.putBack g' cur buffered offs sent] := by
  cases h with
  | putBack | requeue =>
    cases mem_singleton.mp he
    exact ⟨rfl, rfl, rfl, rfl⟩
  | _ => simp at he

/-- **Put-backs in time meet their own generation.** -/
theorem ownPutBack_run (h : QRun m Queue.init tr q) (hsched : Along PutBackInTime [] tr) :
    ∀ e ∈ tr, OwnPutBack e := by
  refine (Run.invariant_when (H := Along PutBackInTime []) (fun a b hab => (along_append.mp hab).1)
    (I := fun tr q => InTime tr q ∧ ∀ e ∈ tr, OwnPutBack e)
    ⟨?_, fun _ he => (nomatch he)⟩ ?_ h hsched).2
  · intro g pc hq
    cases hq
  intro tr q evs q' _ hH hi hs
  refine ⟨inTime_step hi.1 hs, fun e he => ?_⟩
  rcases mem_append.mp he with he | he
  · exact hi.2 e he
  · cases e with
    | putBack g cur buffered offs sent =>
      obtain ⟨g', pc, pc', row', hh, hrule⟩ := hs.batch_event he rfl
      obtain ⟨rfl, rfl, hpast, rfl⟩ := hrule.putBack_mem he
      have hnow : PutBackInTime tr (.putBack g _ buffered offs sent) := hH.at
      exact fun hbuf => (hi.1 _ pc hh hpast (hnow hbuf)).symm
    | _ => trivial

/-- Every put-back is in time where nothing is retired. -/
theorem putBackInTime_of_kept {pre : List QEvent} (h : ∀ e ∈ pre ++ tr, e.retires = false) :
    Along PutBackInTime pre tr := by
  induction tr generalizing pre with
  | nil => trivial
  | cons e es ih =>
    refine ⟨?_, ih (by simpa using h)⟩
    cases e with
    | putBack =>
      intro _ e he
      exact h e (mem_append_left _ (mem_reverse.mp ((takeWhile_sublist _).subset he)))
    | _ => trivial

/-- The loop registered for generation `g` pulled a message at `o` in that generation. -/
def PulledIn (tr : List QEvent) (g : Nat) (o : Int) : Prop :=
  ∃ t req res ms, .registered t g ∈ tr ∧ .pulled t g req res ms ∈ tr ∧ o ∈ offsets ms

theorem PulledIn.mono {o : Int} (h : PulledIn tr g o) (evs : List QEvent) :
    PulledIn (tr ++ evs) g o := by
  obtain ⟨t, req, res, ms, h1, h2, h3⟩ := h
  exact ⟨t, req, res, ms, mem_append_left _ h1, mem_append_left _ h2, h3⟩

/-- What is buffered or in dispatch has the property `Q` with its generation. -/
structure Carried (Q : List QEvent → Nat → Int → Prop) (tr : List QEvent) (q : Queue) : Prop where
  buffer : ∀ o ∈ offsets q.row.buffer, Q tr q.row.epoch o
  held : ∀ g pc, q.held = some (g, pc) → ∀ o ∈ pc.offs, Q tr g o

theorem carried_init (Q : List QEvent → Nat → Int → Prop) : Carried Q [] Queue.init where
  buffer := fun _ h => nomatch h
  held := fun _ _ h => nomatch h

theorem notMem_of_quiet (hev : ∀ e ∈ evs, e.consumeSide = false) {e : QEvent}
    (he : e.consumeSide = true) : e ∉ evs := by
  intro hm
  cases (hev e hm).symm.trans he

theorem Row.removeExpired_buffer (off : Int) (r : Row) :
    (r.removeExpiredEntryIfStillHead off).buffer.Sublist r.buffer := by
  unfold Row.removeExpiredEntryIfStillHead Row.removeProcessQueueEntryLocked Row.buffer
  split
  · cases r.pending with
    | none => exact List.Sublist.refl _
    | some dq => exact filter_sublist
  · exact List.Sublist.refl _

theorem Row.requeuePending_buffer (h : r.pending.isSome = true) (b : List MessageExt) :
    (r.requeuePending b).buffer = b ++ r.buffer := by
  obtain ⟨dq, hdq⟩ := Option.isSome_iff_exists.mp h
  simp [Row.requeuePending, Row.buffer, hdq]

theorem Row.requeuePending_none (h : ¬ r.pending.isSome = true) (b : List MessageExt) :
    r.requeuePending b = r := by
  have hnone : r.pending = none := by simpa using h
  unfold Row.requeuePending
  rw [hnone, Option.map_none, ← hnone]

/-- **A property carried from the pull to the listener**: it has to hold of what is pulled, to
persist, and to survive a put-back into the generation it meets. -/
theorem carried_step {Q : List QEvent → Nat → Int → Prop}
    (hmono : ∀ g o, Q tr g o → Q (tr ++ evs) g o)
    (hpull : ∀ t req res ms, .pulled t q.row.epoch req res ms ∈ evs →
      ∀ o ∈ offsets ms, Q (tr ++ evs) q.row.epoch o)
    (hput : ∀ g offs sent, .putBack g q.row.epoch true offs sent ∈ evs →
      ∀ o, Q tr g o → Q tr q.row.epoch o) (hi : Carried Q tr q) (hs : QStep m q evs q') :
    Carried Q (tr ++ evs) q' := by
  have hbuf : ∀ o ∈ offsets q.row.buffer, Q (tr ++ evs) q.row.epoch o :=
    fun o ho => hmono _ o (hi.buffer o ho)
  have hheld : ∀ g pc, q.held = some (g, pc) → ∀ o ∈ pc.offs, Q (tr ++ evs) g o :=
    fun g pc hh o ho => hmono g o (hi.held g pc hh o ho)
  cases hs.consume with
  | quiet hev hp _ _ _ he hh =>
    refine ⟨?_, hh ▸ hheld⟩
    rw [Row.buffer_congr hp, he]
    exact hbuf
  | pulled mq res msgs hl ho hr hh =>
    rename_i t sub off
    obtain ⟨hep, hbp⟩ := Row.of_bookPull hr
    refine ⟨?_, hh ▸ hheld⟩
    rw [hep, hbp, offsets_append]
    intro o hmem
    rcases mem_append.mp hmem with hmem | hmem
    · exact hbuf o hmem
    · exact hpull t off res msgs mem_cons_self o hmem
  | retired hev hr hh =>
    refine ⟨?_, hh ▸ hheld⟩
    rw [hr]
    intro o hmem
    cases hmem
  | removed => exact ⟨hbuf, hheld⟩
  | swept off ho =>
    refine ⟨fun o hmem => ?_, hheld⟩
    have hsub := q.row.removeExpired_buffer off
    rw [q.row.removeExpired_epoch off]
    exact hbuf o (offsets_subset (fun x hx => hsub.subset hx) o hmem)
  | taken hh hb hp =>
    rw [Row.offsets_buffer hp] at hbuf
    refine ⟨fun o hmem => hbuf o (mem_append_right _ hmem), ?_⟩
    intro g pc h o hmem
    cases h
    exact hbuf o (mem_append_left _ hmem)
  | held hh h =>
    rename_i g pc pc' row'
    constructor
    · intro o hmem
      rw [h.epoch]
      rcases h.pending_cases with hp | ⟨b, sent, he, hr, hb⟩
      · exact hbuf o (Row.buffer_congr hp ▸ hmem)
      · have hmem' : o ∈ offsets row'.buffer := hmem
        rw [hr] at hmem'
        by_cases hp : q.row.pending.isSome = true
        · rw [Row.requeuePending_buffer hp, offsets_append] at hmem'
          rcases mem_append.mp hmem' with hmem' | hmem'
          · rw [hp] at he
            have hmine := hi.held g pc hh o (hb o hmem')
            exact hmono _ o (hput g _ sent (he ▸ mem_singleton.mpr rfl) o hmine)
          · exact hbuf o hmem'
        · rw [Row.requeuePending_none hp] at hmem'
          exact hbuf o hmem'
    · intro g' pc0 hh' o ho
      cases hh'
      exact hheld g pc hh o (h.offs_subset o ho)
  | finished hh => exact ⟨hbuf, fun g pc h => nomatch h⟩

theorem QStep.handed_mem (hs : QStep m q evs q') (he : .handed g ms ∈ evs) :
    ∃ pc, q.held = some (g, pc) ∧ ∀ o ∈ offsets ms, o ∈ pc.offs := by
  obtain ⟨g', pc, pc', row', hh, h⟩ := hs.batch_event he rfl
  obtain ⟨rfl, hsub⟩ := h.handed_mem he
  exact ⟨pc, hh, hsub⟩

theorem QStep.advanced_mem (hs : QStep m q evs q') (he : .advanced g cur manual offs ∈ evs) :
    ∃ pc, q.held = some (g, pc) ∧ ∀ o ∈ offs, o ∈ pc.offs := by
  obtain ⟨g', pc, pc', row', hh, h⟩ := hs.batch_event he rfl
  obtain ⟨rfl, hsub⟩ := h.advanced_mem he
  exact ⟨pc, hh, hsub⟩

/-- **Messages stay in the generation that pulled them.** -/
structure Provenance (tr : List QEvent) (q : Queue) : Prop extends Carried PulledIn tr q where
  handed : ∀ g ms, .handed g ms ∈ tr → ∀ o ∈ offsets ms, PulledIn tr g o
  advanced : ∀ g cur manual offs, .advanced g cur manual offs ∈ tr → ∀ o ∈ offs, PulledIn tr g o

theorem provenance_init : Provenance [] Queue.init where
  toCarried := carried_init _
  handed := fun _ _ h => nomatch h
  advanced := fun _ _ _ _ h => nomatch h

theorem provenance_step (ht : Tokens tr q) (hi : Provenance tr q) (hput : ∀ e ∈ evs, OwnPutBack e)
    (hs : QStep m q evs q') : Provenance (tr ++ evs) q' := by
  have hcar : Carried PulledIn (tr ++ evs) q' := by
    refine carried_step (fun g o h => h.mono evs) ?_ ?_ hi.toCarried hs
    · -- the owner was registered for this generation
      intro t req res ms he o ho
      have hown := (hs.stamped _ he).1
      exact ⟨t, req, res, ms, mem_append_left _ (ht.owner t hown),
        mem_append_right _ he, ho⟩
    · -- the fence says that the batch is of this generation
      intro g offs sent he o h
      have hown : OwnPutBack (.putBack g q.row.epoch true offs sent) := hput _ he
      exact hown rfl ▸ h
  refine ⟨hcar, ?_, ?_⟩
  · intro g ms hm o ho
    rcases mem_append.mp hm with hm | hm
    · exact (hi.handed g ms hm o ho).mono _
    · obtain ⟨pc, hh, hsub⟩ := hs.handed_mem hm
      exact (hi.held g pc hh o (hsub o ho)).mono _
  · intro g cur manual offs hm o ho
    rcases mem_append.mp hm with hm | hm
    · exact (hi.advanced g cur manual offs hm o ho).mono _
    · obtain ⟨pc, hh, hsub⟩ := hs.advanced_mem hm
      exact (hi.held g pc hh o (hsub o ho)).mono _

/-- **Provenance along every run whose put-backs meet their own generation.** -/
theorem provenance_run (h : QRun m Queue.init tr q) (hput : ∀ e ∈ tr, OwnPutBack e) :
    Provenance tr q :=
  Run.invariant_of provenance_init
    (fun _ _ _ _ hr hev hi hs => provenance_step (tokens_run hr) hi
      (fun e he => hev e (mem_append_right _ he)) hs) h hput

/-! ## 3. Where a generation starts -/

/-- What a broker answers to a pull at `req`: strictly increasing offsets from `req` on, and a next
cursor behind them all. -/
def PullResult.Ordered (req : Int) (res : PullResult) : Prop :=
  (offsets res.msgFoundList).Pairwise (· < ·) ∧
    (∀ o ∈ offsets res.msgFoundList, 0 ≤ o ∧ req ≤ o ∧ o < res.nextBeginOffset) ∧
    (res.status ≠ .offsetIllegal → req ≤ res.nextBeginOffset)

instance (req : Int) (res : PullResult) : Decidable (res.Ordered req) :=
  inferInstanceAs (Decidable (_ ∧ _ ∧ _))

/-- The broker answers in order, and the filter hooks only drop messages. -/
def BrokerOrdered : QEvent → Prop
  | .pulled _ _ req res ms => res.Ordered req ∧ ms.Sublist res.msgFoundList
  | _ => True

instance : DecidablePred BrokerOrdered := fun e => by
  apply QEvent.casesOn (motive := fun e => Decidable (BrokerOrdered e)) e
  case pulled =>
    exact fun _ _ req res ms =>
      inferInstanceAs (Decidable (res.Ordered req ∧ ms.Sublist res.msgFoundList))
  all_goals intros; exact .isTrue trivial

theorem BrokerOrdered.booked {t : Nat} {req : Int} {res : PullResult}
    (h : BrokerOrdered (.pulled t g req res ms)) :
    (offsets ms).Pairwise (· < ·) ∧
      ∀ o ∈ offsets ms, 0 ≤ o ∧ req ≤ o ∧ o < res.nextBeginOffset := by
  obtain ⟨⟨hinc, hin, _⟩, hsub⟩ := h
  have hsub' : (offsets ms).Sublist (offsets res.msgFoundList) := hsub.map _
  exact ⟨hinc.sublist hsub', fun o ho => hin o (hsub'.subset ho)⟩

/-- A cursor was installed for the generation. -/
def Installed (tr : List QEvent) (g : Nat) (off : Int) : Prop :=
  .placed g off ∈ tr ∨ ∃ t o, .resolved t o g off ∈ tr

/-- `c` lies at or after every lower bound of the installed cursors. -/
def StartFrom (tr : List QEvent) (g : Nat) (c : Int) : Prop :=
  ∀ o, (∀ off, Installed tr g off → o ≤ off) → o ≤ c

theorem StartFrom.mono {c : Int} (h : StartFrom tr g c) (evs : List QEvent) :
    StartFrom (tr ++ evs) g c := by
  intro o ho
  refine h o fun off hin => ho off ?_
  rcases hin with hin | ⟨t, o', hin⟩
  · exact .inl (mem_append_left _ hin)
  · exact .inr ⟨t, o', mem_append_left _ hin⟩

theorem startFrom_rule : CursorRule (fun e => OwnCursor e ∧ BrokerOrdered e) StartFrom where
  own := fun _ h => h.1
  mono := fun _ evs _ _ h _ => h.mono evs
  install := by
    intro tr g c e _ he o ho
    refine ho c ?_
    rcases he with rfl | ⟨t, o', rfl⟩
    · exact .inl (mem_append_right _ (mem_singleton.mpr rfl))
    · exact .inr ⟨t, o', mem_append_right _ (mem_singleton.mpr rfl)⟩
  pull := by
    intro tr evs t g req res ms h hG hill _ o ho
    have hreq : o ≤ req := (h.mono _) o ho
    have hnext : req ≤ res.nextBeginOffset := hG.2.1.2.2 hill
    omega

/-- **What a generation pulls lies at or after the cursors installed for it.** -/
theorem startFrom_run (h : QRun m Queue.init tr q) (hev : ∀ e ∈ tr, OwnCursor e ∧ BrokerOrdered e) :
    ∀ t g req res ms, .pulled t g req res ms ∈ tr → ∀ x ∈ offsets ms, StartFrom tr g x := by
  refine Run.invariant_of (I := fun tr _ => ∀ t g req res ms, .pulled t g req res ms ∈ tr →
    ∀ x ∈ offsets ms, StartFrom tr g x) (fun _ _ _ _ _ h => nomatch h) ?_ h hev
  intro tr q evs q' hr hG hi hs t g req res ms hm x hx
  rcases mem_append.mp hm with hm | hm
  · exact (hi t g req res ms hm x hx).mono evs
  · have hreq := startFrom_rule.pulled_at hr (fun e he => hG e (mem_append_left _ he)) hs hm
    have hord : BrokerOrdered (.pulled t g req res ms) := (hG _ (mem_append_right _ hm)).2
    have hle : req ≤ x := (hord.booked.2 x hx).2.1
    intro o ho
    have hlow : o ≤ req := hreq.mono evs o ho
    omega

/-! ## 4. The consumer -/

/-- **Generation fencing.** -/
structure GenerationFenced (tr : List QEvent) (r : Row) : Prop where
  /-- what is put back goes into the buffer of the generation it was taken under -/
  putBack : ∀ g cur offs sent, .putBack g cur true offs sent ∈ tr → g = cur
  /-- what waits for dispatch was pulled by the current generation itself -/
  buffer : ∀ o ∈ offsets r.buffer, PulledIn tr r.epoch o
  /-- a generation delivers what it pulled itself -/
  handed : ∀ g ms, .handed g ms ∈ tr → ∀ o ∈ offsets ms, PulledIn tr g o
  /-- and commits what it pulled itself -/
  advanced : ∀ g cur manual offs, .advanced g cur manual offs ∈ tr → ∀ o ∈ offs, PulledIn tr g o
  /-- after a reset to `o` whose generation was told to start at `o`, nothing before `o` -/
  reset : ∀ g o, .retired g (some o) ∈ tr → (∀ off, Installed tr g off → off = o) →
    ∀ x, PulledIn tr g x → o ≤ x

/-- **Generation fencing of the buffer**, for every queue of the consumer and every run in which no
queue is retired between the check of a batch and its put-back, and no loop overwrites the cursor
of a newer owner. -/
theorem consumer_generation_fenced {cfg : ConsumerConfig} {orderly : Bool} {clientId : String}
    {tr : List (String × QEvent)} {s : Sys} (h : Sys.Run (.init cfg orderly clientId) tr s)
    (k : String) (hbroker : ∀ e ∈ onKey k tr, BrokerOrdered e)
    (hsched : Along PutBackInTime [] (onKey k tr)) (hcursor : ∀ e ∈ onKey k tr, OwnCursor e) :
    GenerationFenced (onKey k tr) (s.row k) := by
  have hrun := init_run_refines k h
  have hput := ownPutBack_run hrun hsched
  have hprov := provenance_run hrun hput
  have hstart := startFrom_run hrun fun e he => ⟨hcursor e he, hbroker e he⟩
  refine ⟨?_, hprov.buffer, hprov.handed, hprov.advanced, ?_⟩
  · intro g cur offs sent hm
    have hown : OwnPutBack (.putBack g cur true offs sent) := hput _ hm
    exact hown rfl
  · rintro g o - hin x ⟨t, req, res, ms, _, hm, hx⟩
    refine hstart t g req res ms hm x hx o fun off hoff => ?_
    exact Int.le_of_eq (hin off hoff).symm

/-- The event hands the message at `o` over under generation `g`. -/
def QEvent.delivers (g : Nat) (o : Int) : QEvent → Bool
  | .handed g' ms => g' == g && (offsets ms).contains o
  | _ => false

namespace Script

def msg (o : Int) : MessageExt :=
  { topic := "T", body := none, properties := ⟨[]⟩, queueId := 0, queueOffset := o, bornTimestamp := 0
    msgId := "", reconsumeTimes := 0, brokerName := "b" }

/-- The loop at position `i` books an answer with these offsets. -/
def answer (i : Nat) (os : List Int) (next : Int) : Action :=
  .task i (.loop (.response none (some ⟨.found, next, os.map msg⟩)))

/-- The dispatch loop takes a batch and hands it over. -/
def deliver : List Action := List.replicate 4 (.dispatch .go)

/-- The listener defers the batch of one message, and its send-back begins. -/
def defer : List Action :=
  [.dispatch (.concurrently (some .reconsumeLater) 0 0), .dispatch .go]

/-- The send-back fails: the message is put back and the batch finished. -/
def putBack : List Action := .dispatch (.sendBack false) :: List.replicate 5 (.dispatch .go)

/-- The message at 0 is put back before the queue is reset to 9. -/
def putBackThenReset : List Action :=
  start 0 ++ round 0 ++ [answer 0 [0] 1] ++ deliver ++ defer ++ putBack ++ reset 1 9 ++ round 1
    ++ [.task 1 (.loop (.offset (some 9))), answer 1 [9] 10] ++ deliver

/-- The queue is reset to 9 while the message at 0 is being sent back. -/
def resetThenPutBack : List Action :=
  start 0 ++ round 0 ++ [answer 0 [0] 1] ++ deliver ++ defer ++ reset 1 9 ++ round 1
    ++ [.task 1 (.loop (.offset (some 9))), answer 1 [9] 10] ++ putBack ++ deliver

end Script

open Script

/-- The reset after the put-back is fenced, and its generation delivers the message at 9. -/
theorem consumer_generation_fenced_reset :
    GenerationFenced (onKey "Tb0" ((Sys.init cfg false "c").traceOf putBackThenReset))
        (((Sys.init cfg false "c").after putBackThenReset).row "Tb0")
      ∧ (onKey "Tb0" ((Sys.init cfg false "c").traceOf putBackThenReset)).any
        (QEvent.delivers 1 9) = true :=
  ⟨consumer_generation_fenced (Sys.run_after _ _ (by decide)) "Tb0" (by decide) (by decide)
    (by decide), by decide⟩

/-- **A batch of the old generation is delivered by the new one.** The reset to 9 falls between
taking the message at 0 and putting it back; the new generation has pulled the message at 9 by
then, so there is a buffer, and it delivers the message at 0. -/
theorem stale_batch_put_back :
    ∃ tr s, Sys.Run (.init cfg false "c") tr s ∧
      (∀ e ∈ onKey "Tb0" tr, BrokerOrdered e ∧ OwnCursor e) ∧
      .retired 1 (some 9) ∈ onKey "Tb0" tr ∧ .putBack 0 1 true [0] [] ∈ onKey "Tb0" tr ∧
      (onKey "Tb0" tr).any (QEvent.delivers 1 0) = true ∧
      ¬ GenerationFenced (onKey "Tb0" tr) (s.row "Tb0") := by
  refine ⟨_, _, Sys.run_after _ resetThenPutBack (by decide), by decide, by decide,
    by decide, by decide, ?_⟩
  intro hf
  exact absurd (hf.putBack 0 1 [0] [] (by decide)) (by decide)

end RocketMQ
