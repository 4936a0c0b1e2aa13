/-
  File:      RocketMQ/Push/Line.lean
  Subject:   The line of messages a generation still has to deal with.

  The batch in dispatch and the buffer behind it form one line: what the batch may still put back,
  followed by what waits. Pulls append to it, everything else only takes out of it.

  * `QStep.line_cases`: what a step does to the line.
-/
import RocketMQ.Push.Generation

namespace RocketMQ

open List Machine

/-! ## 1. The line -/

/-- The offsets a batch may still put back in front of the buffer, in order. -/
def HeldPc.owed : HeldPc → List Int
  | .taken b | .checked b | .listening b | .requeuing b _ => offsets b
  | .sendingBack b _ i failed | .sendAwait b _ i failed =>
    offsets (failed.map (·.2)) ++ offsets (b.drop i)
  | .puttingBack _ failed => offsets (failed.map (·.2))
  | .reconsuming _ done rest => offsets (done.map (·.1)) ++ offsets rest
  | .reconsumeAwait _ done x rest => offsets (done.map (·.1)) ++ offsets (x :: rest)
  | .advancing _ _ _ | .deregistering _ | .committing _ _ | .finishing => []

/-- What the batch of the current generation may still put back. -/
def Queue.owed (q : Queue) : List Int :=
  match q.held with
  | some (g, pc) => if g = q.row.epoch then pc.owed else []
  | none => []

/-- **The line**: batch first, then buffer. -/
def Queue.line (q : Queue) : List Int := q.owed ++ offsets q.row.buffer

variable {q q' : Queue} {pc pc' : HeldPc} {g : Nat} {b : List MessageExt} {m : Mode} {r r' : Row}
  {evs tr : List QEvent} {o : Int}

theorem Queue.owed_own (h : q.held = some (q.row.epoch, pc)) : q.owed = pc.owed := by
  unfold Queue.owed
  rw [h]
  exact if_pos rfl

theorem Queue.owed_stale (h : q.held = some (g, pc)) (hg : g ≠ q.row.epoch) : q.owed = [] := by
  unfold Queue.owed
  rw [h]
  exact if_neg hg

theorem Queue.owed_none (h : q.held = none) : q.owed = [] := by
  unfold Queue.owed
  rw [h]

theorem Queue.line_congr (hh : q'.held = q.held) (he : q'.row.epoch = q.row.epoch)
    (hp : q'.row.pending = q.row.pending) : q'.line = q.line := by
  unfold Queue.line Queue.owed Row.buffer
  rw [hh, he, hp]

theorem Queue.line_pulled {mq : MessageQueue} {res : PullResult} (hh : q'.held = q.held)
    (hr : q'.row = q.row.bookPull mq res b) : q'.line = q.line ++ offsets b := by
  obtain ⟨hep, hbuf⟩ := Row.of_bookPull hr
  unfold Queue.line Queue.owed
  rw [hh, hep, hbuf, offsets_append, append_assoc]

theorem HeldPc.owed_subset (pc : HeldPc) : ∀ o ∈ pc.owed, o ∈ pc.offs := by
  intro o ho
  cases pc with
  | sendingBack | sendAwait =>
    rcases mem_append.mp ho with ho | ho
    · exact mem_append_right _ ho
    · exact mem_append_left _ (offsets_subset (fun x hx => mem_of_mem_drop hx) o ho)
  | puttingBack b failed => exact mem_append_right _ ho
  | advancing | deregistering | committing | finishing => cases ho
  | _ => exact ho

theorem offsets_drop_getElem? {i : Nat} {x : MessageExt} (h : b[i]? = some x) :
    offsets (b.drop i) = x.queueOffset :: offsets (b.drop (i + 1)) := by
  obtain ⟨hi, hx⟩ := List.getElem?_eq_some_iff.mp h
  rw [drop_eq_getElem_cons hi, offsets_cons, hx]

theorem offsets_sublist {a : List MessageExt} (h : a.Sublist b) :
    (offsets a).Sublist (offsets b) := h.map _

theorem orderlyNext_owed (auto : Bool) (status : Option ConsumeOrderlyStatus)
    (b : List MessageExt) : (orderlyNext auto status b).owed.Sublist (offsets b) := by
  unfold orderlyNext
  split <;> first | exact List.Sublist.refl _ | exact nil_sublist _

theorem afterReconsume_owed (auto : Bool) (done : List (MessageExt × Bool)) :
    (afterReconsume auto done).owed.Sublist (offsets (done.map (·.1))) := by
  unfold afterReconsume
  split
  · exact List.Sublist.refl _
  · split
    · exact nil_sublist _
    · exact nil_sublist _

/-- **A section keeps the order of what the batch may put back**, and a put-back moves it in front
of the buffer. -/
theorem HeldRule.owed_sublist (h : HeldRule m g r pc evs r' pc') :
    pc'.owed.Sublist pc.owed ∧
      (pc'.owed ++ offsets r'.buffer).Sublist (pc.owed ++ offsets r.buffer) := by
  -- a section that leaves the buffer alone needs the first half only
  have hkeep : r'.pending = r.pending → pc'.owed.Sublist pc.owed →
      pc'.owed.Sublist pc.owed ∧
        (pc'.owed ++ offsets r'.buffer).Sublist (pc.owed ++ offsets r.buffer) := by
    intro hp ho
    rw [Row.buffer_congr hp]
    exact ⟨ho, ho.append (List.Sublist.refl _)⟩
  have hput : ∀ b, pc.owed = offsets b → pc'.owed = [] → r' = r.requeuePending b →
      pc'.owed.Sublist pc.owed ∧
        (pc'.owed ++ offsets r'.buffer).Sublist (pc.owed ++ offsets r.buffer) := by
    intro b hb hnil hr
    rw [hnil, hb, hr, nil_append]
    refine ⟨nil_sublist _, ?_⟩
    by_cases hp : r.pending.isSome = true
    · rw [Row.requeuePending_buffer hp, offsets_append]
    · rw [Row.requeuePending_none hp]
      exact sublist_append_right _ _
  have hpend := h.pending_cases
  cases h with
  | putBack | requeue => exact hput _ rfl rfl rfl
  | handOrderly hm hb =>
    refine hkeep rfl ?_
    show (offsets _).Sublist (offsets _)
    rw [hb]
  | handConcurrent hm hb =>
    rcases hpend with hp | ⟨_, _, he, _⟩
    · refine hkeep hp ?_
      show (offsets _).Sublist (offsets _)
      rw [hb]
    · cases he
  | ackedSome n delay hm hn => exact hkeep rfl (offsets_sublist (drop_sublist _ _))
  | skip hx hc | sent hx =>
    refine hkeep rfl ((List.Sublist.refl _).append ?_)
    rw [offsets_drop_getElem? hx]
    exact sublist_cons_self _ _
  | failed hx =>
    refine hkeep rfl ?_
    show (offsets (List.map _ (_ ++ [_])) ++ _).Sublist (_ ++ _)
    rw [offsets_drop_getElem? hx, map_append, offsets_append, append_assoc]
    exact List.Sublist.refl _
  | allBack | stale | broadcast | ackedWhole => exact hkeep rfl (nil_sublist _)
  | someLeft hi hf => exact hkeep rfl (sublist_append_left _ _)
  | advance | deregister | commit =>
    rcases hpend with hp | ⟨_, _, he, _⟩
    · exact hkeep hp (List.Sublist.refl _)
    · cases he
  | answer auto status hm hp => exact hkeep rfl (orderlyNext_owed auto status _)
  | reconsumed => exact hkeep rfl ((afterReconsume_owed _ _).trans (sublist_append_left _ _))
  | retry | reconsumeSent | reconsumeFailed => exact hkeep rfl (by simp [HeldPc.owed])
  | _ => exact hkeep rfl (List.Sublist.refl _)

theorem HeldRule.stale_buffer (h : HeldRule m g r pc evs r' pc') (hput : ∀ e ∈ evs, OwnPutBack e)
    (hg : g ≠ r.epoch) : r'.buffer = r.buffer := by
  rcases h.pending_cases with hp | ⟨b, sent, he, hr, _⟩
  · exact Row.buffer_congr hp
  · rw [hr]
    by_cases hp : r.pending.isSome = true
    · have hown : OwnPutBack (.putBack g r.epoch r.pending.isSome (offsets b) sent) :=
        hput _ (he ▸ mem_singleton.mpr rfl)
      exact absurd (hown hp) hg
    · rw [Row.requeuePending_none hp]

theorem HeldRule.line_sublist (hh : q.held = some (g, pc)) (h : HeldRule m g q.row pc evs r' pc')
    (hput : ∀ e ∈ evs, OwnPutBack e) :
    ({ q with row := r', held := some (g, pc') } : Queue).line.Sublist q.line := by
  have hep := h.epoch
  have howed : ({ q with row := r', held := some (g, pc') }).owed
      = if g = q.row.epoch then pc'.owed else [] := by
    show (if g = r'.epoch then pc'.owed else []) = _
    rw [hep]
  unfold Queue.line
  rw [howed]
  by_cases hg : g = q.row.epoch
  · subst hg
    rw [if_pos rfl, Queue.owed_own hh]
    exact h.owed_sublist.2
  · -- a batch of an older generation puts nothing back
    rw [if_neg hg, Queue.owed_stale hh hg]
    have hbuf := h.stale_buffer hput hg
    rw [hbuf]

theorem Queue.line_taken {rest : List MessageExt} {n : Option Nat} (hh : q.held = none)
    (hp : q.row.pending = some (b ++ rest)) :
    ({ q with
        row := { q.row with pending := some rest, inflight := n }
        held := some (q.row.epoch, .taken b) } : Queue).line = q.line := by
  unfold Queue.line
  rw [Queue.owed_none hh, Row.offsets_buffer hp, nil_append]
  show (if q.row.epoch = q.row.epoch then offsets b else []) ++ offsets rest = _
  rw [if_pos rfl]

/-- **What a step does to the line**: it takes messages out, appends what it pulled, or starts the
next generation with an empty line. -/
theorem QStep.line_cases (hu : Unowned tr q) (hput : ∀ e ∈ evs, OwnPutBack e)
    (hs : QStep m q evs q') :
    (q'.row.epoch = q.row.epoch ∧ q'.line.Sublist q.line) ∨
    (∃ t req res ms, .pulled t q.row.epoch req res ms ∈ evs ∧
      q'.row.epoch = q.row.epoch ∧ q'.line = q.line ++ offsets ms) ∨
    (q'.row.epoch = q.row.epoch + 1 ∧ q'.line = []) := by
  cases hs.consume with
  | quiet hev hp _ _ _ he hh =>
    left
    rw [Queue.line_congr hh he hp]
    exact ⟨he, List.Sublist.refl _⟩
  | pulled mq res msgs hl ho hr hh =>
    rename_i t sub off
    exact .inr (.inl ⟨t, off, res, msgs, mem_cons_self .., (Row.of_bookPull hr).1,
      Queue.line_pulled hh hr⟩)
  | retired hev hr hh =>
    have hep : q'.row.epoch = q.row.epoch + 1 := by rw [hr]; rfl
    refine .inr (.inr ⟨hep, ?_⟩)
    have howed : q'.owed = [] := by
      cases hq : q.held with
      | none => exact Queue.owed_none (hh.trans hq)
      | some p =>
        obtain ⟨g, pc⟩ := p
        have hle := hu.held_le g pc hq
        exact Queue.owed_stale (hh.trans hq) (by omega)
    unfold Queue.line
    rw [howed, hr]
    rfl
  | removed => exact .inl ⟨rfl, List.Sublist.refl _⟩
  | swept off ho =>
    refine .inl ⟨q.row.removeExpired_epoch off, ?_⟩
    unfold Queue.line Queue.owed
    rw [show (Queue.row _).epoch = q.row.epoch from q.row.removeExpired_epoch off]
    exact (List.Sublist.refl _).append (offsets_sublist (q.row.removeExpired_buffer off))
  | taken hh hb hp =>
    refine .inl ⟨rfl, ?_⟩
    rw [Queue.line_taken hh hp]
  | held hh h => exact .inl ⟨h.epoch, h.line_sublist hh hput⟩
  | finished hh =>
    refine .inl ⟨rfl, ?_⟩
    exact sublist_append_right _ _

/-! ## 2. Order -/

/-- The cursor stands behind everything the generation has pulled. -/
def Behind (tr : List QEvent) (g : Nat) (c : Int) : Prop :=
  ∀ t req res ms, .pulled t g req res ms ∈ tr → res.nextBeginOffset ≤ c

theorem behind_rule : CursorRule (fun e => OwnCursor e ∧ BrokerOrdered e) Behind where
  own := fun _ h => h.1
  mono := by
    intro tr evs g c h hev t req res ms hm
    rcases mem_append.mp hm with hm | hm
    · exact h t req res ms hm
    · exact absurd hm (hev t req res ms)
  install := by
    intro tr g c e hun he t req res ms hm
    rcases mem_append.mp hm with hm | hm
    · exact absurd hm (hun t req res ms)
    · have hnew := mem_singleton.mp hm
      rcases he with rfl | ⟨t', o, rfl⟩ <;> cases hnew
  pull := by
    intro tr evs t g req res ms h hG hill hev t' req' res' ms' hm
    have hnext : req ≤ res.nextBeginOffset := hG.2.1.2.2 hill
    rcases mem_append.mp hm with hm | hm
    · have := h t' req' res' ms' hm
      omega
    · rcases mem_cons.mp hm with hm | hm
      · cases hm
        exact Int.le_refl _
      · exact absurd hm (hev t' req' res' ms')

/-- A message at `o` was put into the buffer of generation `g`. -/
def Fetched (tr : List QEvent) (g : Nat) (o : Int) : Prop :=
  ∃ t req res ms, .pulled t g req res ms ∈ tr ∧ o ∈ offsets ms

theorem PulledIn.fetched (h : PulledIn tr g o) : Fetched tr g o := by
  obtain ⟨t, req, res, ms, _, hm, ho⟩ := h
  exact ⟨t, req, res, ms, hm, ho⟩

theorem fetched_append : Fetched (tr ++ evs) g o ↔ Fetched tr g o ∨ Fetched evs g o := by
  constructor
  · rintro ⟨t, req, res, ms, hm, ho⟩
    rcases mem_append.mp hm with hm | hm
    · exact .inl ⟨t, req, res, ms, hm, ho⟩
    · exact .inr ⟨t, req, res, ms, hm, ho⟩
  · rintro (⟨t, req, res, ms, hm, ho⟩ | ⟨t, req, res, ms, hm, ho⟩)
    · exact ⟨t, req, res, ms, mem_append_left _ hm, ho⟩
    · exact ⟨t, req, res, ms, mem_append_right _ hm, ho⟩

/-- The three conditions the order rests on: a broker in order, and the two fences. -/
def InOrder (e : QEvent) : Prop := BrokerOrdered e ∧ OwnPutBack e ∧ OwnCursor e

instance : DecidablePred InOrder := fun _ => inferInstanceAs (Decidable (_ ∧ _ ∧ _))

section Run

variable {m : Mode} {tr evs : List QEvent} {q q' : Queue}

variable {t g : Nat} {req o : Int} {res : PullResult} {ms : List MessageExt}

theorem pulled_behind (h : QRun m Queue.init tr q) (hin : ∀ e ∈ tr ++ evs, InOrder e)
    (hs : QStep m q evs q') (he : .pulled t g req res ms ∈ evs) (ho : o ∈ offsets ms) :
    ∀ t' req' res' ms', .pulled t' g req' res' ms' ∈ tr → res'.nextBeginOffset ≤ o := by
  intro t' req' res' ms' hm
  have hbeh := behind_rule.pulled_at h
    (fun e he => ⟨(hin e (mem_append_left _ he)).2.2, (hin e (mem_append_left _ he)).1⟩)
    hs he t' req' res' ms' hm
  have hord : BrokerOrdered (.pulled t g req res ms) := (hin _ (mem_append_right _ he)).1
  have hreq := (hord.booked.2 o ho).2.1
  omega

theorem Fetched.next (h : Fetched tr g o) (hin : ∀ e ∈ tr, InOrder e) :
    0 ≤ o ∧ ∃ t req res ms, .pulled t g req res ms ∈ tr ∧ o < res.nextBeginOffset := by
  obtain ⟨t, req, res, ms, hm, ho⟩ := h
  have hord : BrokerOrdered (.pulled t g req res ms) := (hin _ hm).1
  obtain ⟨h0, _, hlt⟩ := hord.booked.2 o ho
  exact ⟨h0, t, req, res, ms, hm, hlt⟩

theorem Fetched.lt_pulled {o' : Int} (h : Fetched tr g o') (hr : QRun m Queue.init tr q)
    (hin : ∀ e ∈ tr ++ evs, InOrder e) (hs : QStep m q evs q') (he : .pulled t g req res ms ∈ evs)
    (ho : o ∈ offsets ms) : o' < o := by
  obtain ⟨_, t', req', res', ms', hm, hlt⟩ :=
    h.next fun e he => hin e (mem_append_left _ he)
  have hle := pulled_behind hr hin hs he ho t' req' res' ms' hm
  omega

theorem Provenance.line (h : Provenance tr q) : ∀ o ∈ q.line, Fetched tr q.row.epoch o := by
  intro o ho
  rcases mem_append.mp ho with ho | ho
  · unfold Queue.owed at ho
    split at ho
    · rename_i g pc hh
      split at ho
      · rename_i hg
        exact hg ▸ (h.held g pc hh o (pc.owed_subset o ho)).fetched
      · cases ho
    · cases ho
  · exact (h.buffer o ho).fetched

/-- **The line is strictly increasing**, and so is what a batch of any generation may put back. -/
structure LineInv (q : Queue) : Prop where
  line : q.line.Pairwise (· < ·)
  owed : ∀ g pc, q.held = some (g, pc) → pc.owed.Pairwise (· < ·)

theorem lineInv_init : LineInv Queue.init where
  line := List.Pairwise.nil
  owed := fun _ _ h => nomatch h

theorem LineInv.taken {b rest : List MessageExt} (hi : LineInv q) (hh : q.held = none)
    (hp : q.row.pending = some (b ++ rest)) : (offsets b ++ offsets rest).Pairwise (· < ·) := by
  have hline := hi.line
  unfold Queue.line Row.buffer at hline
  rw [Queue.owed_none hh, hp] at hline
  rw [← offsets_append]
  exact hline

theorem lineInv_step (hr : QRun m Queue.init tr q) (hin : ∀ e ∈ tr ++ evs, InOrder e)
    (hi : LineInv q) (hs : QStep m q evs q') : LineInv q' := by
  have hput : ∀ e ∈ evs, OwnPutBack e := fun e he => (hin e (mem_append_right _ he)).2.1
  have hprov := provenance_run hr fun e he => (hin e (mem_append_left _ he)).2.1
  constructor
  · rcases hs.line_cases (unowned_run hr) hput with ⟨_, hsub⟩ | hpull | ⟨_, hnil⟩
    · exact hi.line.sublist hsub
    · obtain ⟨t, req, res, ms, he, _, hline⟩ := hpull
      have hord : BrokerOrdered (.pulled t q.row.epoch req res ms) :=
        (hin _ (mem_append_right _ he)).1
      rw [hline]
      refine pairwise_append.mpr ⟨hi.line, hord.booked.1, ?_⟩
      intro o ho o' ho'
      exact (hprov.line o ho).lt_pulled hr hin hs he ho'
    · rw [hnil]
      exact List.Pairwise.nil
  · intro g pc hh'
    have hsame : q'.held = q.held → pc.owed.Pairwise (· < ·) :=
      fun hh => hi.owed g pc (hh ▸ hh')
    cases hs.consume with
    | quiet _ _ _ _ _ _ hh => exact hsame hh
    | pulled _ _ _ _ _ _ hh => exact hsame hh
    | retired _ _ hh => exact hsame hh
    | removed | swept => exact hsame rfl
    | taken hh hb hp =>
      cases hh'
      exact (pairwise_append.mp (hi.taken hh hp)).1
    | held hh h =>
      cases hh'
      exact (hi.owed _ _ hh).sublist h.owed_sublist.1
    | finished hh => cases hh'

/-- **The line along every run in order.** -/
theorem lineInv_run (h : QRun m Queue.init tr q) (hin : ∀ e ∈ tr, InOrder e) : LineInv q :=
  Run.invariant_of lineInv_init
    (fun _ _ _ _ hr hev hi hs => lineInv_step hr hev hi hs) h hin

end Run

end RocketMQ
