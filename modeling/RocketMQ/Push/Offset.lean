/-
  File:      RocketMQ/Push/Offset.lean
  Subject:   The consume offset never passes a message that is still to be dealt with.

  The offset is advanced from two places: the result of a batch, and an empty pull. Both stay below
  the line of the generation, as long as the broker answers in order and never OFFSET_ILLEGAL.

  * `consume_offset_safe`: with a concurrent listener nothing unsettled is passed, not by the
    recorded offset and not by the one a shutdown persists, and the offset never goes back;
  * `undisturbed_of_assignedOnce`: nothing disturbs a cursor if its queue is assigned but once.
-/
import RocketMQ.Push.Settled

namespace RocketMQ

open List Machine

/-! ## 1. What advancing may not pass -/

/-- The whole batch, while its result is still open. -/
def HeldPc.whole : HeldPc → List Int
  | .taken b | .checked b | .listening b | .sendingBack b _ _ _ | .sendAwait b _ _ _
  | .puttingBack b _ | .requeuing b _ | .committing _ b => offsets b
  | .reconsuming _ done rest => offsets (done.map (·.1)) ++ offsets rest
  | .reconsumeAwait _ done x rest => offsets (done.map (·.1)) ++ offsets (x :: rest)
  | .advancing _ _ _ | .deregistering _ | .finishing => []

/-- A message at `p` behind the batch is safe from it: it lies behind all that is handled, or at
or behind the floor of the failed send-backs. -/
def HeldPc.clears (p : Int) : HeldPc → Prop
  | .advancing _ handled floor =>
    (∀ h ∈ offsets handled, h < p) ∨ ∃ f, floor = some f ∧ f ≤ p
  | pc => ∀ h ∈ pc.whole, h < p

variable {pc pc' : HeldPc} {p : Int} {auto : Bool} {m : Mode} {g : Nat} {r r' : Row}
  {evs : List QEvent} {res : PullResult} {mq : MessageQueue}

theorem HeldPc.clears_of_offs (h : ∀ o ∈ pc.offs, o < p) : pc.clears p := by
  cases pc with
  | advancing b handled floor => exact .inl fun o ho => h o (mem_append_right _ ho)
  | sendingBack | sendAwait | puttingBack => exact fun o ho => h o (mem_append_left _ ho)
  | deregistering | finishing => exact fun o ho => (nomatch ho)
  | _ => exact h

theorem floorOf_le {failed : List (Nat × MessageExt)} (h : p ∈ offsets (failed.map (·.2))) :
    ∃ f, floorOf failed = some f ∧ f ≤ p := by
  unfold floorOf
  cases hmin : (offsets (failed.map (·.2))).min? with
  | none =>
    rw [min?_eq_none_iff] at hmin
    rw [hmin] at h
    cases h
  | some f =>
    have hle := (le_min?_iff hmin).mp (Int.le_refl f)
    exact ⟨f, rfl, hle p h⟩

/-- **What waits behind a batch stays safe from it**, through every section. -/
theorem HeldRule.clears (h : HeldRule m g r pc evs r' pc')
    (hc : ∀ p ∈ offsets r.buffer, pc.clears p) : ∀ p ∈ offsets r'.buffer, pc'.clears p := by
  -- a section that leaves the buffer alone
  have hkeep : r'.pending = r.pending → (∀ p, pc.clears p → pc'.clears p) →
      ∀ p ∈ offsets r'.buffer, pc'.clears p := by
    intro hp himp p hmem
    exact himp p (hc p (Row.buffer_congr hp ▸ hmem))
  have hpend := h.pending_cases
  have hstamp : ∀ {b b' : List MessageExt}, offsets b' = offsets b →
      ∀ p, (HeldPc.checked b).clears p → (HeldPc.listening b').clears p := by
    intro b b' hb p hp o ho
    have ho' : o ∈ offsets b' := ho
    rw [hb] at ho'
    exact hp o ho'
  have hhandled : ∀ b failed p,
      (∀ o ∈ offsets b, o < p) → ∀ o ∈ offsets (handledOf b failed), o < p :=
    fun b failed p hall o ho => hall o ((offsets_sublist (handledOf_sublist b failed)).subset ho)
  cases h with
  | handOrderly hm hb => exact hkeep rfl (hstamp hb)
  | handConcurrent hm hb =>
    rcases hpend with hp | ⟨_, _, he, _⟩
    · exact hkeep hp (hstamp hb)
    · cases he
  | broadcast | ackedWhole => exact hkeep rfl fun p hp => .inl hp
  | allBack hi => exact hkeep rfl fun p hp => .inl (hhandled _ _ p hp)
  | putBack =>
    intro p hmem
    by_cases hp : r.pending.isSome = true
    · rw [Row.requeuePending_buffer hp, offsets_append] at hmem
      rcases mem_append.mp hmem with hmem | hmem
      · exact .inr (floorOf_le hmem)
      · exact .inl (hhandled _ _ p (hc p hmem))
    · rw [Row.requeuePending_none hp] at hmem
      exact .inl (hhandled _ _ p (hc p hmem))
  | requeue => exact fun p _ o ho => (nomatch ho)
  | stale hg => exact hkeep rfl fun p _ o ho => (nomatch ho)
  | advance | deregister | commit =>
    rcases hpend with hp | ⟨_, _, he, _⟩
    · exact hkeep hp fun p _ o ho => (nomatch ho)
    · cases he
  | answer auto status hm hp =>
    refine hkeep rfl fun p hp => HeldPc.clears_of_offs fun o ho => hp o ?_
    exact orderlyNext_offs auto status _ o ho
  | retry | reconsumeSent | reconsumeFailed =>
    exact hkeep rfl fun p hp o ho => hp o (by simpa [HeldPc.whole] using ho)
  | reconsumed =>
    refine hkeep rfl fun p hp => HeldPc.clears_of_offs fun o ho => hp o ?_
    exact mem_append_left _ (afterReconsume_offs _ _ o ho)
  | _ => exact hkeep rfl fun p hp => hp

/-! ## 2. The writes to the consume offset -/

theorem nextOffset_le (top : Int) (floor : Option Int) : Row.nextOffset top floor ≤ top + 1 := by
  unfold Row.nextOffset
  split
  · exact Int.le_refl _
  · exact Int.min_le_left _ _

theorem advanceConsumeOffset_cases (b : List MessageExt) (floor : Option Int) (g : Nat)
    (now : Int) (r : Row) :
    (r.advanceConsumeOffset b floor g now).consumeOffsets = r.consumeOffsets ∨
      ∃ top ∈ offsets b, g = r.epoch ∧
        (r.advanceConsumeOffset b floor g now).consumeOffsets
          = some (max (r.consumeOffsets.getD 0) (Row.nextOffset top floor)) := by
  unfold Row.advanceConsumeOffset
  split
  · exact .inl rfl
  · rename_i hg
    split
    · exact .inl rfl
    · split
      · exact .inl rfl
      · rename_i top htop
        exact .inr ⟨top, max?_mem htop, not_not.mp hg, rfl⟩

/-- **What a section of the batch does to the consume offset**: nothing, or it advances it to a
value that passes nothing the batch clears. -/
theorem HeldRule.consume_cases (h : HeldRule m g r pc evs r' pc') :
    r'.consumeOffsets = r.consumeOffsets ∨
      ∃ manual offs top next, g = r.epoch ∧ evs = [.advanced g r.epoch manual offs] ∧
        top ∈ offs ∧ top ∈ pc.offs ∧ next ≤ top + 1 ∧ (∀ p, pc.clears p → next ≤ p) ∧
        pc'.owed = [] ∧ r'.pending = r.pending ∧
        r'.consumeOffsets = some (max (r.consumeOffsets.getD 0) next) := by
  cases h with
  | advance now =>
    rename_i b handled floor
    obtain ⟨_, _, hw⟩ := r.advanceConsumeOffset_writes handled floor g now
    have hpend : (r.advanceConsumeOffset handled floor g now).pending = r.pending := by rw [hw]
    rcases advanceConsumeOffset_cases handled floor g now r with hc | ⟨top, htop, hg, hc⟩
    · exact .inl hc
    · refine .inr ⟨false, _, top, Row.nextOffset top floor, hg, rfl, htop,
        mem_append_right _ htop, nextOffset_le top floor, ?_, rfl, hpend, hc⟩
      rintro p (hall | ⟨f, rfl, hf⟩)
      · have hlt := hall top htop
        have hle := nextOffset_le top floor
        omega
      · exact Int.le_trans (Int.min_le_right _ _) hf
  | commit now =>
    rename_i b manual
    obtain ⟨_, _, hw⟩ := r.advanceConsumeOffset_writes b none g now
    have hpend : (r.advanceConsumeOffset b none g now).pending = r.pending := by rw [hw]
    rcases advanceConsumeOffset_cases b none g now r with hc | ⟨top, htop, hg, hc⟩
    · exact .inl hc
    · refine .inr ⟨manual, _, top, top + 1, hg, rfl, htop, htop, Int.le_refl _, ?_, rfl, hpend, hc⟩
      intro p hp
      have hlt := hp top htop
      omega
  | handConcurrent hm hb =>
    rename_i b b'
    obtain ⟨i, hw, _⟩ := r.registerInflightMsgs_writes b'
    exact .inl (by rw [hw])
  | deregister =>
    rename_i b
    obtain ⟨i, hw⟩ := r.deregisterInflightMsgs_writes b
    exact .inl (by rw [hw])
  | _ => exact .inl rfl

/-- **What booking an answer does to the consume offset**: nothing, or the empty-pull correction
moves it forward to the next cursor, with no buffer and no batch. -/
theorem bookPull_consume (mq : MessageQueue) (msgs : List MessageExt) (r : Row)
    (hill : res.status ≠ .offsetIllegal) :
    (r.bookPull mq res msgs).consumeOffsets = r.consumeOffsets ∨
      ((r.bookFetched mq res msgs).correctable res.status = true ∧
        (r.bookPull mq res msgs).consumeOffsets = some res.nextBeginOffset ∧
        ∀ c, r.consumeOffsets = some c → c < res.nextBeginOffset) := by
  obtain ⟨q, p, hw, _⟩ := r.bookFetched_writes mq res msgs
  have hc : (r.bookFetched mq res msgs).consumeOffsets = r.consumeOffsets := by rw [hw]
  unfold Row.bookPull Row.correctTagsOffsetLocked
  rw [if_neg hill]
  split
  · rename_i hcor
    split
    · rename_i hnone
      refine .inr ⟨hcor, rfl, ?_⟩
      intro c hsome
      rw [← hc, hnone] at hsome
      cases hsome
    · rename_i cur hcur
      split
      · rename_i hgt
        refine .inr ⟨hcor, rfl, ?_⟩
        intro c hsome
        rw [← hc, hcur] at hsome
        cases hsome
        exact hgt
      · exact .inl hc
  · exact .inl hc

theorem correctable_empty {msgs : List MessageExt}
    (h : (r.bookFetched mq res msgs).correctable res.status = true) :
    r.buffer = [] ∧ msgs = [] ∧ r.inflight.getD 0 = 0 := by
  obtain ⟨q, p, hw, hp⟩ := r.bookFetched_writes mq res msgs
  have hbuf : (r.bookFetched mq res msgs).buffer = r.buffer ++ msgs := by rw [hw]; exact hp
  have hinf : (r.bookFetched mq res msgs).inflight = r.inflight := by rw [hw]
  unfold Row.correctable at h
  rw [hbuf, hinf] at h
  simp only [Bool.and_eq_true, beq_iff_eq, List.isEmpty_iff, append_eq_nil_iff] at h
  exact ⟨h.1.2.1, h.1.2.2, h.2⟩

/-! ## 3. The offset stays below the line -/

/-- No pull is answered with OFFSET_ILLEGAL. -/
def NoIllegal : QEvent → Prop
  | .pulled _ _ _ res _ => res.status ≠ .offsetIllegal
  | _ => True

instance : DecidablePred NoIllegal := fun e => by
  apply QEvent.casesOn (motive := fun e => Decidable (NoIllegal e)) e
  case pulled => exact fun _ _ _ res _ => inferInstanceAs (Decidable (res.status ≠ .offsetIllegal))
  all_goals intros; exact .isTrue trivial

/-- An answer of the generation leads on to `c` or further. -/
def Told (tr : List QEvent) (g : Nat) (c : Int) : Prop :=
  ∃ t req res ms, .pulled t g req res ms ∈ tr ∧ c ≤ res.nextBeginOffset

theorem Told.mono {tr : List QEvent} {c : Int} (h : Told tr g c) (evs : List QEvent) :
    Told (tr ++ evs) g c := by
  obtain ⟨t, req, res, ms, hm, hle⟩ := h
  exact ⟨t, req, res, ms, mem_append_left _ hm, hle⟩

theorem Told.max {tr : List QEvent} {c d : Int} (hc : Told tr g c) (hd : Told tr g d) :
    Told tr g (max c d) := by
  rcases max_choice c d with h | h
  · exact h.symm ▸ hc
  · exact h.symm ▸ hd

/-- **The consume offset and the line.** -/
structure OffsetInv (tr : List QEvent) (q : Queue) : Prop where
  /-- the counter of batches in flight -/
  counted : q.row.inflight = q.held.map fun _ => 1
  /-- what waits is safe from the batch in dispatch -/
  ahead : ∀ pc, q.held = some (q.row.epoch, pc) → ∀ p ∈ offsets q.row.buffer, pc.clears p
  /-- the offset passes nothing in the line -/
  below : ∀ c, q.row.consumeOffsets = some c → ∀ o ∈ q.line, c ≤ o
  /-- nor what the generation has been told of -/
  reached : ∀ c, q.row.consumeOffsets = some c →
    ∃ t req res ms, .pulled t q.row.epoch req res ms ∈ tr ∧ c ≤ res.nextBeginOffset

theorem offsetInv_init : OffsetInv [] Queue.init where
  counted := rfl
  ahead := fun _ h => nomatch h
  below := fun _ h => nomatch h
  reached := fun _ h => nomatch h

section Step

variable {m : Mode} {tr evs : List QEvent} {q q' : Queue}

theorem OffsetInv.frame (hi : OffsetInv tr q) (hh : q'.held = q.held)
    (hn : q'.row.inflight = q.row.inflight) (he : q'.row.epoch = q.row.epoch)
    (hc : q'.row.consumeOffsets = q.row.consumeOffsets)
    (hb : ∀ o ∈ offsets q'.row.buffer, o ∈ offsets q.row.buffer) : OffsetInv (tr ++ evs) q' := by
  have howed : q'.owed = q.owed := by
    unfold Queue.owed
    rw [hh, he]
  refine ⟨by rw [hn, hh]; exact hi.counted, ?_, ?_, ?_⟩
  · intro pc hq p hp
    rw [hh, he] at hq
    exact hi.ahead pc hq p (hb p hp)
  · intro c hsome o ho
    rw [hc] at hsome
    refine hi.below c hsome o ?_
    rcases mem_append.mp ho with ho | ho
    · exact mem_append_left _ (howed ▸ ho)
    · exact mem_append_right _ (hb o ho)
  · intro c hsome
    rw [hc] at hsome
    rw [he]
    exact Told.mono (hi.reached c hsome) evs

theorem OffsetInv.pulled (hr : QRun m Queue.init tr q) (hin : ∀ e ∈ tr ++ evs, InOrder e)
    (hi : OffsetInv tr q) (hs : QStep m q evs q') {t : Nat} {req : Int} {mq : MessageQueue}
    {res : PullResult} {msgs : List MessageExt}
    (he : .pulled t q.row.epoch req res msgs ∈ evs) (hill : res.status ≠ .offsetIllegal)
    (hrow : q'.row = q.row.bookPull mq res msgs) (hh : q'.held = q.held) :
    OffsetInv (tr ++ evs) q' := by
  obtain ⟨mq', p, c, f, hw, hbp⟩ := q.row.bookPull_writes mq res msgs
  have hep : q'.row.epoch = q.row.epoch := by rw [hrow, hw]; rfl
  have hbuf : q'.row.buffer = q.row.buffer ++ msgs := by rw [hrow, hw]; exact hbp
  have hinf : q'.row.inflight = q.row.inflight := by rw [hrow, hw]
  have hprov := provenance_run hr fun e he => (hin e (mem_append_left _ he)).2.1
  have hline := Queue.line_pulled hh hrow
  have hcons := bookPull_consume mq msgs q.row hill
  rw [← hrow] at hcons
  refine ⟨by rw [hinf, hh]; exact hi.counted, ?_, ?_, ?_⟩
  · intro pc hq p hp
    rw [hh, hep] at hq
    rw [hbuf, offsets_append] at hp
    rcases mem_append.mp hp with hp | hp
    · exact hi.ahead pc hq p hp
    · -- a new message lies behind everything the batch refers to
      refine HeldPc.clears_of_offs fun o ho => ?_
      exact (hprov.held _ pc hq o ho).fetched.lt_pulled hr hin hs he hp
  · intro c hsome o ho
    rw [hline] at ho
    rcases hcons with hsame | ⟨hcor, hnext, _⟩
    · rw [hsame] at hsome
      rcases mem_append.mp ho with ho | ho
      · exact hi.below c hsome o ho
      · obtain ⟨t', req', res', ms', hm, hle⟩ := hi.reached c hsome
        have hbeh := pulled_behind hr hin hs he ho t' req' res' ms' hm
        omega
    · -- the correction finds neither a batch nor a buffer
      obtain ⟨hnil, rfl, hzero⟩ := correctable_empty hcor
      rw [hi.counted] at hzero
      cases hq : q.held with
      | some x =>
        rw [hq] at hzero
        cases hzero
      | none =>
        unfold Queue.line at ho
        rw [Queue.owed_none hq, hnil] at ho
        cases ho
  · intro c hsome
    rw [hep]
    rcases hcons with hsame | ⟨_, hnext, _⟩
    · rw [hsame] at hsome
      exact Told.mono (hi.reached c hsome) evs
    · rw [hnext] at hsome
      cases hsome
      exact ⟨t, req, res, msgs, mem_append_right _ he, Int.le_refl _⟩

theorem OffsetInv.section (hprov : Provenance tr q) (hin : ∀ e ∈ tr ++ evs, InOrder e)
    (hi : OffsetInv tr q) {g : Nat} {pc pc' : HeldPc} {r' : Row} (hh : q.held = some (g, pc))
    (h : HeldRule m g q.row pc evs r' pc') :
    OffsetInv (tr ++ evs) { q with row := r', held := some (g, pc') } := by
  obtain ⟨p0, c0, a0, i0, hw⟩ := h.writes
  have hep : r'.epoch = q.row.epoch := by rw [hw]; rfl
  have hinf : r'.inflight = q.row.inflight := by rw [hw]
  have hput : ∀ e ∈ evs, OwnPutBack e := fun e he => (hin e (mem_append_right _ he)).2.1
  have hin' : ∀ e ∈ tr, InOrder e := fun e he => hin e (mem_append_left _ he)
  have hsub := h.line_sublist hh hput
  refine ⟨?_, ?_, ?_, ?_⟩
  · rw [hinf, hi.counted, hh]
    rfl
  · intro pc0 hq p hp
    obtain ⟨hg, rfl⟩ := Prod.mk.inj (Option.some.inj hq)
    have hg' : g = q.row.epoch := hg.trans hep
    exact h.clears (hi.ahead pc (hg' ▸ hh)) p hp
  · intro c hsome o ho
    have hsome' : r'.consumeOffsets = some c := hsome
    have ho' : o ∈ q.line := hsub.subset ho
    rcases h.consume_cases with hsame | hadv
    · exact hi.below c (hsame ▸ hsome') o ho'
    · obtain ⟨manual, offs, top, next, hg, _, _, _, _, hclear, howed, hpend, hnew⟩ := hadv
      rw [hnew] at hsome'
      cases hsome'
      have hzero : 0 ≤ o := ((hprov.line o ho').next hin').1
      have hold : ∀ c, q.row.consumeOffsets = some c → c ≤ o := fun c hc => hi.below c hc o ho'
      -- what is left of the line waits behind the batch
      have hwait : o ∈ offsets q.row.buffer := by
        rcases mem_append.mp ho with ho | ho
        · rw [Queue.owed_own (by rw [hg, ← hep]), howed] at ho
          cases ho
        · exact Row.buffer_congr hpend ▸ ho
      have hnext : next ≤ o := hclear o (hi.ahead pc (hg ▸ hh) o hwait)
      cases hc : q.row.consumeOffsets with
      | none => exact Int.max_le.mpr ⟨hzero, hnext⟩
      | some c => exact Int.max_le.mpr ⟨hold c hc, hnext⟩
  · intro c hsome
    have hsome' : r'.consumeOffsets = some c := hsome
    refine Told.mono ?_ evs
    rw [show (Queue.row _).epoch = q.row.epoch from hep]
    rcases h.consume_cases with hsame | hadv
    · exact hi.reached c (hsame ▸ hsome')
    · obtain ⟨manual, offs, top, next, hg, _, _, htop, hle1, _, _, _, hnew⟩ := hadv
      rw [hnew] at hsome'
      cases hsome'
      subst hg
      obtain ⟨hzero, t, req, res, ms, hm, hlt⟩ := (hprov.held _ pc hh top htop).fetched.next hin'
      refine Told.max ?_ ⟨t, req, res, ms, hm, by omega⟩
      cases hc : q.row.consumeOffsets with
      | none => exact ⟨t, req, res, ms, hm, by show 0 ≤ _; omega⟩
      | some c => exact hi.reached c hc

theorem offsetInv_step (hr : QRun m Queue.init tr q) (hin : ∀ e ∈ tr ++ evs, InOrder e)
    (hill : ∀ e ∈ evs, NoIllegal e) (hi : OffsetInv tr q) (hs : QStep m q evs q') :
    OffsetInv (tr ++ evs) q' := by
  have hprov := provenance_run hr fun e he => (hin e (mem_append_left _ he)).2.1
  cases hs.consume with
  | quiet hev hp hc hn _ he hh =>
    refine hi.frame hh hn he hc ?_
    rw [Row.buffer_congr hp]
    exact fun _ ho => ho
  | pulled mq res msgs hl ho hrow hh =>
    rename_i t sub off
    have hne : NoIllegal (.pulled t q.row.epoch off res msgs) := hill _ mem_cons_self
    exact hi.pulled hr hin hs mem_cons_self hne hrow hh
  | retired hev hrow hh =>
    have hnone : q'.row.consumeOffsets = none := by rw [hrow]; rfl
    have hnil : offsets q'.row.buffer = [] := by rw [hrow]; rfl
    refine ⟨by rw [hrow, hh]; exact hi.counted, ?_, ?_, ?_⟩
    · intro pc hq p hp
      rw [hnil] at hp
      cases hp
    · intro c hsome
      rw [hnone] at hsome
      cases hsome
    · intro c hsome
      rw [hnone] at hsome
      cases hsome
  | removed =>
    refine ⟨hi.counted, hi.ahead, ?_, ?_⟩
    · intro c hsome
      cases hsome
    · intro c hsome
      cases hsome
  | swept off ho =>
    obtain ⟨i, p, hw⟩ := q.row.removeExpiredEntryIfStillHead_writes off
    refine hi.frame rfl ?_ (q.row.removeExpired_epoch off) ?_ ?_
    · rw [hw]
    · rw [hw]
    · exact fun o hmem => (offsets_sublist (q.row.removeExpired_buffer off)).subset hmem
  | taken hh hb hp =>
    refine ⟨?_, ?_, ?_, ?_⟩
    · rw [hi.counted, hh]
      rfl
    · intro pc hq p hmem
      cases hq
      have hsplit := (lineInv_run hr fun e he => hin e (mem_append_left _ he)).taken hh hp
      exact fun o ho => (pairwise_append.mp hsplit).2.2 o ho p hmem
    · intro c hsome o ho
      rw [Queue.line_taken hh hp] at ho
      exact hi.below c hsome o ho
    · exact fun c hsome => Told.mono (hi.reached c hsome) []
  | held hh h => exact hi.section hprov hin hh h
  | finished hh =>
    refine ⟨?_, fun _ hq => (nomatch hq), ?_, ?_⟩
    · show (q.row.inflight.map (· - 1)).filter (· != 0) = none
      rw [hi.counted, hh]
      rfl
    · intro c hsome o ho
      exact hi.below c hsome o (mem_append_right _ ho)
    · exact fun c hsome => Told.mono (hi.reached c hsome) []

/-- **The consume offset stays below the line, along every run in order.** -/
theorem offsetInv_run (h : QRun m Queue.init tr q) (hin : ∀ e ∈ tr, InOrder e ∧ NoIllegal e) :
    OffsetInv tr q :=
  Run.invariant_of offsetInv_init
    (fun _ _ _ _ hr hev hi hs => offsetInv_step hr (fun e he => (hev e he).1)
      (fun e he => (hev e (mem_append_right _ he)).2) hi hs) h hin

end Step

/-! ## 4. One generation -/

/-- A revocation left over from an older generation finds no consume offset to remove. -/
def OwnRemove : QEvent → Prop
  | .removed _ _ entry => entry = none
  | _ => True

instance : DecidablePred OwnRemove := fun e => by
  apply QEvent.casesOn (motive := fun e => Decidable (OwnRemove e)) e
  case removed => exact fun _ _ entry => inferInstanceAs (Decidable (entry = none))
  all_goals intros; exact .isTrue trivial

/-- **The generation is left to itself**: no put-back, cursor or removal of an older one falls
into it. -/
def Undisturbed (e : QEvent) : Prop := OwnPutBack e ∧ OwnCursor e ∧ OwnRemove e

instance : DecidablePred Undisturbed := fun _ => inferInstanceAs (Decidable (_ ∧ _ ∧ _))

section Step

variable {m : Mode} {tr evs : List QEvent} {q q' : Queue}

/-- The queue is assigned to the loop `t` and never taken away again. -/
def AssignedOnce (t : Nat) : QEvent → Prop
  | .registered t' _ => t' = t
  | .retired _ _ | .illegalRetired _ _ _ | .removed _ _ _ => False
  | _ => True

theorem ownCursor_of_assignedOnce {t : Nat} (h : QRun m Queue.init tr q)
    (honce : ∀ e ∈ tr, AssignedOnce t e) : ∀ e ∈ tr, OwnCursor e := by
  refine Run.invariant_of (G := AssignedOnce t) (I := fun tr _ => ∀ e ∈ tr, OwnCursor e)
    (fun _ he => nomatch he) ?_ h honce
  intro tr q evs q' hr hG hi hs e he
  rcases mem_append.mp he with he | he
  · exact hi e he
  · cases e with
    | resolved t' owner g off =>
      -- the owner and the loop were both registered, so both are `t`
      have honly : ∀ t' g, .registered t' g ∈ tr → t' = t := fun t' g hm =>
        hG (.registered t' g) (mem_append_left _ hm)
      obtain ⟨rfl, rfl, hmem⟩ := hs.stamped _ he
      obtain ⟨g', hg'⟩ := (tokens_run hr).loops_registered t' hmem
      cases honly t' g' hg'
      cases ho : q.row.queueOwners with
      | none => exact .inr rfl
      | some o => exact .inl (congrArg some (honly o _ ((tokens_run hr).owner o ho)))
    | _ => trivial

/-- **A queue that is assigned once is left to itself.** -/
theorem undisturbed_of_assignedOnce {t : Nat} (h : QRun m Queue.init tr q)
    (honce : ∀ e ∈ tr, AssignedOnce t e) : ∀ e ∈ tr, Undisturbed e := by
  have hkept : ∀ e ∈ [] ++ tr, e.retires = false := by
    intro e he
    cases e with
    | retired | illegalRetired => exact (honce _ he).elim
    | _ => rfl
  have hput := ownPutBack_run h (putBackInTime_of_kept hkept)
  refine fun e he => ⟨hput e he, ownCursor_of_assignedOnce h honce e he, ?_⟩
  cases e with
  | removed => exact (honce _ he).elim
  | _ => trivial

/-- Within a generation the consume offset does not go back. -/
def ConsumeMono (q q' : Queue) : Prop :=
  q.row.epoch ≤ q'.row.epoch ∧ (q'.row.epoch = q.row.epoch →
    ∀ c, q.row.consumeOffsets = some c → ∃ c', q'.row.consumeOffsets = some c' ∧ c ≤ c')

theorem QStep.consume_mono (hown : ∀ e ∈ evs, OwnRemove e) (hill : ∀ e ∈ evs, NoIllegal e)
    (hs : QStep m q evs q') : ConsumeMono q q' := by
  have hsame : q'.row.epoch = q.row.epoch → q'.row.consumeOffsets = q.row.consumeOffsets →
      ConsumeMono q q' := by
    intro he hc
    refine ⟨le_of_eq he.symm, fun _ c hsome => ⟨c, ?_, Int.le_refl _⟩⟩
    rw [hc]
    exact hsome
  cases hs.consume with
  | quiet hev hp hc hn hm he hh => exact hsame he hc
  | pulled mq res msgs hl ho hr hh =>
    rename_i t sub off
    have hep := (Row.of_bookPull hr).1
    have hne : NoIllegal (.pulled t q.row.epoch off res msgs) := hill _ mem_cons_self
    rcases bookPull_consume mq msgs q.row hne with hc | ⟨_, hnext, hlt⟩
    · exact hsame hep (by rw [hr]; exact hc)
    · refine ⟨le_of_eq hep.symm, fun _ c hsome => ⟨_, by rw [hr]; exact hnext, ?_⟩⟩
      exact Int.le_of_lt (hlt c hsome)
  | retired hev hr hh =>
    have hep : q'.row.epoch = q.row.epoch + 1 := by rw [hr]; rfl
    exact ⟨by omega, fun he => absurd he (by omega)⟩
  | removed =>
    have hnone : OwnRemove (.removed q.row.queueOwners q.started q.row.consumeOffsets) :=
      hown _ (mem_singleton.mpr rfl)
    refine ⟨le_rfl, fun _ c hsome => ?_⟩
    rw [show q.row.consumeOffsets = none from hnone] at hsome
    cases hsome
  | swept off ho =>
    obtain ⟨i, p, hw⟩ := q.row.removeExpiredEntryIfStillHead_writes off
    exact hsame (q.row.removeExpired_epoch off)
      (by show (q.row.removeExpiredEntryIfStillHead off).consumeOffsets = _; rw [hw])
  | taken | finished => exact hsame rfl rfl
  | held hh h =>
    have hep := h.epoch
    rcases h.consume_cases with hc | ⟨manual, offs, top, next, _, _, _, _, _, _, _, _, hc⟩
    · exact hsame hep hc
    · refine ⟨le_of_eq hep.symm, fun _ c hsome => ⟨_, hc, ?_⟩⟩
      rw [hsome]
      exact Int.le_max_left _ _

theorem consume_mono_run (h : QRun m q tr q') (hev : ∀ e ∈ tr, OwnRemove e ∧ NoIllegal e) :
    ConsumeMono q q' := by
  refine Run.invariant_of (I := fun _ => ConsumeMono q)
    ⟨le_rfl, fun _ c hc => ⟨c, hc, Int.le_refl _⟩⟩ ?_ h hev
  intro tr q1 evs q2 _ hG hi hs
  obtain ⟨hle, hmono⟩ := hs.consume_mono
    (fun e he => (hG e (mem_append_right _ he)).1)
    (fun e he => (hG e (mem_append_right _ he)).2)
  refine ⟨le_trans hi.1 hle, fun he c hc => ?_⟩
  have hle' := hi.1
  obtain ⟨c1, hc1, hle1⟩ := hi.2 (by omega) c hc
  obtain ⟨c2, hc2, hle2⟩ := hmono (by omega) c1 hc1
  exact ⟨c2, hc2, Int.le_trans hle1 hle2⟩

theorem QStep.not_answered (hm : m.orderly = false) (hs : QStep m q evs q') (g : Nat) (auto : Bool)
    (status : Option ConsumeOrderlyStatus) (offs : List Int) :
    .answered g auto status offs ∉ evs := by
  intro hmem
  obtain ⟨g', pc, pc', row', _, h⟩ := hs.batch_event hmem rfl
  cases h with
  | answer auto' status' ho hp =>
    rw [hm] at ho
    cases ho
  | _ => simp at hmem

end Step

/-! ## 5. The consumer -/

/-- What settles a message under a concurrent listener: it is acknowledged, dropped in broadcasting
mode, sent back, or swept. -/
def QEvent.settlesConcurrently (g : Nat) (o : Int) : QEvent → Prop
  | .acked g' offs => g' = g ∧ o ∈ offs
  | .dropped g' offs => g' = g ∧ o ∈ offs
  | .sentBack g' off _ => g' = g ∧ off = o
  | .swept g' off => g' = g ∧ off = o
  | _ => False

/-- The message at `o` was put into the buffer of generation `g` and is not settled. -/
def Unsettled (tr : List QEvent) (g : Nat) (o : Int) : Prop :=
  Fetched tr g o ∧ ∀ e ∈ tr, ¬ e.settlesConcurrently g o

theorem settled_concurrently {tr : List QEvent} {q : Queue} (hm : m.orderly = false)
    (h : QRun m Queue.init tr q) {o : Int} (hs : Settled tr g o) :
    ∃ e ∈ tr, e.settlesConcurrently g o := by
  have hno : ∀ g auto status offs, .answered g auto status offs ∉ tr :=
    h.invariant (I := fun tr _ => ∀ g auto status offs, .answered g auto status offs ∉ tr)
      (fun _ _ _ _ h => nomatch h) fun tr q evs q' _ hi hs g auto status offs hmem => by
        rcases mem_append.mp hmem with hmem | hmem
        · exact hi g auto status offs hmem
        · exact hs.not_answered hm g auto status offs hmem
  obtain ⟨e, he, hset⟩ := hs
  refine ⟨e, he, ?_⟩
  cases e with
  | answered g' auto status offs => exact absurd he (hno g' auto status offs)
  | _ => exact hset

theorem shutdownPersistItem_le {c : Int} (h : r.shutdownPersistItem = some (mq, c)) :
    ∃ off, r.consumeOffsets = some off ∧ c ≤ off := by
  unfold Row.shutdownPersistItem at h
  split at h
  · rename_i off mq' hoff hmq
    cases h
    refine ⟨off, hoff, ?_⟩
    split
    · exact Int.le_refl _
    · exact Int.min_le_left _ _
  · cases h

/-- **No message is lost through the consume offset.** In a generation that is left to itself, with
a broker that answers in order and never OFFSET_ILLEGAL, the recorded offset and the one a shutdown
persists stay at or below every unsettled message, and the recorded one never decreases. -/
theorem consume_offset_safe {cfg : ConsumerConfig} {clientId : String}
    {tr0 tr1 : List (String × QEvent)} {s0 s : Sys} (h0 : Sys.Run (.init cfg false clientId) tr0 s0)
    (h1 : Sys.Run s0 tr1 s) (k : String)
    (hbroker : ∀ e ∈ onKey k (tr0 ++ tr1), BrokerOrdered e ∧ NoIllegal e)
    (hund : ∀ e ∈ onKey k (tr0 ++ tr1), Undisturbed e) :
    (∀ c, (s.row k).consumeOffsets = some c →
      ∀ o, Unsettled (onKey k (tr0 ++ tr1)) (s.row k).epoch o → c ≤ o) ∧
    (∀ mq c, (s.row k).shutdownPersistItem = some (mq, c) →
      ∀ o, Unsettled (onKey k (tr0 ++ tr1)) (s.row k).epoch o → c ≤ o) ∧
    ((s.row k).epoch = (s0.row k).epoch → ∀ c, (s0.row k).consumeOffsets = some c →
      ∃ c', (s.row k).consumeOffsets = some c' ∧ c ≤ c') := by
  have hrun := init_run_refines k (h0.trans h1)
  have hinv := offsetInv_run hrun fun e he =>
    ⟨⟨(hbroker e he).1, (hund e he).1, (hund e he).2.1⟩, (hbroker e he).2⟩
  have hsafe : ∀ c, (s.row k).consumeOffsets = some c →
      ∀ o, Unsettled (onKey k (tr0 ++ tr1)) (s.row k).epoch o → c ≤ o := by
    rintro c hc o ⟨hfetched, hopen⟩
    rcases (coverage_run hrun).covered o hfetched with hset | hline
    · obtain ⟨e, he, hset⟩ := settled_concurrently rfl hrun hset
      exact absurd hset (hopen e he)
    · exact hinv.below c hc o hline
  refine ⟨hsafe, ?_, ?_⟩
  · intro mq c hc o ho
    obtain ⟨off, hoff, hle⟩ := shutdownPersistItem_le hc
    exact Int.le_trans hle (hsafe off hoff o ho)
  · have htail := (run_refines k h1).2
    refine (consume_mono_run htail fun e he => ?_).2
    have hmem : e ∈ onKey k (tr0 ++ tr1) := by
      rw [onKey_append]
      exact mem_append_right _ he
    exact ⟨(hund e hmem).2.2, (hbroker e hmem).2⟩

namespace Script

/-- The same consumer with batches of two. -/
def cfg2 : ConsumerConfig := { cfg with consumeMessageBatchMaxSize := 2 }

/-- Three messages are pulled, two handed over. -/
def twoOfThree : List Action := start 0 ++ round 0 ++ [answer 0 [0, 1, 2] 3] ++ deliver

/-- The first of the two is acknowledged, the send-back of the second fails. -/
def ackFirst : List Action :=
  [.dispatch (.concurrently (some .consumeSuccess) 0 0), .dispatch .go] ++ putBack

end Script

open Script

/-- After a partial acknowledgement the offset stands at the message that was put back. -/
theorem consume_offset_safe_partial_ack :
    (((Sys.init cfg2 false "c").after twoOfThree).after ackFirst |>.row
        "Tb0").consumeOffsets = some 1 ∧
      ∀ o, Unsettled (onKey "Tb0" ((Sys.init cfg2 false "c").traceOf twoOfThree
        ++ ((Sys.init cfg2 false "c").after twoOfThree).traceOf ackFirst)) 0 o →
        1 ≤ o :=
  ⟨by decide, (consume_offset_safe (Sys.run_after _ twoOfThree (by decide))
    (Sys.run_after _ ackFirst (by decide)) "Tb0" (by decide) (by decide)).1 1 (by decide)⟩

end RocketMQ
