/-
  File:      RocketMQ/Push/Ownership.lean
  Subject:   Tokens, owners and generations of one queue.

  * `Tokens`: every token is registered once, for one generation, and the owner in the table is
    the one registered for the current generation. It holds along every run;
  * `Unowned`: while the consumer runs, a queue without an owner has neither a consume offset nor
    a buffer. It holds along every run;
  * `CursorFenced`: every write of a pull loop to cursor or consume offset falls into the
    generation the loop was registered for, and no revocation removes a consume offset. It holds
    along the runs whose unfenced sections meet their own generation (`OwnWrite`).
-/
import RocketMQ.Push.Refinement

namespace RocketMQ

open List Machine

/-! ## 1. Tokens -/

/-- **Tokens and generations.** -/
structure Tokens (tr : List QEvent) (q : Queue) : Prop where
  nodup : (Assoc.keys q.loops).Nodup
  loops_lt : ∀ t ∈ Assoc.keys q.loops, t < q.nextToken
  loops_registered : ∀ t ∈ Assoc.keys q.loops, ∃ g, .registered t g ∈ tr
  registered_lt : ∀ t g, .registered t g ∈ tr → t < q.nextToken ∧ g ≤ q.row.epoch
  once : ∀ t g g', .registered t g ∈ tr → .registered t g' ∈ tr → g = g'
  owner : ∀ t, q.row.queueOwners = some t → .registered t q.row.epoch ∈ tr

theorem tokens_init : Tokens [] Queue.init where
  nodup := nodup_nil
  loops_lt := fun _ h => nomatch h
  loops_registered := fun _ h => nomatch h
  registered_lt := fun _ _ h => nomatch h
  once := fun _ _ _ h => nomatch h
  owner := fun _ h => nomatch h

variable {tr evs : List QEvent} {q q' : Queue} {m : Mode} {started : Bool} {t g : Nat} {r r' : Row}
  {pc pc' : LoopPc} {o : Option Nat} {res : PullResult} {ms : List MessageExt}

/-- A step that registers nothing keeps the tokens, if it keeps the owner or clears it, lets the
generation grow only with the owner cleared, and starts no loop. -/
theorem Tokens.frame (hi : Tokens tr q) (hev : ∀ t g, .registered t g ∉ evs)
    (hl : (Assoc.keys q'.loops).Sublist (Assoc.keys q.loops))
    (ho : (q'.row.queueOwners = none ∧ q.row.epoch ≤ q'.row.epoch) ∨
      (q'.row.queueOwners = q.row.queueOwners ∧ q'.row.epoch = q.row.epoch))
    (hn : q.nextToken ≤ q'.nextToken := by exact Nat.le_refl _) :
    Tokens (tr ++ evs) q' := by
  have hmem : ∀ t g, .registered t g ∈ tr ++ evs → .registered t g ∈ tr := by
    intro t g h
    rcases mem_append.mp h with h | h
    · exact h
    · exact absurd h (hev t g)
  refine ⟨hl.nodup hi.nodup, ?_, ?_, ?_, ?_, ?_⟩
  · intro t ht
    have := hi.loops_lt t (hl.subset ht)
    omega
  · intro t ht
    obtain ⟨g, hg⟩ := hi.loops_registered t (hl.subset ht)
    exact ⟨g, mem_append_left _ hg⟩
  · intro t g h
    obtain ⟨h1, h2⟩ := hi.registered_lt t g (hmem t g h)
    exact ⟨by omega, by omega⟩
  · intro t g g' h h'
    exact hi.once t g g' (hmem t g h) (hmem t g' h')
  · intro t ht
    rcases ho with ⟨ho, _⟩ | ⟨ho, hep⟩
    · cases ho.symm.trans ht
    · rw [ho] at ht
      rw [hep]
      exact mem_append_left _ (hi.owner t ht)

theorem LoopRule.not_registered (h : LoopRule m started t r pc evs r' pc') (t' g : Nat) :
    .registered t' g ∉ evs := by
  cases h with
  | pulled mq res msgs ho =>
    intro hmem
    rcases mem_cons.mp hmem with h | h
    · cases h
    · split at h <;> simp at h
  | _ => simp

theorem HeldRule.not_registered {pc pc' : HeldPc} (h : HeldRule m g r pc evs r' pc') (t' g' : Nat) :
    .registered t' g' ∉ evs := by
  cases h <;> simp

theorem tokens_step (hi : Tokens tr q) (hs : QStep m q evs q') : Tokens (tr ++ evs) q' := by
  have hrefl := List.Sublist.refl (Assoc.keys q.loops)
  cases hs with
  | loop hl h =>
    obtain ⟨l, o, c, p, mq, f, rfl⟩ := h.writes
    refine hi.frame h.not_registered ?_ (.inr ⟨rfl, rfl⟩)
    rw [hl, Assoc.keys_replace]
  | exit hl =>
    obtain ⟨a, ha⟩ := q.row.markPullLoopExited_writes _
    rw [ha]
    refine hi.frame (by simp) ?_ (.inr ⟨rfl, rfl⟩)
    rw [hl]
    exact (List.Sublist.append (List.Sublist.refl _) (sublist_cons_self _ _)).map _
  | illegal hl =>
    refine hi.frame (by simp) ?_ (.inl ⟨rfl, Nat.le_succ _⟩)
    rw [hl, Assoc.keys_replace]
  | resume hl | spawn hl =>
    refine hi.frame (by simp) ?_ (.inr ⟨rfl, rfl⟩)
    rw [hl, Assoc.keys_replace]
  | abort hst hl => exact hi.frame (by simp) (hl.map _) (.inr ⟨rfl, rfl⟩)
  | retire reset => exact hi.frame (by simp) hrefl (.inl ⟨rfl, Nat.le_succ _⟩)
  | register mq now ho hl ht hn =>
    rename_i l r t n
    -- the token is new: no loop has it and nothing was registered under it
    have hfresh : t ∉ Assoc.keys (l ++ r) := by
      intro h
      have := hi.loops_lt t (hl ▸ h)
      omega
    have hold : ∀ g, .registered t g ∉ tr := by
      intro g h
      have := (hi.registered_lt t g h).1
      omega
    have hkeys : ∀ t' ∈ Assoc.keys (l ++ (t, LoopPc.unspawned) :: r),
        t' = t ∨ t' ∈ Assoc.keys q.loops := by
      intro t' ht'
      rw [Assoc.keys_append, Assoc.keys_cons, mem_append, mem_cons] at ht'
      rw [hl, Assoc.keys_append, mem_append]
      rcases ht' with h | h | h
      · exact .inr (.inl h)
      · exact .inl h
      · exact .inr (.inr h)
    refine ⟨Assoc.nodup_insert hfresh (hl ▸ hi.nodup), ?_, ?_, ?_, ?_, ?_⟩
    · intro t' ht'
      show t' < n
      rcases hkeys t' ht' with rfl | h
      · exact hn
      · have := hi.loops_lt t' h
        omega
    · intro t' ht'
      rcases hkeys t' ht' with rfl | h
      · exact ⟨_, mem_append_right _ (mem_singleton.mpr rfl)⟩
      · obtain ⟨g, hg⟩ := hi.loops_registered t' h
        exact ⟨g, mem_append_left _ hg⟩
    · intro t' g h
      show t' < n ∧ g ≤ q.row.epoch
      rcases mem_append.mp h with h | h
      · obtain ⟨h1, h2⟩ := hi.registered_lt t' g h
        exact ⟨by omega, h2⟩
      · cases mem_singleton.mp h
        exact ⟨hn, le_rfl⟩
    · intro t' g g' h h'
      rcases mem_append.mp h with h | h <;> rcases mem_append.mp h' with h' | h'
      · exact hi.once t' g g' h h'
      · cases mem_singleton.mp h'
        exact absurd h (hold g)
      · cases mem_singleton.mp h
        exact absurd h' (hold g')
      · cases mem_singleton.mp h
        cases mem_singleton.mp h'
        rfl
    · intro t' ht'
      cases ht'
      exact mem_append_right _ (mem_singleton.mpr rfl)
  | tokens hn => exact hi.frame (by simp) hrefl (.inr ⟨rfl, rfl⟩) hn
  | place | remove | lock | finish | shutdown =>
    exact hi.frame (by simp) hrefl (.inr ⟨rfl, rfl⟩)
  | sweep off ho =>
    obtain ⟨i, p, hr⟩ := q.row.removeExpiredEntryIfStillHead_writes off
    rw [hr]
    refine hi.frame ?_ hrefl (.inr ⟨rfl, rfl⟩)
    split <;> simp
  | take hh ht =>
    obtain ⟨dq, rest, _, _, _, _, rfl⟩ := Row.takeBatch_eq ht
    exact hi.frame (by simp) hrefl (.inr ⟨rfl, rfl⟩)
  | held hh h =>
    obtain ⟨p, c, a, i, rfl⟩ := h.writes
    exact hi.frame h.not_registered hrefl (.inr ⟨rfl, rfl⟩)
  | clearOwners hs => exact hi.frame (by simp) hrefl (.inl ⟨rfl, le_rfl⟩)

/-- **Tokens along every run.** -/
theorem tokens_run (h : QRun m Queue.init tr q) : Tokens tr q :=
  h.invariant tokens_init fun _ _ _ _ _ hi hs => tokens_step hi hs

/-! ## 2. A queue without an owner -/

/-- **A queue without an owner is bare**, as long as the consumer runs: no buffer, no consume
offset, no batch of this generation in dispatch, nothing pulled in this generation. -/
structure Unowned (tr : List QEvent) (q : Queue) : Prop where
  held_le : ∀ g pc, q.held = some (g, pc) → g ≤ q.row.epoch
  pulled_le : ∀ t g o res ms, .pulled t g o res ms ∈ tr → g ≤ q.row.epoch
  bare : q.started = true → q.row.queueOwners = none →
    q.row.pending = none ∧ q.row.consumeOffsets = none ∧
      (∀ g pc, q.held = some (g, pc) → g < q.row.epoch) ∧
      ∀ t o res ms, .pulled t q.row.epoch o res ms ∉ tr

theorem unowned_init : Unowned [] Queue.init where
  held_le := fun _ _ h => nomatch h
  pulled_le := fun _ _ _ _ _ h => nomatch h
  bare := fun _ _ => ⟨rfl, rfl, fun _ _ h => (nomatch h), fun _ _ _ _ h => nomatch h⟩

theorem LoopRule.pulled_epoch (h : LoopRule m started t r pc evs r' pc') {t' : Nat} {o : Int}
    (hmem : .pulled t' g o res ms ∈ evs) : r.queueOwners = some t' ∧ g = r.epoch ∧ t' = t := by
  cases h with
  | pulled mq res' msgs ho =>
    rcases mem_cons.mp hmem with h | h
    · cases h
      exact ⟨ho, rfl, rfl⟩
    · split at h <;> simp at h
  | _ => simp at hmem

theorem LoopRule.unowned (h : LoopRule m started t r pc evs r' pc') (ho : r.queueOwners = none) :
    r'.pending = r.pending ∧ r'.consumeOffsets = r.consumeOffsets := by
  cases h with
  | pulled mq res msgs hown => cases ho.symm.trans hown
  | _ => exact ⟨rfl, rfl⟩

theorem HeldRule.stale_keeps {pc pc' : HeldPc} (h : HeldRule m g r pc evs r' pc') (hg : g ≠ r.epoch)
    (hp : r.pending = none) : r'.pending = none ∧ r'.consumeOffsets = r.consumeOffsets := by
  cases h with
  | handConcurrent ho hb =>
    rename_i b b'
    obtain ⟨i, h, _⟩ := r.registerInflightMsgs_writes b'
    rw [h]
    exact ⟨hp, rfl⟩
  | putBack | requeue => exact ⟨by simp [Row.requeuePending, hp], rfl⟩
  | advance | commit =>
    rw [Row.advanceConsumeOffset, if_pos hg]
    exact ⟨hp, rfl⟩
  | deregister =>
    rename_i b
    obtain ⟨i, h⟩ := r.deregisterInflightMsgs_writes b
    rw [h]
    exact ⟨hp, rfl⟩
  | _ => exact ⟨hp, rfl⟩

theorem HeldRule.not_pulled {pc pc' : HeldPc} (h : HeldRule m g r pc evs r' pc') (t' g' : Nat)
    (o : Int) (res : PullResult) (ms : List MessageExt) : .pulled t' g' o res ms ∉ evs := by
  cases h <;> simp

theorem Unowned.frame (hi : Unowned tr q) (hev : ∀ t g o res ms, .pulled t g o res ms ∉ evs)
    (hst : q'.started = true → q.started = true)
    (ho : q'.row.queueOwners = none → q.row.queueOwners = none ∨ q'.started = false)
    (he : q'.row.epoch = q.row.epoch)
    (hh : ∀ g pc, q'.held = some (g, pc) → ∃ pc', q.held = some (g, pc'))
    (hb : q.row.queueOwners = none → q.row.pending = none →
      (∀ g pc, q.held = some (g, pc) → g < q.row.epoch) →
      q'.row.pending = none ∧ (q.row.consumeOffsets = none → q'.row.consumeOffsets = none)) :
    Unowned (tr ++ evs) q' := by
  have hmem : ∀ t g o res ms, .pulled t g o res ms ∈ tr ++ evs → .pulled t g o res ms ∈ tr := by
    intro t g o res ms h
    rcases mem_append.mp h with h | h
    · exact h
    · exact absurd h (hev t g o res ms)
  refine ⟨?_, ?_, ?_⟩
  · intro g pc h
    obtain ⟨pc', h'⟩ := hh g pc h
    rw [he]
    exact hi.held_le g pc' h'
  · intro t g o res ms h
    rw [he]
    exact hi.pulled_le t g o res ms (hmem t g o res ms h)
  · intro hst' hown
    rcases ho hown with hown' | hbad
    · obtain ⟨h1, h2, h3, h4⟩ := hi.bare (hst hst') hown'
      obtain ⟨h5, h6⟩ := hb hown' h1 h3
      refine ⟨h5, h6 h2, ?_, ?_⟩
      · intro g pc h
        obtain ⟨pc', h'⟩ := hh g pc h
        rw [he]
        exact h3 g pc' h'
      · intro t o res ms h
        rw [he] at h
        exact h4 t o res ms (hmem _ _ _ _ _ h)
    · cases hbad.symm.trans hst'

theorem Unowned.retired (hi : Unowned tr q) (hev : ∀ t g o res ms, .pulled t g o res ms ∉ evs)
    (hr : q'.row = (q.row.retireQueueLocked none).1) (hh : q'.held = q.held) :
    Unowned (tr ++ evs) q' := by
  have he : q'.row.epoch = q.row.epoch + 1 := by rw [hr]; rfl
  have hmem : ∀ t g o res ms, .pulled t g o res ms ∈ tr ++ evs → g ≤ q.row.epoch := by
    intro t g o res ms h
    rcases mem_append.mp h with h | h
    · exact hi.pulled_le t g o res ms h
    · exact absurd h (hev t g o res ms)
  refine ⟨?_, ?_, ?_⟩
  · intro g pc h
    have := hi.held_le g pc (hh ▸ h)
    omega
  · intro t g o res ms h
    have := hmem t g o res ms h
    omega
  · intro _ _
    refine ⟨by rw [hr]; rfl, by rw [hr]; rfl, ?_, ?_⟩
    · intro g pc h
      have := hi.held_le g pc (hh ▸ h)
      omega
    · intro t o res ms h
      have := hmem t _ o res ms h
      omega

theorem unowned_step (hi : Unowned tr q) (hs : QStep m q evs q') : Unowned (tr ++ evs) q' := by
  have hsame : ∀ g pc, q.held = some (g, pc) → ∃ pc', q.held = some (g, pc') :=
    fun _ pc h => ⟨pc, h⟩
  cases hs with
  | loop hl h =>
    rename_i l r t pc pc' row'
    obtain ⟨a, o, c, p, mq, f, hr⟩ := h.writes
    have hown : row'.queueOwners = q.row.queueOwners := by rw [hr]
    have hep : row'.epoch = q.row.epoch := by rw [hr]; rfl
    cases hq : q.row.queueOwners with
    | none =>
      obtain ⟨h1, h2⟩ := h.unowned hq
      refine hi.frame ?_ id (fun _ => .inl hq) hep hsame ?_
      · intro t' g o' res ms hmem
        cases hq.symm.trans (h.pulled_epoch hmem).1
      · intro _ hp _
        exact ⟨by rw [← hp]; exact h1, fun hc => by rw [← hc]; exact h2⟩
    | some t0 =>
      refine ⟨fun g pc0 hh => (hi.held_le g pc0 hh).trans hep.ge, ?_, ?_⟩
      · intro t' g o' res ms hmem
        rcases mem_append.mp hmem with hmem | hmem
        · exact (hi.pulled_le t' g o' res ms hmem).trans hep.ge
        · exact ((h.pulled_epoch hmem).2.1.trans hep.symm).le
      · intro _ hnone
        cases hq.symm.trans (hown.symm.trans hnone)
  | exit hl =>
    obtain ⟨a, ha⟩ := q.row.markPullLoopExited_writes _
    rw [ha]
    exact hi.frame (by simp) id .inl rfl hsame fun _ hp _ => ⟨hp, id⟩
  | illegal | retire => exact hi.retired (by simp) rfl rfl
  | resume | spawn | abort | tokens | place | lock =>
    exact hi.frame (by simp) id .inl rfl hsame fun _ hp _ => ⟨hp, id⟩
  | register mq now ho hl ht hn =>
    refine ⟨?_, ?_, ?_⟩
    · exact hi.held_le
    · intro t' g o res ms hmem
      rcases mem_append.mp hmem with hmem | hmem
      · exact hi.pulled_le t' g o res ms hmem
      · simp at hmem
    · intro _ hnone
      cases hnone
  | remove => exact hi.frame (by simp) id .inl rfl hsame fun _ hp _ => ⟨hp, fun _ => rfl⟩
  | sweep off ho =>
    refine hi.frame ?_ id ?_ ?_ hsame ?_
    · split <;> simp
    all_goals unfold Row.removeExpiredEntryIfStillHead Row.removeProcessQueueEntryLocked
    · intro h
      left
      split at h <;> exact h
    · split <;> rfl
    · intro _ hp _
      split
      · exact ⟨by simp [hp], id⟩
      · exact ⟨hp, id⟩
  | take hh ht =>
    obtain ⟨dq, rest, hp, _, _, hg, rfl⟩ := Row.takeBatch_eq ht
    rw [append_nil]
    refine ⟨?_, hi.pulled_le, ?_⟩
    · intro g pc h
      cases h
      exact le_of_eq hg
    · intro hst hnone
      cases hp.symm.trans (hi.bare hst hnone).1
  | held hh h =>
    rename_i g pc pc' row'
    obtain ⟨p, c, a, i, hr⟩ := h.writes
    refine hi.frame h.not_pulled id ?_ ?_ ?_ ?_
    · intro hnone
      left
      rwa [hr] at hnone
    · rw [hr]
      rfl
    · intro g' pc0 h'
      cases h'
      exact ⟨pc, hh⟩
    · intro _ hp hlt
      have hg : g ≠ q.row.epoch := ne_of_lt (hlt g pc hh)
      obtain ⟨h1, h2⟩ := h.stale_keeps hg hp
      exact ⟨h1, fun hc => h2.trans hc⟩
  | finish hh => exact hi.frame (by simp) id .inl rfl (fun _ _ h => nomatch h) fun _ hp _ => ⟨hp, id⟩
  | shutdown =>
    rw [append_nil]
    exact ⟨hi.held_le, hi.pulled_le, fun h => nomatch h⟩
  | clearOwners hst =>
    rw [append_nil]
    refine ⟨hi.held_le, hi.pulled_le, fun h => ?_⟩
    cases hst.symm.trans h

/-- **A queue without an owner is bare, along every run.** -/
theorem unowned_run (h : QRun m Queue.init tr q) : Unowned tr q :=
  h.invariant unowned_init fun _ _ _ _ _ hi hs => unowned_step hi hs

/-! ## 3. Writes to cursor and consume offset -/

/-- What a step finds in the row when it writes the event. -/
def QEvent.Stamped (q : Queue) : QEvent → Prop
  | .resolved t o g _ => o = q.row.queueOwners ∧ g = q.row.epoch ∧ t ∈ Assoc.keys q.loops
  | .illegalRetired _ o g => o = q.row.queueOwners ∧ g = q.row.epoch
  | .pulled t g _ _ _ => q.row.queueOwners = some t ∧ g = q.row.epoch
  | .removed o st e => o = q.row.queueOwners ∧ st = q.started ∧ e = q.row.consumeOffsets
  | _ => True

theorem QStep.stamped (hs : QStep m q evs q') : ∀ e ∈ evs, e.Stamped q := by
  cases hs with
  | loop hl h =>
    cases h with
    | pulled mq res msgs ho => split <;> simp [QEvent.Stamped, ho]
    | _ => simp [QEvent.Stamped, hl]
  | held hh h => cases h <;> simp [QEvent.Stamped]
  | sweep off ho => split <;> simp [QEvent.Stamped]
  | _ => simp [QEvent.Stamped]

/-- An unfenced section meets its own generation: the loop that resolved its cursor, or that
retires after OFFSET_ILLEGAL, still owns the queue; a revocation that removes the consume offset
finds the queue without an owner, in a running consumer. -/
def OwnWrite : QEvent → Prop
  | .resolved t owner _ _ => owner = some t
  | .illegalRetired t owner _ => owner = some t
  | .removed owner started _ => owner = none ∧ started = true
  | _ => True

/-- **Ownership fencing**: a loop writes, moves or drops cursor and consume offset only in the
generation it was registered for, and a revocation removes no consume offset. -/
structure CursorFenced (tr : List QEvent) : Prop where
  resolved : ∀ t o g off, .resolved t o g off ∈ tr → .registered t g ∈ tr
  pulled : ∀ t g o res ms, .pulled t g o res ms ∈ tr → .registered t g ∈ tr
  retired : ∀ t o g, .illegalRetired t o g ∈ tr → .registered t g ∈ tr
  removed : ∀ o st e, .removed o st e ∈ tr → e = none
  once : ∀ t g g', .registered t g ∈ tr → .registered t g' ∈ tr → g = g'

theorem cursorFenced_step (ht : Tokens tr q) (hu : Unowned tr q) (hf : CursorFenced tr)
    (hown : ∀ e ∈ evs, OwnWrite e) (hs : QStep m q evs q') : CursorFenced (tr ++ evs) := by
  have hreg : ∀ t, q.row.queueOwners = some t → .registered t q.row.epoch ∈ tr ++ evs :=
    fun t h => mem_append_left _ (ht.owner t h)
  refine ⟨?_, ?_, ?_, ?_, (tokens_step ht hs).once⟩
  · intro t o g off h
    rcases mem_append.mp h with h | h
    · exact mem_append_left _ (hf.resolved t o g off h)
    · obtain ⟨rfl, rfl, _⟩ := hs.stamped _ h
      exact hreg t (hown _ h)
  · intro t g o res ms h
    rcases mem_append.mp h with h | h
    · exact mem_append_left _ (hf.pulled t g o res ms h)
    · obtain ⟨ho, rfl⟩ := hs.stamped _ h
      exact hreg t ho
  · intro t o g h
    rcases mem_append.mp h with h | h
    · exact mem_append_left _ (hf.retired t o g h)
    · obtain ⟨rfl, rfl⟩ := hs.stamped _ h
      exact hreg t (hown _ h)
  · intro o st e h
    rcases mem_append.mp h with h | h
    · exact hf.removed o st e h
    · obtain ⟨rfl, rfl, rfl⟩ := hs.stamped _ h
      obtain ⟨hno, hst⟩ := hown _ h
      exact (hu.bare hst hno).2.1

theorem cursorFenced_init : CursorFenced [] where
  resolved := fun _ _ _ _ h => nomatch h
  pulled := fun _ _ _ _ _ h => nomatch h
  retired := fun _ _ _ h => nomatch h
  removed := fun _ _ _ h => nomatch h
  once := fun _ _ _ h => nomatch h

/-- **Ownership fencing along every run of own writes.** -/
theorem cursorFenced_run (h : QRun m Queue.init tr q) (hown : ∀ e ∈ tr, OwnWrite e) :
    CursorFenced tr :=
  Run.invariant_of (I := fun tr _ => CursorFenced tr) cursorFenced_init
    (fun _ _ _ _ hr hev hi hs => cursorFenced_step (tokens_run hr) (unowned_run hr) hi
      (fun e he => hev e (mem_append_right _ he)) hs) h hown

/-! ## 4. The consumer -/

instance : DecidablePred OwnWrite := fun e => by
  apply QEvent.casesOn (motive := fun e => Decidable (OwnWrite e)) e
  case resolved => exact fun t owner _ _ => inferInstanceAs (Decidable (owner = some t))
  case illegalRetired => exact fun t owner _ => inferInstanceAs (Decidable (owner = some t))
  case removed =>
    exact fun owner started _ => inferInstanceAs (Decidable (owner = none ∧ started = true))
  all_goals intros; exact .isTrue trivial

/-- **Ownership fencing of the cursor and offset tables**, for every queue of the consumer and
every run in which the unfenced sections meet their own generation. -/
theorem consumer_cursor_fenced {cfg : ConsumerConfig} {orderly : Bool} {clientId : String}
    {tr : List (String × QEvent)} {s : Sys} (h : Sys.Run (.init cfg orderly clientId) tr s)
    (k : String) (hown : ∀ e ∈ onKey k tr, OwnWrite e) : CursorFenced (onKey k tr) :=
  cursorFenced_run (init_run_refines k h) hown

namespace Script

/-- A consumer of group `g` with one subscribed topic, and its queue. -/
def cfg : ConsumerConfig :=
  { consumerGroup := "g", nameSpace := "", messageModel := .clustering
    consumeMessageBatchMaxSize := 1, maxReconsumeTimes := -1, consumeTimeout := 15
    pullThresholdForQueue := 1000, pullThresholdSizeForQueue := 100
    consumeConcurrentlyMaxSpan := 2000 }

def mq : MessageQueue := ⟨"T", "b", 0⟩

/-- A whole `do_rebalance` by the task at position `i` that assigns the queue to this client. -/
def rebalance (i : Nat) (initial : Option Int) : List Action :=
  [.task i .go, .task i .go, .task i (.route allocateAveragely [mq] (some ["c"])), .task i .go,
    .task i (.offset initial), .task i .go, .task i .go, .task i .go, .task i .go]

/-- From the start to a running pull loop at position 0. -/
def start (initial : Int) : List Action :=
  [.subscribe [("T", ⟨[], false⟩)], .rebalance] ++ rebalance 0 (some initial)

/-- A `reset_offset` to `o`, up to the new pull loop at position `i`. -/
def reset (i : Nat) (o : Int) : List Action :=
  [.resetOffset "T" [(mq, o)], .task i .go, .task i .go, .task i .go] ++ rebalance i (some o)

/-- The loop at position `i` runs from its top to the cursor. -/
def round (i : Nat) : List Action := List.replicate 6 (.task i (.loop .go))

end Script

open Script

/-- A reset whose new loop resolves the cursor itself: all writes are own writes. -/
theorem consumer_cursor_fenced_reset :
    .resolved 2 (some 2) 1 5 ∈ onKey "Tb0" ((Sys.init cfg false "c").traceOf
        (start 0 ++ reset 1 5 ++ Script.round 1
          ++ [.task 1 (.loop (.offset (some 5)))]))
      ∧ CursorFenced (onKey "Tb0" ((Sys.init cfg false "c").traceOf
        (start 0 ++ reset 1 5 ++ Script.round 1
          ++ [.task 1 (.loop (.offset (some 5)))]))) :=
  ⟨by decide, consumer_cursor_fenced (Sys.run_after _ _ (by decide)) "Tb0" (by decide)⟩

/-- **A stale loop overwrites the cursor.** Two resets; the loop of the first generation after the
start still waits for its initial offset while the second reset is carried through, and then
writes 5 over the 9 of the generation that runs. -/
theorem stale_loop_overwrites_cursor :
    ∃ tr s, Sys.Run (.init cfg false "c") tr s ∧ (s.row "Tb0").offsetTable = some 5 ∧
      .resolved 3 (some 3) 2 9 ∈ onKey "Tb0" tr ∧ ¬ CursorFenced (onKey "Tb0" tr) := by
  refine ⟨_, _, Sys.run_after _ (start 0 ++ reset 1 5 ++ Script.round 1
    ++ reset 2 9 ++ Script.round 2
    ++ [.task 2 (.loop (.offset (some 9))), .task 1 (.loop (.offset (some 5)))]) (by decide),
    by decide, by decide, ?_⟩
  intro hf
  have hreg := hf.resolved 2 (some 3) 2 5 (by decide)
  exact absurd hreg (by decide)

/-- **Who owns a queue**, along every run: the owner is of the current generation, no token is given
twice, and while the consumer runs a queue without an owner is bare. -/
theorem queue_ownership {cfg : ConsumerConfig} {orderly : Bool} {clientId : String}
    {tr : List (String × QEvent)} {s : Sys} (h : Sys.Run (.init cfg orderly clientId) tr s)
    (k : String) : Tokens (onKey k tr) (s.queue k) ∧ Unowned (onKey k tr) (s.queue k) :=
  ⟨tokens_run (init_run_refines k h), unowned_run (init_run_refines k h)⟩

/-- The second of two owners. -/
theorem queue_ownership_reset : .registered 2 1 ∈ onKey "Tb0"
    ((Sys.init cfg false "c").traceOf (start 0 ++ reset 1 5)) := by
  exact (queue_ownership (Sys.run_after (.init cfg false "c")
    (start 0 ++ reset 1 5) (by decide)) "Tb0").1.owner 2 (by decide)

end RocketMQ
