/-
  File:      RocketMQ/Push/ManualCommit.lean
  Subject:   Orderly listeners that commit by hand.

  Without auto-commit a Success is neither committed nor put back: the message leaves the line, and
  only a later Commit lets the consume offset pass it. The empty-pull correction looks at buffer and
  counter only, so it does not see such messages.

  * `manual_commit_respected`: the consume offset stays at or below what was answered and not
    committed, in the runs whose corrections and automatic advances do so (`RespectsCommit`);
  * `empty_pull_commits`: one empty pull is enough to pass a message that nobody committed.
-/
import RocketMQ.Push.Lock
import RocketMQ.Push.Offset

namespace RocketMQ

open List Machine

/-! ## 1. Uncommitted messages -/

/-- One event, seen by the record of uncommitted offsets of generation `g`. A Commit covers what
does not lie behind its whole batch. -/
def track (g : Nat) (waiting : List Int) : QEvent → List Int
  | .answered g' false (some .success) offs => if g' = g then waiting ++ offs else waiting
  | .answered g' false (some .commit) offs =>
    if g' = g then waiting.filter fun o => offs.all fun x => decide (x < o) else waiting
  | _ => waiting

/-- The offsets answered with Success and not covered by a Commit since. -/
def uncommitted (g : Nat) (tr : List QEvent) : List Int := tr.foldl (track g) []

theorem uncommitted_append (g : Nat) (tr : List QEvent) (e : QEvent) :
    uncommitted g (tr ++ [e]) = track g (uncommitted g tr) e :=
  foldl_concat ..

variable {evs : List QEvent} {g g' : Nat} {offs : List Int} {auto : Bool}
  {status : Option ConsumeOrderlyStatus} {m : Mode} {r r' : Row} {pc pc' : HeldPc}

theorem uncommitted_same {tr : List QEvent} (g : Nat)
    (hev : ∀ g auto status offs, .answered g auto status offs ∉ evs) :
    uncommitted g (tr ++ evs) = uncommitted g tr := by
  unfold uncommitted
  rw [foldl_append]
  refine foldl_unchanged fun e he => ?_
  cases e with
  | answered g' auto status offs => exact absurd he (hev g' auto status offs)
  | _ => rfl

theorem mem_track_answered {waiting : List Int} {o : Int}
    (h : o ∈ track g waiting (.answered g' auto status offs)) :
    o ∈ waiting ∨ (g' = g ∧ o ∈ offs) := by
  unfold track at h
  split at h
  · rename_i heq
    cases heq
    split at h
    · rename_i hg
      rcases mem_append.mp h with h | h
      · exact .inl h
      · exact .inr ⟨hg, h⟩
    · exact .inl h
  · rename_i heq
    split at h
    · exact .inl (mem_of_mem_filter h)
    · exact .inl h
  · exact .inl h

/-- The condition on the two writes that no Commit stands behind: they pass nothing uncommitted. -/
def RespectsCommit (pre : List QEvent) : QEvent → Prop
  | .corrected g next => ∀ o ∈ uncommitted g pre, next ≤ o
  | .advanced g _ false offs => ∀ o ∈ uncommitted g pre, ∀ x ∈ offs, x < o
  | _ => True

instance (pre : List QEvent) (e : QEvent) : Decidable (RespectsCommit pre e) := by
  apply QEvent.casesOn (motive := fun e => Decidable (RespectsCommit pre e)) e
  case corrected =>
    exact fun g next => inferInstanceAs (Decidable (∀ o ∈ uncommitted g pre, next ≤ o))
  case advanced =>
    exact fun g _ manual offs => match manual with
      | false => inferInstanceAs (Decidable (∀ o ∈ uncommitted g pre, ∀ x ∈ offs, x < o))
      | true => .isTrue trivial
  all_goals intros; exact .isTrue trivial

/-! ## 2. What a section answers and commits -/

theorem HeldRule.answer_cases (h : HeldRule m g r pc evs r' pc') :
    (∃ auto status b, pc = .listening b ∧ r' = r ∧ evs = [.answered g auto status (offsets b)] ∧
      pc' = orderlyNext auto status b) ∨
    ((∀ g auto status offs, .answered g auto status offs ∉ evs) ∧
      ∀ b, pc' ≠ .committing true b) := by
  cases h with
  | answer auto status hm hp => exact .inl ⟨auto, status, _, rfl, rfl, rfl, rfl⟩
  | reconsumed =>
    refine .inr ⟨by simp, fun b h => ?_⟩
    unfold afterReconsume at h
    split at h
    · cases h
    · split at h <;> cases h
  | _ => exact .inr ⟨by simp, fun b h => nomatch h⟩

theorem HeldRule.advanced_manual {cur : Nat} (h : HeldRule m g r pc evs r' pc')
    (he : .advanced g' cur true offs ∈ evs) : ∃ b, pc = .committing true b ∧ offs = offsets b := by
  cases h with
  | commit now =>
    cases mem_singleton.mp he
    exact ⟨_, rfl, rfl⟩
  | _ => simp at he

theorem orderlyNext_committing (g : Nat) (waiting : List Int) {b b' : List MessageExt}
    (h : orderlyNext auto status b = .committing true b') :
    b' = b ∧ ∀ o ∈ track g waiting (.answered g auto status (offsets b)),
      ∀ x ∈ offsets b, x < o := by
  unfold orderlyNext at h
  split at h <;> cases h
  rename_i hstatus
  refine ⟨rfl, ?_⟩
  cases status with
  | none => cases hstatus
  | some st =>
    have hst : st = .commit := hstatus
    subst hst
    intro o ho x hx
    have ho' : o ∈ waiting.filter fun o => (offsets b).all fun x => decide (x < o) := by
      simpa [track] using ho
    have hall := (mem_filter.mp ho').2
    exact of_decide_eq_true (all_eq_true.mp hall x hx)

/-! ## 3. The invariant -/

/-- **The consume offset and the uncommitted messages.** -/
structure ManualInv (tr : List QEvent) (q : Queue) : Prop where
  natural : ∀ g, ∀ o ∈ uncommitted g tr, 0 ≤ o
  below : ∀ c, q.row.consumeOffsets = some c → ∀ o ∈ uncommitted q.row.epoch tr, c ≤ o
  committing : ∀ b, q.held = some (q.row.epoch, .committing true b) →
    ∀ o ∈ uncommitted q.row.epoch tr, ∀ x ∈ offsets b, x < o

theorem manualInv_init : ManualInv [] Queue.init where
  natural := fun _ _ h => nomatch h
  below := fun _ h => nomatch h
  committing := fun _ h => nomatch h

section Step

variable {m : Mode} {tr evs : List QEvent} {q q' : Queue}

theorem ManualInv.frame (hi : ManualInv tr q)
    (hev : ∀ g auto status offs, .answered g auto status offs ∉ evs)
    (he : q'.row.epoch = q.row.epoch)
    (hc : ∀ c, q'.row.consumeOffsets = some c → ∀ o ∈ uncommitted q.row.epoch tr, c ≤ o)
    (hh : ∀ b, q'.held = some (q.row.epoch, .committing true b) →
      q.held = some (q.row.epoch, .committing true b)) : ManualInv (tr ++ evs) q' := by
  refine ⟨?_, ?_, ?_⟩
  · intro g
    rw [uncommitted_same g hev]
    exact hi.natural g
  · rw [he, uncommitted_same _ hev]
    exact hc
  · intro b hb
    rw [he] at hb ⊢
    rw [uncommitted_same _ hev]
    exact hi.committing b (hh b hb)

theorem ManualInv.answered (hi : ManualInv tr q) (hprov : Provenance tr q)
    (hin : ∀ e ∈ tr, InOrder e) (hoff : OffsetInv tr q) {g : Nat} {b : List MessageExt} {auto : Bool}
    {status : Option ConsumeOrderlyStatus} (hh : q.held = some (g, .listening b)) :
    ManualInv (tr ++ [.answered g auto status (offsets b)])
      { q with held := some (g, orderlyNext auto status b) } := by
  refine ⟨?_, ?_, ?_⟩
  · intro g' o ho
    rw [uncommitted_append] at ho
    rcases mem_track_answered ho with ho | ⟨_, ho⟩
    · exact hi.natural g' o ho
    · exact ((hprov.held g _ hh o ho).fetched.next hin).1
  · intro c hc o ho
    rw [uncommitted_append] at ho
    rcases mem_track_answered ho with ho | ⟨hg, ho⟩
    · exact hi.below c hc o ho
    · -- the batch stands in the line until it is answered
      refine hoff.below c hc o (mem_append_left _ ?_)
      have hg' : g = q.row.epoch := hg
      rw [Queue.owed_own (hg' ▸ hh)]
      exact ho
  · intro b' hb o ho
    obtain ⟨hg, hnext⟩ := Prod.mk.inj (Option.some.inj hb)
    have hg' : g = q.row.epoch := hg
    rw [uncommitted_append] at ho
    obtain ⟨rfl, hall⟩ := orderlyNext_committing g (uncommitted g tr) hnext
    exact hall o (hg' ▸ ho)

theorem ManualInv.section (hi : ManualInv tr q) {g : Nat} {pc pc' : HeldPc} {r' : Row}
    (hh : q.held = some (g, pc)) (h : HeldRule m g q.row pc evs r' pc')
    (hev : ∀ g auto status offs, .answered g auto status offs ∉ evs)
    (hpc : ∀ b, pc' ≠ .committing true b) (hresp : Along RespectsCommit tr evs) :
    ManualInv (tr ++ evs) { q with row := r', held := some (g, pc') } := by
  have hep := h.epoch
  refine hi.frame hev hep ?_ ?_
  · intro c hc o ho
    have hc' : r'.consumeOffsets = some c := hc
    rcases h.consume_cases with hsame | hadv
    · exact hi.below c (hsame ▸ hc') o ho
    · obtain ⟨manual, offs, top, next, hg, he, htop, _, hle, _, _, _, hnew⟩ := hadv
      subst hg
      cases hnew.symm.trans hc'
      have hlt : ∀ x ∈ offs, x < o := by
        cases manual with
        | true =>
          obtain ⟨b, rfl, rfl⟩ := h.advanced_manual (he ▸ mem_singleton.mpr rfl)
          exact hi.committing b hh o ho
        | false =>
          rw [he] at hresp
          exact hresp.1 o ho
      have hnext : next ≤ o := by
        have := hlt top htop
        omega
      cases hcur : q.row.consumeOffsets with
      | none => exact Int.max_le.mpr ⟨hi.natural _ o ho, hnext⟩
      | some cur => exact Int.max_le.mpr ⟨hi.below cur hcur o ho, hnext⟩
  · intro b hb
    exact absurd (Prod.mk.inj (Option.some.inj hb)).2 (hpc b)

theorem manualInv_step (hr : QRun m Queue.init tr q) (hin : ∀ e ∈ tr ++ evs, InOrder e ∧ NoIllegal e)
    (hresp : Along RespectsCommit tr evs) (hi : ManualInv tr q) (hs : QStep m q evs q') :
    ManualInv (tr ++ evs) q' := by
  have hin' : ∀ e ∈ tr, InOrder e ∧ NoIllegal e := fun e he => hin e (mem_append_left _ he)
  cases hs.consume with
  | quiet hev hp hc hn hm he hh =>
    refine hi.frame (fun _ _ _ _ => notMem_of_quiet hev rfl) he ?_ (fun b hb => hh ▸ hb)
    rw [hc]
    exact hi.below
  | pulled mq res msgs hl ho hrow hh =>
    rename_i t sub off
    have hep := (Row.of_bookPull hrow).1
    have hill : NoIllegal (.pulled t q.row.epoch off res msgs) :=
      (hin _ (mem_append_right _ mem_cons_self)).2
    refine hi.frame ?_ hep ?_ (fun b hb => hh ▸ hb)
    · intro g auto status offs hm
      split at hm <;> simp at hm
    · intro c hc o ho
      rw [hrow] at hc
      rcases bookPull_consume mq msgs q.row hill with hsame | ⟨hcor, hnext, _⟩
      · exact hi.below c (hsame ▸ hc) o ho
      · -- the correction meets the condition
        rw [if_pos hcor] at hresp
        have hle : ∀ o ∈ uncommitted q.row.epoch (tr ++ [.pulled t q.row.epoch off res msgs]),
            res.nextBeginOffset ≤ o := hresp.2.1
        cases hnext.symm.trans hc
        refine hle o ?_
        rw [uncommitted_same _ (by simp)]
        exact ho
  | retired hev hrow hh =>
    have hep : q'.row.epoch = q.row.epoch + 1 := by rw [hrow]; rfl
    refine ⟨?_, ?_, ?_⟩
    · intro g
      rw [uncommitted_same g fun _ _ _ _ => notMem_of_quiet (forall_mem_singleton.mpr hev) rfl]
      exact hi.natural g
    · intro c hc
      rw [hrow] at hc
      cases hc
    · intro b hb
      have hle := (unowned_run hr).held_le _ _ (hh ▸ hb)
      omega
  | removed => exact hi.frame (by simp) rfl (fun c hc => nomatch hc) (fun b hb => hb)
  | swept off ho =>
    obtain ⟨i, p, hw⟩ := q.row.removeExpiredEntryIfStillHead_writes off
    refine hi.frame ?_ (q.row.removeExpired_epoch off) ?_ (fun b hb => hb)
    · intro g auto status offs hm
      split at hm <;> simp at hm
    · intro c hc
      have hc' : (q.row.removeExpiredEntryIfStillHead off).consumeOffsets = some c := hc
      rw [hw] at hc'
      exact hi.below c hc'
  | taken hh hb hp | finished hh => exact hi.frame (by simp) rfl hi.below (fun b hb => nomatch hb)
  | held hh h =>
    rcases h.answer_cases with ⟨auto, status, b, rfl, hr', rfl, rfl⟩ | ⟨hev, hpc⟩
    · rw [hr']
      exact hi.answered (provenance_run hr fun e he => (hin' e he).1.2.1)
        (fun e he => (hin' e he).1) (offsetInv_run hr hin') hh
    · exact hi.section hh h hev hpc hresp

/-- **Uncommitted messages along every run that respects them.** -/
theorem manualInv_run (h : QRun m Queue.init tr q) (hin : ∀ e ∈ tr, InOrder e ∧ NoIllegal e)
    (hresp : Along RespectsCommit [] tr) : ManualInv tr q := by
  refine Run.invariant_when (H := fun tr => (∀ e ∈ tr, InOrder e ∧ NoIllegal e) ∧
    Along RespectsCommit [] tr) ?_ manualInv_init ?_ h ⟨hin, hresp⟩
  · intro a b hab
    exact ⟨fun e he => hab.1 e (mem_append_left _ he), (along_append.mp hab.2).1⟩
  · intro tr q evs q' hr hH hi hs
    exact manualInv_step hr hH.1 (along_append.mp hH.2).2 hi hs

end Step

/-! ## 4. The consumer -/

/-- **Manual commit is respected** by an orderly consumer, for every queue and every run whose
corrections and automatic advances pass nothing uncommitted. -/
theorem manual_commit_respected {cfg : ConsumerConfig} {clientId : String}
    {tr : List (String × QEvent)} {s : Sys} (h : Sys.Run (.init cfg true clientId) tr s) (k : String)
    (hbroker : ∀ e ∈ onKey k tr, BrokerOrdered e ∧ NoIllegal e)
    (hfence : ∀ e ∈ onKey k tr, OwnPutBack e ∧ OwnCursor e)
    (hresp : Along RespectsCommit [] (onKey k tr)) :
    ∀ c, (s.row k).consumeOffsets = some c →
      ∀ o ∈ uncommitted (s.row k).epoch (onKey k tr), c ≤ o :=
  (manualInv_run (init_run_refines k h)
    (fun e he => ⟨⟨(hbroker e he).1, hfence e he⟩, (hbroker e he).2⟩) hresp).below

/-- The listener sets `auto_commit = false` whenever it returns. -/
def ManualListener : QEvent → Prop
  | .answered _ auto status _ => status ≠ none → auto = false
  | _ => True

instance : DecidablePred ManualListener := fun e => by
  apply QEvent.casesOn (motive := fun e => Decidable (ManualListener e)) e
  case answered =>
    exact fun _ auto status _ => inferInstanceAs (Decidable (status ≠ none → auto = false))
  all_goals intros; exact .isTrue trivial

namespace Script

/-- The orderly listener answers without auto-commit, and the batch is finished. -/
def manual (status : ConsumeOrderlyStatus) (sections : Nat) : List Action :=
  .dispatch (.orderly (some status) false) :: List.replicate sections (.dispatch .go)

/-- An empty answer. -/
def noNew (i : Nat) (next : Int) : Action :=
  .task i (.loop (.response none (some ⟨.noNewMsg, next, []⟩)))

/-- Success, Commit, Success for the messages at 0, 1 and 2. -/
def commitSecond : List Action :=
  orderlyStart 0 ++ round 0 ++ [answer 0 [0, 1, 2] 3] ++ deliver ++ manual .success 1 ++ deliver
    ++ manual .commit 2 ++ deliver ++ manual .success 1

/-- Success for the message at 0, then an empty pull. -/
def successThenEmpty : List Action :=
  orderlyStart 0 ++ round 0 ++ [answer 0 [0] 1] ++ deliver ++ manual .success 1 ++ round 0
    ++ [noNew 0 1]

end Script

open Script

/-- After Success, Commit and Success the offset stands at 2, and the message at 2 is open. -/
theorem manual_commit_respected_commit :
    ((Sys.init cfg true "c").after commitSecond |>.row "Tb0").consumeOffsets = some 2 ∧
      uncommitted 0 (onKey "Tb0" ((Sys.init cfg true "c").traceOf commitSecond)) = [2] ∧
      ∀ o ∈ uncommitted 0 (onKey "Tb0" ((Sys.init cfg true "c").traceOf commitSecond)),
        2 ≤ o :=
  ⟨by decide, by decide, manual_commit_respected
    (Sys.run_after (.init cfg true "c") commitSecond (by decide)) "Tb0" (by decide)
    (by decide) (by decide) 2 (by decide)⟩

/-- **An empty pull commits.** The message at 0 was answered with Success without auto-commit and no
Commit followed; the next pull finds nothing and moves the offset past it. -/
theorem empty_pull_commits :
    ∃ tr s, Sys.Run (.init cfg true "c") tr s ∧
      (∀ e ∈ onKey "Tb0" tr, BrokerOrdered e ∧ NoIllegal e ∧ Undisturbed e ∧ ManualListener e) ∧
      .answered 0 false (some .success) [0] ∈ onKey "Tb0" tr ∧
      (s.row "Tb0").epoch = 0 ∧ 0 ∈ uncommitted 0 (onKey "Tb0" tr) ∧
      (s.row "Tb0").consumeOffsets = some 1 :=
  ⟨_, _, Sys.run_after _ successThenEmpty (by decide), by decide, by decide, by decide,
    by decide, by decide⟩

end RocketMQ
