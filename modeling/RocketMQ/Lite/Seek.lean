/-
  File:      RocketMQ/Lite/Seek.lean
  Subject:   What polls deliver and what may be committed after a seek.

  A seek pins the three cursors of its queue in one section and drops the cached rows below the
  offset in a second one; cached rows from the offset on stay and are delivered without being pulled
  again. So what a poll delivers after the seek, what is cached and what the pull loop is about to
  cache form one line, and the seek is respected as long as that line stays in order (`InLine`).

  * `SeekReady`: the state in which a seek leaves such a line;
  * `Interleaved`: sections of polls, background pulls and commits, the broker answering in order;
  * `seek_respected`: the consumed offset never passes a message that was not delivered since, and
    once the seek has returned nothing below its offset is delivered.
-/
import RocketMQ.Lite.Fence
import RocketMQ.Lite.Interleaving

namespace RocketMQ

open List

/-! ## 1. The line -/

/-- What polls took of the queue since the first `d` messages. -/
def LiteSys.taken (mq : MessageQueue) (d : Nat) (s : LiteSys) : List Int :=
  ofQueue mq (s.delivered.drop d)

/-- What is cached of the queue, or accepted for the cache. -/
def LiteSys.waiting (mq : MessageQueue) (s : LiteSys) : List Int :=
  ofQueue mq (s.buffer.messages ++ s.round.rows)

/-- **What holds after a seek to `o`**, when `d` messages had been delivered at that time. -/
structure SeekInv (log : List Int) (mq : MessageQueue) (o : Int) (d : Nat) (s : LiteSys) : Prop where
  alone : ∀ q ∈ s.state.queues ++ s.targets ++ s.round.queue.toList, mqKey q = mqKey mq → q = mq
  resolved : ∀ q ∈ s.round.resolving, mqKey q ≠ mqKey mq
  seen : d ≤ s.delivered.length
  line : ∃ n, s.state.nextOffset[mqKey mq]? = some n ∧ o ≤ n ∧
    InLine log o n (s.taken mq d ++ s.waiting mq)
  accounted : ∀ x ∈ s.tasks, ∀ msgs ∈ x.drainedRows, ∀ y ∈ ofQueue mq msgs, y ∈ s.taken mq d
  consumed : ∃ c, s.state.consumeOffset[mqKey mq]? = some c ∧
    (c = o ∨ ∃ y ∈ s.taken mq d, c = y + 1)
  rows : ∀ y ∈ ofQueue mq s.round.rows, o ≤ y
  pruned : .pruning mq o ∈ s.tasks ∨ ∀ y ∈ ofQueue mq s.buffer.messages, o ≤ y

variable {mq : MessageQueue} {sub : Option SubscriptionData} {res : PullResult}

theorem ofQueue_pulledRows_ne {q : MessageQueue}
    (htopic : ∀ m ∈ res.msgFoundList, m.topic = q.topic) (hne : q ≠ mq) :
    ofQueue mq (pulledRows q sub res) = [] := by
  rw [eq_nil_iff_forall_not_mem]
  intro y hy
  obtain ⟨m, hm, hholds, _⟩ := mem_ofQueue.mp hy
  obtain ⟨hname, hid, m', hm', hmt⟩ := mem_pulledRows hm
  have hown : q.holds m = true :=
    MessageQueue.holds_iff.mpr ⟨hmt.symm.trans (htopic m' hm'), hname, hid⟩
  exact hne (MessageQueue.holds_unique hown hholds)

theorem ofQueue_pulledRows_self (htopic : ∀ m ∈ res.msgFoundList, m.topic = mq.topic) :
    ofQueue mq (pulledRows mq sub res) = offsets (pulledRows mq sub res) := by
  have hall : (pulledRows mq sub res).filter mq.holds = pulledRows mq sub res := by
    rw [filter_eq_self]
    intro m hm
    obtain ⟨hname, hid, m', hm', hmt⟩ := mem_pulledRows hm
    exact MessageQueue.holds_iff.mpr ⟨hmt.symm.trans (htopic m' hm'), hname, hid⟩
  rw [ofQueue, hall]

namespace SeekInv

variable {log : List Int} {mq : MessageQueue} {o : Int} {d : Nat} {s t : LiteSys}

/-! ## 2. Sections without rows -/

variable (h : SeekInv log mq o d s)
include h

theorem keep
    (halone : ∀ q ∈ t.state.queues ++ t.targets ++ t.round.queue.toList,
      q ∈ s.state.queues ++ s.targets ++ s.round.queue.toList)
    (hres : ∀ q ∈ t.round.resolving, mqKey q ≠ mqKey mq) (hd : t.delivered = s.delivered)
    (hb : t.buffer = s.buffer) (hr : t.round.rows = s.round.rows)
    (hn : t.state.nextOffset[mqKey mq]? = s.state.nextOffset[mqKey mq]?)
    (hc : t.state.consumeOffset = s.state.consumeOffset)
    (ht : ∀ x ∈ t.tasks, x.drainedRows = none ∨ x ∈ s.tasks)
    (hp : .pruning mq o ∈ s.tasks → .pruning mq o ∈ t.tasks) : SeekInv log mq o d t := by
  have htaken : t.taken mq d = s.taken mq d := by rw [LiteSys.taken, hd]; rfl
  have hwait : t.waiting mq = s.waiting mq := by rw [LiteSys.waiting, hb, hr]; rfl
  refine ⟨fun q hq => h.alone q (halone q hq), hres, hd ▸ h.seen, ?_, fun x hx msgs hmsgs => ?_, ?_,
    hr ▸ h.rows, ?_⟩
  · rw [hn, htaken, hwait]
    exact h.line
  · rw [htaken]
    rcases ht x hx with hnone | hx
    · cases hnone.symm.trans hmsgs
    · exact h.accounted x hx msgs hmsgs
  · rw [hc, htaken]
    exact h.consumed
  · rw [hb]
    exact h.pruned.imp_left hp

theorem loop (hf : LoopFrame s t) : SeekInv log mq o d t := by
  obtain ⟨n, hnext, _⟩ := h.line
  refine h.keep (fun q hq => ?_) (fun q hq hk => ?_) hf.delivered hf.buffer
    (hf.rows.trans hf.noRows.symm) (hf.nextOffset _ h.resolved) hf.consumeOffset
    (fun x hx => .inr (hf.tasks ▸ hx)) fun hp => hf.tasks ▸ hp
  · rw [append_assoc] at hq
    rcases mem_append.mp hq with hq | hq
    · rw [LiteState.queues, hf.assigned] at hq
      exact mem_append_left _ (mem_append_left _ hq)
    · exact hf.queues q hq
  · -- the queue has a cursor, so the round does not have to look for one
    rcases hf.resolving q hq with hq | hnone
    · exact h.resolved q hq hk
    · rw [hk, hnext] at hnone
      cases hnone

theorem commit (hf : CommitFrame s t) : SeekInv log mq o d t := by
  refine h.keep (fun q hq => ?_) (fun q hq => ?_) hf.delivered hf.buffer (by rw [hf.round])
    (by rw [hf.nextOffset]) hf.consumeOffset (fun x hx => ?_) fun hp => ?_
  · rwa [LiteState.queues, hf.assigned, hf.targets, hf.round] at hq
  · rw [hf.round] at hq
    exact h.resolved q hq
  · rcases hf.tasks x hx with hcommit | hx
    · cases x with
      | drained msgs => cases hcommit
      | _ => exact .inl rfl
    · exact .inr hx
  · rcases hf.kept _ hp with hcommit | hp
    · cases hcommit
    · exact hp

/-! ## 3. Rows come in -/

variable {q : MessageQueue} {e i : Nat} {msgs : List MessageExt}

/-- **An answer that found the cursor where it was** takes in the next stretch of the log. -/
theorem pulled {f : Int} {sub : Option SubscriptionData}
    {res : PullResult} (hround : s.round = .pulling q f sub e)
    (hnext : s.state.nextOffset[mqKey q]? = some f)
    (hans : PullAnswer.Honest log mq ⟨q, f, sub, res⟩)
    (ht : t = { s.setCursor (mqKey q) res.nextBeginOffset e with
      round := if pulledRows q sub res = [] then .idle
        else .accepted q (pulledRows q sub res) e }) : SeekInv log mq o d t := by
  obtain ⟨htopic, hhonest⟩ := hans
  have hold : s.round.rows = [] := by rw [hround]; rfl
  have hqueue : s.round.queue = some q := by rw [hround]; rfl
  have hrows : t.round.rows = pulledRows q sub res := by
    rw [ht]
    split
    · rename_i hempty
      exact hempty.symm
    · rfl
  have hin : ∀ x ∈ t.round.queue.toList, x ∈ s.round.queue.toList := by
    intro x hx
    rw [ht] at hx
    split at hx
    · cases hx
    · rw [hqueue]
      exact hx
  have hres : t.round.resolving = none := by
    rw [ht]
    split
    · rfl
    · rfl
  have hbuf : t.buffer = s.buffer := by rw [ht]; rfl
  have hcursor : t.state.nextOffset = s.state.nextOffset.insert (mqKey q) res.nextBeginOffset := by
    rw [ht]; rfl
  have hwait : t.waiting mq = s.waiting mq ++ ofQueue mq (pulledRows q sub res) := by
    simp only [LiteSys.waiting, hbuf, hrows, hold, ofQueue_append, append_nil]
  have htaken : t.taken mq d = s.taken mq d := by rw [ht]; rfl
  have htasks : t.tasks = s.tasks := by rw [ht]; rfl
  have hconsume : t.state.consumeOffset = s.state.consumeOffset := by rw [ht]; rfl
  have halone : ∀ x ∈ t.state.queues ++ t.targets ++ t.round.queue.toList,
      mqKey x = mqKey mq → x = mq := by
    intro x hx
    apply h.alone
    rcases mem_append.mp hx with hx | hx
    · rw [ht] at hx
      exact mem_append_left _ hx
    · exact mem_append_right _ (hin x hx)
  have hseen : d ≤ t.delivered.length := by rw [ht]; exact h.seen
  have hrest : (∀ x ∈ t.tasks, ∀ msgs ∈ x.drainedRows, ∀ y ∈ ofQueue mq msgs, y ∈ t.taken mq d) ∧
      (∃ c, t.state.consumeOffset[mqKey mq]? = some c ∧
        (c = o ∨ ∃ y ∈ t.taken mq d, c = y + 1)) ∧
      (.pruning mq o ∈ t.tasks ∨ ∀ y ∈ ofQueue mq t.buffer.messages, o ≤ y) := by
    rw [htasks, htaken, hconsume, hbuf]
    exact ⟨h.accounted, h.consumed, h.pruned⟩
  obtain ⟨n, hn, hle, hline⟩ := h.line
  by_cases hq : q = mq
  · subst hq
    obtain ⟨hsorted, hbound, hmove, hcover⟩ := hhonest rfl
    cases hnext.symm.trans hn
    have hown : ofQueue q (pulledRows q sub res) = PullAnswer.rows ⟨q, f, sub, res⟩ :=
      ofQueue_pulledRows_self htopic
    refine ⟨halone, ?_, hseen, ⟨res.nextBeginOffset, ?_, le_trans hle hmove, ?_⟩, hrest.1, hrest.2.1,
      ?_, hrest.2.2⟩
    · rw [hres]
      exact fun x hx => by cases hx
    · rw [hcursor, Std.ExtTreeMap.getElem?_insert_self]
    · rw [htaken, hwait, hown, ← append_assoc]
      exact hline.append hsorted (fun y hy => (hbound y hy).2) hcover
    · rw [hrows, hown]
      exact fun y hy => le_trans hle (hbound y hy).1
  · have hnone : ofQueue mq (pulledRows q sub res) = [] := ofQueue_pulledRows_ne htopic hq
    have hkey : mqKey q ≠ mqKey mq := by
      intro hk
      refine hq (h.alone q (mem_append_right _ ?_) hk)
      rw [hqueue, Option.mem_toList]
    refine ⟨halone, ?_, hseen, ⟨n, ?_, hle, ?_⟩, hrest.1, hrest.2.1, ?_, hrest.2.2⟩
    · rw [hres]
      exact fun x hx => by cases hx
    · rw [hcursor, Table.get_insert_ne (Ne.symm hkey)]
      exact hn
    · rw [htaken, hwait, hnone, append_nil]
      exact hline
    · rw [hrows, hnone]
      exact fun y hy => by cases hy

theorem enqueued (hround : s.round = .accepted q msgs e) :
    SeekInv log mq o d
      { s.note (mqKey q) e with buffer := s.buffer.extend msgs, round := .idle } := by
  have hmsgs : s.round.rows = msgs := by rw [hround]; rfl
  obtain ⟨n, hn, hle, hline⟩ := h.line
  refine ⟨fun x hx => ?_, (fun x hx => by cases hx), h.seen, ⟨n, hn, hle, ?_⟩, h.accounted,
    h.consumed, (fun y hy => by cases hy), ?_⟩
  · rw [PullPc.queue, Option.toList_none, append_nil] at hx
    exact h.alone x (mem_append_left _ hx)
  · have hwait : LiteSys.waiting mq
        { s.note (mqKey q) e with buffer := s.buffer.extend msgs, round := .idle }
          = s.waiting mq := by
      show ofQueue mq ((s.buffer.extend msgs).messages ++ []) =
        ofQueue mq (s.buffer.messages ++ s.round.rows)
      rw [LiteBuffer.extend_messages, hmsgs, append_nil]
    rw [hwait]
    exact hline
  · refine h.pruned.imp_right fun hbuf y hy => ?_
    rw [LiteBuffer.extend_messages, ofQueue_append] at hy
    rcases mem_append.mp hy with hy | hy
    · exact hbuf y hy
    · exact h.rows y (hmsgs ▸ hy)

/-! ## 4. Rows go out -/

theorem polled {out : List MessageExt} {rest : LiteBuffer}
    (hout : out ++ rest.messages = s.buffer.messages) :
    SeekInv log mq o d
      { s.spawn (.drained out) with buffer := rest, delivered := s.delivered ++ out } := by
  have htaken : LiteSys.taken mq d
      { s.spawn (.drained out) with buffer := rest, delivered := s.delivered ++ out }
        = s.taken mq d ++ ofQueue mq out := by
    simp only [LiteSys.taken, drop_append_of_le_length h.seen, ofQueue_append]
  have hline : s.taken mq d ++ s.waiting mq
      = (s.taken mq d ++ ofQueue mq out) ++ ofQueue mq (rest.messages ++ s.round.rows) := by
    simp only [LiteSys.waiting, ← hout, ofQueue_append, append_assoc]
  refine ⟨h.alone, h.resolved, ?_, ?_, fun x hx msgs hmsgs y hy => ?_, ?_, h.rows, ?_⟩
  · rw [length_append]
    have := h.seen
    omega
  · rw [htaken]
    obtain ⟨n, hn, hle, hin⟩ := h.line
    refine ⟨n, hn, hle, ?_⟩
    rwa [hline] at hin
  · rw [htaken]
    rcases LiteSys.mem_spawn hx with rfl | hx
    · cases hmsgs
      exact mem_append_right _ hy
    · exact mem_append_left _ (h.accounted x hx msgs hmsgs y hy)
  · rw [htaken]
    obtain ⟨c, hc, hcase⟩ := h.consumed
    refine ⟨c, hc, hcase.imp_right ?_⟩
    intro ⟨y, hy, heq⟩
    exact ⟨y, mem_append_left _ hy, heq⟩
  · refine h.pruned.imp (mem_append_left _) fun hbuf y hy => hbuf y ?_
    rw [← hout, ofQueue_append]
    exact mem_append_right _ hy

omit h in
theorem mem_held {st : LiteState} (h : q ∈ st.held) : q ∈ st.queues := by
  obtain ⟨k, _, hk⟩ := mem_filterMap.mp h
  exact Table.mem_values.mpr ⟨k, hk⟩

omit h in
theorem consumeOne_cases {held : List MessageQueue} {consumed : Std.ExtTreeMap String Int}
    {m : MessageExt} {c : Int} (halone : ∀ q ∈ held, mqKey q = mqKey mq → q = mq)
    (hname : m.brokerName.isSome = true) (hc : consumed[mqKey mq]? = some c) :
    (LiteState.consumeOne held consumed m)[mqKey mq]? = some c ∨
      (mq.holds m = true ∧
        (LiteState.consumeOne held consumed m)[mqKey mq]? = some (m.queueOffset + 1)) := by
  unfold LiteState.consumeOne
  split
  · exact .inl hc
  · rename_i q hfind
    split
    · rw [Std.ExtTreeMap.getElem?_insert]
      split
      · rename_i hkey
        have hkey : mqKey q = mqKey mq := Std.LawfulEqOrd.eq_of_compare hkey
        obtain rfl : q = mq :=
          halone q (mem_reverse.mp (mem_of_find?_eq_some hfind)) hkey
        have hnames := find?_some hfind
        obtain ⟨b, hb⟩ := Option.isSome_iff_exists.mp hname
        refine .inr ⟨MessageQueue.holds_iff.mpr ?_, rfl⟩
        simp only [LiteState.names, hb, Option.getD_some, Bool.and_eq_true, beq_iff_eq] at hnames
        obtain ⟨⟨ht, hn⟩, hi⟩ := hnames
        exact ⟨ht.symm, by rw [hb, hn], hi.symm⟩
      · exact .inl hc
    · exact .inl hc

/-- **A poll accounts for what it took.** -/
theorem counted (hnamed : Named s) (hi : s.tasks[i]? = some (.drained msgs)) :
    SeekInv log mq o d { s.become i [] with state := s.state.advanceConsumeOffset msgs } := by
  have hmem : LiteTask.drained msgs ∈ s.tasks := mem_of_getElem? hi
  have hrows := h.accounted _ hmem msgs rfl
  have hnames := hnamed.drained _ hmem msgs rfl
  have halone : ∀ q ∈ s.state.held, mqKey q = mqKey mq → q = mq := fun q hq =>
    h.alone q (mem_append_left _ (mem_append_left _ (mem_held hq)))
  -- the messages are counted one after the other
  have hfold : ∀ (l : List MessageExt) consumed,
      (∀ m ∈ l, m ∈ msgs) →
      (∃ c, consumed[mqKey mq]? = some c ∧ (c = o ∨ ∃ y ∈ s.taken mq d, c = y + 1)) →
      ∃ c, (l.foldl (LiteState.consumeOne s.state.held) consumed)[mqKey mq]? = some c ∧
        (c = o ∨ ∃ y ∈ s.taken mq d, c = y + 1) := by
    intro l
    induction l with
    | nil => exact fun _ _ hc => hc
    | cons m l ih =>
      intro consumed hsub hc
      obtain ⟨c, hc, hcase⟩ := hc
      have hm : m ∈ msgs := hsub m mem_cons_self
      refine ih _ (fun m' hm' => hsub m' (mem_cons_of_mem _ hm')) ?_
      rcases consumeOne_cases halone (hnames m hm) hc with hc | ⟨hholds, hc⟩
      · exact ⟨c, hc, hcase⟩
      · refine ⟨m.queueOffset + 1, hc, .inr ⟨m.queueOffset, ?_, rfl⟩⟩
        exact hrows _ (mem_ofQueue.mpr ⟨m, hm, hholds, rfl⟩)
  refine ⟨h.alone, h.resolved, h.seen, h.line, fun x hx => ?_,
    hfold msgs _ (fun _ hm => hm) h.consumed, h.rows, ?_⟩
  · rcases LiteSys.mem_become hx with hx | hx
    · cases hx
    · exact h.accounted x hx
  · refine h.pruned.imp_left fun hp => ?_
    rcases LiteSys.mem_become_of_mem [] hi hp with hp | hp
    · cases hp
    · exact hp

omit h in
theorem ofQueue_pruned (msgs : List MessageExt) :
    ofQueue mq (msgs.filter fun m => !LiteBuffer.prunes mq o m)
      = (ofQueue mq msgs).filter fun y => decide (o ≤ y) := by
  induction msgs with
  | nil => rfl
  | cons m msgs ih =>
    by_cases hm : mq.holds m = true
    · by_cases ho : m.queueOffset < o
      · have hout : ¬ o ≤ m.queueOffset := not_le.mpr ho
        simpa [ofQueue, LiteBuffer.prunes, hm, ho] using ih
      · have hin : o ≤ m.queueOffset := not_lt.mp ho
        simpa [ofQueue, LiteBuffer.prunes, hm, hin] using ih
    · simpa [ofQueue, hm] using ih

/-- **The seek drops the cached rows below its offset.** -/
theorem prunes (i : Nat) :
    SeekInv log mq o d { s.become i [] with buffer := s.buffer.pruneBefore mq o } := by
  obtain ⟨n, hn, hle, hline⟩ := h.line
  have hrows : ofQueue mq s.round.rows = (ofQueue mq s.round.rows).filter fun y => decide (o ≤ y) := by
    symm
    rw [filter_eq_self]
    exact fun y hy => decide_eq_true (h.rows y hy)
  have hwait : LiteSys.waiting mq { s.become i [] with buffer := s.buffer.pruneBefore mq o }
      = (s.waiting mq).filter fun y => decide (o ≤ y) := by
    simp only [LiteSys.waiting, ofQueue_append, LiteBuffer.pruneBefore_messages, ofQueue_pruned,
      filter_append, ← hrows]
    rfl
  refine ⟨h.alone, h.resolved, h.seen, ⟨n, hn, hle, ?_⟩, fun x hx => ?_, h.consumed, h.rows, .inr ?_⟩
  · rw [hwait]
    exact hline.filter fun x hx => decide_eq_true hx
  · rcases LiteSys.mem_become hx with hx | hx
    · cases hx
    · exact h.accounted x hx
  · intro y hy
    rw [LiteBuffer.pruneBefore_messages, ofQueue_pruned] at hy
    exact of_decide_eq_true (mem_filter.mp hy).2

/-! ## 5. Runs -/

omit h in
/-- **The seek itself.** -/
theorem start {lo hi : Int} (hready : SeekReady log mq o s)
    (htask : s.tasks[i]? = some (.seeking mq o)) (hrange : lo ≤ o ∧ o ≤ hi)
    (hs : s.step (.range i (some (lo, hi))) = some t) : SeekInv log mq o s.delivered.length t := by
  have hin : ¬ (o < lo ∨ hi < o) := by omega
  simp only [LiteSys.step, LiteSys.range, htask, if_neg hin] at hs
  cases hs
  have htaken : LiteSys.taken mq s.delivered.length
      { s.become i [.pruning mq o] with
        state := s.state.pinCursors mq o, epoch := LiteSys.bump s.epoch [mqKey mq] } = [] := by
    show ofQueue mq (s.delivered.drop s.delivered.length) = []
    rw [drop_length]
    rfl
  refine ⟨hready.alone, hready.resolved, le_refl _, ⟨o, ?_, le_refl o, ?_⟩, fun x hx msgs hmsgs => ?_,
    ⟨o, ?_, .inl rfl⟩, fun y hy => ?_, .inl ?_⟩
  · exact Std.ExtTreeMap.getElem?_insert_self
  · rw [htaken]
    intro x hx hle
    refine ⟨?_, fun _ => hle⟩
    have hwait : LiteSys.waiting mq
        { s.become i [.pruning mq o] with
          state := s.state.pinCursors mq o, epoch := LiteSys.bump s.epoch [mqKey mq] }
          = ofQueue mq s.buffer.messages := by
      show ofQueue mq (s.buffer.messages ++ s.round.rows) = _
      rw [ofQueue_append, hready.landed, append_nil]
    rw [hwait]
    exact hready.ordered x hx hle
  · rcases LiteSys.mem_become hx with hx | hx
    · rw [mem_singleton.mp hx] at hmsgs
      cases hmsgs
    · rw [hready.accounted x hx msgs hmsgs]
      exact fun y hy => by cases hy
  · exact Std.ExtTreeMap.getElem?_insert_self
  · have hnone : ofQueue mq s.round.rows = [] := hready.landed
    exact absurd (hnone ▸ hy) (not_mem_nil)
  · exact mem_append_left _ (mem_append_right _ (mem_singleton_self _))

/-- **One section.** -/
theorem step (hnamed : Named s) (hr : SeekRule log mq o s t) : SeekInv log mq o d t := by
  cases hr with
  | loop hf => exact h.loop hf
  | pulled hround hnext hans => exact h.pulled hround hnext hans rfl
  | enqueued hround => exact h.enqueued hround
  | polled hout => exact h.polled hout
  | commit hf => exact h.commit hf
  | counted hi => exact h.counted hnamed hi
  | pruned hi => exact h.prunes _

theorem consumed_le :
    ∃ c, s.state.consumeOffset[mqKey mq]? = some c ∧
      ∀ x ∈ log, o ≤ x → x ∉ s.taken mq d → c ≤ x := by
  obtain ⟨c, hc, hcase⟩ := h.consumed
  obtain ⟨n, _, _, hline⟩ := h.line
  refine ⟨c, hc, fun x hx hle hnot => ?_⟩
  rcases hcase with rfl | ⟨y, hy, rfl⟩
  · exact hle
  · have hlt := hline.lt_of_notMem hx hle hnot hy
    omega

end SeekInv

/-- The seek has returned, and nothing below its offset was delivered from then on. -/
structure Returned (mq : MessageQueue) (o : Int) (d : Nat) (s : LiteSys) : Prop where
  ended : .pruning mq o ∉ s.tasks
  seen : d ≤ s.delivered.length
  above : ∀ y ∈ s.taken mq d, o ≤ y

section Returned

variable {log : List Int} {mq : MessageQueue} {o : Int} {d d' : Nat} {s t : LiteSys}

theorem Returned.step (h : Returned mq o d' s) (hinv : SeekInv log mq o d s)
    (hr : SeekRule log mq o s t) : Returned mq o d' t := by
  have hkeep : ∀ {u : LiteSys}, (∀ x ∈ u.tasks, x ∈ s.tasks ∨ x ≠ .pruning mq o) →
      u.delivered = s.delivered → Returned mq o d' u := by
    intro u ht hd
    refine ⟨fun hp => ?_, hd ▸ h.seen, ?_⟩
    · rcases ht _ hp with hp | hne
      · exact h.ended hp
      · exact hne rfl
    · rw [LiteSys.taken, hd]
      exact h.above
  have hbecome : ∀ i, ∀ x ∈ (s.become i []).tasks, x ∈ s.tasks ∨ x ≠ .pruning mq o := by
    intro i x hx
    rcases LiteSys.mem_become hx with hx | hx
    · cases hx
    · exact .inl hx
  cases hr with
  | loop hf => exact hkeep (fun x hx => .inl (hf.tasks ▸ hx)) hf.delivered
  | pulled | enqueued => exact hkeep (fun x hx => .inl hx) rfl
  | @polled out rest hout =>
    refine ⟨fun hp => ?_, ?_, fun y hy => ?_⟩
    · rcases LiteSys.mem_spawn hp with hp | hp
      · cases hp
      · exact h.ended hp
    · rw [length_append]
      have := h.seen
      omega
    · have hsplit : y ∈ ofQueue mq ((s.delivered ++ out).drop d') := hy
      rw [drop_append_of_le_length h.seen, ofQueue_append] at hsplit
      rcases mem_append.mp hsplit with hy | hy
      · exact h.above y hy
      · -- the seek has returned, so what the poll found was from `o` on
        refine hinv.pruned.resolve_left h.ended y ?_
        rw [← hout, ofQueue_append]
        exact mem_append_left _ hy
  | commit hf =>
    refine hkeep (fun x hx => ?_) hf.delivered
    rcases hf.tasks x hx with hcommit | hx
    · refine .inr fun heq => ?_
      rw [heq] at hcommit
      cases hcommit
    · exact .inl hx
  | counted | pruned => exact hkeep (hbecome _) rfl

end Returned

/-- **A seek is respected**, from every state in which it leaves its queue in order and in every
interleaving with polls, background pulls and commits. The consumed offset never exceeds an offset
of a message from `o` on that polls have not taken since. Once the seek has returned, nothing of the
queue below `o` is delivered. -/
theorem seek_respected {cfg : LiteConfig} {log : List Int} {mq : MessageQueue} {o lo hi : Int}
    {i : Nat} {s₀ s₁ s : LiteSys}
    (hreach : Machine.Reach LiteSys.step (fun _ _ => True) (LiteSys.init cfg) s₀)
    (hready : SeekReady log mq o s₀) (htask : s₀.tasks[i]? = some (.seeking mq o))
    (hrange : lo ≤ o ∧ o ≤ hi) (hseek : s₀.step (.range i (some (lo, hi))) = some s₁)
    (hrun : Machine.Reach LiteSys.step (Interleaved log mq o) s₁ s) :
    (∃ c, s.state.consumeOffset[mqKey mq]? = some c ∧
      ∀ x ∈ log, o ≤ x → x ∉ ofQueue mq (s.delivered.drop s₀.delivered.length) → c ≤ x) ∧
    (.pruning mq o ∉ s.tasks → ∀ s', Machine.Reach LiteSys.step (Interleaved log mq o) s s' →
      ∀ y ∈ ofQueue mq (s'.delivered.drop s.delivered.length), o ≤ y) := by
  have hnamed₀ : Named s₀ := hreach.invariant (Named.init cfg) fun _ _ _ h _ hs => h.step hs
  have hboth : Named s ∧ SeekInv log mq o s₀.delivered.length s :=
    hrun.invariant (I := fun s => Named s ∧ SeekInv log mq o s₀.delivered.length s)
      ⟨hnamed₀.step hseek, SeekInv.start hready htask hrange hseek⟩
      fun _ _ _ h hG hs => ⟨h.1.step hs, h.2.step h.1 (hG.rule hs)⟩
  refine ⟨hboth.2.consumed_le, fun hended s' hrun' => ?_⟩
  have hreturned : Returned mq o s.delivered.length s := by
    refine ⟨hended, le_refl _, fun y hy => ?_⟩
    rw [LiteSys.taken, drop_length] at hy
    cases hy
  have hall := hrun'.invariant (I := fun s' => Named s' ∧
      SeekInv log mq o s₀.delivered.length s' ∧ Returned mq o s.delivered.length s')
    ⟨hboth.1, hboth.2, hreturned⟩
    fun _ _ _ h hG hs =>
      ⟨h.1.step hs, h.2.1.step h.1 (hG.rule hs), h.2.2.step h.2.1 (hG.rule hs)⟩
  exact hall.2.2.above

namespace Script

/-- The rows 2, 3 and 4 are cached and a seek to `offset` waits for the range. -/
def cachedThenSeek (offset : Int) : List LiteAct :=
  pullOut ++ [.pulled (foundRows [2, 3, 4] 5), .enqueue, .seek liteQueue offset]

def beforeSeek (offset : Int) : LiteSys := liteAfter (cachedThenSeek offset)

def atSeek (offset : Int) : LiteSys :=
  Machine.after LiteSys.step (beforeSeek offset) [.range 0 (some (0, 9))]

/-- The seek returns; a poll takes its rows; the pull loop, which was sent back to 3, brings them
again with two more; the poll returns. -/
def pollAndPull : List LiteAct :=
  [.run 0, .poll, .collect, .gate, .readCursor, .request, .pulled (foundRows [3, 4, 5, 6] 7),
    .run 0, .enqueue]

def afterSeek : LiteSys := Machine.after LiteSys.step (atSeek 3) pollAndPull

end Script

open Script

/-- Forward to 3: row 2 is dropped, rows 3 and 4 are delivered, and 5 is the next to commit. -/
theorem seek_respected_forward :
    (∃ c, afterSeek.state.consumeOffset[mqKey liteQueue]? = some c ∧
      ∀ x ∈ [2, 3, 4, 5, 6], 3 ≤ x → x ∉ ofQueue liteQueue
        (afterSeek.delivered.drop (beforeSeek 3).delivered.length) → c ≤ x) ∧
    afterSeek.state.consumeOffset["Tb0"]? = some 5 ∧
    offsets afterSeek.delivered = [3, 4] ∧
    offsets afterSeek.buffer.messages = [3, 4, 5, 6] := by
  have hreach : Machine.Reach LiteSys.step (fun _ _ => True) (LiteSys.init liteConfig)
      (beforeSeek 3) := by
    have hmeets : Machine.Meets LiteSys.step (fun _ _ => True) (LiteSys.init liteConfig)
        (cachedThenSeek 3) := by decide +kernel
    exact hmeets.reach_after
  have hready : SeekReady [2, 3, 4, 5, 6] liteQueue 3 (beforeSeek 3) :=
    ⟨by decide +kernel, by decide +kernel, by decide +kernel, by decide +kernel, by decide +kernel⟩
  have htask : (beforeSeek 3).tasks[0]? = some (.seeking liteQueue 3) := by
    decide +kernel
  have hseek : (beforeSeek 3).step (.range 0 (some (0, 9))) = some (atSeek 3) :=
    Machine.step_eq_after (by decide +kernel)
  have hrun : Machine.Reach LiteSys.step (Interleaved [2, 3, 4, 5, 6] liteQueue 3)
      (atSeek 3) afterSeek := by
    have hmeets : Machine.Meets LiteSys.step (Interleaved [2, 3, 4, 5, 6] liteQueue 3)
        (atSeek 3) pollAndPull := by decide +kernel
    exact hmeets.reach_after
  exact ⟨(seek_respected hreach hready htask ⟨by decide, by decide⟩ hseek hrun).1,
    by decide +kernel⟩

/-- **Backward to 1 over cached rows.** The rows 2, 3 and 4 that were pulled before the seek are
delivered after it, and the consumed offset passes offset 1, which was not. -/
theorem seek_delivers_cached_rows :
    (Machine.after LiteSys.step (atSeek 1) [.run 0, .poll, .run 0]).state.nextOffset["Tb0"]?
      = some 1 ∧
    offsets (Machine.after LiteSys.step (atSeek 1) [.run 0, .poll, .run 0]).delivered
      = [2, 3, 4] ∧
    (Machine.after LiteSys.step (atSeek 1)
      [.run 0, .poll, .run 0]).state.consumeOffset["Tb0"]? = some 5 := by
  decide +kernel

end RocketMQ
