/-
  File:      RocketMQ/Lite/Fence.lean
  Subject:   A pull round that started before its queue was revoked or sought.

  `pull_one` drops an answer when the cursor is no longer the one the request was built on. The
  check does not cover the resolution of the first cursor, which writes whatever it got, nor the gap
  between the check and the buffer, nor a cursor that came back to the same offset.

  * `FenceInv`: what is in flight is of the queue's current epoch, or stands on a cursor that is gone;
  * `pull_fenced`: in runs of `Fenced` sections every write is of the epoch its round started in.
-/
import RocketMQ.Lite.System

namespace RocketMQ

open List

/-! ## 1. What is in flight -/

/-- A pull round or a resolution under way: its queue's key, the epoch it started in, and the
cursor its answer will be compared with. Without one the next write comes unconditionally. -/
structure InFlight where
  key : String
  started : Nat
  base : Option Int
  deriving DecidableEq, Repr

def PullPc.inFlight : PullPc → Option InFlight
  | idle => none
  | gated _ => none
  | unresolved mq started => some ⟨mqKey mq, started, none⟩
  | querying mq _ started => some ⟨mqKey mq, started, none⟩
  | located mq offset started => some ⟨mqKey mq, started, some offset⟩
  | pulling mq offset _ started => some ⟨mqKey mq, started, some offset⟩
  | accepted mq _ started => some ⟨mqKey mq, started, none⟩

/-- The queue that `resolve_offsets_for` is at, when it found no cursor. -/
def LiteTask.inFlight : LiteTask → Option InFlight
  | unresolved mq _ started => some ⟨mqKey mq, started, none⟩
  | querying mq _ _ started => some ⟨mqKey mq, started, none⟩
  | _ => none

namespace LiteSys

/-- The keys an action revokes or seeks. -/
def affected (s : LiteSys) : LiteAct → List String
  | .assign mqs => s.state.assignDrops mqs
  | .unsubscribe topic => s.state.unsubscribeDrops topic
  | .rebalance allocated => s.state.rebalanceDrops (Table.fill mqKey allocated ∅)
  | .range i _ =>
    match s.tasks[i]? with
    | some (.seeking mq _) => [mqKey mq]
    | _ => []
  | _ => []

/-- The offset a seek is about to pin. -/
def seeksTo (s : LiteSys) : LiteAct → Option Int
  | .range i _ =>
    match s.tasks[i]? with
    | some (.seeking _ offset) => some offset
    | _ => none
  | _ => none

/-- The queue that `resolve_offsets_for` comes to. -/
def resolvesNext (s : LiteSys) : LiteAct → Option String
  | .run i =>
    match s.tasks[i]? with
    | some (.resolving (mq :: _)) => some (mqKey mq)
    | _ => none
  | _ => none

/-- **The section meets nothing in flight that it cannot fence off.** A queue is revoked or sought
only while no resolution of it is under way and no accepted rows of it are on their way to the
buffer; a seek does not go to the very offset that a pull in flight was built on; and no resolution
starts for a queue that such a pull is out for. -/
structure Fenced (s : LiteSys) (a : LiteAct) : Prop where
  round : ∀ fl ∈ s.round.inFlight, fl.key ∈ s.affected a → fl.base.isSome ∧ fl.base ≠ s.seeksTo a
  tasks : ∀ t ∈ s.tasks, ∀ fl ∈ t.inFlight, fl.key ∉ s.affected a
  starts : ∀ fl ∈ s.round.inFlight, s.resolvesNext a = some fl.key → fl.base = none

instance (s : LiteSys) (a : LiteAct) : Decidable (s.Fenced a) :=
  decidable_of_iff
    ((∀ fl ∈ s.round.inFlight, fl.key ∈ s.affected a → fl.base.isSome ∧ fl.base ≠ s.seeksTo a) ∧
      (∀ t ∈ s.tasks, ∀ fl ∈ t.inFlight, fl.key ∉ s.affected a) ∧
      ∀ fl ∈ s.round.inFlight, s.resolvesNext a = some fl.key → fl.base = none)
    ⟨fun ⟨h1, h2, h3⟩ => ⟨h1, h2, h3⟩, fun h => ⟨h.round, h.tasks, h.starts⟩⟩

end LiteSys

/-! ## 2. The invariant -/

/-- Of the current epoch, or built on a cursor that is no longer there. -/
def InFlight.Covered (fl : InFlight) (s : LiteSys) : Prop :=
  fl.started = s.epoch fl.key ∨ ∃ f, fl.base = some f ∧ s.state.nextOffset[fl.key]? ≠ some f

structure FenceInv (s : LiteSys) : Prop where
  writes : ∀ w ∈ s.writes, w.started = w.written
  round : ∀ fl ∈ s.round.inFlight, fl.Covered s
  tasks : ∀ t ∈ s.tasks, ∀ fl ∈ t.inFlight, fl.started = s.epoch fl.key
  /-- a resolution and a pull of one queue are of the same epoch -/
  both : ∀ t ∈ s.tasks, ∀ r ∈ t.inFlight, ∀ fl ∈ s.round.inFlight, fl.key = r.key →
    fl.started = s.epoch fl.key

theorem InFlight.Covered.current {fl : InFlight} {s : LiteSys} (h : fl.Covered s)
    (hbase : fl.base = none) : fl.started = s.epoch fl.key := by
  rcases h with h | ⟨f, hf, _⟩
  · exact h
  · cases hbase.symm.trans hf

theorem InFlight.Covered.intact {fl : InFlight} {s : LiteSys} {f : Int} (h : fl.Covered s)
    (hbase : fl.base = some f) (hnext : s.state.nextOffset[fl.key]? = some f) :
    fl.started = s.epoch fl.key := by
  rcases h with h | ⟨g, hg, hne⟩
  · exact h
  · cases hbase.symm.trans hg
    exact absurd hnext hne

namespace FenceInv

variable {s t : LiteSys}

theorem init (cfg : LiteConfig) : FenceInv (LiteSys.init cfg) where
  writes := fun _ h => by cases h
  round := fun _ h => by cases h
  tasks := fun _ h => by cases h
  both := fun _ h => by cases h

theorem mem_of_inFlight (ht : ∀ x ∈ t.tasks, x.inFlight = none ∨ x ∈ s.tasks) :
    ∀ x ∈ t.tasks, ∀ fl ∈ x.inFlight, x ∈ s.tasks := by
  intro x hx fl hfl
  rcases ht x hx with hnone | hy
  · cases hnone.symm.trans hfl
  · exact hy

variable (h : FenceInv s)
include h

theorem frame (hw : t.writes = s.writes) (he : t.epoch = s.epoch)
    (hn : t.state.nextOffset = s.state.nextOffset)
    (hr : ∀ fl ∈ t.round.inFlight, fl ∈ s.round.inFlight)
    (ht : ∀ x ∈ t.tasks, x.inFlight = none ∨ ∃ y ∈ s.tasks, y.inFlight = x.inFlight) :
    FenceInv t := by
  have htasks : ∀ x ∈ t.tasks, ∀ fl ∈ x.inFlight, ∃ y ∈ s.tasks, fl ∈ y.inFlight := by
    intro x hx fl hfl
    rcases ht x hx with hnone | ⟨y, hy, heq⟩
    · cases hnone.symm.trans hfl
    · exact ⟨y, hy, heq ▸ hfl⟩
  refine ⟨hw ▸ h.writes, fun fl hfl => ?_, fun x hx fl hfl => ?_, fun x hx r hr' fl hfl hk => ?_⟩
  · unfold InFlight.Covered
    rw [he, hn]
    exact h.round fl (hr fl hfl)
  · obtain ⟨y, hy, hfl⟩ := htasks x hx fl hfl
    rw [he]
    exact h.tasks y hy fl hfl
  · obtain ⟨y, hy, hr'⟩ := htasks x hx r hr'
    rw [he]
    exact h.both y hy r hr' fl (hr fl hfl) hk

theorem advance (hw : t.writes = s.writes) (he : t.epoch = s.epoch)
    (ht : t.tasks = s.tasks) (hr : ∀ fl ∈ t.round.inFlight, fl.started = s.epoch fl.key) :
    FenceInv t := by
  refine ⟨hw ▸ h.writes, fun fl hfl => .inl ?_, fun x hx fl hfl => ?_, fun _ _ _ _ fl hfl _ => ?_⟩
  · rw [he]
    exact hr fl hfl
  · rw [he]
    exact h.tasks x (ht ▸ hx) fl hfl
  · rw [he]
    exact hr fl hfl

/-- A write of the current epoch. It may move the cursor of its own queue, if the round is of the
current epoch when it is for that queue. -/
theorem wrote {k : String} {e : Nat}
    (hw : t.writes = s.writes ++ [⟨k, e, s.epoch k⟩]) (hk : e = s.epoch k) (he : t.epoch = s.epoch)
    (hn : ∀ k', k' ≠ k → t.state.nextOffset[k']? = s.state.nextOffset[k']?)
    (hr : ∀ fl ∈ t.round.inFlight,
      fl.started = s.epoch fl.key ∨ (fl.key ≠ k ∧ fl ∈ s.round.inFlight))
    (ht : ∀ x ∈ t.tasks, x.inFlight = none ∨ x ∈ s.tasks) : FenceInv t := by
  have htasks := mem_of_inFlight ht
  refine ⟨fun w hw' => ?_, fun fl hfl => ?_, fun x hx fl hfl => ?_, fun x hx r hr' fl hfl hkey => ?_⟩
  · rw [hw] at hw'
    rcases mem_append.mp hw' with hw' | hw'
    · exact h.writes w hw'
    · rw [mem_singleton.mp hw']
      exact hk
  · unfold InFlight.Covered
    rw [he]
    rcases hr fl hfl with hcur | ⟨hne, hold⟩
    · exact .inl hcur
    · rw [hn fl.key hne]
      exact h.round fl hold
  · rw [he]
    exact h.tasks x (htasks x hx fl hfl) fl hfl
  · rw [he]
    rcases hr fl hfl with hcur | ⟨_, hold⟩
    · exact hcur
    · exact h.both x (htasks x hx r hr') r hr' fl hold hkey

/-- **A fenced revocation or seek.** -/
theorem bumped (ks : List String) (hw : t.writes = s.writes)
    (he : t.epoch = LiteSys.bump s.epoch ks) (hr : t.round = s.round)
    (hn : ∀ k, k ∉ ks → t.state.nextOffset[k]? = s.state.nextOffset[k]?)
    (hgone : ∀ fl ∈ s.round.inFlight, fl.key ∈ ks →
      ∃ f, fl.base = some f ∧ t.state.nextOffset[fl.key]? ≠ some f)
    (hquiet : ∀ x ∈ s.tasks, ∀ fl ∈ x.inFlight, fl.key ∉ ks)
    (ht : ∀ x ∈ t.tasks, x.inFlight = none ∨ x ∈ s.tasks) : FenceInv t := by
  have hkeep : ∀ k, k ∉ ks → t.epoch k = s.epoch k := by
    intro k hk
    rw [he]
    exact if_neg hk
  have htasks := mem_of_inFlight ht
  refine ⟨hw ▸ h.writes, fun fl hfl => ?_, fun x hx fl hfl => ?_, fun x hx r hr' fl hfl hkey => ?_⟩
  · rw [hr] at hfl
    by_cases hk : fl.key ∈ ks
    · exact .inr (hgone fl hfl hk)
    · unfold InFlight.Covered
      rw [hkeep _ hk, hn _ hk]
      exact h.round fl hfl
  · have hx' := htasks x hx fl hfl
    rw [hkeep _ (hquiet x hx' fl hfl)]
    exact h.tasks x hx' fl hfl
  · have hx' := htasks x hx r hr'
    rw [hr] at hfl
    have hk : fl.key ∉ ks := hkey ▸ hquiet x hx' r hr'
    rw [hkeep _ hk]
    exact h.both x hx' r hr' fl hfl hkey

theorem resolves {i : Nat} {mq : MessageQueue} {rest : List MessageQueue}
    (hstarts : ∀ fl ∈ s.round.inFlight, fl.key = mqKey mq → fl.base = none) :
    FenceInv (s.become i [.unresolved mq rest (s.epoch (mqKey mq))]) := by
  refine ⟨h.writes, h.round, fun x hx fl hfl => ?_, fun x hx r hr fl hfl hkey => ?_⟩
  · rcases LiteSys.mem_become hx with hx | hx
    · rw [mem_singleton.mp hx] at hfl
      cases hfl
      rfl
    · exact h.tasks x hx fl hfl
  · rcases LiteSys.mem_become hx with hx | hx
    · rw [mem_singleton.mp hx] at hr
      cases hr
      exact (h.round fl hfl).current (hstarts fl hfl hkey)
    · exact h.both x hx r hr fl hfl hkey

end FenceInv

/-! ## 3. The sections -/

namespace FenceInv

variable {s t : LiteSys}

variable (h : FenceInv s)
include h

theorem quiet (hw : t.writes = s.writes) (he : t.epoch = s.epoch)
    (hn : t.state.nextOffset = s.state.nextOffset)
    (hr : ∀ fl ∈ t.round.inFlight, fl ∈ s.round.inFlight)
    (ht : ∀ x ∈ t.tasks, x.inFlight = none ∨ x ∈ s.tasks) : FenceInv t := by
  refine h.frame hw he hn hr fun x hx => ?_
  rcases ht x hx with hnone | hmem
  · exact .inl hnone
  · exact .inr ⟨x, hmem, rfl⟩

theorem collect (hs : s.collect = some t) : FenceInv t := by
  unfold LiteSys.collect at hs
  split at hs
  · cases hs
    exact h.quiet rfl rfl rfl (fun _ hfl => hfl) fun _ hx => .inr hx
  · cases hs

theorem gate (hs : s.gate = some t) : FenceInv t := by
  unfold LiteSys.gate at hs
  split at hs
  · split at hs
    · cases hs
      exact h.quiet rfl rfl rfl (fun _ hfl => hfl) fun _ hx => .inr hx
    · cases hs
      exact h.quiet rfl rfl rfl (fun _ hfl => by cases hfl) fun _ hx => .inr hx
  · cases hs

theorem readCursor (hs : s.readCursor = some t) : FenceInv t := by
  unfold LiteSys.readCursor at hs
  split at hs
  · split at hs
    · cases hs
      refine h.advance rfl rfl rfl fun fl hfl => ?_
      cases hfl
      rfl
    · cases hs
      refine h.advance rfl rfl rfl fun fl hfl => ?_
      cases hfl
      rfl
  · cases hs

theorem readSeek (hs : s.readSeek = some t) : FenceInv t := by
  unfold LiteSys.readSeek at hs
  split at hs
  · rename_i mq e hpc
    cases hs
    refine h.quiet rfl rfl rfl (fun fl hfl => ?_) fun _ hx => .inr hx
    rw [hpc]
    exact hfl
  · cases hs

theorem resolved {calls : StartCalls Unit} (hs : s.resolved calls = some t) : FenceInv t := by
  unfold LiteSys.resolved at hs
  split at hs
  · rename_i mq seekOffset e hpc
    have hcur : e = s.epoch (mqKey mq) :=
      (h.round ⟨mqKey mq, e, none⟩ (by rw [hpc]; rfl)).current rfl
    split at hs
    · cases hs
      refine h.wrote rfl hcur rfl (fun k hk => ?_) (fun fl hfl => ?_) fun _ hx => .inr hx
      · exact Table.get_insert_ne hk
      · cases hfl
        exact .inl hcur
    · cases hs
      exact h.quiet rfl rfl rfl (fun _ hfl => by cases hfl) fun _ hx => .inr hx
  · cases hs

theorem request (hs : s.request = some t) : FenceInv t := by
  unfold LiteSys.request at hs
  split at hs
  · rename_i mq offset e hpc
    cases hs
    refine h.quiet rfl rfl rfl (fun fl hfl => ?_) fun _ hx => .inr hx
    rw [hpc]
    exact hfl
  · cases hs

theorem pulled {answer : Except Bool PullResult} (hs : s.pulled answer = some t) : FenceInv t := by
  unfold LiteSys.pulled at hs
  split at hs
  · cases hs
    refine h.quiet rfl rfl ?_ (fun _ hfl => by cases hfl) fun _ hx => .inr hx
    split
    · rfl
    · rfl
  · rename_i mq f sub e res hpc
    split at hs
    · rename_i hnext
      have hcur : e = s.epoch (mqKey mq) :=
        (h.round ⟨mqKey mq, e, some f⟩ (by rw [hpc]; rfl)).intact rfl hnext
      have hother : ∀ k, k ≠ mqKey mq →
          (s.state.nextOffset.insert (mqKey mq) res.nextBeginOffset)[k]?
            = s.state.nextOffset[k]? :=
        fun k hk => Table.get_insert_ne hk
      split at hs
      · cases hs
        exact h.wrote rfl hcur rfl hother (fun _ hfl => by cases hfl) fun _ hx => .inr hx
      · cases hs
        refine h.wrote rfl hcur rfl hother (fun fl hfl => ?_) fun _ hx => .inr hx
        cases hfl
        exact .inl hcur
    · cases hs
      exact h.quiet rfl rfl rfl (fun _ hfl => by cases hfl) fun _ hx => .inr hx
  · cases hs

theorem enqueue (hs : s.enqueue = some t) : FenceInv t := by
  unfold LiteSys.enqueue at hs
  split at hs
  · rename_i mq msgs e hpc
    cases hs
    have hcur : e = s.epoch (mqKey mq) :=
      (h.round ⟨mqKey mq, e, none⟩ (by rw [hpc]; rfl)).current rfl
    exact h.wrote rfl hcur rfl (fun _ _ => rfl) (fun _ hfl => by cases hfl) fun _ hx => .inr hx
  · cases hs

theorem revoke {st : LiteState} {dropped : List String} {x : LiteTask}
    (hx : x.inFlight = none) (hn : st.nextOffset = Table.eraseAll s.state.nextOffset dropped)
    (hround : ∀ fl ∈ s.round.inFlight, fl.key ∈ dropped → fl.base.isSome)
    (htasks : ∀ y ∈ s.tasks, ∀ fl ∈ y.inFlight, fl.key ∉ dropped) :
    FenceInv (s.revoke st dropped x) := by
  refine h.bumped dropped rfl rfl rfl (fun k hk => ?_) (fun fl hfl hk => ?_) htasks
    (LiteSys.spawn_quiet _ hx)
  · show st.nextOffset[k]? = _
    rw [hn, Table.get_eraseAll, if_neg hk]
  · obtain ⟨f, hf⟩ := Option.isSome_iff_exists.mp (hround fl hfl hk)
    refine ⟨f, hf, ?_⟩
    show st.nextOffset[fl.key]? ≠ some f
    rw [hn, Table.get_eraseAll, if_pos hk]
    exact nofun

theorem range {i : Nat} {answer : Option (Int × Int)}
    (hG : s.Fenced (.range i answer)) (hs : s.range i answer = some t) : FenceInv t := by
  unfold LiteSys.range at hs
  split at hs
  · rename_i mq offset htask
    have haff : s.affected (.range i answer) = [mqKey mq] := by
      simp only [LiteSys.affected, htask]
    have hto : s.seeksTo (.range i answer) = some offset := by
      simp only [LiteSys.seeksTo, htask]
    have hdrop : FenceInv (s.become i []) :=
      h.quiet rfl rfl rfl (fun _ hfl => hfl) (LiteSys.become_quiet _ (LiteSys.nil_quiet _))
    split at hs
    · cases hs
      exact hdrop
    · split at hs
      · cases hs
        exact hdrop
      · cases hs
        refine h.bumped [mqKey mq] rfl rfl rfl (fun k hk => ?_) (fun fl hfl hk => ?_)
          (haff ▸ hG.tasks)
          (LiteSys.become_quiet _ (LiteSys.one_quiet _ rfl))
        · have hne : mqKey mq ≠ k := fun heq => hk (heq ▸ mem_singleton_self _)
          exact Table.get_insert_ne (Ne.symm hne)
        · obtain ⟨hsome, hne⟩ := hG.round fl hfl (by rw [haff]; exact hk)
          obtain ⟨f, hf⟩ := Option.isSome_iff_exists.mp hsome
          refine ⟨f, hf, ?_⟩
          rw [hf, hto] at hne
          rw [mem_singleton.mp hk]
          show (s.state.nextOffset.insert (mqKey mq) offset)[mqKey mq]? ≠ some f
          rw [Std.ExtTreeMap.getElem?_insert_self]
          exact Ne.symm hne
  · cases hs

theorem startTask {i : Nat} {calls : StartCalls Unit}
    (hs : s.startTask i calls = some t) : FenceInv t := by
  unfold LiteSys.startTask at hs
  split at hs
  · rename_i mq seekOffset rest e htask
    have hmem : LiteTask.querying mq seekOffset rest e ∈ s.tasks := mem_of_getElem? htask
    have hcur : e = s.epoch (mqKey mq) := h.tasks _ hmem ⟨mqKey mq, e, none⟩ rfl
    have hquiet := LiteSys.one_quiet LiteTask.inFlight (t := .resolving rest) rfl
    split at hs
    · cases hs
      refine h.wrote rfl hcur rfl (fun k hk => ?_) (fun fl hfl => ?_)
        (LiteSys.become_quiet _ hquiet)
      · exact Table.get_insert_ne hk
      · by_cases hk : fl.key = mqKey mq
        · exact .inl (h.both _ hmem ⟨mqKey mq, e, none⟩ rfl fl hfl hk)
        · exact .inr ⟨hk, hfl⟩
    · cases hs
      exact h.quiet rfl rfl rfl (fun _ hfl => hfl) (LiteSys.become_quiet _ hquiet)
  · cases hs

theorem runTask {i : Nat} (hG : s.Fenced (.run i)) (hs : s.runTask i = some t) : FenceInv t := by
  have hend : ∀ {u : LiteSys} ts, (∀ x ∈ ts, x.inFlight = none) →
      u.writes = s.writes → u.epoch = s.epoch → u.round = s.round →
      u.state.nextOffset = s.state.nextOffset → u.tasks = (s.become i ts).tasks → FenceInv u := by
    intro u ts hts hw he hr hn ht
    refine h.quiet hw he hn (fun fl hfl => hr ▸ hfl) fun x hx => ?_
    exact LiteSys.become_quiet _ hts x (ht ▸ hx)
  have hone := fun {x} => LiteSys.one_quiet LiteTask.inFlight (t := x)
  have hnil := LiteSys.nil_quiet LiteTask.inFlight
  unfold LiteSys.runTask at hs
  split at hs
  · cases hs
    exact hend [] hnil rfl rfl rfl rfl rfl
  · cases hs
    exact hend [] hnil rfl rfl rfl rfl rfl
  · cases hs
    exact hend [] hnil rfl rfl rfl rfl rfl
  · cases hs
    exact hend _ (hone rfl) rfl rfl rfl rfl rfl
  · cases hs
    exact hend [] hnil rfl rfl rfl rfl rfl
  · cases hs
    exact hend _ (hone rfl) rfl rfl rfl rfl rfl
  · cases hs
    exact hend _ (hone rfl) rfl rfl rfl rfl rfl
  · cases hs
    exact hend [] hnil rfl rfl rfl rfl rfl
  · rename_i mq rest htask
    split at hs
    · cases hs
      exact hend _ (hone rfl) rfl rfl rfl rfl rfl
    · cases hs
      refine h.resolves fun fl hfl hk => hG.starts fl hfl ?_
      simp only [LiteSys.resolvesNext, htask, hk]
  · rename_i mq rest e htask
    cases hs
    -- the sought offset is read; the resolution stays the same
    refine h.frame rfl rfl rfl (fun _ hfl => hfl) fun x hx => ?_
    rcases LiteSys.mem_become hx with hx | hx
    · rw [mem_singleton.mp hx]
      exact .inr ⟨_, mem_of_getElem? htask, rfl⟩
    · exact .inr ⟨x, hx, rfl⟩
  · cases hs

/-- **One fenced section keeps the invariant.** -/
theorem step {a : LiteAct} (hG : s.Fenced a) (hs : s.step a = some t) : FenceInv t := by
  -- the sections that only start a quiet task, or write tables no fence is about
  have hspawn : ∀ {u : LiteSys} x, x.inFlight = none → u.writes = s.writes →
      u.epoch = s.epoch → u.round = s.round → u.state.nextOffset = s.state.nextOffset →
      u.tasks = (s.spawn x).tasks → FenceInv u := by
    intro u x hx hw he hr hn ht
    refine h.quiet hw he hn (fun fl hfl => hr ▸ hfl) fun y hy => ?_
    exact LiteSys.spawn_quiet _ hx y (ht ▸ hy)
  have hsame : ∀ {u : LiteSys}, u.writes = s.writes → u.epoch = s.epoch → u.round = s.round →
      u.state.nextOffset = s.state.nextOffset → u.tasks = s.tasks → FenceInv u := by
    intro u hw he hr hn ht
    exact h.quiet hw he hn (fun fl hfl => hr ▸ hfl) fun y hy => .inr (ht ▸ hy)
  have hround : ∀ fl ∈ s.round.inFlight, fl.key ∈ s.affected a → fl.base.isSome :=
    fun fl hfl hk => (hG.round fl hfl hk).1
  cases a with
  | collect => exact h.collect hs
  | gate => exact h.gate hs
  | readCursor => exact h.readCursor hs
  | readSeek => exact h.readSeek hs
  | resolved calls => exact h.resolved hs
  | request => exact h.request hs
  | pulled answer => exact h.pulled hs
  | enqueue => exact h.enqueue hs
  | assign mqs =>
    simp only [LiteSys.step] at hs
    split at hs
    · cases hs
    · cases hs
      exact h.revoke rfl rfl hround hG.tasks
  | unsubscribe topic =>
    cases hs
    exact h.revoke rfl rfl hround hG.tasks
  | rebalance allocated =>
    cases hs
    refine h.revoke rfl ?_ hround hG.tasks
    unfold LiteState.rebalance
    split
    · rename_i hsame
      rw [Bool.and_eq_true, List.isEmpty_iff, List.isEmpty_iff] at hsame
      rw [hsame.2]
      rfl
    · rfl
  | resolveAssigned | commit | commitQueues | commitOffsets =>
    cases hs
    exact hspawn _ rfl rfl rfl rfl rfl rfl
  | seek mq offset =>
    simp only [LiteSys.step] at hs
    split at hs
    · cases hs
      exact hspawn _ rfl rfl rfl rfl rfl rfl
    · cases hs
  | poll =>
    simp only [LiteSys.step] at hs
    split at hs
    · cases hs
    · cases hs
      exact hspawn _ rfl rfl rfl rfl rfl rfl
  | pause | resume | subscribe | configure | tick =>
    cases hs
    exact hsame rfl rfl rfl rfl rfl
  | run i => exact h.runTask hG hs
  | range i answer => exact h.range hG hs
  | started i calls => exact h.startTask hs

end FenceInv

/-! ## 4. Every write is of its epoch -/

/-- **Pull rounds are fenced off** in every run whose sections meet nothing they cannot fence off:
whenever a pull or a resolution moved a cursor or fed the buffer, its queue had been neither revoked
nor sought since it started. -/
theorem pull_fenced (cfg : LiteConfig) {s : LiteSys}
    (h : Machine.Reach LiteSys.step LiteSys.Fenced (LiteSys.init cfg) s) :
    ∀ w ∈ s.writes, w.started = w.written :=
  (h.invariant (FenceInv.init cfg) fun _ _ _ hi hG hs => hi.step hG hs).writes

namespace Script

def liteConfig : LiteConfig := ⟨.clustering, .lastOffset, 10, 10000, 1000, 100, 2000⟩

def liteQueue : MessageQueue := ⟨"T", "b", 0⟩

def liteOther : MessageQueue := ⟨"T", "b", 1⟩

def liteRow (offset : Int) : MessageExt :=
  ⟨"T", some [1], ⟨[]⟩, 0, offset, 0, none, 0, none⟩

/-- The broker knows this committed offset. -/
def committedAt (offset : Int) : StartCalls Unit :=
  ⟨.ok (some offset), none, .error (), .error (), fun _ => .error ()⟩

def foundRows (offsets : List Int) (next : Int) : Except Bool PullResult :=
  .ok ⟨.found, next, offsets.map liteRow⟩

/-- The queue is assigned and its first offset is being asked for. -/
def offsetAsked : List LiteAct :=
  [.assign [liteQueue], .run 0, .collect, .gate, .readCursor, .readSeek]

/-- A pull from offset 2 is out. -/
def pullOut : List LiteAct := offsetAsked ++ [.resolved (committedAt 2), .request]

def soughtTo (offset : Int) : List LiteAct :=
  [.seek liteQueue offset, .range 0 (some (0, 9)), .run 0]

def pullRound (offsets : List Int) (next : Int) : List LiteAct :=
  [.collect, .gate, .readCursor, .request, .pulled (foundRows offsets next), .enqueue]

/-- The queue is taken away and given back. -/
def takenAndBack : List LiteAct := [.assign [liteOther], .run 0, .assign [liteQueue], .run 0]

/-- A pull is out when the queue is sought to 5. -/
def soughtWhilePulling : List LiteAct :=
  pullOut ++ soughtTo 5 ++ [.pulled (foundRows [2, 3] 4)] ++ pullRound [5, 6] 7

/-- The queue is sought to 5 while its first offset is being asked for. -/
def soughtWhileAsking : List LiteAct :=
  offsetAsked ++ soughtTo 5 ++ [.resolved (committedAt 2)]

/-- The queue is taken away between the cursor check and the buffer. -/
def revokedOnTheWay : List LiteAct :=
  pullOut ++ [.pulled (foundRows [2, 3] 4), .assign [liteOther], .run 0, .enqueue]

/-- The queue comes back to the offset of an old pull. -/
def backAtTheOffset : List LiteAct :=
  pullOut ++ takenAndBack ++ soughtTo 2 ++ [.pulled (foundRows [2, 3] 4), .enqueue]

def liteAfter (acts : List LiteAct) : LiteSys :=
  Machine.after LiteSys.step (LiteSys.init liteConfig) acts

end Script

open Script

/-- The answer of the pull that was out is dropped, and the next round starts at 5. -/
theorem pull_fenced_seek :
    (∀ w ∈ (liteAfter soughtWhilePulling).writes, w.started = w.written) ∧
      (liteAfter soughtWhilePulling).writes
        = [⟨"Tb0", 0, 0⟩, ⟨"Tb0", 1, 1⟩, ⟨"Tb0", 1, 1⟩] :=
  ⟨pull_fenced liteConfig (Machine.Meets.reach_after (by decide +kernel)),
    by decide +kernel⟩

/-- **The three gaps.** The resolution that was under way overwrites the sought offset 5 by 2; rows
accepted before the queue was taken away enter the buffer after it was; and a queue that came back
to the offset of an old pull takes the rows of that pull. -/
theorem stale_pull_writes :
    (liteAfter soughtWhileAsking).state.nextOffset["Tb0"]? = some 2 ∧
    (liteAfter soughtWhileAsking).writes = [⟨"Tb0", 0, 1⟩] ∧
    (liteAfter revokedOnTheWay).state.assigned["Tb0"]? = none ∧
    offsets (liteAfter revokedOnTheWay).buffer.messages = [2, 3] ∧
    (liteAfter backAtTheOffset).writes
      = [⟨"Tb0", 0, 0⟩, ⟨"Tb0", 0, 2⟩, ⟨"Tb0", 0, 2⟩] := by
  decide +kernel

end RocketMQ
