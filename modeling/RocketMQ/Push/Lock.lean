/-
  File:      RocketMQ/Push/Lock.lean
  Subject:   The broker lock of orderly clustering consumers.

  The lock table is written by the lock rounds, read by the gate of the pull loop, and not read at
  all by the dispatch loop.

  * `handed_pulled_under_lock`: every message that reaches an orderly listener in clustering mode
    was pulled in a round that passed its gate under a young lock record;
  * `handed_without_lock`: the hand-over itself asks for no lock.
-/
import RocketMQ.Push.Generation

namespace RocketMQ

open Machine

/-! ## 1. Gated rounds -/

/-- The loop `t` has passed its gate with a lock record that was granted and not older than the
maximum lifetime, and has booked nothing since. -/
def GatedRound (tr : List QEvent) (t : Nat) : Prop :=
  ∃ a since now b, tr = a ++ .gatePassed t true (some since) now :: b ∧
    now - since ≤ rebalanceLockMaxLiveTime ∧ ∀ g o res ms, .pulled t g o res ms ∉ b

variable {tr evs : List QEvent} {t : Nat} {r : Row}

theorem GatedRound.mono (h : GatedRound tr t) (hev : ∀ g o res ms, .pulled t g o res ms ∉ evs) :
    GatedRound (tr ++ evs) t := by
  obtain ⟨a, since, now, b, rfl, hage, hb⟩ := h
  refine ⟨a, since, now, b ++ evs, by simp, hage, ?_⟩
  intro g o res ms hm
  rcases List.mem_append.mp hm with hm | hm
  · exact hb g o res ms hm
  · exact hev g o res ms hm

/-- The message at `o` was pulled in a gated round. -/
def PulledUnderLock (tr : List QEvent) (o : Int) : Prop :=
  ∃ a t g req res ms b, tr = a ++ .pulled t g req res ms :: b ∧ o ∈ offsets ms ∧ GatedRound a t

theorem PulledUnderLock.mono {o : Int} (h : PulledUnderLock tr o) (evs : List QEvent) :
    PulledUnderLock (tr ++ evs) o := by
  obtain ⟨a, t, g, req, res, ms, b, rfl, ho, hg⟩ := h
  exact ⟨a, t, g, req, res, ms, b ++ evs, by simp, ho, hg⟩

/-- The loop stands behind its gate. -/
def LoopPc.pastGate : LoopPc → Bool
  | .flow _ | .cursor _ | .resolve _ | .pull _ _ => true
  | _ => false

/-- Every loop behind its gate is in a gated round. -/
def GateInv (tr : List QEvent) (q : Queue) : Prop :=
  ∀ t pc, (t, pc) ∈ q.loops → pc.pastGate = true → GatedRound tr t

theorem gateInv_init : GateInv [] Queue.init := fun _ _ h => nomatch h

theorem lockFresh_iff {now : Int} (h : r.lockFresh now = true) :
    ∃ since, r.lockOk = true ∧ r.lockAt = some since ∧ now - since ≤ rebalanceLockMaxLiveTime := by
  obtain ⟨hok, hat⟩ := Bool.and_eq_true_iff.mp h
  cases hr : r.lockAt with
  | none =>
    rw [hr] at hat
    cases hat
  | some since =>
    rw [hr] at hat
    exact ⟨since, hok, rfl, of_decide_eq_true hat⟩

theorem LoopRule.gated {m : Mode} {started : Bool} {r' : Row} {pc pc' : LoopPc}
    (hm : m.gated = true) (h : LoopRule m started t r pc evs r' pc')
    (hi : pc.pastGate = true → GatedRound tr t) (hpc : pc'.pastGate = true) :
    GatedRound (tr ++ evs) t := by
  cases h with
  | ungated hg =>
    cases hm.symm.trans hg
  | gatePassed now hf =>
    obtain ⟨since, hok, hat, hage⟩ := lockFresh_iff hf
    rw [hok, hat]
    exact ⟨tr, since, now, [], rfl, hage, fun _ _ _ _ h => nomatch h⟩
  | room | cached | missing | resolved => exact (hi rfl).mono (by simp)
  | pulled mq res msgs ho => split at hpc <;> cases hpc
  | _ => cases hpc

section Step

variable {m : Mode} {tr evs : List QEvent} {q q' : Queue}

theorem GateInv.frame (hi : GateInv tr q) (hev : ∀ t g o res ms, .pulled t g o res ms ∉ evs)
    (hl : ∀ t pc, (t, pc) ∈ q'.loops → (t, pc) ∈ q.loops ∨ pc.pastGate = false) :
    GateInv (tr ++ evs) q' := by
  intro t pc hmem hpc
  rcases hl t pc hmem with hmem | hout
  · exact (hi t pc hmem hpc).mono (hev t)
  · cases hout.symm.trans hpc

theorem gateInv_step (hm : m.gated = true) (ht : Tokens tr q) (hi : GateInv tr q)
    (hs : QStep m q evs q') : GateInv (tr ++ evs) q' := by
  have hsame : ∀ t pc, (t, pc) ∈ q.loops → (t, pc) ∈ q.loops ∨ pc.pastGate = false :=
    fun _ _ h => .inl h
  cases hs with
  | loop hl h =>
    rename_i l r t pc pc' row'
    intro t' c hmem hc
    rcases Assoc.mem_replace hl ht.nodup hmem with ⟨rfl, rfl⟩ | ⟨hne, hmem⟩
    · have hown : (t', pc) ∈ q.loops := hl ▸ List.mem_append_right _ List.mem_cons_self
      exact h.gated hm (hi t' pc hown) hc
    · -- another loop: what was booked now is not its answer
      refine (hi t' c hmem hc).mono fun g o res ms he => ?_
      exact hne (h.pulled_epoch he).2.2
  | exit hl =>
    exact hi.frame (by simp) fun _ _ hmem => .inl (Assoc.mem_erase hl hmem)
  | illegal hl | resume hl | spawn hl => exact hi.frame (by simp) (Assoc.mem_replace_or hl rfl)
  | abort hst hl => exact hi.frame (by simp) fun _ _ h => .inl (hl.subset h)
  | register mq now ho hl htk hn =>
    refine hi.frame (by simp) fun t' c hmem => ?_
    rcases Assoc.mem_insert hmem with ⟨_, rfl⟩ | hmem
    · exact .inr rfl
    · exact .inl (hl ▸ hmem)
  | held hh h => exact hi.frame h.not_pulled hsame
  | sweep off ho =>
    refine hi.frame ?_ hsame
    intro t g o res ms he
    split at he <;> simp at he
  | _ => exact hi.frame (by simp) hsame

/-- **Gated rounds along every run of an orderly clustering consumer.** -/
theorem gateInv_run (hm : m.gated = true) (h : QRun m Queue.init tr q) : GateInv tr q :=
  h.invariant gateInv_init fun _ _ _ _ hr hi hs => gateInv_step hm (tokens_run hr) hi hs

/-- **What is buffered or in dispatch was pulled under a lock.** -/
theorem underLock_run (hm : m.gated = true) (h : QRun m Queue.init tr q) :
    Carried (fun tr _ o => PulledUnderLock tr o) tr q := by
  refine h.invariant (carried_init _) ?_
  intro tr q evs q' hr hi hs
  refine carried_step (fun _ o ho => ho.mono evs) ?_ (fun _ _ _ _ _ ho => ho) hi hs
  intro t req res ms he o ho
  obtain ⟨_, _, ⟨sub, hl⟩, rest, rfl⟩ := hs.pulled_loop he
  exact ⟨tr, t, _, req, res, ms, rest, rfl, ho, gateInv_run hm hr t _ hl rfl⟩

end Step

/-! ## 2. The consumer -/

/-- The messages of a hand-over were pulled under a lock. -/
def HandedUnderLock (pre : List QEvent) : QEvent → Prop
  | .handed _ ms => ∀ o ∈ offsets ms, PulledUnderLock pre o
  | _ => True

/-- **What an orderly listener is handed in clustering mode was pulled under a lock**: every message
of the batch was pulled in a round whose gate saw this client's lock record of the queue, present
and not older than the maximum lock lifetime. -/
theorem handed_pulled_under_lock {cfg : ConsumerConfig} {clientId : String}
    {tr : List (String × QEvent)} {s : Sys} (h : Sys.Run (.init cfg true clientId) tr s)
    (hm : cfg.messageModel = .clustering) (k : String) : Along HandedUnderLock [] (onKey k tr) := by
  have hgated : Mode.gated ⟨true, cfg.messageModel⟩ = true := by
    rw [hm]
    rfl
  refine Run.invariant (I := fun tr _ => Along HandedUnderLock [] tr) trivial ?_
    (init_run_refines k h)
  intro tr q evs q' hr hi hs
  refine along_append.mpr ⟨hi, along_of_forall fun x e he => ?_⟩
  cases e with
  | handed g ms =>
    obtain ⟨pc, hh, hsub⟩ := hs.handed_mem he
    exact fun o ho => ((underLock_run hgated hr).held g pc hh o (hsub o ho)).mono x
  | _ => trivial

namespace Script

/-- The start of an orderly consumer: assignment, then a lock round that is granted. -/
def orderlyStart (initial : Int) : List Action :=
  start initial ++ [.lock, .task 1 (.granted (some [mq]))]

/-- A message is pulled under the lock and handed over. -/
def lockedDelivery : List Action := orderlyStart 0 ++ round 0 ++ [answer 0 [0] 1] ++ deliver

/-- A message is pulled under the lock; the next lock round is refused; the batch is taken. -/
def lockLost : List Action :=
  orderlyStart 0 ++ round 0 ++ [answer 0 [0] 1, .lock, .task 1 (.granted (some []))]
    ++ List.replicate 3 (.dispatch .go)

end Script

open Script

/-- A delivery under the lock. -/
theorem handed_pulled_under_lock_delivery :
    (onKey "Tb0" ((Sys.init cfg true "c").traceOf lockedDelivery)).any
        (QEvent.delivers 0 0) = true ∧
      Along HandedUnderLock []
        (onKey "Tb0" ((Sys.init cfg true "c").traceOf lockedDelivery)) :=
  ⟨by decide, handed_pulled_under_lock
    (Sys.run_after (.init cfg true "c") lockedDelivery (by decide)) rfl "Tb0"⟩

/-- **A batch is handed over without a lock.** The lock is lost between the pull and the hand-over,
and the next step of the dispatch loop calls the orderly listener. -/
theorem handed_without_lock :
    ∃ tr s, Sys.Run (.init cfg true "c") tr s ∧ (s.row "Tb0").lockOk = false ∧
      (s.row "Tb0").lockFresh s.clock = false ∧
      (s.step (.dispatch .go)).map (fun p => (onKey "Tb0" p.2).any (QEvent.delivers 0 0))
        = some true :=
  ⟨_, _, Sys.run_after _ lockLost (by decide), by decide, by decide, by decide⟩

end RocketMQ
