/-
  File:      RocketMQ/Producer/AsyncCompletion.lean
  Subject:   Every asynchronous send completes once and gives back its permits.

  * `async_send_completes`: **so every send comes to its end**, having called back once, after giving
    back every permit, or not at all if `send_async` returned an error;
  * `retries_never_end`: but not with the largest limit, which the count of retries cannot pass.
-/
import RocketMQ.Producer.AsyncRetry

namespace RocketMQ

/-! ## 1. The end of a send -/

/-- How these permits were acquired. -/
def SendPermits.take (p : SendPermits) : List SendEffect :=
  (if p.numAcquired then [.acquireNum] else []) ++
    (if p.sizeAcquired then [.acquireSize p.msgLen] else [])

namespace AsyncSend

/-- **What a send has done in the end**: nothing if the call returned an error; otherwise it has
acquired permits, given each of them back, and then called back once. -/
def Completed (s : AsyncSend) : Prop :=
  (∃ e, s.returned = some (.error e) ∧ s.effects = []) ∨
    (s.returned = some (.ok ()) ∧
      ∃ (p : SendPermits) (r : Except Error SendResult),
        s.effects = p.take ++ p.drop ++ [.callback r])

/-- What it has done at each place. -/
def Accounted (s : AsyncSend) : Prop :=
  match s.pc with
  | .called => s.returned = none ∧ s.effects = []
  | .queued => s.returned = some (.ok ()) ∧ s.effects = []
  | .counted => s.returned = some (.ok ()) ∧ s.effects = [.acquireNum]
  | .admitted p => s.returned = some (.ok ()) ∧ s.effects = p.take
  | .routed p _ _ _ _ => s.returned = some (.ok ()) ∧ s.effects = p.take
  | .inFlight chain => s.returned = some (.ok ()) ∧ s.effects = chain.permits.take
  | .done => s.Completed

/-- How many sections are left at most, as long as the count of a chain does not wrap around. -/
def rank (s : AsyncSend) : Nat :=
  match s.pc with
  | .called => 2 ^ 31 + 6
  | .queued => 2 ^ 31 + 5
  | .counted => 2 ^ 31 + 4
  | .admitted _ => 2 ^ 31 + 3
  | .routed _ _ _ _ _ => 2 ^ 31 + 2
  | .inFlight chain => (2 ^ 31 - chain.times.toInt).toNat + 1
  | .done => 0

/-- The count of a chain can still be raised. -/
def Countable (s : AsyncSend) : Prop :=
  ∀ chain, s.pc = .inFlight chain → chain.times.toInt < 2 ^ 31 - 1

/-- **The send after so many sections**, with the answers that each of them finds. -/
def run (msg : Message) (timeoutMillis : Option Int) (mq : Option MessageQueue)
    (envs : Nat → SendEnv) (m : Nat) : AsyncSend :=
  Machine.iterate step (.start msg timeoutMillis mq) envs m

end AsyncSend

/-! ## 2. Each section -/

namespace AsyncRule

variable {s t : AsyncSend} {env : SendEnv}

theorem accounted_permits {p : SendPermits} (h : s.Accounted) (hpc : s.pc.permits = some p) :
    s.returned = some (.ok ()) ∧ s.effects = p.take := by
  unfold AsyncSend.Accounted at h
  cases hs : s.pc with
  | admitted | routed | inFlight =>
    rw [hs] at h hpc
    cases hpc
    exact h
  | called | queued | counted | done =>
    rw [hs] at hpc
    cases hpc

theorem accounted_at {pc : AsyncPc} (h : s.Accounted) (hpc : s.pc = pc) :
    AsyncSend.Accounted { s with pc } := by
  subst hpc
  exact h

theorem accounted_queued (h : s.Accounted) (hpc : s.pc = .queued) :
    s.returned = some (.ok ()) ∧ s.effects = [] := accounted_at h hpc

theorem accounted_counted (h : s.Accounted) (hpc : s.pc = .counted) :
    s.returned = some (.ok ()) ∧ s.effects = [.acquireNum] := accounted_at h hpc

/-- **Each section keeps the account.** -/
theorem accounted (h : s.Accounted) (hr : AsyncRule s env t) : t.Accounted := by
  cases hr with
  | refused hpc => exact .inl ⟨_, rfl, (accounted_at h hpc).2⟩
  | submitted hpc => exact ⟨rfl, (accounted_at h hpc).2⟩
  | unlimited hpc => exact accounted_queued (s := s) h hpc
  | counted hpc =>
    obtain ⟨hreturned, heffects⟩ := accounted_queued h hpc
    refine ⟨hreturned, ?_⟩
    rw [heffects]
    rfl
  | @uncounted r hpc =>
    obtain ⟨hreturned, heffects⟩ := accounted_queued h hpc
    refine .inr ⟨hreturned, ⟨false, false, 0⟩, r, ?_⟩
    rw [heffects]
    rfl
  | @sized len hpc =>
    obtain ⟨hreturned, heffects⟩ := accounted_counted h hpc
    refine ⟨hreturned, ?_⟩
    rw [heffects]
    rfl
  | @unsized r hpc =>
    obtain ⟨hreturned, heffects⟩ := accounted_counted h hpc
    refine .inr ⟨hreturned, ⟨true, false, 0⟩, r, ?_⟩
    rw [heffects]
    rfl
  | routed hpc | again hpc => exact accounted_permits (s := s) h (congrArg AsyncPc.permits hpc)
  | written hpc _ _ hpermits =>
    obtain ⟨hreturned, heffects⟩ := accounted_permits h (congrArg AsyncPc.permits hpc)
    rw [← hpermits] at heffects
    exact ⟨hreturned, heffects⟩
  | @finished permits r hpc =>
    obtain ⟨hreturned, heffects⟩ := accounted_permits h hpc
    refine .inr ⟨hreturned, permits, r, ?_⟩
    rw [heffects]
  | idle => exact h

theorem again_le {chain : AsyncSendChain} (h : AsyncSend.triesAgain env chain = true) :
    chain.times + 1 ≤ env.retryTimes := by
  unfold AsyncSend.triesAgain at h
  split at h
  · cases h
  · simp only [Bool.and_eq_true, decide_eq_true_eq] at h
    exact h.1.2

/-- **Below the largest limit the count never wraps around.** -/
theorem countable (h : s.Countable) (hlimit : env.retryTimes < Int32.maxValue)
    (hr : AsyncRule s env t) : t.Countable := by
  cases hr with
  | written _ _ htimes =>
    intro chain' hpc'
    cases hpc'
    simp [htimes]
  | again _ hagain =>
    intro chain' hpc'
    cases hpc'
    have hlt := Int32.lt_iff_toInt_lt.mp hlimit
    exact Int.lt_of_le_of_lt (Int32.le_iff_toInt_le.mp (again_le hagain)) hlt
  | idle => exact h
  | _ => exact fun _ hpc' => nomatch hpc'

/-- **Each section brings the send nearer to its end.** -/
theorem rank_lt (hr : AsyncRule s env t) (h : s.Countable) (hpc : s.pc ≠ .done) :
    t.rank < s.rank := by
  unfold AsyncSend.rank
  cases hr with
  | again hs =>
    rename_i chain _ _ _
    have hlt := h chain hs
    have hle := Int32.le_toInt chain.times
    have hnext : (chain.times + 1).toInt = chain.times.toInt + 1 := by
      rw [Int32.toInt_add, Int32.toInt_one, Int.bmod_eq_of_le] <;> omega
    simp only [hs, AsyncSend.attempt]
    omega
  | refused hs => simp [hs, AsyncSend.refuse]
  | written hs _ htimes => simp [hs, AsyncSend.attempt, htimes]
  | finished =>
    cases hs : s.pc with
    | done => exact absurd hs hpc
    | _ => simp
  | idle hs => exact absurd hs hpc
  | submitted hs | unlimited hs | counted hs | uncounted hs | sized hs | unsized hs | routed hs =>
    simp [hs]

end AsyncRule

/-! ## 3. Every send completes -/

theorem AsyncSend.step_done (s : AsyncSend) (env : SendEnv) (hpc : s.pc = .done) :
    (s.step env).pc = .done := by
  rw [AsyncSend.step, hpc]
  exact hpc

theorem AsyncSend.Accounted.not_called {s : AsyncSend} (h : s.Accounted) (hpc : s.pc ≠ .done)
    (r : Except Error SendResult) : .callback r ∉ s.effects := by
  have htake (p : SendPermits) : SendEffect.callback r ∉ p.take := by
    unfold SendPermits.take
    cases p.numAcquired <;> cases p.sizeAcquired <;> simp
  unfold AsyncSend.Accounted at h
  cases hs : s.pc with
  | called | queued | counted =>
    rw [hs] at h
    simp [h.2]
  | admitted p | routed p | inFlight chain =>
    rw [hs] at h
    rw [h.2]
    exact htake _
  | done => exact absurd hs hpc

/-- **Asynchronous send completion.** For every message, time limit and queue, and whatever the
configuration, the semaphores, the clock, the name server, the fault strategy, the hooks and the
broker answer: before its end the send has not called back; at its end it has called back exactly
once, with every permit it had acquired given back before, or it has done nothing because
`send_async` returned an error; and it comes to its end if the limit of retries is never the largest
number of 32 bits. -/
theorem async_send_completes (msg : Message) (timeoutMillis : Option Int)
    (mq : Option MessageQueue) (envs : Nat → SendEnv) :
    (∀ m, (AsyncSend.run msg timeoutMillis mq envs m).pc ≠ .done →
      ∀ r, .callback r ∉ (AsyncSend.run msg timeoutMillis mq envs m).effects) ∧
    (∀ m, (AsyncSend.run msg timeoutMillis mq envs m).pc = .done →
      (AsyncSend.run msg timeoutMillis mq envs m).Completed) ∧
    ((∀ n, (envs n).retryTimes < Int32.maxValue) →
      ∃ n, ∀ m, n ≤ m → (AsyncSend.run msg timeoutMillis mq envs m).pc = .done) := by
  have haccounted (m : Nat) : (AsyncSend.run msg timeoutMillis mq envs m).Accounted :=
    Machine.iterate_invariant ⟨rfl, rfl⟩
      (fun n t ht => (AsyncRule.of_step t (envs n)).accounted ht) m
  refine ⟨fun m hpc => (haccounted m).not_called hpc, fun m hpc => ?_, fun hlimit => ?_⟩
  · exact AsyncRule.accounted_at (haccounted m) hpc
  · have hstart : (AsyncSend.start msg timeoutMillis mq).Countable := fun _ hpc => nomatch hpc
    exact @Machine.eventually_of_rank _ _ AsyncSend.step (.start msg timeoutMillis mq) envs
      AsyncSend.Countable (fun s => s.pc = .done) AsyncSend.rank hstart
      (fun n t ht => (AsyncRule.of_step t (envs n)).countable ht (hlimit n))
      (fun n t ht hpc => (AsyncRule.of_step t (envs n)).rank_lt ht hpc)
      (fun n t => t.step_done (envs n))

namespace Script

/-- Two retries. -/
def timesOut (_ : Nat) : SendEnv :=
  selects ⟨"T", "a", 0⟩ (.error (.timeout "10.0.0.1:10911" 3000))

/-- Retries without an end, with back-pressure: the broker's port refuses at once. -/
def refuses (_ : Nat) : SendEnv :=
  { selects ⟨"T", "a", 0⟩ (.error (.connect "10.0.0.1:10911")) with
    backpressure := true, retryTimes := Int32.maxValue, cost := 0 }

end Script

open Script

theorem async_send_completes_limited :
    ∃ n, ∀ m, n ≤ m → (AsyncSend.run sentMessage none none timesOut m).pc = .done :=
  (async_send_completes sentMessage none none timesOut).2.2 fun _ => by
    show (2 : Int32) < Int32.maxValue
    decide

theorem AsyncSend.refused_again {s : AsyncSend} {chain : AsyncSendChain}
    (hpc : s.pc = .inFlight chain) (htimeout : chain.timeout = 3000) :
    ∃ chain', (s.step (refuses 0)).pc = .inFlight chain' ∧ chain'.timeout = 3000 ∧
      (s.step (refuses 0)).returned = s.returned ∧
      (s.step (refuses 0)).effects = s.effects := by
  have hcount : chain.times + 1 ≤ Int32.maxValue := by
    rw [Int32.le_iff_toInt_le, Int32.toInt_maxValue]
    have hlt := Int32.toInt_lt (chain.times + 1)
    omega
  have hstep : s.step (refuses 0) = s.attempt (refuses 0)
      { chain with
        times := chain.times + 1
        brokerName := (AsyncSend.nextQueue (refuses 0) chain).1
        mq := (AsyncSend.nextQueue (refuses 0) chain).2
        addr := "10.0.0.2:10911", timeout := chain.timeout - 0 } := by
    have hretry : true = true ∧ chain.times + 1 ≤ Int32.maxValue ∧ chain.timeout - 0 > 0 :=
      ⟨rfl, hcount, by omega⟩
    rw [AsyncSend.step, hpc]
    exact if_pos hretry
  rw [hstep]
  exact ⟨_, rfl, by simp [htimeout], rfl, rfl⟩

theorem AsyncSend.refused_on {m : Nat} (hm : 5 ≤ m) : ∃ chain,
    (AsyncSend.run sentMessage none none refuses m).pc = .inFlight chain ∧
    chain.timeout = 3000 ∧
    (AsyncSend.run sentMessage none none refuses m).returned = some (.ok ()) ∧
    (AsyncSend.run sentMessage none none refuses m).effects
      = [.acquireNum, .acquireSize 3] := by
  induction m, hm using Nat.le_induction with
  | base => exact ⟨_, rfl, rfl, rfl, rfl⟩
  | succ m _ ih =>
    obtain ⟨chain, hpc, htimeout, hreturned, heffects⟩ := ih
    obtain ⟨chain', hpc', htimeout', hreturned', heffects'⟩ :=
      AsyncSend.refused_again hpc htimeout
    exact ⟨chain', hpc', htimeout', hreturned'.trans hreturned, heffects'.trans heffects⟩

/-- **The count wraps around below the limit**: the send never calls back and keeps its permits. -/
theorem retries_never_end :
    (AsyncSend.run sentMessage none none refuses 5).returned = some (.ok ()) ∧
    ∀ m, 5 ≤ m → (AsyncSend.run sentMessage none none refuses m).effects
      = [.acquireNum, .acquireSize 3] := by
  constructor
  · obtain ⟨_, _, _, hreturned, _⟩ := AsyncSend.refused_on (Nat.le_refl 5)
    exact hreturned
  · intro m hm
    obtain ⟨_, _, _, _, heffects⟩ := AsyncSend.refused_on hm
    exact heffects

end RocketMQ
