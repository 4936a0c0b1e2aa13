/-
  File:      RocketMQ/Producer/AsyncRetry.lean
  Subject:   The queue that a repeated asynchronous request names.

  A retry may go to another queue of another broker. The chain then has the new queue and the new
  broker's address, but the request was built once, for the first queue.

  * `written_for_selected_queue`: as long as retries stay, every request names its queue.
-/
import RocketMQ.Producer.AsyncSend

namespace RocketMQ

/-! ## 1. The queue of an attempt -/

/-- **The request of an attempt names the queue that was selected for it.** -/
def WrittenRequest.Carries (w : WrittenRequest) : Prop := w.request.names w.mq

namespace AsyncSend

/-- **The queue that the fault strategy gives for a retry is the one the chain is on.** -/
def StaysOnQueue (s : AsyncSend) (env : SendEnv) : Prop :=
  match s.pc with
  | .inFlight chain =>
    triesAgain env chain = true → chain.pinned = false →
      ∀ q ∈ env.selected.toOption,
        q.brokerName = chain.mq.brokerName ∧ q.queueId = chain.mq.queueId
  | _ => True

instance (s : AsyncSend) (env : SendEnv) : Decidable (s.StaysOnQueue env) := by
  unfold StaysOnQueue
  cases s.pc <;> infer_instance

/-- The send as a machine whose actions are the answers. -/
def next (s : AsyncSend) (env : SendEnv) : Option AsyncSend := some (s.step env)

end AsyncSend

/-! ## 2. Sections keep the queue -/

/-- **What holds while retries stay**: the chain's request names the chain's queue. -/
structure QueueInv (s : AsyncSend) : Prop where
  written : ∀ w ∈ s.written, w.Carries
  chain : ∀ chain, s.pc = .inFlight chain → chain.request.names chain.mq

namespace QueueInv

variable {s t : AsyncSend} {env : SendEnv}

theorem init (msg : Message) (timeoutMillis : Option Int) (mq : Option MessageQueue) :
    QueueInv (.start msg timeoutMillis mq) :=
  ⟨(fun _ h => nomatch h), fun _ h => nomatch h⟩

theorem attempt {chain : AsyncSendChain} (h : QueueInv s)
    (hnames : chain.request.names chain.mq) : QueueInv (s.attempt env chain) := by
  have hrequest : (if chain.times > 0 then { chain.request with requestId := env.requestId }
      else chain.request).names chain.mq := by
    split
    · exact hnames
    · exact hnames
  refine ⟨fun w hw => ?_, fun chain' hpc => ?_⟩
  · rcases List.mem_append.mp hw with hw | hw
    · exact h.written w hw
    · rw [List.mem_singleton.mp hw]
      exact hrequest
  · cases hpc
    exact hrequest

theorem names_congr {request : SendRequest} {mq q : MessageQueue} (h : request.names mq)
    (hbroker : q.brokerName = mq.brokerName) (hid : q.queueId = mq.queueId) : request.names q := by
  unfold SendRequest.names
  rw [hbroker, hid]
  exact h

theorem names_nextQueue {chain : AsyncSendChain} (hnames : chain.request.names chain.mq)
    (hstays : chain.pinned = false → ∀ q ∈ env.selected.toOption,
      q.brokerName = chain.mq.brokerName ∧ q.queueId = chain.mq.queueId) :
    chain.request.names (AsyncSend.nextQueue env chain).2 := by
  unfold AsyncSend.nextQueue
  split
  · exact hnames
  · rename_i hpinned
    split
    · rename_i q hq
      obtain ⟨hbroker, hid⟩ := hstays (by simpa using hpinned) q (by rw [hq]; rfl)
      exact names_congr hnames hbroker hid
    · exact hnames

theorem rule (h : QueueInv s) (hG : s.StaysOnQueue env) (hr : AsyncRule s env t) : QueueInv t := by
  cases hr with
  | written _ hnames => exact h.attempt hnames
  | again hpc hagain =>
    unfold AsyncSend.StaysOnQueue at hG
    rw [hpc] at hG
    exact h.attempt (names_nextQueue (h.chain _ hpc) (hG hagain))
  | idle => exact h
  | _ => exact ⟨h.written, fun _ hpc => nomatch hpc⟩

end QueueInv

/-! ## 3. Every request names its queue -/

/-- **The queue of each attempt.** For every asynchronous send and all answers of what surrounds it
in which a retry stays on the queue the chain is on, each request that was written names the queue
that was selected for that attempt. -/
theorem written_for_selected_queue (msg : Message) (timeoutMillis : Option Int)
    (mq : Option MessageQueue) {s : AsyncSend}
    (h : Machine.Reach AsyncSend.next AsyncSend.StaysOnQueue (.start msg timeoutMillis mq) s) :
    ∀ w ∈ s.written, w.Carries := by
  have hinv : QueueInv s := by
    refine h.invariant (.init msg timeoutMillis mq) fun t env t' ht hG hs => ?_
    cases hs
    exact ht.rule hG (.of_step t env)
  exact hinv.written

namespace Script

/-- A producer without back-pressure whose fault strategy selects this queue. -/
def selects (mq : MessageQueue) (response : Except Error SendResponse) : SendEnv :=
  { started := true, runtime := true, executor := some true, backpressure := false
    sendMsgTimeout := 3000, retryTimes := 2, nameSpace := "", maxMessageSize := 4194304
    config := ⟨"G", false, "TBW102", 4⟩, cost := 1, granted := true, publishInfo := .ok ()
    selected := .ok mq, prepare := fun m => (m, 0), fresh := nextId, now := 5, requestId := 9
    publishAddr := .ok "10.0.0.1:10911", forbidden := .ok (), hooked := false
    exceptionLeft := some, brokerAddr := fun _ => some "10.0.0.2:10911", response }

/-- The message is sent, times out, and is tried again on the queue selected then. -/
def triedAgainOn (mq : MessageQueue) : List SendEnv :=
  List.replicate 4 (selects ⟨"T", "a", 0⟩ (.error (.timeout "10.0.0.1:10911" 3000))) ++
    [selects mq (.error (.timeout "10.0.0.1:10911" 3000))]

def sentMessage : Message := ⟨"T", 0, ⟨[]⟩, some [1, 2, 3]⟩

def asyncAfter (envs : List SendEnv) : AsyncSend :=
  Machine.after AsyncSend.next (.start sentMessage none none) envs

end Script

open Script

/-- A retry on the queue of the first attempt: two requests, both for it. -/
theorem written_for_selected_queue_same :
    (asyncAfter (triedAgainOn ⟨"T", "a", 0⟩)).written.length = 2 ∧
      ∀ w ∈ (asyncAfter (triedAgainOn ⟨"T", "a", 0⟩)).written, w.Carries := by
  have hmeets : Machine.Meets AsyncSend.next AsyncSend.StaysOnQueue
      (.start sentMessage none none) (triedAgainOn ⟨"T", "a", 0⟩) := by
    decide +kernel
  exact ⟨by decide +kernel, written_for_selected_queue _ _ _ hmeets.reach_after⟩

/-- **The second request is written for queue 3 of broker b and names queue 0 of broker a.** -/
theorem retry_names_first_queue :
    (asyncAfter (triedAgainOn ⟨"T", "b", 3⟩)).written.map
        (fun w => (w.mq.brokerName, w.mq.queueId, w.request.header.brokerName,
          w.request.header.queueId))
      = [("a", 0, some "a", some 0), ("b", 3, some "a", some 0)] := by
  decide +kernel

end RocketMQ
