/-
  File:      RocketMQ/Remoting/Pairing.lean
  Subject:   Which frame completes which call.

  `dispatch` looks the opaque of a frame up in the in-flight table before it looks at the response
  flag: a frame without the flag that has the opaque of a call in flight (the source calls it the
  abnormal fallback) completes the call too.

  * `frames_paired_by_id`: **a frame completes the call in flight under its opaque**, and a request
    that no call waits for goes to its processor.
-/
import RocketMQ.Remoting.ConnectionLoss

namespace RocketMQ.RemotingClient

/-! ## 1. A stream of frames -/

/-- The answer of `dispatch`: whether the byte stream can still be trusted. -/
def Dispatched.trusted : Dispatched → Bool
  | .panics | .undecodable => false
  | _ => true

/-- A frame, the table it met and what became of it. -/
structure Reading where
  table : Shared
  frame : List UInt8
  outcome : Dispatched

/-- The loop of the reader: one frame after the other, while the stream can be trusted. -/
def readFrames (env : Env) (s : Shared) : List (List UInt8) → List Reading
  | [] => []
  | frame :: frames =>
    let (outcome, s') := dispatch env s frame
    ⟨s, frame, outcome⟩ :: if outcome.trusted then readFrames env s' frames else []

/-! ## 2. One frame -/

variable {env : Env} {s : Shared} {frame : List UInt8} {command : RemotingCommand}

theorem dispatch_of_error {fault : Fault}
    (h : RemotingCommand.decode env.lib env.checked frame = .error fault) :
    (dispatch env s frame).1.trusted = false := by
  unfold dispatch
  rw [h]
  cases fault <;> rfl

theorem dispatch_of_some {p : Pending}
    (h : RemotingCommand.decode env.lib env.checked frame = .ok command)
    (hp : s.pending[command.requestId]? = some p) :
    dispatch env s frame
      = (.completed p.sender command, Op.apply s (.cancel command.requestId)) := by
  unfold dispatch
  rw [h]
  simp only [hp]
  rfl

/-- What becomes of a frame that no call waits for: it depends on the flag. -/
def unawaited (env : Env) (command : RemotingCommand) : Dispatched :=
  if command.isResponseType then .dropped command
  else if env.processor command.code then .processed command (!command.isOnewayRpc)
  else .noProcessor command

theorem unawaited_ne_completed {sender : Nat × Nat} {other : RemotingCommand} :
    unawaited env command ≠ .completed sender other := by
  unfold unawaited
  split
  · nofun
  · split <;> nofun

theorem dispatch_of_none (h : RemotingCommand.decode env.lib env.checked frame = .ok command)
    (hp : s.pending[command.requestId]? = none) :
    dispatch env s frame = (unawaited env command, s) := by
  unfold dispatch unawaited
  rw [h]
  simp only [hp]
  split
  · rfl
  · split <;> rfl

theorem pending_dispatch (h : RemotingCommand.decode env.lib env.checked frame = .ok command)
    (requestId : Int32) :
    (dispatch env s frame).2.pending[requestId]?
      = if command.requestId = requestId then none else s.pending[requestId]? := by
  cases hp : s.pending[command.requestId]? with
  | none =>
    rw [dispatch_of_none h hp]
    split
    · rename_i heq
      rw [← heq]
      exact hp
    · rfl
  | some p =>
    rw [dispatch_of_some h hp]
    simp only [Op.apply, Std.ExtTreeMap.getElem?_erase, Std.LawfulEqCmp.compare_eq_iff_eq]

theorem completed_cases {sender : Nat × Nat}
    (h : (dispatch env s frame).1 = .completed sender command) :
    RemotingCommand.decode env.lib env.checked frame = .ok command ∧
      ∃ p, s.pending[command.requestId]? = some p ∧ p.sender = sender := by
  cases hd : RemotingCommand.decode env.lib env.checked frame with
  | error fault =>
    have htrusted := dispatch_of_error (s := s) hd
    rw [h] at htrusted
    cases htrusted
  | ok decoded =>
    cases hp : s.pending[decoded.requestId]? with
    | none =>
      rw [dispatch_of_none hd hp] at h
      exact absurd h unawaited_ne_completed
    | some p =>
      rw [dispatch_of_some hd hp] at h
      cases h
      exact ⟨rfl, p, hp, rfl⟩

/-! ## 3. The stream -/

theorem readFrames_cases {r : Reading} {frames : List (List UInt8)}
    (h : r ∈ readFrames env s frames) :
    r.outcome = (dispatch env r.table r.frame).1 ∧
      ∀ (requestId : Int32) (p : Pending), r.table.pending[requestId]? = some p →
        s.pending[requestId]? = some p := by
  induction frames generalizing s with
  | nil => cases h
  | cons frame frames ih =>
    simp only [readFrames] at h
    rcases List.mem_cons.mp h with rfl | h
    · exact ⟨rfl, fun _ _ hp => hp⟩
    · split at h
      · rename_i htrusted
        obtain ⟨houtcome, htable⟩ := ih h
        refine ⟨houtcome, fun requestId p hp => ?_⟩
        have hleft := htable requestId p hp
        cases hd : RemotingCommand.decode env.lib env.checked frame with
        | error fault =>
          cases (dispatch_of_error hd).symm.trans htrusted
        | ok command =>
          rw [pending_dispatch hd] at hleft
          split at hleft
          · cases hleft
          · exact hleft
      · cases h

/-- **Pairing by opaque**, for every stream of frames and every in-flight table: a call is completed
only by a frame with its own opaque, under which it was in flight; a frame with the opaque of a call
in flight completes it, with or without the response flag; and any other frame without the flag is
handed to the processor for its code, when there is one. -/
theorem frames_paired_by_id (env : Env) (s : Shared) (frames : List (List UInt8)) :
    ∀ r ∈ readFrames env s frames,
      (∀ sender command, r.outcome = .completed sender command →
        RemotingCommand.decode env.lib env.checked r.frame = .ok command ∧
        ∃ p, s.pending[command.requestId]? = some p ∧ p.sender = sender) ∧
      ∀ command, RemotingCommand.decode env.lib env.checked r.frame = .ok command →
        (∃ p, r.table.pending[command.requestId]? = some p ∧
          r.outcome = .completed p.sender command) ∨
        (r.table.pending[command.requestId]? = none ∧
          (command.isResponseType = false → env.processor command.code = true →
            r.outcome = .processed command (!command.isOnewayRpc))) := by
  intro r hr
  obtain ⟨houtcome, htable⟩ := readFrames_cases hr
  rw [houtcome]
  constructor
  · intro sender command heq
    obtain ⟨hd, p, hp, hsender⟩ := completed_cases heq
    exact ⟨hd, p, htable _ p hp, hsender⟩
  · intro command hd
    cases hp : r.table.pending[command.requestId]? with
    | none =>
      refine .inr ⟨rfl, fun hrequest hproc => ?_⟩
      rw [dispatch_of_none hd hp, unawaited, hrequest, hproc]
      rfl
    | some p =>
      refine .inl ⟨p, rfl, ?_⟩
      rw [dispatch_of_some hd hp]

open Script

/-- Two requests of the broker with the opaque of a call in flight: the first completes the call,
and the second goes to its processor. -/
theorem frames_paired_by_id_twice :
    (readFrames remotingEnv (clientAfter (callTo 9)).shared
      (List.replicate 2 (plainFrame 7 40 0))).map (·.outcome)
      = [.completed (0, 1) (plainCommand 7 40 0),
        .processed (plainCommand 7 40 0) true] ∧
    ∀ r ∈ readFrames remotingEnv (clientAfter (callTo 9)).shared
        (List.replicate 2 (plainFrame 7 40 0)),
      ∀ sender command, r.outcome = .completed sender command →
        ∃ p, (clientAfter (callTo 9)).shared.pending[command.requestId]? = some p ∧
          p.sender = sender := by
  refine ⟨by decide +kernel, fun r hr sender command heq => ?_⟩
  exact ((frames_paired_by_id _ _ _ r hr).1 sender command heq).2

/-- **A request of the broker completes a call**: it has the opaque of the call in flight and no
response flag, there is a processor for its code, and the call returns it as its response. -/
theorem request_completes_call :
    (plainCommand 7 40 0).isResponseType = false ∧
    remotingEnv.processor 40 = true ∧
    (dispatch remotingEnv (clientAfter (callTo 9)).shared
      (plainFrame 7 40 0)).1 = .completed (0, 1) (plainCommand 7 40 0) ∧
    (clientAfter (callTo 9 ++ [.receive 0 (plainFrame 7 40 0),
      .call 0 .go])).calls.map (·.outcome)
        = [some (.response (plainCommand 7 40 0))] := by
  decide +kernel

end RocketMQ.RemotingClient
