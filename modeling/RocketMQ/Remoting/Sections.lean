/-
  File:      RocketMQ/Remoting/Sections.lean
  Subject:   What the sections of the remoting client can do.

  * `Next`: **the sections of a call**, with what each does to the shared state;
  * `Step`: **the steps of the client**, with the state each leaves;
  * `next_cases`, `step_cases`: the functions of the model do nothing else;
  * `pending_apply`, `conns_apply`, `links_apply`: what a section leaves in the tables.
-/
import RocketMQ.Remoting.Client

namespace RocketMQ.RemotingClient

/-! ## 1. The sections of a call -/

/-- The call is looking for a connection. -/
def Phase.Seeking : Phase → Prop
  | .check | .look | .gate | .lookAgain | .connect => True
  | _ => False

/-- The section touches the connect gates at most. -/
def Op.Quiet : Op → Prop
  | .idle | .lock _ _ | .unlock _ => True
  | _ => False

/-- **The sections of a call.** -/
inductive Next (reconnect : Bool) (s : Shared) (i : Nat) (k : Call) : Op → Call → Prop where
  | register {requestId} (h : k.phase = .register requestId) :
      Next reconnect s i k (.register requestId ⟨(i, k.used.length + 1), k.addr, none⟩)
        { k with used := requestId :: k.used, answer := none, wroteOn := none, phase := .check }
  | seek {op phase} (h : k.phase.Seeking) (hop : op.Quiet) (hp : phase.Seeking) :
      Next reconnect s i k op (k.goTo phase)
  | found {op conn} (h : k.phase.Seeking ∨ ∃ c, k.phase = .publish c) (hop : op.Quiet)
      (he : s.existing k.addr = some conn) : Next reconnect s i k op (k.goTo (.send conn))
  | refused {op error} (h : k.phase.Seeking) (hop : op.Quiet) :
      Next reconnect s i k op (k.failWith error)
  | create (h : k.phase = .connect) :
      Next reconnect s i k (.create k.addr) (k.goTo (.publish s.links.length))
  | publish {conn} (h : k.phase = .publish conn) (he : s.existing k.addr = none) :
      Next reconnect s i k (.publish k.addr conn) (k.goTo (.send conn))
  | send {conn} (h : k.phase = .send conn) (hi : k.invoke = true) :
      Next reconnect s i k .idle
        { k with written := k.written + 1, wroteOn := some conn, phase := .attach conn }
  | write {conn} (h : k.phase = .send conn) (hi : k.invoke = false) :
      Next reconnect s i k .idle
        { k with
          written := k.written + 1, wroteOn := some conn, phase := .done
          outcome := some .written }
  | unsent {conn} (h : k.phase = .send conn) : Next reconnect s i k .idle (k.goTo (.markDead conn))
  | markDead {conn} (h : k.phase = .markDead conn) :
      Next reconnect s i k (.markDead conn) (k.goTo (.close conn .failedWrite))
  | remove {own conn why} (h : k.phase = .close own why) (hc : s.conns[k.addr]? = some conn) :
      Next reconnect s i k (.remove k.addr) (k.goTo (.kill conn own why))
  | nothing {own why} (h : k.phase = .close own why) (hc : s.conns[k.addr]? = none) :
      Next reconnect s i k .idle (k.closed why)
  | kill {conn own why} (h : k.phase = .kill conn own why) :
      Next reconnect s i k (.markDead conn) (k.goTo (.fail conn own why))
  | fail {conn own why} (h : k.phase = .fail conn own why) :
      Next reconnect s i k (.fail conn) (k.closed why)
  | attach {conn} (h : k.phase = .attach conn) :
      Next reconnect s i k (.attach (k.used.headD 0) conn) (k.goTo (.wait conn))
  | answer {conn response} (h : k.phase = .wait conn) (ha : k.answer = some response) :
      Next reconnect s i k .idle (k.answered reconnect conn response)
  | giveUp {conn error own} (h : k.phase = .wait conn) (ho : ∀ c, own = some c → c = conn) :
      Next reconnect s i k .idle (k.goTo (.cancel error own))
  | cancel {error} (h : k.phase = .cancel error none) :
      Next reconnect s i k (.cancel (k.used.headD 0)) (k.finish (.error error))
  | cancelClose {error conn} (h : k.phase = .cancel error (some conn)) :
      Next reconnect s i k (.cancel (k.used.headD 0)) (k.goTo (.close conn .timedOut))
  | retry {requestId timeout} (h : k.phase = .retry) :
      Next reconnect s i k .idle { k with phase := .register requestId, timeout }

variable {reconnect : Bool} {s : Shared} {i : Nat} {k k' : Call} {x : Input} {op : Op}

/-- **A call does nothing else.** -/
theorem next_cases (h : k.next reconnect s i x = some (op, k')) : Next reconnect s i k op k' := by
  unfold Call.next at h
  cases hp : k.phase <;> cases x <;> simp only [hp, reduceCtorEq] at h
  case register.go requestId =>
    cases h
    exact .register hp
  case check.go =>
    split at h
    · cases h
      exact .seek (by rw [hp]; trivial) trivial trivial
    · cases h
      exact .refused (by rw [hp]; trivial) trivial
  case look.go =>
    split at h
    · cases h
      exact .found (.inl (by rw [hp]; trivial)) trivial ‹_›
    · cases h
      exact .seek (by rw [hp]; trivial) trivial trivial
  case gate.go =>
    split at h
    · cases h
    · cases h
      exact .seek (by rw [hp]; trivial) trivial trivial
  case lookAgain.go =>
    split at h
    · cases h
      exact .found (.inl (by rw [hp]; trivial)) trivial ‹_›
    · cases h
      exact .seek (by rw [hp]; trivial) trivial trivial
  case connect.go =>
    cases h
    exact .create hp
  case connect.refused error =>
    cases h
    exact .refused (by rw [hp]; trivial) trivial
  case publish.go conn =>
    split at h
    · cases h
      exact .found (.inr ⟨conn, hp⟩) trivial ‹_›
    · cases h
      exact .publish hp ‹_›
  case send.go conn =>
    split at h
    · split at h
      · cases h
        exact .send hp ‹_›
      · cases h
        exact .write hp (Bool.not_eq_true _ ▸ ‹_›)
    · cases h
      exact .unsent hp
  case markDead.go conn =>
    cases h
    exact .markDead hp
  case close.go own why =>
    split at h
    · cases h
      exact .remove hp ‹_›
    · cases h
      exact .nothing hp ‹_›
  case kill.go conn own why =>
    cases h
    exact .kill hp
  case fail.go conn own why =>
    cases h
    exact .fail hp
  case attach.go conn =>
    cases h
    exact .attach hp
  case wait.go conn =>
    split at h
    · cases h
      exact .answer hp ‹_›
    · split at h
      · cases h
      · cases h
        exact .giveUp hp fun _ hc => nomatch hc
  case wait.timedOut conn close =>
    cases h
    refine .giveUp hp fun c hc => ?_
    split at hc
    · exact (Option.some.inj hc).symm
    · cases hc
  case cancel.go error own =>
    cases own with
    | some conn =>
      cases h
      exact .cancelClose hp
    | none =>
      cases h
      exact .cancel hp
  case retry.retry requestId spent =>
    cases h
    exact .retry hp

theorem failWith_eq (error : Error) :
    ∃ phase outcome, k.failWith error = { k with phase, outcome } := by
  unfold Call.failWith
  split
  · exact ⟨_, k.outcome, rfl⟩
  · exact ⟨_, _, rfl⟩

theorem closed_eq (why : Why) : ∃ phase outcome, k.closed why = { k with phase, outcome } := by
  cases why with
  | failedWrite => exact failWith_eq _
  | goAway => exact ⟨_, k.outcome, rfl⟩
  | timedOut => exact ⟨_, _, rfl⟩

theorem answered_eq (conn : Nat) (response : RemotingCommand) :
    ∃ phase outcome, k.answered reconnect conn response = { k with phase, outcome } := by
  unfold Call.answered
  split
  · exact ⟨_, _, rfl⟩
  · split
    · exact ⟨_, _, rfl⟩
    · split
      · exact ⟨_, k.outcome, rfl⟩
      · exact ⟨_, _, rfl⟩

/-- Besides going on, a call only registers an attempt and records a write. -/
inductive Next.Changes (i : Nat) (k : Call) (op : Op) : Call → Prop where
  | going (phase : Phase) (outcome : Option Outcome) (timeout : Int) :
      Changes i k op { k with phase, outcome, timeout }
  | registering {requestId} (hp : k.phase = .register requestId)
      (hop : op = .register requestId ⟨(i, k.used.length + 1), k.addr, none⟩) :
      Changes i k op
        { k with used := requestId :: k.used, answer := none, wroteOn := none, phase := .check }
  | writing {conn} (phase : Phase) (outcome : Option Outcome) (hp : k.phase = .send conn) :
      Changes i k op { k with written := k.written + 1, wroteOn := some conn, phase, outcome }

theorem Next.changes (h : Next reconnect s i k op k') : Next.Changes i k op k' := by
  cases h with
  | register hp => exact .registering hp rfl
  | send hp hi => exact .writing (.attach _) k.outcome hp
  | write hp hi => exact .writing .done (some .written) hp
  | refused hp hop =>
    obtain ⟨phase, outcome, heq⟩ := failWith_eq _
    rw [heq]
    exact .going phase outcome k.timeout
  | nothing | fail =>
    obtain ⟨phase, outcome, heq⟩ := closed_eq _
    rw [heq]
    exact .going phase outcome k.timeout
  | answer hp ha =>
    obtain ⟨phase, outcome, heq⟩ := answered_eq _ _
    rw [heq]
    exact .going phase outcome k.timeout
  | @retry requestId timeout hp => exact .going (.register requestId) k.outcome timeout
  | _ => exact .going _ _ k.timeout

/-! ## 2. The sections of a shutdown -/

/-- **The sections of a shutdown.** -/
inductive Shuts (s : Shared) : Shutting → Op → Shutting → Prop where
  | collect : Shuts s .collect .idle (.next s.conns.keys)
  | clear : Shuts s (.next []) .clear .done
  | remove {addr todo conn} (hc : s.conns[addr]? = some conn) :
      Shuts s (.next todo) (.remove addr) (.kill conn (todo.erase addr))
  | nothing {addr todo} (hc : s.conns[addr]? = none) :
      Shuts s (.next todo) .idle (.next (todo.erase addr))
  | kill {conn todo} : Shuts s (.kill conn todo) (.markDead conn) (.fail conn todo)
  | fail {conn todo} : Shuts s (.fail conn todo) (.fail conn) (.next todo)

variable {addr : String} {requestId : Int32} {p p' : Pending}

/-- **A shutdown does nothing else.** -/
theorem shuts_cases {x x' : Shutting} (h : x.step s addr = some (op, x')) : Shuts s x op x' := by
  cases x with
  | collect =>
    cases h
    exact .collect
  | next todo =>
    cases todo with
    | nil =>
      cases h
      exact .clear
    | cons first rest =>
      simp only [Shutting.step] at h
      split at h
      · split at h
        · cases h
          exact .remove ‹_›
        · cases h
          exact .nothing ‹_›
      · cases h
  | kill conn todo =>
    cases h
    exact .kill
  | fail conn todo =>
    cases h
    exact .fail
  | done => cases h

/-! ## 3. The steps of the client -/

/-- A frame has been read: a call is completed, or nothing that is shared changes. -/
inductive Received (c : Client) : Client → Prop where
  | completed {p command}
      (hp : c.shared.pending[command.requestId]? = some p) :
      Received c { c with
        shared := Op.apply c.shared (.cancel command.requestId)
        calls := deliver c.calls (.completed p.sender command) }
  | other : Received c c

/-- **The steps of the client.** -/
inductive Step (env : Env) (c : Client) : Act → Client → Prop where
  | start :
      Step env c .start { c with shared := { c.shared with running := true }, collected := false }
  | shutdown (h : c.shared.running = true) :
      Step env c .shutdown { c with
        shared := { c.shared with running := false }
        shutdowns := c.shutdowns ++ [.collect]
        collected := false }
  | again (h : c.shared.running = false) : Step env c .shutdown c
  | invoke {addr requestId timeout} :
      Step env c (.invoke addr requestId timeout)
        { c with calls := c.calls ++ [newCall true addr timeout (.register requestId)] }
  | write {addr : String} :
      Step env c (.write addr) { c with calls := c.calls ++ [newCall false addr 0 .check] }
  | call {i : Nat} {x : Input} {k k' : Call} {op : Op} (hk : c.calls[i]? = some k)
      (hn : Next env.reconnect c.shared i k op k') :
      Step env c (.call i x) { c with shared := op.apply c.shared, calls := c.calls.set i k' }
  | receive {conn frame c'} (h : Received c c') : Step env c (.receive conn frame) c'
  | laneEnds {conn} :
      Step env c (.laneEnds conn) { c with shared := { c.shared with
        links := c.shared.links.modify conn fun l => { l with lane := false } } }
  | readerEnds {conn} :
      Step env c (.readerEnds conn) { c with shared := Op.apply c.shared (.markDead conn) }
  | lost {conn link} (hl : c.shared.links[conn]? = some link) :
      Step env c (.lost conn) (c.loseConnection conn link)
  | closeChannel {addr conn} (hc : c.shared.conns[addr]? = some conn) :
      Step env c (.closeChannel addr) { c with
        shared := Op.apply c.shared (.remove addr)
        closers := c.closers ++ [⟨conn, false⟩] }
  | mark {j x} (hx : c.closers[j]? = some x) :
      Step env c (.closer j) { c with
        shared := Op.apply c.shared (.markDead x.conn)
        closers := c.closers.set j { x with marked := true } }
  | fail {j x} (hx : c.closers[j]? = some x) :
      Step env c (.closer j) { c with
        shared := Op.apply c.shared (.fail x.conn)
        closers := c.closers.eraseIdx j }
  | shut {j addr x x' op} (hx : c.shutdowns[j]? = some x) (hs : Shuts c.shared x op x') :
      Step env c (.shut j addr) { c with
        shared := op.apply c.shared
        shutdowns := c.shutdowns.set j x'
        collected := if x = .collect then true else c.collected }

variable {env : Env} {c c' : Client} {act : Act}

theorem received_cases (frame : List UInt8) :
    Received c { c with
      shared := (dispatch env c.shared frame).2
      calls := deliver c.calls (dispatch env c.shared frame).1 } := by
  unfold dispatch
  split
  · exact .other
  · exact .other
  · split
    · exact .completed ‹_›
    · split
      · exact .other
      · split
        · exact .other
        · exact .other

/-- **The client does nothing else.** -/
theorem step_cases (h : c.step env act = some c') : Step env c act c' := by
  cases act with
  | start =>
    cases h
    exact .start
  | shutdown =>
    simp only [Client.step] at h
    split at h
    · cases h
      exact .shutdown ‹_›
    · cases h
      exact .again (Bool.not_eq_true _ ▸ ‹_›)
  | invoke addr requestId timeout =>
    cases h
    exact .invoke
  | write addr =>
    cases h
    exact .write
  | call i x =>
    simp only [Client.step, Option.bind_eq_bind, Option.bind_eq_some_iff] at h
    obtain ⟨k, hk, ⟨op, k'⟩, hn, hc⟩ := h
    cases hc
    exact .call hk (next_cases hn)
  | receive conn frame =>
    simp only [Client.step] at h
    split at h
    · cases h
      exact .receive (received_cases frame)
    · cases h
  | laneEnds conn =>
    cases h
    exact .laneEnds
  | readerEnds conn =>
    cases h
    exact .readerEnds
  | lost conn =>
    obtain ⟨link, hl, hc⟩ := Option.bind_eq_some_iff.mp h
    cases hc
    exact .lost hl
  | closeChannel addr =>
    obtain ⟨conn, hconn, hc⟩ := Option.bind_eq_some_iff.mp h
    cases hc
    exact .closeChannel hconn
  | closer j =>
    obtain ⟨x, hx, hc⟩ := Option.bind_eq_some_iff.mp h
    split at hc
    · cases hc
      exact .fail hx
    · cases hc
      exact .mark hx
  | shut j addr =>
    simp only [Client.step, Option.bind_eq_bind, Option.bind_eq_some_iff] at h
    obtain ⟨x, hx, ⟨op, x'⟩, hs, hc⟩ := h
    cases hc
    exact .shut hx (shuts_cases hs)

/-! ## 4. What a section leaves in the tables -/

section Deliver

variable {calls : List Call} {sender : Nat × Nat} {command : RemotingCommand} {j : Nat}

theorem deliver_cases (h : (deliver calls (.completed sender command))[j]? = some k') :
    ∃ k, calls[j]? = some k ∧
      (k' = k ∨ (j = sender.1 ∧ k.used.length = sender.2 ∧
        k' = { k with answer := some command })) := by
  rw [deliver, List.getElem?_modify, Option.map_eq_map, Option.map_eq_some_iff] at h
  obtain ⟨k, hk, hk'⟩ := h
  refine ⟨k, hk, ?_⟩
  split at hk'
  · split at hk'
    · exact .inr ⟨Eq.symm ‹_›, ‹_›, hk'.symm⟩
    · exact .inl hk'.symm
  · exact .inl hk'.symm

theorem getElem?_deliver_ne (hne : j ≠ sender.1) :
    (deliver calls (.completed sender command))[j]? = calls[j]? := by
  rw [deliver, List.getElem?_modify]
  split
  · exact absurd (Eq.symm ‹_›) hne
  · rw [Option.map_eq_map, Option.map_id']

end Deliver

/-- What a section leaves of an entry. -/
inductive Kept (op : Op) (requestId : Int32) (p : Pending) : Pending → Prop where
  | same (hr : ∀ entry, op ≠ .register requestId entry) (hc : op ≠ .cancel requestId)
      (hf : ∀ conn, op = .fail conn → p.connId ≠ some conn) : Kept op requestId p p
  | attached {conn} (h : op = .attach requestId conn) :
      Kept op requestId p { p with connId := some conn }

theorem Kept.sender (h : Kept op requestId p p') : p'.sender = p.sender := by
  cases h with
  | same | attached => rfl

theorem Kept.ne_cancel (h : Kept op requestId p p') : op ≠ .cancel requestId := by
  cases h with
  | same hr hc hf => exact hc
  | attached h =>
    rw [h]
    nofun

theorem Kept.ne_register {entry : Pending} (h : Kept op requestId p p') :
    op ≠ .register requestId entry := by
  cases h with
  | same hr hc hf => exact hr entry
  | attached h =>
    rw [h]
    nofun

/-- **The in-flight table after a section**: an entry was registered by it, or was there. -/
theorem pending_apply (h : (op.apply s).pending[requestId]? = some p') :
    op = .register requestId p' ∨
      ∃ p, s.pending[requestId]? = some p ∧ Kept op requestId p p' := by
  cases op with
  | register other entry =>
    rcases Table.of_get_insert h with ⟨rfl, rfl⟩ | ⟨hne, h⟩
    · exact .inl rfl
    · refine .inr ⟨p', h, .same (fun e heq => hne ?_) nofun nofun⟩
      cases heq
      rfl
  | attach other conn =>
    simp only [Op.apply, Std.ExtTreeMap.getElem?_modify] at h
    split at h
    · rename_i heq
      rw [Std.LawfulEqCmp.compare_eq_iff_eq.mp heq] at h ⊢
      obtain ⟨p, hp, rfl⟩ := Option.map_eq_some_iff.mp h
      exact .inr ⟨p, hp, .attached rfl⟩
    · exact .inr ⟨p', h, .same nofun nofun nofun⟩
  | cancel other =>
    obtain ⟨hne, h⟩ := Table.of_get_erase h
    refine .inr ⟨p', h, .same nofun (fun heq => hne ?_) nofun⟩
    cases heq
    rfl
  | fail conn =>
    simp only [Op.apply, Std.ExtTreeMap.getElem?_filter', Option.filter_eq_some_iff, bne_iff_ne] at h
    refine .inr ⟨p', h.1, .same nofun nofun fun c hc => ?_⟩
    cases hc
    exact h.2
  | clear =>
    simp [Op.apply] at h
  | idle | lock | unlock | create | publish | remove | markDead =>
    exact .inr ⟨p', h, .same nofun nofun nofun⟩

theorem pending_left (hr : ∀ entry, op ≠ .register requestId entry)
    (ha : ∀ conn, op ≠ .attach requestId conn) (h : (op.apply s).pending[requestId]? = some p) :
    s.pending[requestId]? = some p := by
  rcases pending_apply h with heq | ⟨p₀, hp₀, hkept⟩
  · exact absurd heq (hr p)
  · cases hkept with
    | same => exact hp₀
    | attached heq => exact absurd heq (ha _)

/-- The client behind a section of a call. -/
abbrev Client.moved (c : Client) (op : Op) (i : Nat) (k : Call) : Client :=
  { c with shared := op.apply c.shared, calls := c.calls.set i k }

/-- **What a step does to the calls and to what is in flight**: only a call registers and binds
requests. -/
inductive OnCalls (env : Env) (c : Client) : Act → Client → Prop where
  | invoke {addr requestId timeout} :
      OnCalls env c (.invoke addr requestId timeout)
        { c with calls := c.calls ++ [newCall true addr timeout (.register requestId)] }
  | write {addr : String} :
      OnCalls env c (.write addr) { c with calls := c.calls ++ [newCall false addr 0 .check] }
  | call {i : Nat} {x : Input} {k k' : Call} {op : Op} (hk : c.calls[i]? = some k)
      (hn : Next env.reconnect c.shared i k op k') :
      OnCalls env c (.call i x) (c.moved op i k')
  | completed {act p command} (hp : c.shared.pending[command.requestId]? = some p) :
      OnCalls env c act { c with
        shared := Op.apply c.shared (.cancel command.requestId)
        calls := deliver c.calls (.completed p.sender command) }
  | rest {act : Act} {c' : Client} (hc : c'.calls = c.calls)
      (hp : ∀ (requestId : Int32) (p : Pending), c'.shared.pending[requestId]? = some p →
        c.shared.pending[requestId]? = some p) :
      OnCalls env c act c'

theorem onCalls_cases (h : c.step env act = some c') : OnCalls env c act c' := by
  cases step_cases h with
  | invoke => exact .invoke
  | write => exact .write
  | call hk hn => exact .call hk hn
  | receive hr =>
    cases hr with
    | completed hp => exact .completed hp
    | other => exact .rest rfl fun _ _ hp => hp
  | lost hl =>
    unfold Client.loseConnection
    split <;> exact .rest rfl fun _ _ hp => hp
  | fail hx => exact .rest rfl fun _ _ => pending_left nofun nofun
  | shut hx hsh =>
    refine .rest rfl fun _ _ => ?_
    cases hsh <;> exact pending_left nofun nofun
  | _ => exact .rest rfl fun _ _ hp => hp

/-- **The connection table after a section.** -/
theorem conns_apply {conn : Nat} (h : (op.apply s).conns[addr]? = some conn) :
    op = .publish addr conn ∨ (s.conns[addr]? = some conn ∧ op ≠ .remove addr) := by
  cases op with
  | publish other conn' =>
    rcases Table.of_get_insert h with ⟨rfl, rfl⟩ | ⟨_, h⟩
    · exact .inl rfl
    · exact .inr ⟨h, nofun⟩
  | remove other =>
    obtain ⟨hne, h⟩ := Table.of_get_erase h
    refine .inr ⟨h, fun heq => hne ?_⟩
    cases heq
    rfl
  | idle | register | attach | cancel | lock | unlock | create | markDead | fail | clear =>
    exact .inr ⟨h, nofun⟩

end RocketMQ.RemotingClient
