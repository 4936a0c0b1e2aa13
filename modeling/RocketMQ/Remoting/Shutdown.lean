/-
  File:      RocketMQ/Remoting/Shutdown.lean
  Subject:   What a shutdown leaves behind.

  * `InTime`: **the window**: the running flag is read before a connection is made, and the
    connection is published after it;
  * `shutdown_final_when`: outside it, both tables are empty at the end.
-/
import RocketMQ.Remoting.ConnectionLoss

namespace RocketMQ.RemotingClient

open List Std

/-! ## 1. What the shutdowns have to do -/

/-- The addresses that a shutdown has still to close. -/
def Shutting.todo : Shutting → List String
  | .next todo | .kill _ todo | .fail _ todo => todo
  | _ => []

/-- **While the client is not running.** -/
structure Ending (c : Client) : Prop where
  collecting : c.shared.running = false → c.collected = false → .collect ∈ c.shutdowns
  covered : c.shared.running = false → c.collected = true → ∀ addr ∈ c.shared.conns,
    ∃ x ∈ c.shutdowns, addr ∈ x.todo

/-- **The window**: nothing is published after the addresses have been collected. -/
def Call.InTime (c : Client) (k : Call) : Prop :=
  match k.phase with
  | .publish _ => c.shared.existing k.addr = none → c.shared.running = true ∨ c.collected = false
  | _ => True

instance decidableCallInTime (c : Client) (k : Call) : Decidable (k.InTime c) := by
  show Decidable (Call.InTime c { k with phase := k.phase })
  apply Phase.casesOn (motive := fun p => Decidable (Call.InTime c { k with phase := p })) k.phase
  case publish =>
    exact fun _ => inferInstanceAs (Decidable (c.shared.existing k.addr = none →
      c.shared.running = true ∨ c.collected = false))
  all_goals
    intros
    exact .isTrue trivial

def InTime (c : Client) : Act → Prop
  | .call i _ => ∀ k ∈ c.calls[i]?, k.InTime c
  | _ => True

instance decidableInTime (c : Client) (act : Act) : Decidable (InTime c act) := by
  apply Act.casesOn (motive := fun act => Decidable (InTime c act)) act
  case call => exact fun i _ => inferInstanceAs (Decidable (∀ k ∈ c.calls[i]?, k.InTime c))
  all_goals
    intros
    exact .isTrue trivial

section Sections

variable {s : Shared} {op : Op} {addr : String}

@[simp] theorem running_apply : (op.apply s).running = s.running := by
  cases op <;> rfl

theorem mem_conns_apply (h : addr ∈ (op.apply s).conns) :
    (∃ conn, op = .publish addr conn) ∨ (addr ∈ s.conns ∧ op ≠ .remove addr) := by
  obtain ⟨conn, hconn⟩ := Option.isSome_iff_exists.mp
    (ExtTreeMap.mem_iff_isSome_getElem?.mp h)
  rcases conns_apply hconn with heq | ⟨hold, hne⟩
  · exact .inl ⟨conn, heq⟩
  · exact .inr ⟨ExtTreeMap.mem_iff_isSome_getElem?.mpr (by rw [hold]; rfl), hne⟩

theorem Shuts.todo {x x' : Shutting} (h : Shuts s x op x') (hm : addr ∈ (op.apply s).conns)
    (ht : addr ∈ x.todo) : addr ∈ x'.todo := by
  cases h with
  | collect | clear => cases ht
  | @remove a todo conn hc =>
    refine (mem_erase_of_ne fun heq => ?_).mpr ht
    rw [heq] at hm
    rcases mem_conns_apply hm with ⟨_, hop⟩ | ⟨_, hne⟩
    · cases hop
    · exact hne rfl
  | @nothing a todo hc =>
    refine (mem_erase_of_ne fun heq => ?_).mpr ht
    rw [heq] at hm
    have hsome := ExtTreeMap.mem_iff_isSome_getElem?.mp hm
    rw [show (Op.apply s .idle).conns[a]? = none from hc] at hsome
    cases hsome
  | kill | fail => exact ht

end Sections

/-! ## 2. At the end -/

namespace Ending

variable {c c' : Client}

theorem new : Ending .new := ⟨nofun, nofun⟩

theorem others (h : Ending c) (hr : c'.shared.running = c.shared.running)
    (hc : c'.collected = c.collected) (hs : c'.shutdowns = c.shutdowns)
    (hm : ∀ addr ∈ c'.shared.conns, addr ∈ c.shared.conns) : Ending c' := by
  constructor
  · intro hrun hcol
    rw [hs]
    exact h.collecting (hr.symm.trans hrun) (hc.symm.trans hcol)
  · intro hrun hcol addr ha
    rw [hs]
    exact h.covered (hr.symm.trans hrun) (hc.symm.trans hcol) addr (hm addr ha)

theorem next {reconnect : Bool} {i : Nat} {k k' : Call} {op : Op} (h : Ending c)
    (hn : Next reconnect c.shared i k op k') (hG : k.InTime c) : Ending (c.moved op i k') := by
  constructor
  · intro hrun hcol
    exact h.collecting (running_apply.symm.trans hrun) hcol
  · intro hrun hcol addr ha
    have hstop : c.shared.running = false := running_apply.symm.trans hrun
    rcases mem_conns_apply ha with ⟨conn, rfl⟩ | ⟨ha, _⟩
    · obtain ⟨hphase, haddr, he, _⟩ := hn.publishes
      rw [Call.InTime, hphase, haddr] at hG
      rcases hG he with hgo | hnot
      · cases hstop.symm.trans hgo
      · rw [show c.collected = true from hcol] at hnot
        cases hnot
    · exact h.covered hstop hcol addr ha

theorem shut {j : Nat} {x x' : Shutting} {op : Op} (h : Ending c) (hx : c.shutdowns[j]? = some x)
    (hsh : Shuts c.shared x op x') :
    Ending { c with
      shared := op.apply c.shared
      shutdowns := c.shutdowns.set j x'
      collected := if x = .collect then true else c.collected } := by
  have hlt := (List.getElem?_eq_some_iff.mp hx).1
  have hnew : x' ∈ c.shutdowns.set j x' := mem_set hlt x'
  have hkeep : ∀ y ∈ c.shutdowns, y = x ∨ y ∈ c.shutdowns.set j x' := by
    intro y hy
    rw [Pool.set_eq_replace hx]
    exact Pool.mem_replace_of_mem [x'] hx hy
  constructor
  · intro hrun hcol
    by_cases heq : x = .collect
    · cases (if_pos heq).symm.trans hcol
    · rw [if_neg heq] at hcol
      rcases hkeep _ (h.collecting (running_apply.symm.trans hrun) hcol) with hcx | hmem
      · exact absurd hcx.symm heq
      · exact hmem
  · intro hrun hcol addr ha
    have hstop : c.shared.running = false := running_apply.symm.trans hrun
    by_cases heq : x = .collect
    · subst heq
      cases hsh with
      | collect => exact ⟨_, hnew, ExtTreeMap.mem_keys.mpr ha⟩
    · rw [if_neg heq] at hcol
      have hold : addr ∈ c.shared.conns := by
        rcases mem_conns_apply ha with ⟨conn, hop⟩ | ⟨hold, _⟩
        · cases hsh <;> cases hop
        · exact hold
      obtain ⟨y, hy, hty⟩ := h.covered hstop hcol addr hold
      rcases hkeep y hy with rfl | hmem
      · exact ⟨x', hnew, hsh.todo ha hty⟩
      · exact ⟨y, hmem, hty⟩

theorem step {env : Env} {act : Act} (h : Ending c) (hG : InTime c act)
    (hs : c.step env act = some c') : Ending c' := by
  have hkeep : ∀ op, (∀ addr conn, op ≠ .publish addr conn) →
      ∀ addr ∈ (Op.apply c.shared op).conns, addr ∈ c.shared.conns := by
    intro op hop addr ha
    rcases mem_conns_apply ha with ⟨conn, heq⟩ | ⟨hold, _⟩
    · exact absurd heq (hop addr conn)
    · exact hold
  cases step_cases hs with
  | start => exact ⟨nofun, nofun⟩
  | shutdown hr =>
    exact ⟨fun _ _ => mem_append_right _ (mem_singleton_self _), nofun⟩
  | again hr => exact h
  | call hk hn => exact h.next hn (hG _ hk)
  | receive hr =>
    cases hr with
    | completed hp => exact h.others rfl rfl rfl fun _ ha => ha
    | other => exact h
  | lost hl =>
    unfold Client.loseConnection
    split
    · exact h.others rfl rfl rfl fun _ ha => ExtTreeMap.mem_of_mem_erase ha
    · exact h.others rfl rfl rfl fun _ ha => ha
  | closeChannel hc => exact h.others rfl rfl rfl (hkeep _ nofun)
  | shut hx hsh => exact h.shut hx hsh
  | _ => exact h.others rfl rfl rfl fun _ ha => ha

end Ending

/-- **Shutdown is final**, in every run in which nothing is published after the addresses have been
collected: once the client is not running and every shutdown has returned, the connection table is
empty; and once every call has returned too, so is the in-flight table. -/
theorem shutdown_final_when {env : Env} {c : Client}
    (h : Machine.Reach (Client.step env) InTime .new c) (hr : c.shared.running = false)
    (hd : ∀ x ∈ c.shutdowns, x = .done) :
    c.shared.conns = ∅ ∧ ((∀ k ∈ c.calls, k.phase = .done) → c.shared.pending = ∅) := by
  have hending : Ending c := h.invariant Ending.new fun _ _ _ he hG hs => he.step hG hs
  have hacc := accounted_of_reach h
  constructor
  · refine ExtTreeMap.eq_empty_iff_forall_not_mem.mpr fun addr ha => ?_
    cases hc : c.collected with
    | false => exact absurd (hd _ (hending.collecting hr hc)) nofun
    | true =>
      obtain ⟨x, hx, ht⟩ := hending.covered hr hc addr ha
      rw [hd x hx] at ht
      cases ht
  · intro hcalls
    refine ExtTreeMap.eq_empty_iff_forall_not_mem.mpr fun requestId hm => ?_
    obtain ⟨p, hp⟩ := Option.isSome_iff_exists.mp (ExtTreeMap.mem_iff_isSome_getElem?.mp hm)
    obtain ⟨k, hk, howns⟩ := hacc.owned requestId p hp
    have hholding := howns.holding
    rwa [hcalls k (mem_of_getElem? hk)] at hholding

end RocketMQ.RemotingClient

namespace RocketMQ.Script

open RocketMQ.RemotingClient

/-- A shutdown while a call waits for its answer; then the call gives up. -/
def shutWhileWaiting : List Act :=
  callTo 9 ++ .shutdown :: List.replicate 5 (.shut 0 "b") ++ List.replicate 2 (.call 0 .go)

/-- A shutdown while a call connects; then the call publishes its connection and gives up. -/
def shutWhileConnecting : List Act :=
  callTo 6 ++ .shutdown :: List.replicate 2 (.shut 0 "b") ++ List.replicate 5 (.call 0 .go)

end RocketMQ.Script

namespace RocketMQ.RemotingClient

open Script

theorem shutdown_final_when_waiting :
    (clientAfter shutWhileWaiting).shutdowns = [.done] ∧
    (clientAfter shutWhileWaiting).shared.conns = ∅ ∧
    (clientAfter shutWhileWaiting).shared.pending = ∅ := by
  have hmeets : Machine.Meets (Client.step remotingEnv) InTime .new
      shutWhileWaiting := by
    decide +kernel
  have hd : (clientAfter shutWhileWaiting).shutdowns = [.done] := by decide +kernel
  have hall : ∀ x ∈ (clientAfter shutWhileWaiting).shutdowns, x = .done := by
    rw [hd]
    exact fun x hx => List.mem_singleton.mp hx
  have hfinal := shutdown_final_when hmeets.reach_after (by decide +kernel) hall
  exact ⟨hd, hfinal.1, hfinal.2 (by decide +kernel)⟩

/-- **A connection is left behind**: the shutdown and the call have returned, and the connection
that the call made meanwhile is still in the table. -/
theorem connection_left_behind :
    (clientAfter shutWhileConnecting).shared.running = false ∧
    (clientAfter shutWhileConnecting).shutdowns = [.done] ∧
    (clientAfter shutWhileConnecting).calls.map (·.phase) = [.done] ∧
    (clientAfter shutWhileConnecting).shared.conns["b"]? = some 0 := by
  decide +kernel

end RocketMQ.RemotingClient
