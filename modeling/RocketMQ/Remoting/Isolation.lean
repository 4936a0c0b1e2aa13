/-
  File:      RocketMQ/Remoting/Isolation.lean
  Subject:   What `GO_AWAY`, a timeout or a failed write on one connection does to others.

  * `Bound`: a request is bound to the connection it was written on;
  * `Isolated`: **`close_channel` goes by the address**: it finds no connection there, or the one
    it is called for;
  * `isolation_when`: then **no other connection is closed, and no request on another one fails**.
-/
import RocketMQ.Remoting.ConnectionLoss

namespace RocketMQ.RemotingClient

open List

/-! ## 1. On whose account -/

/-- The connection on whose account the call marks dead, closes and fails. -/
def Call.actsOn (k : Call) : Option Nat :=
  match k.phase with
  | .markDead conn | .close conn _ | .kill _ conn _ | .fail _ conn _ => some conn
  | _ => none

/-- What a section knows of the connection that the request was written on. -/
def Phase.Wrote : Phase → Option Nat → Prop
  | .check, conn | .look, conn | .gate, conn | .lookAgain, conn | .connect, conn
  | .publish _, conn | .send _, conn => conn = none
  | .attach own, conn | .wait own, conn | .cancel _ (some own), conn => conn = some own
  | .close own why, conn | .kill _ own why, conn | .fail _ own why, conn =>
    why ≠ .failedWrite → conn = some own
  | _, _ => True

/-- What is closed is what the call acts on account of. -/
def Phase.Own : Phase → Prop
  | .kill conn own _ | .fail conn own _ => conn = own
  | _ => True

/-- **A call acts on account of the connection that its request was written on.** -/
structure Call.Tied (k : Call) : Prop where
  wrote : k.phase.Wrote k.wroteOn
  own : k.phase.Own
  begun : k.invoke = true → (∃ requestId, k.phase = .register requestId) ∨ k.used ≠ []

namespace Call.Tied

variable {k : Call}

theorem used_ne_nil (h : k.Tied) (hi : k.invoke = true)
    (hp : ∀ requestId, k.phase ≠ .register requestId) : k.used ≠ [] := by
  rcases h.begun hi with ⟨requestId, heq⟩ | hu
  · exact absurd heq (hp requestId)
  · exact hu

theorem headD_mem (h : k.Tied) (hi : k.invoke = true)
    (hp : ∀ requestId, k.phase ≠ .register requestId) : k.used.headD 0 ∈ k.used := by
  obtain ⟨first, rest, hcons⟩ := exists_cons_of_ne_nil (h.used_ne_nil hi hp)
  rw [hcons]
  exact mem_cons_self

theorem goTo {phase : Phase} (h : k.Tied) (hp : ∀ requestId, k.phase ≠ .register requestId)
    (hw : phase.Wrote k.wroteOn) (ho : phase.Own) : (k.goTo phase).Tied :=
  ⟨hw, ho, fun hi => .inr (h.used_ne_nil hi hp)⟩

theorem failWith {error : Error} (h : k.Tied) (hp : ∀ requestId, k.phase ≠ .register requestId) :
    (k.failWith error).Tied := by
  unfold Call.failWith
  split
  · exact h.goTo hp trivial trivial
  · exact ⟨trivial, trivial, fun hi => .inr (h.used_ne_nil hi hp)⟩

theorem closed {why : Why} (h : k.Tied) (hp : ∀ requestId, k.phase ≠ .register requestId) :
    (k.closed why).Tied := by
  cases why with
  | failedWrite => exact h.failWith hp
  | goAway => exact h.goTo hp trivial trivial
  | timedOut => exact ⟨trivial, trivial, fun hi => .inr (h.used_ne_nil hi hp)⟩

theorem answered {reconnect : Bool} {conn : Nat} {r : RemotingCommand} (h : k.Tied)
    (hp : k.phase = .wait conn) : (k.answered reconnect conn r).Tied := by
  have hne : ∀ requestId, k.phase ≠ .register requestId := by
    rw [hp]
    nofun
  have hw := h.wrote
  rw [hp] at hw
  have hdone : ∀ outcome, (k.finish outcome).Tied :=
    fun outcome => ⟨trivial, trivial, fun hi => .inr (h.used_ne_nil hi hne)⟩
  unfold Call.answered
  split
  · exact hdone _
  · split
    · exact hdone _
    · split
      · exact h.goTo hne (fun _ => hw) trivial
      · exact hdone _

end Call.Tied

/-- **The condition**: `close_channel` finds no connection, or the one it is called for. -/
def Call.ClosesOwn (s : Shared) (k : Call) : Prop :=
  match k.phase with
  | .close own _ => ∀ conn ∈ s.conns[k.addr]?, conn = own
  | _ => True

instance decidableClosesOwn (s : Shared) (k : Call) : Decidable (k.ClosesOwn s) := by
  show Decidable (Call.ClosesOwn s { k with phase := k.phase })
  apply Phase.casesOn (motive := fun p => Decidable (Call.ClosesOwn s { k with phase := p })) k.phase
  case close => exact fun own _ => inferInstanceAs (Decidable (∀ conn ∈ s.conns[k.addr]?, conn = own))
  all_goals
    intros
    exact .isTrue trivial

section Next

variable {reconnect : Bool} {s : Shared} {i : Nat} {k k' : Call} {op : Op}

theorem Phase.Seeking.not_register {phase : Phase} (h : phase.Seeking) :
    ∀ requestId, phase ≠ .register requestId := by
  intro requestId heq
  rwa [heq] at h

theorem Phase.Seeking.own {phase : Phase} (h : phase.Seeking) : phase.Own := by
  cases phase <;> trivial

theorem Phase.Seeking.wrote {phase : Phase} {conn : Option Nat} (h : phase.Seeking) :
    phase.Wrote conn ↔ conn = none := by
  cases phase <;> first | exact Iff.rfl | exact False.elim h

theorem Next.tied (h : Next reconnect s i k op k') (hk : k.Tied) (hG : k.ClosesOwn s) :
    k'.Tied := by
  have hw := hk.wrote
  have ho := hk.own
  have hne : ∀ phase, k.phase = phase → (∀ requestId, phase ≠ .register requestId) →
      ∀ requestId, k.phase ≠ .register requestId := by
    intro phase hp hn
    rw [hp]
    exact hn
  cases h with
  | register hp => exact ⟨rfl, trivial, fun _ => .inr (cons_ne_nil _ _)⟩
  | seek hp hop hp' =>
    exact hk.goTo hp.not_register (hp'.wrote.mpr (hp.wrote.mp hw)) hp'.own
  | found hp hop he =>
    rcases hp with hp | ⟨conn, hp⟩
    · exact hk.goTo hp.not_register (hp.wrote.mp hw) trivial
    · rw [hp] at hw
      exact hk.goTo (hne _ hp nofun) hw trivial
  | refused hp hop => exact hk.failWith hp.not_register
  | create hp | publish hp he | attach hp =>
    rw [hp] at hw
    exact hk.goTo (hne _ hp nofun) hw trivial
  | send hp hi => exact ⟨rfl, trivial, fun _ => .inr (hk.used_ne_nil hi (hne _ hp nofun))⟩
  | write hp hi => exact ⟨trivial, trivial, fun ht => absurd (hi.symm.trans ht) nofun⟩
  | unsent hp => exact hk.goTo (hne _ hp nofun) trivial trivial
  | markDead hp => exact hk.goTo (hne _ hp nofun) (absurd rfl) trivial
  | remove hp hc =>
    rw [hp] at hw
    rw [Call.ClosesOwn, hp] at hG
    exact hk.goTo (hne _ hp nofun) hw (hG _ hc)
  | nothing hp hc => exact hk.closed (hne _ hp nofun)
  | kill hp =>
    rw [hp] at hw ho
    exact hk.goTo (hne _ hp nofun) hw ho
  | fail hp => exact hk.closed (hne _ hp nofun)
  | answer hp ha => exact hk.answered hp
  | @giveUp conn error own hp hown =>
    rw [hp] at hw
    refine hk.goTo (hne _ hp nofun) ?_ trivial
    cases own with
    | none => trivial
    | some c =>
      cases hown c rfl
      exact hw
  | cancel hp =>
    exact ⟨trivial, trivial, fun hi => .inr (hk.used_ne_nil hi (hne _ hp nofun))⟩
  | cancelClose hp =>
    rw [hp] at hw
    exact hk.goTo (hne _ hp nofun) (fun _ => hw) trivial
  | retry hp => exact ⟨trivial, trivial, fun _ => .inl ⟨_, rfl⟩⟩

theorem Next.wroteOn (h : Next reconnect s i k op k') :
    k'.wroteOn = k.wroteOn ∨ (∃ requestId, k.phase = .register requestId) ∨
      ∃ conn, k.phase = .send conn := by
  cases h.changes with
  | going phase outcome timeout => exact .inl rfl
  | registering hp hop => exact .inr (.inl ⟨_, hp⟩)
  | writing phase outcome hp => exact .inr (.inr ⟨_, hp⟩)

end Next

/-! ## 2. Requests and their connections -/

/-- Request ids are distinct, and `close_channel` finds no connection but its own. -/
def Isolated (c : Client) : Act → Prop
  | .call i x => Distinct c (.call i x) ∧ ∀ k ∈ c.calls[i]?, k.ClosesOwn c.shared
  | _ => True

instance decidableIsolated (c : Client) (act : Act) : Decidable (Isolated c act) := by
  apply Act.casesOn (motive := fun act => Decidable (Isolated c act)) act
  case call =>
    exact fun i x => inferInstanceAs
      (Decidable (Distinct c (.call i x) ∧ ∀ k ∈ c.calls[i]?, k.ClosesOwn c.shared))
  all_goals
    intros
    exact .isTrue trivial

theorem Isolated.distinct {c : Client} {act : Act} (h : Isolated c act) : Distinct c act := by
  cases act with
  | call i x => exact h.1
  | _ => trivial

/-- **Calls are tied to their connections, and requests bound to them.** -/
structure Separate (c : Client) : Prop where
  tied : ∀ (i : Nat) (k : Call), c.calls[i]? = some k → k.Tied
  bound : ∀ (requestId : Int32) (p : Pending) (conn : Nat) (k : Call),
    c.shared.pending[requestId]? = some p → p.connId = some conn →
    c.calls[p.sender.1]? = some k → k.wroteOn = some conn

theorem separate_new : Separate .new := by
  constructor
  · intro i k hk
    cases hk
  · intro requestId p conn k _ _ hk
    cases hk

namespace Separate

variable {reconnect : Bool} {c c' : Client} {i : Nat} {k k' : Call} {op : Op}

theorem others (h : Separate c) (hacc : Accounted c)
    (hp : ∀ (requestId : Int32) (p : Pending), c'.shared.pending[requestId]? = some p →
      c.shared.pending[requestId]? = some p)
    (hc : ∀ (j : Nat) (k' : Call), c'.calls[j]? = some k' → (c.calls[j]? = none ∧ k'.Tied) ∨
      ∃ k, c.calls[j]? = some k ∧ (k' = k ∨ ∃ answer, k' = { k with answer })) :
    Separate c' := by
  constructor
  · intro j k' hk'
    rcases hc j k' hk' with ⟨_, ht⟩ | ⟨k, hk, rfl | ⟨answer, rfl⟩⟩
    · exact ht
    · exact h.tied j k' hk
    · obtain ⟨hw, ho, hb⟩ := h.tied j k hk
      exact ⟨hw, ho, hb⟩
  · intro requestId p conn k' hp' hconn hk'
    have hold := hp requestId p hp'
    obtain ⟨k₀, hk₀, _⟩ := hacc.owned requestId p hold
    rcases hc _ k' hk' with ⟨hn, _⟩ | ⟨k, hk, rfl | ⟨answer, rfl⟩⟩
    · cases hk₀.symm.trans hn
    · exact h.bound requestId p conn k' hold hconn hk
    · exact h.bound requestId p conn k hold hconn hk

theorem next {x : Input} (h : Separate c) (hacc : Accounted c) (hapart : Apart c)
    (hk : c.calls[i]? = some k) (hn : Next reconnect c.shared i k op k')
    (hG : Isolated c (.call i x)) : Separate (c.moved op i k') := by
  have htied := h.tied i k hk
  constructor
  · intro j kj hkj
    rcases Pool.of_getElem?_set hkj with ⟨_, rfl⟩ | ⟨_, hkj⟩
    · exact hn.tied htied (hG.2 k hk)
    · exact h.tied j kj hkj
  · intro requestId p' conn kj hp' hconn hkj
    rcases pending_apply hp' with rfl | ⟨p, hp, hkept⟩
    · cases hn.registers.2.2.2.symm.trans hconn
    · cases hkept with
      | same hr hc hf =>
        rcases Pool.of_getElem?_set hkj with ⟨hi, rfl⟩ | ⟨_, hold⟩
        · have hki : c.calls[p'.sender.1]? = some k := by
            rw [hi]
            exact hk
          have hwrote := h.bound requestId p' conn k hp hconn hki
          rcases hn.wroteOn with hsame | ⟨other, hphase⟩ | ⟨other, hphase⟩
          · rw [hsame]
            exact hwrote
          · -- before it registers again, a call has nothing in flight
            obtain ⟨k₀, hk₀, howns⟩ := hacc.owned requestId p' hp
            cases hki.symm.trans hk₀
            have hholding := howns.holding
            rw [hphase] at hholding
            exact hholding.elim
          · -- and before it writes, nothing that is bound
            have hnone := htied.wrote
            rw [hphase] at hnone
            rw [show k.wroteOn = none from hnone] at hwrote
            cases hwrote
        · exact h.bound requestId p' conn kj hp hconn hold
      | @attached other heq =>
        subst heq
        cases hconn
        obtain ⟨hphase, hid⟩ := hn.attaches
        have hwrote := htied.wrote
        rw [hphase] at hwrote
        have hi : k.invoke = true := (hacc.sound i k hk).invoking (by rw [hphase]; trivial)
        have hu : requestId ∈ k.used := hid ▸ htied.headD_mem hi (by rw [hphase]; nofun)
        have hsender := hapart i k requestId p hk hn.not_done hu hp
        rcases Pool.of_getElem?_set hkj with ⟨_, rfl⟩ | ⟨hne, _⟩
        · cases hn.changes with
          | going phase outcome timeout => exact hwrote
          | registering hp hop => cases hop
          | writing phase outcome hp =>
            cases hphase.symm.trans hp
        · exact absurd hsender hne

theorem step {env : Env} {act : Act} (h : Separate c) (hacc : Accounted c) (hapart : Apart c)
    (hG : Isolated c act) (hs : c.step env act = some c') : Separate c' := by
  have hbegin : ∀ k : Call, k.Tied → Separate { c with calls := c.calls ++ [k] } := by
    intro k ht
    refine h.others hacc (fun _ _ hp => hp) fun j k' hk' => ?_
    rcases Pool.of_getElem?_concat hk' with hk' | ⟨hj, rfl⟩
    · exact .inr ⟨k', hk', .inl rfl⟩
    · exact .inl ⟨getElem?_eq_none hj.ge, ht⟩
  cases onCalls_cases hs with
  | invoke => exact hbegin _ ⟨trivial, trivial, fun _ => .inl ⟨_, rfl⟩⟩
  | write => exact hbegin _ ⟨rfl, trivial, nofun⟩
  | call hk hn => exact h.next hacc hapart hk hn hG
  | completed hp =>
    refine h.others hacc (fun _ _ => pending_left nofun nofun) fun j k' hk' => ?_
    obtain ⟨k, hk, rfl | ⟨_, _, rfl⟩⟩ := deliver_cases hk'
    · exact .inr ⟨k', hk, .inl rfl⟩
    · exact .inr ⟨k, hk, .inr ⟨_, rfl⟩⟩
  | rest hc hp => exact h.others hacc hp fun j k hk => .inr ⟨k, hc ▸ hk, .inl rfl⟩

end Separate

/-! ## 3. Isolation -/

theorem separate_of_reach {env : Env} {c : Client}
    (h : Machine.Reach (Client.step env) Isolated .new c) : Accounted c ∧ Apart c ∧ Separate c := by
  refine h.invariant (I := fun c => Accounted c ∧ Apart c ∧ Separate c)
    ⟨accounted_new, apart_new, separate_new⟩ ?_
  intro t act t' ⟨hacc, hapart, hsep⟩ hG hs
  exact ⟨hacc.step hs, hapart.step hG.distinct hs, hsep.step hacc hapart hG hs⟩

section Next

variable {reconnect : Bool} {s : Shared} {i : Nat} {k k' : Call} {op : Op} {conn : Nat}

theorem Next.marks (h : Next reconnect s i k (.markDead conn) k') (hk : k.Tied) :
    k.actsOn = some conn := by
  have ho := hk.own
  cases h with
  | markDead hp =>
    rw [Call.actsOn, hp]
  | kill hp =>
    rw [hp] at ho
    rw [Call.actsOn, hp]
    exact congrArg some ho.symm
  | seek _ hop | found _ hop | refused _ hop => exact hop.elim

theorem Next.removes {addr : String} (h : Next reconnect s i k (.remove addr) k')
    (hG : k.ClosesOwn s) (hc : s.conns[addr]? = some conn) : k.actsOn = some conn := by
  cases h with
  | remove hp hc' =>
    rw [Call.ClosesOwn, hp] at hG
    rw [Call.actsOn, hp]
    exact congrArg some (hG conn hc).symm
  | seek _ hop | found _ hop | refused _ hop => exact hop.elim

theorem Next.fails_own (h : Next reconnect s i k (.fail conn) k') (hk : k.Tied) :
    k.actsOn = some conn := by
  have ho := hk.own
  cases h with
  | fail hp =>
    rw [hp] at ho
    rw [Call.actsOn, hp]
    exact congrArg some ho.symm
  | seek _ hop | found _ hop | refused _ hop => exact hop.elim

theorem Next.cancels {requestId : Int32} (h : Next reconnect s i k (.cancel requestId) k') :
    k.used.headD 0 = requestId ∧ ∃ error own, k.phase = .cancel error own := by
  cases h with
  | cancel hp => exact ⟨rfl, _, _, hp⟩
  | cancelClose hp => exact ⟨rfl, _, _, hp⟩
  | seek _ hop | found _ hop | refused _ hop => exact hop.elim

end Next

section Losses

variable {s : Shared} {op : Op} {conn : Nat}

theorem isAlive_lost (h : s.isAlive conn = true) (h' : (op.apply s).isAlive conn = false) :
    op = .markDead conn := by
  cases hl : s.links[conn]? with
  | none =>
    rw [Shared.isAlive, hl] at h
    cases h
  | some l =>
    rw [Shared.isAlive, hl] at h
    have hal : l.alive = true := h
    cases op with
    | create addr =>
      have hlt := (List.getElem?_eq_some_iff.mp hl).1
      simp [Shared.isAlive, Op.apply, getElem?_append_left hlt, hl, hal] at h'
    | markDead other =>
      by_cases heq : other = conn
      · rw [heq]
      · simp [Shared.isAlive, Op.apply, heq, hl, hal] at h'
    | fail other =>
      by_cases heq : other = conn
      · simp [Shared.isAlive, Op.apply, heq, hl, hal] at h'
      · simp [Shared.isAlive, Op.apply, heq, hl, hal] at h'
    | _ => simp [Shared.isAlive, Op.apply, hl, hal] at h'

theorem conns_lost {addr : String} (h : s.conns[addr]? = some conn)
    (h' : (op.apply s).conns[addr]? ≠ some conn) :
    op = .remove addr ∨ ∃ other, op = .publish addr other := by
  cases op with
  | remove other =>
    by_cases heq : addr = other
    · exact .inl (by rw [heq])
    · exact absurd ((Table.get_erase_ne heq).trans h) h'
  | publish other conn' =>
    by_cases heq : addr = other
    · exact .inr ⟨conn', by rw [heq]⟩
    · exact absurd ((Table.get_insert_ne heq).trans h) h'
  | _ => exact absurd h h'

/-- A request leaves the table when it is cancelled or its connection is closed, or with all
others. -/
theorem pending_lost {requestId : Int32} {p : Pending} (h : s.pending[requestId]? = some p)
    (h' : (op.apply s).pending[requestId]? = none) :
    op = .cancel requestId ∨ (∃ conn, op = .fail conn ∧ p.connId = some conn) ∨ op = .clear := by
  cases op with
  | register other entry =>
    simp only [Op.apply, Std.ExtTreeMap.getElem?_insert] at h'
    split at h'
    · cases h'
    · cases h.symm.trans h'
  | attach other conn =>
    simp only [Op.apply, Std.ExtTreeMap.getElem?_modify, h] at h'
    split at h'
    · rename_i heq
      rw [Std.LawfulEqCmp.compare_eq_iff_eq.mp heq, h] at h'
      cases h'
    · cases h'
  | cancel other =>
    by_cases heq : requestId = other
    · exact .inl (by rw [heq])
    · cases h'.symm.trans ((Table.get_erase_ne heq).trans h)
  | fail conn =>
    simp only [Op.apply, Std.ExtTreeMap.getElem?_filter', h] at h'
    refine .inr (.inl ⟨conn, rfl, ?_⟩)
    by_contra hne
    simp [hne] at h'
  | clear => exact .inr (.inr rfl)
  | _ =>
    rw [show s.pending[requestId]? = none from h'] at h
    cases h

theorem existing_eq_some {addr : String} :
    s.existing addr = some conn ↔ s.conns[addr]? = some conn ∧ s.isAlive conn = true :=
  Option.filter_eq_some_iff

end Losses

/-- **Connection isolation**, in every run in which request ids are distinct and `close_channel`
finds no connection but its own: a step of a call marks dead, and closes, no other connection than
the one it acts on account of, and fails no request of another call that was not written on that
one; and `GO_AWAY` and timeouts act on account of the connection that the request was written on. -/
theorem isolation_when {env : Env} {c c' : Client} {i : Nat} {x : Input} {k : Call}
    (h : Machine.Reach (Client.step env) Isolated .new c) (hk : c.calls[i]? = some k)
    (hG : Isolated c (.call i x)) (hs : c.step env (.call i x) = some c') :
    (∀ conn, c.shared.isAlive conn = true → c'.shared.isAlive conn = false →
      k.actsOn = some conn) ∧
    (∀ addr conn, c.shared.existing addr = some conn → c'.shared.existing addr ≠ some conn →
      k.actsOn = some conn) ∧
    (∀ (requestId : Int32) (p : Pending), c.shared.pending[requestId]? = some p →
      c'.shared.pending[requestId]? = none → p.sender.1 ≠ i →
      ∃ k' conn, c.calls[p.sender.1]? = some k' ∧ k'.wroteOn = some conn ∧
        k.actsOn = some conn) ∧
    ∀ own why, k.phase = .close own why → why ≠ .failedWrite → k.wroteOn = some own := by
  obtain ⟨hacc, hapart, hsep⟩ := separate_of_reach h
  have htied := hsep.tied i k hk
  cases step_cases hs with
  | @call _ _ k₀ k' op hk₀ hn =>
    cases hk.symm.trans hk₀
    have halive : ∀ conn, c.shared.isAlive conn = true →
        (op.apply c.shared).isAlive conn = false → k.actsOn = some conn := by
      intro conn hal hdead
      cases isAlive_lost hal hdead
      exact hn.marks htied
    refine ⟨halive, ?_, ?_, ?_⟩
    · intro addr conn hex hgone
      obtain ⟨hconn, hal⟩ := existing_eq_some.mp hex
      cases hal' : (op.apply c.shared).isAlive conn with
      | false => exact halive conn hal hal'
      | true =>
        have hne : (op.apply c.shared).conns[addr]? ≠ some conn :=
          fun hconn' => hgone (existing_eq_some.mpr ⟨hconn', hal'⟩)
        rcases conns_lost hconn hne with rfl | ⟨other, rfl⟩
        · exact hn.removes (hG.2 k hk) hconn
        · -- a connection that is in use is not replaced
          cases hn.publishes.2.2.1.symm.trans hex
    · intro requestId p hp hgone hother
      rcases pending_lost hp hgone with rfl | ⟨conn, rfl, hconn⟩ | rfl
      · obtain ⟨hid, error, own, hphase⟩ := hn.cancels
        have hi : k.invoke = true := (hacc.sound i k hk).invoking (by rw [hphase]; trivial)
        have hu : requestId ∈ k.used := hid ▸ htied.headD_mem hi (by rw [hphase]; nofun)
        exact absurd (hapart i k requestId p hk hn.not_done hu hp) hother
      · obtain ⟨k₁, hk₁, _⟩ := hacc.owned requestId p hp
        exact ⟨k₁, conn, hk₁, hsep.bound requestId p conn k₁ hp hconn hk₁, hn.fails_own htied⟩
      · cases hn with
        | seek hp hop hp' => exact hop.elim
        | found hp hop he => exact hop.elim
        | refused hp hop => exact hop.elim
    · intro own why hphase hwhy
      have hwrote := htied.wrote
      rw [hphase] at hwrote
      exact hwrote hwhy

end RocketMQ.RemotingClient

namespace RocketMQ.Script

open RocketMQ.RemotingClient

/-- A call has been told `GO_AWAY` on the first connection and is about to close it. -/
def aboutToClose : List Act :=
  callTo 9 ++ [.receive 0 (plainFrame 7 1500 1), .call 0 .go]

def closingCall : RemotingClient.Call :=
  ⟨true, "b", 3000, .close 0 .goAway, [7], some (plainCommand 7 1500 1), 1, some 0, none⟩

/-- Two calls are told `GO_AWAY` on the first connection; one of them closes it, and waits for the
answer to its second attempt on the next one. -/
def goneOnAhead : List Act :=
  callTo 9 ++ .invoke "b" 9 3000 :: List.replicate 5 (.call 1 .go)
    ++ [.receive 0 (plainFrame 7 1500 1), .receive 0 (plainFrame 9 1500 1)]
    ++ List.replicate 4 (.call 0 .go) ++ .call 0 (.retry 8 10) :: List.replicate 9 (.call 0 .go)
    ++ [.call 1 .go]

/-- The other one closes the channel of the address. -/
def closedBehind : List Act := goneOnAhead ++ List.replicate 3 (.call 1 .go)

end RocketMQ.Script

namespace RocketMQ.RemotingClient

open Script

theorem isolation_when_told : closingCall.wroteOn = some 0 ∧
    ∀ addr conn, (clientAfter aboutToClose).shared.existing addr = some conn →
      (Machine.after (Client.step remotingEnv) (clientAfter aboutToClose)
        [.call 0 .go]).shared.existing addr ≠ some conn → conn = 0 := by
  have hmeets : Machine.Meets (Client.step remotingEnv) Isolated .new
      aboutToClose := by
    decide +kernel
  have hk : (clientAfter aboutToClose).calls[0]? = some closingCall := by
    decide +kernel
  have hG : Isolated (clientAfter aboutToClose) (.call 0 .go) := by decide +kernel
  have hs : (clientAfter aboutToClose).step remotingEnv (.call 0 .go)
      = some (Machine.after (Client.step remotingEnv)
        (clientAfter aboutToClose) [.call 0 .go]) :=
    Machine.step_eq_after (by decide +kernel)
  obtain ⟨_, hclosed, _, hwrote⟩ := isolation_when hmeets.reach_after hk hG hs
  refine ⟨hwrote 0 .goAway rfl nofun, fun addr conn hex hgone => ?_⟩
  exact (Option.some.inj (hclosed addr conn hex hgone)).symm

/-- **The second `GO_AWAY` closes the next connection**: a call that was told to go away on the
first connection marks dead the second one, on which another call has written its request and
waits, and fails that request. -/
theorem go_away_closes_newer :
    ((clientAfter goneOnAhead).calls[1]?.bind Call.actsOn = some 0 ∧
      (clientAfter goneOnAhead).shared.existing "b" = some 1 ∧
      (clientAfter goneOnAhead).calls[0]?.bind Call.wroteOn = some 1 ∧
      (clientAfter goneOnAhead).shared.pending[(8 : Int32)]?
        = some ⟨(0, 2), "b", some 1⟩) ∧
    (clientAfter closedBehind).shared.existing "b" = none ∧
      (clientAfter closedBehind).shared.isAlive 1 = false ∧
      (clientAfter closedBehind).shared.pending[(8 : Int32)]? = none := by
  decide +kernel

end RocketMQ.RemotingClient
