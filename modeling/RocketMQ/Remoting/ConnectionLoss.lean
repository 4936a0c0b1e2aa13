/-
  File:      RocketMQ/Remoting/ConnectionLoss.lean
  Subject:   A connection whose loss or close has been handled.

  * `Placed.create`, `Placed.publish`, `Placed.leave`: **one lemma for each way to change where a
    connection stands**;
  * `Watched`: **the two windows**: a request is bound after its write, and a connection is
    published after its reader has started;
  * `loss_complete_when`: outside them, what has been handled stays out of both tables.
-/
import RocketMQ.Remoting.Invocation

namespace RocketMQ.RemotingClient

open List

/-! ## 1. What is known of a connection -/

namespace Shared

def addrOf (s : Shared) (conn : Nat) : Option String := s.links[conn]?.map (·.addr)

/-- A task of the connection has called `on_connection_lost`. -/
def isLost (s : Shared) (conn : Nat) : Bool := (s.links[conn]?.map (·.lost)).getD false

/-- `fail_pending_for` has been called for the connection. -/
def isHandled (s : Shared) (conn : Nat) : Bool := (s.links[conn]?.map (·.handled)).getD false

end Shared

variable {s : Shared} {op : Op} {conn : Nat}

theorem map_modify {α : Type} {f : Connection → Connection} (g : Connection → α)
    (links : List Connection) (i : Nat) (hf : ∀ l, g (f l) = g l) :
    (links.modify i f)[conn]?.map g = links[conn]?.map g := by
  rw [getElem?_modify, Option.map_eq_map, Option.map_map]
  congr 1
  funext l
  split
  · exact hf l
  · rfl

variable {link : Connection}

theorem getD_append {P : Connection → Bool} {links : List Connection} (hl : P link = false) :
    ((links ++ [link])[conn]?.map P).getD false = (links[conn]?.map P).getD false := by
  rw [getElem?_append]
  split
  · rfl
  · rename_i hge
    rw [getElem?_eq_none (Nat.le_of_not_lt hge)]
    cases conn - links.length with
    | zero => exact hl
    | succ n => rfl

@[simp] theorem isLost_apply : (op.apply s).isLost conn = s.isLost conn := by
  unfold Shared.isLost
  cases op with
  | create addr => exact getD_append rfl
  | markDead other | fail other => rw [Op.apply, map_modify _ s.links other (by intro l; rfl)]
  | _ => rfl

theorem isHandled_apply :
    (op.apply s).isHandled conn = true ↔
      s.isHandled conn = true ∨ (op = .fail conn ∧ conn < s.links.length) := by
  unfold Shared.isHandled
  cases op with
  | create addr =>
    rw [Op.apply, getD_append rfl]
    simp
  | markDead other =>
    rw [Op.apply, map_modify _ s.links other (by intro l; rfl)]
    simp
  | fail other =>
    rw [Op.apply, getElem?_modify]
    by_cases heq : other = conn
    · cases hl : s.links[conn]? with
      | none => simpa using fun _ => List.getElem?_eq_none_iff.mp hl
      | some l =>
        have hlt := (List.getElem?_eq_some_iff.mp hl).1
        simp [heq, hlt]
    · simp [heq]
  | _ => simp [Op.apply]

theorem addrOf_apply (hop : ∀ addr, op ≠ .create addr) :
    (op.apply s).addrOf conn = s.addrOf conn := by
  cases op with
  | create addr => exact absurd rfl (hop addr)
  | markDead other | fail other => exact map_modify _ s.links other (by intro l; rfl)
  | _ => rfl

/-! ## 2. Where a connection can be -/

/-- The connection that is being closed in this section. -/
def Phase.closes : Phase → Option Nat
  | .kill conn _ _ | .fail conn _ _ => some conn
  | _ => none

def Shutting.closes : Shutting → Option Nat
  | .kill conn _ | .fail conn _ => some conn
  | _ => none

/-- The call is about to publish the connection. -/
def Client.Publishing (c : Client) (i conn : Nat) (addr : String) : Prop :=
  ∃ k, c.calls[i]? = some k ∧ k.phase = .publish conn ∧ k.addr = addr

/-- Somebody is closing the connection. -/
def Client.Closing (c : Client) (conn : Nat) : Prop :=
  (∃ x ∈ c.closers, x.conn = conn) ∨
    (∃ (i : Nat) (k : Call), c.calls[i]? = some k ∧ k.phase.closes = some conn) ∨
    ∃ x ∈ c.shutdowns, x.closes = some conn

/-- The connection is the one of some address. -/
def Shared.Published (s : Shared) (conn : Nat) : Prop := ∃ addr : String, s.conns[addr]? = some conn

/-- **Where a connection can be.** -/
structure Placed (c : Client) : Prop where
  /-- a published connection stands under its own address -/
  home : ∀ (addr : String) (conn : Nat), c.shared.conns[addr]? = some conn →
    c.shared.addrOf conn = some addr
  /-- one that is about to be published is not published yet -/
  ready : ∀ i conn addr, c.Publishing i conn addr →
    c.shared.addrOf conn = some addr ∧ ¬ c.shared.Published conn
  one : ∀ i j conn addr addr', c.Publishing i conn addr → c.Publishing j conn addr' → i = j
  /-- one that is closing, closed or lost is not published any more -/
  out : ∀ conn, c.Closing conn ∨ c.shared.isHandled conn = true ∨ c.shared.isLost conn = true →
    c.shared.addrOf conn ≠ none ∧ ¬ c.shared.Published conn
  /-- and will not be, unless it was lost before it could be published -/
  late : ∀ conn, c.Closing conn ∨ c.shared.isHandled conn = true →
    c.shared.isLost conn = true ∨ ∀ i addr, ¬ c.Publishing i conn addr

theorem placed_new : Placed .new := by
  have hclosing : ∀ conn, ¬ Client.new.Closing conn := by
    intro conn h
    rcases h with ⟨x, hx, _⟩ | ⟨i, k, hk, _⟩ | ⟨x, hx, _⟩
    · cases hx
    · cases hk
    · cases hx
  have hpublishing : ∀ i conn addr, ¬ Client.new.Publishing i conn addr := by
    intro i conn addr h
    obtain ⟨k, hk, _⟩ := h
    cases hk
  have hpublished : ∀ conn, ¬ Client.new.shared.Published conn := by
    intro conn ⟨addr, h⟩
    simp [Client.new] at h
  constructor
  case home => exact fun addr conn h => absurd ⟨addr, h⟩ (hpublished conn)
  case ready => exact fun i conn addr h => absurd h (hpublishing i conn addr)
  case one => exact fun i _ conn addr _ h => absurd h (hpublishing i conn addr)
  case out =>
    intro conn h
    rcases h with h | h | h
    · exact absurd h (hclosing conn)
    · cases h
    · cases h
  case late =>
    intro conn h
    rcases h with h | h
    · exact absurd h (hclosing conn)
    · cases h

namespace Placed

variable {c c' : Client} {i : Nat} {addr : String}

theorem unique (h : Placed c) {addr' : String} (ha : c.shared.conns[addr]? = some conn)
    (ha' : c.shared.conns[addr']? = some conn) : addr = addr' :=
  Option.some.inj ((h.home addr conn ha).symm.trans (h.home addr' conn ha'))

theorem leave (h : Placed c)
    (hconns : ∀ (addr : String) (conn : Nat), c'.shared.conns[addr]? = some conn →
      c.shared.conns[addr]? = some conn)
    (haddr : ∀ conn, c'.shared.addrOf conn = c.shared.addrOf conn)
    (hpub : ∀ i conn addr, c'.Publishing i conn addr → c.Publishing i conn addr)
    (hlost : ∀ conn, c'.shared.isLost conn = c.shared.isLost conn ∨ c'.shared.isLost conn = true ∧
      c.shared.addrOf conn ≠ none ∧ ¬ c'.shared.Published conn)
    (hhandled : ∀ conn, c'.shared.isHandled conn = true →
      c.shared.isHandled conn = true ∨ c.Closing conn)
    (hclosing : ∀ conn, c'.Closing conn → c.Closing conn ∨ c'.shared.isLost conn = true ∨
      ∃ addr : String, c.shared.conns[addr]? = some conn ∧ c'.shared.conns[addr]? = none) :
    Placed c' := by
  have hpublished : ∀ conn, c'.shared.Published conn → c.shared.Published conn :=
    fun conn ⟨addr, ha⟩ => ⟨addr, hconns addr conn ha⟩
  have hkeep : ∀ conn,
      c.Closing conn ∨ c.shared.isHandled conn = true ∨ c.shared.isLost conn = true →
      c.shared.addrOf conn ≠ none ∧ ¬ c'.shared.Published conn :=
    fun conn hc => (h.out conn hc).imp_right (mt (hpublished conn))
  -- what has just been taken out of the table stood under one address only
  have htaken : ∀ conn (addr : String), c.shared.conns[addr]? = some conn →
      c'.shared.conns[addr]? = none → ¬ c'.shared.Published conn := by
    intro conn addr ha hn ⟨addr', ha'⟩
    cases h.unique ha (hconns addr' conn ha')
    cases hn.symm.trans ha'
  have hout : ∀ conn, c'.shared.isLost conn = true →
      c.shared.addrOf conn ≠ none ∧ ¬ c'.shared.Published conn := by
    intro conn hl
    rcases hlost conn with heq | hnew
    · exact hkeep conn (.inr (.inr (heq.symm.trans hl)))
    · exact hnew.2
  have hmono : ∀ conn, c.shared.isLost conn = true → c'.shared.isLost conn = true :=
    fun conn hl => (hlost conn).elim (·.trans hl) (·.1)
  constructor
  case home =>
    intro addr conn ha
    rw [haddr]
    exact h.home addr conn (hconns addr conn ha)
  case ready =>
    intro i conn addr hp
    obtain ⟨ha, hn⟩ := h.ready i conn addr (hpub i conn addr hp)
    rw [haddr]
    exact ⟨ha, mt (hpublished conn) hn⟩
  case one =>
    intro i j conn addr addr' hi hj
    exact h.one i j conn addr addr' (hpub i conn addr hi) (hpub j conn addr' hj)
  case out =>
    intro conn hc
    rw [haddr]
    rcases hc with hc | hc | hc
    · rcases hclosing conn hc with hc | hc | ⟨addr, ha, hn⟩
      · exact hkeep conn (.inl hc)
      · exact hout conn hc
      · refine ⟨?_, htaken conn addr ha hn⟩
        rw [h.home addr conn ha]
        nofun
    · exact hkeep conn ((hhandled conn hc).symm.imp_right .inl)
    · exact hout conn hc
  case late =>
    intro conn hc
    have hold : c.Closing conn ∨ c.shared.isHandled conn = true →
        c'.shared.isLost conn = true ∨ ∀ i addr, ¬ c'.Publishing i conn addr :=
      fun hold => (h.late conn hold).imp (hmono conn) fun hn i addr hp => hn i addr (hpub _ _ _ hp)
    rcases hc with hc | hc
    · rcases hclosing conn hc with hc | hc | ⟨addr, ha, _⟩
      · exact hold (.inl hc)
      · exact .inl hc
      · exact .inr fun i addr' hp => (h.ready i conn addr' (hpub _ _ _ hp)).2 ⟨addr, ha⟩
    · exact hold (hhandled conn hc).symm

end Placed

/-! ## 3. What a call does to its connections -/

section Next

variable {reconnect : Bool} {i : Nat} {k k' : Call} {addr : String}

/-- The section neither publishes nor closes a connection. -/
def Phase.Free (phase : Phase) : Prop := phase.closes = none ∧ ∀ conn, phase ≠ .publish conn

theorem failWith_free {error : Error} : (k.failWith error).phase.Free := by
  unfold Call.failWith
  split <;> exact ⟨rfl, nofun⟩

theorem closed_free {why : Why} : (k.closed why).phase.Free := by
  cases why with
  | failedWrite => exact failWith_free
  | goAway | timedOut => exact ⟨rfl, nofun⟩

theorem answered_free {r : RemotingCommand} : (k.answered reconnect conn r).phase.Free := by
  unfold Call.answered
  split
  · exact ⟨rfl, nofun⟩
  · split
    · exact ⟨rfl, nofun⟩
    · split <;> exact ⟨rfl, nofun⟩

theorem Phase.Seeking.free {phase : Phase} (h : phase.Seeking) : phase.Free := by
  cases phase <;> first | exact False.elim h | exact ⟨rfl, nofun⟩

theorem Next.publishing (h : Next reconnect s i k op k') (hp : k'.phase = .publish conn) :
    op = .create k.addr ∧ conn = s.links.length ∧ k'.addr = k.addr := by
  cases h with
  | create hk =>
    cases hp
    exact ⟨rfl, rfl, rfl⟩
  | seek hk hop hp' => exact absurd hp (hp'.free.2 conn)
  | refused hk hop => exact absurd hp (failWith_free.2 conn)
  | nothing | fail => exact absurd hp (closed_free.2 conn)
  | answer hk ha => exact absurd hp (answered_free.2 conn)
  | _ => cases hp

theorem Next.closing (h : Next reconnect s i k op k') (hp : k'.phase.closes = some conn) :
    k.phase.closes = some conn ∨ (op = .remove k.addr ∧ s.conns[k.addr]? = some conn) := by
  cases h with
  | remove hk hc =>
    cases hp
    exact .inr ⟨rfl, hc⟩
  | kill hk =>
    cases hp
    exact .inl (by rw [hk]; rfl)
  | seek hk hop hp' => exact absurd (hp'.free.1.symm.trans hp) nofun
  | refused hk hop => exact absurd (failWith_free.1.symm.trans hp) nofun
  | nothing | fail => exact absurd (closed_free.1.symm.trans hp) nofun
  | answer hk ha => exact absurd (answered_free.1.symm.trans hp) nofun
  | _ => cases hp

theorem Next.creates (h : Next reconnect s i k (.create addr) k') :
    k'.phase = .publish s.links.length ∧ k'.addr = addr := by
  cases h with
  | create hk => exact ⟨rfl, rfl⟩
  | seek _ hop | found _ hop | refused _ hop => exact hop.elim

theorem Next.publishes (h : Next reconnect s i k (.publish addr conn) k') :
    k.phase = .publish conn ∧ k.addr = addr ∧ s.existing addr = none ∧ k'.phase.Free := by
  cases h with
  | publish hk he => exact ⟨hk, rfl, he, rfl, nofun⟩
  | seek _ hop | found _ hop | refused _ hop => exact hop.elim

theorem Next.fails (h : Next reconnect s i k (.fail conn) k') : k.phase.closes = some conn := by
  cases h with
  | fail hk => rw [hk]; rfl
  | seek _ hop | found _ hop | refused _ hop => exact hop.elim

variable {c : Client}

theorem publishing_set {j : Nat} (h : (c.moved op i k').Publishing j conn addr) :
    (j = i ∧ k'.phase = .publish conn ∧ k'.addr = addr) ∨ (j ≠ i ∧ c.Publishing j conn addr) := by
  obtain ⟨kj, hkj, hp, ha⟩ := h
  rcases Pool.of_getElem?_set hkj with ⟨rfl, rfl⟩ | ⟨hne, hkj⟩
  · exact .inl ⟨rfl, hp, ha⟩
  · exact .inr ⟨hne, kj, hkj, hp, ha⟩

theorem closing_set (h : (c.moved op i k').Closing conn) :
    c.Closing conn ∨ k'.phase.closes = some conn := by
  rcases h with hx | ⟨j, kj, hkj, hp⟩ | hx
  · exact .inl (.inl hx)
  · rcases Pool.of_getElem?_set hkj with ⟨_, rfl⟩ | ⟨_, hkj⟩
    · exact .inr hp
    · exact .inl (.inr (.inl ⟨j, kj, hkj, hp⟩))
  · exact .inl (.inr (.inr hx))

end Next

namespace Placed

variable {reconnect : Bool} {c : Client} {i : Nat} {k k' : Call} {addr : String}

theorem create (h : Placed c) (hp : k'.phase = .publish c.shared.links.length)
    (ha : k'.addr = addr) : Placed (c.moved (.create addr) i k') := by
  have hfresh : c.shared.addrOf c.shared.links.length = none := by
    simp [Shared.addrOf]
  have hnew : (Op.apply c.shared (.create addr)).addrOf c.shared.links.length = some addr := by
    simp [Op.apply, Shared.addrOf]
  have hold : ∀ conn a, c.shared.addrOf conn = some a →
      (Op.apply c.shared (.create addr)).addrOf conn = some a := by
    intro conn a hc
    obtain ⟨l, hl, rfl⟩ := Option.map_eq_some_iff.mp hc
    have hlt := (List.getElem?_eq_some_iff.mp hl).1
    simp [Op.apply, Shared.addrOf, getElem?_append_left hlt, hl]
  have hnobody : ∀ j a, ¬ c.Publishing j c.shared.links.length a := by
    intro j a hj
    rw [(h.ready j _ a hj).1] at hfresh
    cases hfresh
  have hcases : ∀ j conn a, (c.moved (.create addr) i k').Publishing j conn a →
      (j = i ∧ conn = c.shared.links.length ∧ a = addr) ∨ c.Publishing j conn a := by
    intro j conn a hj
    rcases publishing_set hj with ⟨hji, hphase, haddr⟩ | ⟨_, hj⟩
    · cases hp.symm.trans hphase
      exact .inl ⟨hji, rfl, haddr.symm.trans ha⟩
    · exact .inr hj
  have hclosing : ∀ conn, (c.moved (.create addr) i k').Closing conn → c.Closing conn := by
    intro conn hc
    rcases closing_set hc with hc | hc
    · exact hc
    · rw [hp] at hc
      cases hc
  have hhandled : ∀ conn, (Op.apply c.shared (.create addr)).isHandled conn = true →
      c.shared.isHandled conn = true := by
    intro conn hh
    rcases isHandled_apply.mp hh with hh | ⟨heq, _⟩
    · exact hh
    · cases heq
  constructor
  case home => exact fun a conn hc => hold conn a (h.home a conn hc)
  case ready =>
    intro j conn a hj
    rcases hcases j conn a hj with ⟨_, rfl, rfl⟩ | hj
    · refine ⟨hnew, fun hheld => ?_⟩
      obtain ⟨a, hc⟩ := hheld
      cases (h.home a _ hc).symm.trans hfresh
    · obtain ⟨ha, hn⟩ := h.ready j conn a hj
      exact ⟨hold conn a ha, hn⟩
  case one =>
    intro j₁ j₂ conn a₁ a₂ h₁ h₂
    rcases hcases j₁ conn a₁ h₁ with ⟨rfl, rfl, _⟩ | h₁
    · rcases hcases j₂ _ a₂ h₂ with ⟨rfl, _, _⟩ | h₂
      · rfl
      · exact absurd h₂ (hnobody j₂ a₂)
    · rcases hcases j₂ conn a₂ h₂ with ⟨_, rfl, _⟩ | h₂
      · exact absurd h₁ (hnobody j₁ a₁)
      · exact h.one j₁ j₂ conn a₁ a₂ h₁ h₂
  case out =>
    intro conn hc
    rw [isLost_apply] at hc
    obtain ⟨hs, hn⟩ := h.out conn (hc.imp (hclosing conn) (.imp_left (hhandled conn)))
    refine ⟨?_, hn⟩
    obtain ⟨a, ha⟩ := Option.ne_none_iff_exists'.mp hs
    rw [hold conn a ha]
    exact Option.some_ne_none a
  case late =>
    intro conn hc
    rw [isLost_apply]
    have hc := hc.imp (hclosing conn) (hhandled conn)
    refine (h.late conn hc).imp_right fun hn j a hj => ?_
    rcases hcases j conn a hj with ⟨_, rfl, _⟩ | hj
    · exact (h.out _ (hc.imp_right .inl)).1 hfresh
    · exact hn j a hj

theorem publish (h : Placed c) (hk : c.calls[i]? = some k) (hp : k.phase = .publish conn)
    (ha : k.addr = addr) (hf : k'.phase.Free) (hl : c.shared.isLost conn = false) :
    Placed (c.moved (.publish addr conn) i k') := by
  have hmine : c.Publishing i conn addr := ⟨k, hk, hp, ha⟩
  have hcases : ∀ j x a, (c.moved (.publish addr conn) i k').Publishing j x a →
      j ≠ i ∧ c.Publishing j x a := by
    intro j x a hj
    rcases publishing_set hj with ⟨_, hphase, _⟩ | hj
    · exact absurd hphase (hf.2 x)
    · exact hj
  have hclosing : ∀ x, (c.moved (.publish addr conn) i k').Closing x → c.Closing x := by
    intro x hc
    rcases closing_set hc with hc | hc
    · exact hc
    · cases hf.1.symm.trans hc
  have hpublished : ∀ x, (Op.apply c.shared (.publish addr conn)).Published x →
      x = conn ∨ c.shared.Published x := by
    intro x ⟨a, hx⟩
    rcases conns_apply hx with heq | ⟨hx, _⟩
    · cases heq
      exact .inl rfl
    · exact .inr ⟨a, hx⟩
  have hlate : ∀ x, c.Closing x ∨ c.shared.isHandled x = true → x ≠ conn := by
    intro x hc heq
    cases heq
    rcases h.late conn hc with hlost | hn
    · cases hl.symm.trans hlost
    · exact hn i addr hmine
  constructor
  case home =>
    intro a x hx
    rcases conns_apply hx with heq | ⟨hx, _⟩
    · cases heq
      exact (h.ready i conn addr hmine).1
    · exact h.home a x hx
  case ready =>
    intro j x a hj
    obtain ⟨hne, hother⟩ := hcases j x a hj
    obtain ⟨hx, hn⟩ := h.ready j x a hother
    refine ⟨hx, fun hp => ?_⟩
    rcases hpublished x hp with rfl | hp
    · exact hne (h.one j i x a addr hother hmine)
    · exact hn hp
  case one =>
    intro j₁ j₂ x a₁ a₂ h₁ h₂
    exact h.one j₁ j₂ x a₁ a₂ (hcases j₁ x a₁ h₁).2 (hcases j₂ x a₂ h₂).2
  case out =>
    intro x hc
    have hc := hc.imp_left (hclosing x)
    obtain ⟨hs, hn⟩ := h.out x hc
    refine ⟨hs, fun hp => ?_⟩
    rcases hpublished x hp with rfl | hp
    · rcases hc with hc | hc | hc
      · exact hlate x (.inl hc) rfl
      · exact hlate x (.inr hc) rfl
      · rw [show c.shared.isLost x = true from hc] at hl
        cases hl
    · exact hn hp
  case late =>
    intro x hc
    exact (h.late x (hc.imp_left (hclosing x))).imp_right fun hn j a hj =>
      hn j a (hcases j x a hj).2

end Placed

/-! ## 4. Both windows -/

/-- **The windows**: a request must not be bound to a connection that has already been handled,
and a connection that has already been lost must not be published. -/
def Call.Careful (s : Shared) (k : Call) : Prop :=
  match k.phase with
  | .attach conn => k.used.headD 0 ∈ s.pending → s.isHandled conn = false
  | .publish conn => s.existing k.addr = none → s.isLost conn = false
  | _ => True

instance decidableCareful (s : Shared) (k : Call) : Decidable (k.Careful s) := by
  unfold Call.Careful
  split <;> infer_instance

/-- No step falls into a window. -/
def Watched (c : Client) : Act → Prop
  | .call i _ => ∀ k ∈ c.calls[i]?, k.Careful c.shared
  | _ => True

instance decidableWatched (c : Client) (act : Act) : Decidable (Watched c act) := by
  apply Act.casesOn (motive := fun act => Decidable (Watched c act)) act
  case call =>
    exact fun i _ => inferInstanceAs (Decidable (∀ k ∈ c.calls[i]?, k.Careful c.shared))
  all_goals
    intros
    exact .isTrue trivial

namespace Placed

variable {reconnect : Bool} {c c' : Client} {i : Nat} {k k' : Call} {addr : String}

theorem next (h : Placed c) (hk : c.calls[i]? = some k)
    (hn : Next reconnect c.shared i k op k') (hG : k.Careful c.shared) :
    Placed (c.moved op i k') := by
  by_cases hcreate : ∃ addr, op = .create addr
  · obtain ⟨addr, rfl⟩ := hcreate
    obtain ⟨hp, ha⟩ := hn.creates
    exact h.create hp ha
  by_cases hpublish : ∃ addr conn, op = .publish addr conn
  · obtain ⟨addr, conn, rfl⟩ := hpublish
    obtain ⟨hp, ha, he, hf⟩ := hn.publishes
    have hlost := hG
    rw [Call.Careful, hp, ha] at hlost
    exact h.publish hk hp ha hf (hlost he)
  refine h.leave ?_ ?_ ?_ (fun _ => .inl isLost_apply) ?_ ?_
  · intro addr conn hc
    rcases conns_apply hc with heq | ⟨hc, _⟩
    · exact absurd ⟨addr, conn, heq⟩ hpublish
    · exact hc
  · exact fun conn => addrOf_apply fun addr heq => hcreate ⟨addr, heq⟩
  · intro j conn addr hj
    rcases publishing_set hj with ⟨_, hp, _⟩ | ⟨_, hj⟩
    · exact absurd ⟨_, (hn.publishing hp).1⟩ hcreate
    · exact hj
  · intro conn hh
    rcases isHandled_apply.mp hh with hh | ⟨rfl, _⟩
    · exact .inl hh
    · exact .inr (.inr (.inl ⟨i, k, hk, hn.fails⟩))
  · intro conn hc
    rcases closing_set hc with hc | hp
    · exact .inl hc
    · rcases hn.closing hp with hp | ⟨rfl, hconn⟩
      · exact .inl (.inr (.inl ⟨i, k, hk, hp⟩))
      · exact .inr (.inr ⟨k.addr, hconn, by simp [Op.apply]⟩)

theorem others (h : Placed c) (hconns : c'.shared.conns = c.shared.conns)
    (haddr : ∀ conn, c'.shared.addrOf conn = c.shared.addrOf conn)
    (hlost : ∀ conn, c'.shared.isLost conn = c.shared.isLost conn)
    (hhandled : ∀ conn, c'.shared.isHandled conn = c.shared.isHandled conn)
    (hcalls : ∀ (j : Nat) (k' : Call), c'.calls[j]? = some k' → k'.phase.Free ∨
      ∃ k : Call, c.calls[j]? = some k ∧ k'.phase = k.phase ∧ k'.addr = k.addr)
    (hclosers : c'.closers = c.closers)
    (hshutdowns : ∀ x ∈ c'.shutdowns, x.closes = none ∨ x ∈ c.shutdowns) : Placed c' := by
  refine h.leave ?_ haddr ?_ (fun conn => .inl (hlost conn)) ?_ ?_
  · intro addr conn hc
    rw [← hconns]
    exact hc
  · intro j conn addr ⟨k', hk', hp, ha⟩
    rcases hcalls j k' hk' with hf | ⟨k, hk, hphase, haddr⟩
    · exact absurd hp (hf.2 conn)
    · exact ⟨k, hk, hphase.symm.trans hp, haddr.symm.trans ha⟩
  · exact fun conn hh => .inl ((hhandled conn).symm.trans hh)
  · intro conn hc
    rcases hc with hx | ⟨j, k', hk', hp⟩ | ⟨x, hx, hxc⟩
    · rw [hclosers] at hx
      exact .inl (.inl hx)
    · rcases hcalls j k' hk' with hf | ⟨k, hk, hphase, _⟩
      · exact absurd (hf.1.symm.trans hp) nofun
      · exact .inl (.inr (.inl ⟨j, k, hk, by rw [← hphase]; exact hp⟩))
    · rcases hshutdowns x hx with hn | hx
      · exact absurd (hn.symm.trans hxc) nofun
      · exact .inl (.inr (.inr ⟨x, hx, hxc⟩))

theorem begin (h : Placed c) (hk : k.phase.Free) : Placed { c with calls := c.calls ++ [k] } := by
  refine h.others rfl (fun _ => rfl) (fun _ => rfl) (fun _ => rfl) (fun j k' hk' => ?_) rfl
    fun x hx => .inr hx
  rcases Pool.of_getElem?_concat hk' with hk' | ⟨_, rfl⟩
  · exact .inr ⟨k', hk', rfl, rfl⟩
  · exact .inl hk

theorem complete {p : Pending} {command : RemotingCommand} (h : Placed c) :
    Placed { c with
      shared := Op.apply c.shared (.cancel command.requestId)
      calls := deliver c.calls (.completed p.sender command) } := by
  refine h.others rfl (fun _ => rfl) (fun _ => rfl) (fun _ => rfl) (fun j k' hk' => ?_) rfl
    fun x hx => .inr hx
  obtain ⟨k, hk, rfl | ⟨_, _, rfl⟩⟩ := deliver_cases hk'
  · exact .inr ⟨k', hk, rfl, rfl⟩
  · exact .inr ⟨k, hk, rfl, rfl⟩

theorem work (h : Placed c) {closers : List Closer} {shutdowns : List Shutting} {collected : Bool}
    (hop : (∀ a, op ≠ .create a) ∧ ∀ a conn, op ≠ .publish a conn)
    (hfail : ∀ conn, op = .fail conn → c.Closing conn)
    (hclosers : ∀ x ∈ closers, x ∈ c.closers ∨ c.Closing x.conn ∨
      ∃ a, op = .remove a ∧ c.shared.conns[a]? = some x.conn)
    (hshutdowns : ∀ x ∈ shutdowns, x ∈ c.shutdowns ∨ ∀ conn, x.closes = some conn →
      c.Closing conn ∨ ∃ a, op = .remove a ∧ c.shared.conns[a]? = some conn) :
    Placed ⟨op.apply c.shared, c.calls, closers, shutdowns, collected⟩ := by
  have htaken : ∀ conn, (∃ a, op = .remove a ∧ c.shared.conns[a]? = some conn) →
      ∃ a : String, c.shared.conns[a]? = some conn ∧ (op.apply c.shared).conns[a]? = none := by
    intro conn ⟨a, hr, ha⟩
    exact ⟨a, ha, by rw [hr]; simp [Op.apply]⟩
  refine h.leave ?_ (fun _ => addrOf_apply hop.1) (fun _ _ _ hp => hp)
    (fun _ => .inl isLost_apply) ?_ ?_
  · intro a conn hc
    rcases conns_apply hc with heq | ⟨hc, _⟩
    · exact absurd heq (hop.2 a conn)
    · exact hc
  · intro conn hh
    exact (isHandled_apply.mp hh).imp_right fun hf => hfail conn hf.1
  · intro conn hc
    rcases hc with ⟨x, hx, rfl⟩ | hk | ⟨x, hx, hxc⟩
    · rcases hclosers x hx with hx | hx
      · exact .inl (.inl ⟨x, hx, rfl⟩)
      · exact hx.imp_right fun ht => .inr (htaken _ ht)
    · exact .inl (.inr (.inl hk))
    · rcases hshutdowns x hx with hx | hx
      · exact .inl (.inr (.inr ⟨x, hx, hxc⟩))
      · exact (hx conn hxc).imp_right fun ht => .inr (htaken _ ht)

theorem map_set {α : Type} {links : List Connection} (g : Connection → α)
    (hl : links[conn]? = some link) (hg : g { link with lost := true } = g link) (x : Nat) :
    (links.set conn { link with lost := true })[x]?.map g = links[x]?.map g := by
  have hlt := (List.getElem?_eq_some_iff.mp hl).1
  rw [getElem?_set]
  split
  · rename_i heq
    rw [← heq, hl]
    exact congrArg some hg
  · rfl

theorem lose (h : Placed c) (hl : c.shared.links[conn]? = some link) :
    Placed (c.loseConnection conn link) := by
  have hlt := (List.getElem?_eq_some_iff.mp hl).1
  have hhome : c.shared.addrOf conn = some link.addr := by
    rw [Shared.addrOf, hl]
    rfl
  have hlinks : (c.loseConnection conn link).shared.links
      = c.shared.links.set conn { link with lost := true } := by
    unfold Client.loseConnection
    split <;> rfl
  have hself : (c.loseConnection conn link).shared.isLost conn = true := by
    rw [Shared.isLost, hlinks, getElem?_set_self hlt]
    rfl
  have hconns : ∀ (a : String) x, (c.loseConnection conn link).shared.conns[a]? = some x →
      c.shared.conns[a]? = some x ∧ x ≠ conn := by
    intro a x hx
    unfold Client.loseConnection at hx
    split at hx
    · rename_i hmine
      obtain ⟨hne, hx⟩ := Table.of_get_erase hx
      refine ⟨hx, fun heq => hne ?_⟩
      rw [heq] at hx
      exact h.unique hx hmine
    · rename_i hmine
      refine ⟨hx, fun heq => hmine ?_⟩
      rw [heq] at hx
      have ha := (h.home a conn hx).symm.trans hhome
      cases ha
      exact hx
  have hcalls : (c.loseConnection conn link).calls = c.calls := by
    unfold Client.loseConnection
    split <;> rfl
  refine h.leave (fun a x hx => (hconns a x hx).1) ?_ ?_ ?_ ?_ ?_
  · intro x
    rw [Shared.addrOf, hlinks]
    exact map_set _ hl rfl x
  · intro i x a ⟨k, hk, hp⟩
    rw [hcalls] at hk
    exact ⟨k, hk, hp⟩
  · intro x
    by_cases heq : x = conn
    · rw [heq]
      refine .inr ⟨hself, ?_, fun ⟨a, ha⟩ => (hconns a conn ha).2 rfl⟩
      rw [hhome]
      nofun
    · left
      rw [Shared.isLost, hlinks, getElem?_set_ne (Ne.symm heq), Shared.isLost]
  · intro x hx
    rw [Shared.isHandled, hlinks, map_set _ hl rfl x] at hx
    exact .inl hx
  · intro x hc
    have hx : c.Closing x ∨ x = conn := by
      unfold Client.loseConnection at hc
      split at hc <;> rcases hc with ⟨y, hy, rfl⟩ | hk | hy
      all_goals first
        | exact .inl (.inr (.inl hk))
        | exact .inl (.inr (.inr hy))
        | rcases mem_append.mp hy with hy | hy
          · exact .inl (.inl ⟨y, hy, rfl⟩)
          · rw [mem_singleton.mp hy]
            exact .inr rfl
    rcases hx with hx | rfl
    · exact .inl hx
    · exact .inr (.inl hself)

theorem step {env : Env} {act : Act} (h : Placed c) (hG : Watched c act)
    (hs : c.step env act = some c') : Placed c' := by
  have hcalls : ∀ (j : Nat) k', c.calls[j]? = some k' → k'.phase.Free ∨
      ∃ k : Call, c.calls[j]? = some k ∧ k'.phase = k.phase ∧ k'.addr = k.addr :=
    fun j k hk => .inr ⟨k, hk, rfl, rfl⟩
  cases step_cases hs with
  | start =>
    exact h.others rfl (fun _ => rfl) (fun _ => rfl) (fun _ => rfl) hcalls rfl
      fun x hx => .inr hx
  | shutdown hr =>
    refine h.others rfl (fun _ => rfl) (fun _ => rfl) (fun _ => rfl) hcalls rfl fun x hx => ?_
    rcases mem_append.mp hx with hx | hx
    · exact .inr hx
    · rw [mem_singleton.mp hx]
      exact .inl rfl
  | again hr => exact h
  | invoke | write => exact h.begin ⟨rfl, nofun⟩
  | call hk hn => exact h.next hk hn (hG _ hk)
  | receive hr =>
    cases hr with
    | completed hp => exact h.complete
    | other => exact h
  | laneEnds =>
    have hsame : ∀ {α : Type} (g : Connection → α) (conn i),
        (∀ l, g { l with lane := false } = g l) →
        (c.shared.links.modify i fun l => { l with lane := false })[conn]?.map g
          = c.shared.links[conn]?.map g := fun g conn i hg => map_modify g _ i hg
    refine h.others rfl (fun conn => hsame _ conn _ fun _ => rfl)
      (fun conn => congrArg (Option.getD · false) (hsame _ conn _ fun _ => rfl))
      (fun conn => congrArg (Option.getD · false) (hsame _ conn _ fun _ => rfl)) hcalls rfl
      fun x hx => .inr hx
  | readerEnds =>
    exact h.work ⟨nofun, nofun⟩ nofun (fun _ => .inl) fun _ => .inl
  | lost hl => exact h.lose hl
  | closeChannel hc =>
    refine h.work ⟨nofun, nofun⟩ nofun (fun x hx => ?_) fun _ => .inl
    rcases mem_append.mp hx with hx | hx
    · exact .inl hx
    · rw [mem_singleton.mp hx]
      exact .inr (.inr ⟨_, rfl, hc⟩)
  | @mark j y hy =>
    refine h.work ⟨nofun, nofun⟩ nofun (fun x hx => ?_) fun _ => .inl
    rcases mem_or_eq_of_mem_set hx with hx | rfl
    · exact .inl hx
    · exact .inr (.inl (.inl ⟨y, mem_of_getElem? hy, rfl⟩))
  | @fail j y hy =>
    refine h.work ⟨nofun, nofun⟩ (fun conn heq => ?_)
      (fun x hx => .inl (mem_of_mem_eraseIdx hx)) fun _ => .inl
    cases heq
    exact .inl ⟨y, mem_of_getElem? hy, rfl⟩
  | @shut j addr x x' op hx hsh =>
    have hmem := mem_of_getElem? hx
    refine h.work ?_ (fun conn heq => ?_) (fun _ => .inl) fun y hy => ?_
    · cases hsh <;> exact ⟨nofun, nofun⟩
    · cases hsh <;> cases heq
      exact .inr (.inr ⟨_, hmem, rfl⟩)
    · rcases mem_or_eq_of_mem_set hy with hy | rfl
      · exact .inl hy
      · refine .inr fun conn hc => ?_
        cases hsh with
        | remove hconn =>
          cases hc
          exact .inr ⟨_, rfl, hconn⟩
        | kill =>
          cases hc
          exact .inl (.inr (.inr ⟨_, hmem, rfl⟩))
        | _ => cases hc

end Placed

/-! ## 5. What has been handled -/

variable {env : Env} {act : Act} {c c' : Client}

/-- Every step is some section, as far as requests in flight and handled connections go, and only
calls register and bind requests. -/
theorem step_section (hs : c.step env act = some c') :
    ∃ op, c'.shared.pending = (op.apply c.shared).pending ∧
      (∀ conn, c'.shared.isHandled conn = (op.apply c.shared).isHandled conn) ∧
      ((∃ i x k k', act = .call i x ∧ c.calls[i]? = some k ∧
          Next env.reconnect c.shared i k op k') ∨
        ((∀ requestId p, op ≠ .register requestId p) ∧
          ∀ requestId conn, op ≠ .attach requestId conn)) := by
  cases step_cases hs with
  | start | shutdown | again | invoke | write =>
    exact ⟨.idle, rfl, fun _ => rfl, .inr ⟨nofun, nofun⟩⟩
  | call hk hn => exact ⟨_, rfl, fun _ => rfl, .inl ⟨_, _, _, _, rfl, hk, hn⟩⟩
  | receive hr =>
    cases hr with
    | @completed p command hp =>
      exact ⟨(.cancel command.requestId), rfl, fun _ => rfl, .inr ⟨nofun, nofun⟩⟩
    | other => exact ⟨.idle, rfl, fun _ => rfl, .inr ⟨nofun, nofun⟩⟩
  | @laneEnds i =>
    refine ⟨.idle, rfl, fun conn => ?_, .inr ⟨nofun, nofun⟩⟩
    exact congrArg (Option.getD · false) (map_modify _ c.shared.links i (by intro l; rfl))
  | @readerEnds i => exact ⟨(.markDead i), rfl, fun _ => rfl, .inr ⟨nofun, nofun⟩⟩
  | lost hl =>
    refine ⟨.idle, ?_, fun conn => ?_, .inr ⟨nofun, nofun⟩⟩
    · unfold Client.loseConnection
      split <;> rfl
    · have hsame := congrArg (Option.getD · false) (Placed.map_set (·.handled) hl rfl conn)
      unfold Client.loseConnection
      split <;> exact hsame
  | @closeChannel addr _ hc => exact ⟨(.remove addr), rfl, fun _ => rfl, .inr ⟨nofun, nofun⟩⟩
  | @mark _ x hx => exact ⟨(.markDead x.conn), rfl, fun _ => rfl, .inr ⟨nofun, nofun⟩⟩
  | @fail _ x hx => exact ⟨(.fail x.conn), rfl, fun _ => rfl, .inr ⟨nofun, nofun⟩⟩
  | @shut _ _ x x' op hx hsh =>
    refine ⟨op, rfl, fun _ => rfl, .inr ?_⟩
    cases hsh <;> exact ⟨nofun, nofun⟩

theorem isHandled_of_reach {G : Client → Act → Prop} (hh : c.shared.isHandled conn = true)
    (h : Machine.Reach (Client.step env) G c c') : c'.shared.isHandled conn = true := by
  refine h.invariant (I := fun c => c.shared.isHandled conn = true) hh ?_
  intro t act t' ht _ hs
  obtain ⟨op, _, heq, _⟩ := step_section hs
  rw [heq]
  exact isHandled_apply.mpr (.inl ht)

/-- No request in flight is bound to a connection that has been handled. -/
def Unbound (c : Client) : Prop :=
  ∀ (conn : Nat), c.shared.isHandled conn = true → ∀ (requestId : Int32) (p : Pending),
    c.shared.pending[requestId]? = some p → p.connId ≠ some conn

theorem unbound_new : Unbound .new := by
  intro conn hh
  cases hh

theorem Next.attaches {reconnect : Bool} {i : Nat} {k k' : Call} {requestId : Int32}
    (h : Next reconnect s i k (.attach requestId conn) k') :
    k.phase = .attach conn ∧ k.used.headD 0 = requestId := by
  cases h with
  | attach hk => exact ⟨hk, rfl⟩
  | seek _ hop | found _ hop | refused _ hop => exact hop.elim

theorem Unbound.step (h : Unbound c) (hG : Watched c act) (hs : c.step env act = some c') :
    Unbound c' := by
  obtain ⟨op, hpending, hhandled, hop⟩ := step_section hs
  intro conn hh requestId p' hp'
  rw [hhandled] at hh
  rw [hpending] at hp'
  rcases pending_apply hp' with rfl | ⟨p, hp, hkept⟩
  · rcases hop with ⟨i, x, k, k', _, _, hn⟩ | ⟨hr, _⟩
    · rw [hn.registers.2.2.2]
      nofun
    · exact absurd rfl (hr requestId p')
  · cases hkept with
    | same hr hc hf =>
      rcases isHandled_apply.mp hh with hh | ⟨heq, _⟩
      · exact h conn hh requestId p' hp
      · exact hf conn heq
    | @attached other heq =>
      subst heq
      rcases hop with ⟨i, x, k, k', rfl, hk, hn⟩ | ⟨_, ha⟩
      · -- outside the window the connection has not been handled
        obtain ⟨hphase, hid⟩ := hn.attaches
        have hcareful := hG k hk
        rw [Call.Careful, hphase, hid] at hcareful
        have hopen := hcareful (Std.ExtTreeMap.mem_iff_isSome_getElem?.mpr (by rw [hp]; rfl))
        intro heq
        cases heq
        rcases isHandled_apply.mp hh with hh | ⟨heq, _⟩
        · cases hopen.symm.trans hh
        · cases heq
      · exact absurd rfl (ha requestId other)

/-- **Connection loss is handled completely**, in every run that stays out of the two windows:
once a connection has been handled, no request in flight is bound to it and it is not published
under any address, then and ever after. -/
theorem loss_complete_when {env : Env} {c c' : Client}
    (h : Machine.Reach (Client.step env) Watched .new c) {conn : Nat}
    (hh : c.shared.isHandled conn = true) (h' : Machine.Reach (Client.step env) Watched c c') :
    (∀ (requestId : Int32) (p : Pending), c'.shared.pending[requestId]? = some p →
      p.connId ≠ some conn) ∧
    ∀ addr : String, c'.shared.conns[addr]? ≠ some conn := by
  have hreach := h.trans h'
  have hh' := isHandled_of_reach hh h'
  have hunbound : Unbound c' := hreach.invariant unbound_new fun _ _ _ hu hG hs => hu.step hG hs
  have hplaced : Placed c' := hreach.invariant placed_new fun _ _ _ hp hG hs => hp.step hG hs
  exact ⟨hunbound conn hh', fun addr ha => (hplaced.out conn (.inr (.inl hh'))).2 ⟨addr, ha⟩⟩

end RocketMQ.RemotingClient

namespace RocketMQ.Script

open RocketMQ.RemotingClient

/-- A call to `b` after this many of its sections. -/
def callTo (sections : Nat) : List Act :=
  .invoke "b" 7 3000 :: List.replicate sections (.call 0 .go)

/-- The loss of the first connection, published when its reader ends. -/
def firstLost : List Act := [.lost 0, .closer 0, .closer 0]

/-- The loss of the first connection, not yet published when its reader ends. -/
def firstLostEarly : List Act := [.lost 0, .closer 0]

def clientAfter (acts : List Act) : Client := Machine.after (Client.step remotingEnv) .new acts

end RocketMQ.Script

namespace RocketMQ.RemotingClient

open Script

/-- The connection is lost while the call waits for its answer. -/
theorem loss_complete_when_waiting :
    (clientAfter (callTo 9 ++ firstLost)).shared.isHandled 0 = true ∧
    ∀ addr : String, (clientAfter (callTo 9 ++ firstLost)).shared.conns[addr]?
      ≠ some 0 := by
  have hmeets : Machine.Meets (Client.step remotingEnv) Watched .new
      (callTo 9 ++ firstLost) := by
    decide +kernel
  have hh : (clientAfter (callTo 9 ++ firstLost)).shared.isHandled 0 = true :=
    by decide +kernel
  exact ⟨hh, (loss_complete_when hmeets.reach_after hh .start).2⟩

/-- **Both windows are open**: a request that was written is bound to its connection after the loss
of that connection has been handled, and a connection whose loss has been handled is published as
usable. -/
theorem loss_left_behind :
    ((clientAfter (callTo 8 ++ firstLost ++ [.call 0 .go])).shared.isHandled 0
        = true ∧
      (clientAfter (callTo 8 ++ firstLost ++ [.call 0 .go])).shared.pending[
        (7 : Int32)]? = some ⟨(0, 1), "b", some 0⟩) ∧
    (clientAfter (callTo 6 ++ firstLostEarly ++ [.call 0 .go])).shared.isHandled
        0 = true ∧
      (clientAfter (callTo 6 ++ firstLostEarly ++ [.call 0 .go])).shared.existing
        "b" = some 0 := by
  decide +kernel

end RocketMQ.RemotingClient
