/-
  File:      RocketMQ/Remoting/Invocation.lean
  Subject:   What an invocation writes, returns and leaves behind.

  * `Accounted`: **both, in every state of every run**;
  * `invocation_contract`: **two frames, the answer to the last attempt, nothing left in flight**.
-/
import RocketMQ.Remoting.Sections
import RocketMQ.Remoting.Spelling

namespace RocketMQ.RemotingClient

open List

/-! ## 1. A call by itself -/

/-- Only an invocation gets here. -/
def Phase.Invoking : Phase → Prop
  | .register _ | .attach _ | .wait _ | .cancel _ _ | .retry => True
  | .close _ why | .kill _ _ why | .fail _ _ why => why ≠ .failedWrite
  | _ => False

/-- Another attempt is going to be registered. -/
def Phase.Renews : Phase → Prop
  | .register _ | .retry => True
  | .close _ why | .kill _ _ why | .fail _ _ why => why = .goAway
  | _ => False

/-- The frames of this attempt that are still to be written. -/
def Phase.toWrite : Phase → Nat
  | .check | .look | .gate | .lookAgain | .connect | .publish _ | .send _ => 1
  | _ => 0

/-- **What holds of a call by itself.** -/
structure Call.Sound (k : Call) : Prop where
  invoking : k.phase.Invoking → k.invoke = true
  bare : k.invoke = false → k.used = []
  attempts : k.used.length ≤ 2
  renews : k.phase.Renews → k.used.length ≤ 1
  writes : k.invoke = true → k.written + k.phase.toWrite ≤ k.used.length
  /-- what the receiver has got answers the latest attempt -/
  answer : ∀ r, k.answer = some r → k.used.head? = some r.requestId
  /-- and so does what is returned -/
  result : ∀ r, k.outcome = some (.response r) →
    k.used.head? = some r.requestId ∧ r.code ≠ Call.goAwayCode
  returned : k.outcome.isSome = true ↔ k.phase = .done

namespace Call.Sound

variable {k : Call}

theorem not_returned (h : k.Sound) (hp : k.phase ≠ .done) : k.outcome = none := by
  by_contra hne
  exact hp (h.returned.mp (Option.isSome_iff_ne_none.mpr hne))

/-- The call goes on with the same attempts and the same answer. -/
theorem goOn {phase : Phase} {written : Nat} {wroteOn : Option Nat} {timeout : Int} (h : k.Sound)
    (hp : k.phase ≠ .done) (hd : phase ≠ .done) (hi : phase.Invoking → k.invoke = true)
    (hr : phase.Renews → k.used.length ≤ 1)
    (hw : k.invoke = true → written + phase.toWrite ≤ k.used.length) :
    Call.Sound { k with written, wroteOn, phase, timeout } where
  invoking := hi
  bare := h.bare
  attempts := h.attempts
  renews := hr
  writes := hw
  answer := h.answer
  result := h.result
  returned := by
    rw [h.not_returned hp]
    exact ⟨nofun, fun heq => absurd heq hd⟩

theorem goTo {phase : Phase} (h : k.Sound) (hp : k.phase ≠ .done) (hd : phase ≠ .done)
    (hi : phase.Invoking → k.invoke = true) (hr : phase.Renews → k.used.length ≤ 1)
    (hw : phase.toWrite ≤ k.phase.toWrite) : (k.goTo phase).Sound :=
  h.goOn hp hd hi hr fun hk => (Nat.add_le_add_left hw _).trans (h.writes hk)

theorem finish {outcome : Outcome} (h : k.Sound)
    (hr : ∀ r, outcome = .response r → k.used.head? = some r.requestId ∧ r.code ≠ goAwayCode) :
    (k.finish outcome).Sound where
  invoking := nofun
  bare := h.bare
  attempts := h.attempts
  renews := nofun
  writes hk := (Nat.le_add_right _ _).trans (h.writes hk)
  answer := h.answer
  result r heq := hr r (Option.some.inj heq)
  returned := ⟨fun _ => rfl, fun _ => rfl⟩

theorem failWith {error : Error} (h : k.Sound) (hp : k.phase ≠ .done) :
    (k.failWith error).Sound := by
  unfold Call.failWith
  split
  · exact h.goTo hp nofun (fun _ => ‹_›) nofun (Nat.zero_le _)
  · exact h.finish nofun

theorem closed {why : Why} (h : k.Sound) (hp : k.phase ≠ .done)
    (hr : why = .goAway → k.used.length ≤ 1) (hi : why ≠ .failedWrite → k.invoke = true) :
    (k.closed why).Sound := by
  cases why with
  | failedWrite => exact h.failWith hp
  | goAway => exact h.goTo hp nofun (fun _ => hi nofun) (fun _ => hr rfl) (Nat.zero_le _)
  | timedOut => exact h.finish nofun

theorem answered {reconnect : Bool} {conn : Nat} {r : RemotingCommand} (h : k.Sound)
    (hp : k.phase = .wait conn) (ha : k.answer = some r) : (k.answered reconnect conn r).Sound := by
  have hd : k.phase ≠ .done := by rw [hp]; nofun
  have hi : k.invoke = true := h.invoking (by rw [hp]; trivial)
  unfold Call.answered
  split
  · rename_i hcode
    refine h.finish fun r' heq => ?_
    cases heq
    exact ⟨h.answer r ha, hcode⟩
  · split
    · exact h.finish nofun
    · split
      · exact h.goTo hd nofun (fun _ => hi) (fun _ => by omega) (Nat.zero_le _)
      · exact h.finish nofun

end Call.Sound

variable {phase : Phase} {requestId : Int32} {env : Env} {c : Client}

theorem newCall_sound {invoke : Bool} {addr : String} {timeout : Int} (hd : phase ≠ .done)
    (hi : phase.Invoking → invoke = true) (hw : invoke = true → phase.toWrite = 0) :
    (newCall invoke addr timeout phase).Sound where
  invoking := hi
  bare _ := rfl
  attempts := Nat.zero_le _
  renews _ := Nat.zero_le _
  writes hk := by
    show 0 + phase.toWrite ≤ 0
    rw [hw hk]
  answer := nofun
  result := nofun
  returned := ⟨nofun, fun heq => absurd heq hd⟩

variable {reconnect : Bool} {s : Shared} {i : Nat} {k k' : Call} {op : Op}

theorem Phase.Seeking.ne_done (h : phase.Seeking) : phase ≠ .done := by
  intro heq
  rwa [heq] at h

theorem Phase.Seeking.toWrite (h : phase.Seeking) : phase.toWrite = 1 := by
  cases phase <;> first | rfl | exact h.elim

theorem Phase.Seeking.quiet (h : phase.Seeking) : ¬ phase.Invoking ∧ ¬ phase.Renews := by
  cases phase <;> first | exact ⟨id, id⟩ | exact h.elim

/-- **What holds of a call by itself goes on to hold.** -/
theorem Next.sound (h : Next reconnect s i k op k') (hk : k.Sound) : k'.Sound := by
  cases h with
  | @register requestId hp =>
    have hi : k.invoke = true := hk.invoking (by rw [hp]; trivial)
    have hu : k.used.length ≤ 1 := hk.renews (by rw [hp]; trivial)
    have hn : k.outcome = none := hk.not_returned (by rw [hp]; nofun)
    have hw := hk.writes hi
    rw [hp] at hw
    constructor
    case invoking => nofun
    case bare => exact fun hf => absurd (hi.symm.trans hf) nofun
    case attempts => exact Nat.succ_le_succ hu
    case renews => nofun
    case writes => exact fun _ => Nat.succ_le_succ hw
    case answer => nofun
    case result =>
      intro r hr
      rw [show k.outcome = some (.response r) from hr] at hn
      cases hn
    case returned =>
      rw [hn]
      exact ⟨nofun, nofun⟩
  | seek hp hop hp' =>
    refine hk.goTo hp.ne_done hp'.ne_done (fun hi => absurd hi hp'.quiet.1)
      (fun hr => absurd hr hp'.quiet.2) ?_
    rw [hp.toWrite, hp'.toWrite]
  | found hp hop he =>
    rcases hp with hp | ⟨conn, hp⟩
    · refine hk.goTo hp.ne_done nofun nofun nofun ?_
      rw [hp.toWrite]
      exact le_refl 1
    · refine hk.goTo (by rw [hp]; nofun) nofun nofun nofun ?_
      rw [hp]
      exact le_refl 1
  | refused hp hop => exact hk.failWith hp.ne_done
  | create hp | publish hp he =>
    refine hk.goTo (by rw [hp]; nofun) nofun nofun nofun ?_
    rw [hp]
    exact le_refl 1
  | @send conn hp hi =>
    have hw := hk.writes hi
    rw [hp] at hw
    exact hk.goOn (by rw [hp]; nofun) nofun (fun _ => hi) nofun fun _ => hw
  | write hp hi =>
    constructor
    case invoking => nofun
    case bare => exact hk.bare
    case attempts => exact hk.attempts
    case renews => nofun
    case writes => exact fun ht => absurd (hi.symm.trans ht) nofun
    case answer => exact hk.answer
    case result => nofun
    case returned => exact ⟨fun _ => rfl, fun _ => rfl⟩
  | unsent hp => exact hk.goTo (by rw [hp]; nofun) nofun nofun nofun (Nat.zero_le _)
  | markDead hp =>
    exact hk.goTo (by rw [hp]; nofun) nofun (absurd rfl) nofun (Nat.zero_le _)
  | remove hp hc | kill hp =>
    have hi := hk.invoking
    have hr := hk.renews
    rw [hp] at hi hr
    exact hk.goTo (by rw [hp]; nofun) nofun hi hr (Nat.zero_le _)
  | nothing hp hc | fail hp =>
    have hi := hk.invoking
    have hr := hk.renews
    rw [hp] at hi hr
    exact hk.closed (by rw [hp]; nofun) hr hi
  | attach hp | giveUp hp ho | cancelClose hp =>
    exact hk.goTo (by rw [hp]; nofun) nofun (fun _ => hk.invoking (by rw [hp]; trivial)) nofun
      (Nat.zero_le _)
  | answer hp ha => exact hk.answered hp ha
  | cancel hp => exact hk.finish nofun
  | retry hp =>
    have hw := hk.writes
    rw [hp] at hw
    exact hk.goOn (by rw [hp]; nofun) nofun (fun _ => hk.invoking (by rw [hp]; trivial))
      (fun _ => hk.renews (by rw [hp]; trivial)) hw

/-! ## 2. Whose an entry is -/

/-- The entry of the latest attempt may still be in the table. -/
def Phase.Holding : Phase → Prop
  | .register _ | .retry | .done => False
  | .close _ why | .kill _ _ why | .fail _ _ why => why = .failedWrite
  | _ => True

/-- The call owns the entry of its attempt number `attempt`, under this request id. -/
structure Call.Owns (k : Call) (attempt : Nat) (requestId : Int32) : Prop where
  latest : k.used.length = attempt
  head : k.used.head? = some requestId
  silent : k.answer = none
  holding : k.phase.Holding

namespace Call.Owns

variable {attempt : Nat} {requestId : Int32}

theorem goTo {phase : Phase} (h : k.Owns attempt requestId) (hp : phase.Holding) :
    (k.goTo phase).Owns attempt requestId := ⟨h.latest, h.head, h.silent, hp⟩

theorem invoke (h : k.Owns attempt requestId) (hk : k.Sound) : k.invoke = true := by
  cases hi : k.invoke with
  | true => rfl
  | false =>
    have hhead := h.head
    rw [hk.bare hi] at hhead
    cases hhead

theorem failWith {error : Error} (h : k.Owns attempt requestId) (hk : k.Sound) :
    (k.failWith error).Owns attempt requestId := by
  rw [Call.failWith, if_pos (h.invoke hk)]
  exact h.goTo trivial

theorem closed {why : Why} (h : k.Owns attempt requestId) (hk : k.Sound)
    (hw : why = .failedWrite) : (k.closed why).Owns attempt requestId := by
  rw [hw]
  exact h.failWith hk

theorem headD (h : k.Owns attempt requestId) : k.used.headD 0 = requestId := by
  rw [headD_eq_head?_getD, h.head]
  rfl

end Call.Owns

theorem Phase.Seeking.holding (h : phase.Seeking) : phase.Holding := by
  cases phase <;> trivial

/-- **A call loses its entry in no other way than by cancelling it.** -/
theorem Next.owns {attempt : Nat} (h : Next reconnect s i k op k') (hk : k.Sound)
    (ho : k.Owns attempt requestId) : k'.Owns attempt requestId ∨ op = .cancel requestId := by
  have hold := ho.holding
  cases h with
  | register hp =>
    rw [hp] at hold
    exact hold.elim
  | seek hp hop hp' => exact .inl (ho.goTo hp'.holding)
  | found | create | publish | unsent | attach | giveUp => exact .inl (ho.goTo trivial)
  | refused hp hop => exact .inl (ho.failWith hk)
  | send hp hi => exact .inl ⟨ho.latest, ho.head, ho.silent, trivial⟩
  | write hp hi => exact absurd ((ho.invoke hk).symm.trans hi) nofun
  | markDead hp => exact .inl (ho.goTo rfl)
  | remove hp hc | kill hp =>
    rw [hp] at hold
    exact .inl (ho.goTo hold)
  | nothing hp hc | fail hp =>
    rw [hp] at hold
    exact .inl (ho.closed hk hold)
  | answer hp ha =>
    cases ho.silent.symm.trans ha
  | cancel | cancelClose => exact .inr (by rw [ho.headD])
  | retry hp =>
    rw [hp] at hold
    exact hold.elim

theorem Next.registers {p : Pending} (h : Next reconnect s i k (.register requestId p) k') :
    k.phase = .register requestId ∧ p.sender.1 = i ∧ k'.Owns p.sender.2 requestId ∧
      p.connId = none := by
  cases h with
  | register hp => exact ⟨hp, rfl, ⟨rfl, rfl, rfl, trivial⟩, rfl⟩
  | seek _ hop | found _ hop | refused _ hop => exact hop.elim

/-- **Every call is sound, and every entry is some call's.** -/
structure Accounted (c : Client) : Prop where
  sound : ∀ (i : Nat) (k : Call), c.calls[i]? = some k → k.Sound
  owned : ∀ (requestId : Int32) (p : Pending), c.shared.pending[requestId]? = some p →
    ∃ k, c.calls[p.sender.1]? = some k ∧ k.Owns p.sender.2 requestId

theorem accounted_new : Accounted .new := by
  constructor
  · intro i k hk
    simp [Client.new] at hk
  · intro requestId p hp
    simp [Client.new] at hp

namespace Accounted

variable {c : Client}

theorem begin (h : Accounted c) (hk : k.Sound) :
    Accounted { c with calls := c.calls ++ [k] } := by
  refine ⟨fun i k' hk' => ?_, fun requestId p hp => ?_⟩
  · rcases Pool.of_getElem?_concat hk' with hk' | ⟨_, rfl⟩
    · exact h.sound i k' hk'
    · exact hk
  · obtain ⟨k', hk', howns⟩ := h.owned requestId p hp
    have hlt := (List.getElem?_eq_some_iff.mp hk').1
    exact ⟨k', by rw [getElem?_append_left hlt]; exact hk', howns⟩

theorem next (h : Accounted c) (hk : c.calls[i]? = some k)
    (hn : Next reconnect c.shared i k op k') : Accounted (c.moved op i k') := by
  have hsound := h.sound i k hk
  have hlt := (List.getElem?_eq_some_iff.mp hk).1
  have hset : (c.calls.set i k')[i]? = some k' := getElem?_set_self hlt
  refine ⟨fun j kj hkj => ?_, fun requestId p hp => ?_⟩
  · rcases Pool.of_getElem?_set hkj with ⟨_, rfl⟩ | ⟨_, hkj⟩
    · exact hn.sound hsound
    · exact h.sound j kj hkj
  · rcases pending_apply hp with rfl | ⟨p', hp', hkept⟩
    · obtain ⟨_, hi, howns, _⟩ := hn.registers
      exact ⟨k', by rw [hi]; exact hset, howns⟩
    · rw [hkept.sender]
      obtain ⟨kj, hkj, howns⟩ := h.owned requestId p' hp'
      by_cases hij : p'.sender.1 = i
      · -- its own entry: still there, so it was not cancelled
        rw [hij, hk] at hkj
        cases hkj
        rcases hn.owns hsound howns with howns' | hcancel
        · exact ⟨k', by rw [hij]; exact hset, howns'⟩
        · exact absurd hcancel hkept.ne_cancel
      · exact ⟨kj, by rw [getElem?_set_ne (Ne.symm hij)]; exact hkj, howns⟩

theorem complete {p : Pending} {command : RemotingCommand} (h : Accounted c)
    (hp : c.shared.pending[command.requestId]? = some p) :
    Accounted { c with
      shared := Op.apply c.shared (.cancel command.requestId)
      calls := deliver c.calls (.completed p.sender command) } := by
  obtain ⟨k, hk, howns⟩ := h.owned _ _ hp
  refine ⟨fun j kj hkj => ?_, fun requestId p' hp' => ?_⟩
  · obtain ⟨k₀, hk₀, rfl | ⟨rfl, _, rfl⟩⟩ := deliver_cases hkj
    · exact h.sound j kj hk₀
    · cases hk.symm.trans hk₀
      have hs := h.sound _ _ hk
      refine ⟨hs.invoking, hs.bare, hs.attempts, hs.renews, hs.writes, fun r hr => ?_, hs.result,
        hs.returned⟩
      cases hr
      exact howns.head
  · rcases pending_apply hp' with heq | ⟨p'', hp'', hkept⟩
    · cases heq
    · rw [hkept.sender]
      obtain ⟨kj, hkj, howns'⟩ := h.owned requestId p'' hp''
      -- one call has one latest attempt, and that entry has just gone
      have hne : p''.sender.1 ≠ p.sender.1 := by
        intro heq
        rw [heq, hk] at hkj
        cases hkj
        have hid := howns'.head.symm.trans howns.head
        cases hid
        exact hkept.ne_cancel rfl
      exact ⟨kj, (getElem?_deliver_ne hne).trans hkj, howns'⟩

theorem step {env : Env} {act : Act} {c' : Client} (h : Accounted c)
    (hs : c.step env act = some c') : Accounted c' := by
  cases onCalls_cases hs with
  | invoke => exact h.begin (newCall_sound nofun (fun _ => rfl) (fun _ => rfl))
  | write => exact h.begin (newCall_sound nofun nofun nofun)
  | call hk hn => exact h.next hk hn
  | completed hp => exact h.complete hp
  | rest hc hp =>
    constructor <;> rw [hc]
    · exact h.sound
    · exact fun requestId p hp' => h.owned requestId p (hp requestId p hp')

end Accounted

/-- **In every run.** -/
theorem accounted_of_reach {G : Client → Act → Prop} (h : Machine.Reach (Client.step env) G .new c) :
    Accounted c :=
  h.invariant accounted_new fun _ _ _ hacc _ hs => hacc.step hs

/-! ## 3. What an invocation returns and leaves -/

/-- A request id that is about to be registered has not been used by another call in progress. -/
def Phase.Fresh (others : List Call) : Phase → Prop
  | .register requestId => ∀ k ∈ others, k.phase ≠ .done → requestId ∉ k.used
  | _ => True

instance decidableFresh (others : List Call) (phase : Phase) : Decidable (phase.Fresh others) := by
  unfold Phase.Fresh
  split <;> infer_instance

/-- **Concurrent requests have different ids.** -/
def Distinct (c : Client) : Act → Prop
  | .call i _ => ∀ k ∈ c.calls[i]?, k.phase.Fresh (c.calls.eraseIdx i)
  | _ => True

instance decidableDistinct (c : Client) (act : Act) : Decidable (Distinct c act) := by
  unfold Distinct
  split <;> infer_instance

/-- An entry under a request id that a call in progress has used is that call's. -/
def Apart (c : Client) : Prop :=
  ∀ (i : Nat) (k : Call) (requestId : Int32) (p : Pending), c.calls[i]? = some k →
    k.phase ≠ .done → requestId ∈ k.used → c.shared.pending[requestId]? = some p → p.sender.1 = i

theorem apart_new : Apart .new := by
  intro i k requestId p hk
  simp [Client.new] at hk

theorem Next.used (h : Next reconnect s i k op k') :
    k'.used = k.used ∨ ∃ requestId, k.phase = .register requestId ∧
      k'.used = requestId :: k.used ∧ k'.phase = .check ∧
      op = .register requestId ⟨(i, k.used.length + 1), k.addr, none⟩ := by
  cases h.changes with
  | going | writing => exact .inl rfl
  | registering hp hop => exact .inr ⟨_, hp, rfl, rfl, hop⟩

theorem Next.not_done (h : Next reconnect s i k op k') : k.phase ≠ .done := by
  intro hd
  cases h <;> simp_all [Phase.Seeking]

namespace Apart

variable {c : Client}

theorem weaken {c' : Client} (h : Apart c)
    (hp : ∀ (requestId : Int32) (p : Pending), c'.shared.pending[requestId]? = some p →
      c.shared.pending[requestId]? = some p)
    (hc : ∀ (i : Nat) (k' : Call), c'.calls[i]? = some k' → k'.used = [] ∨
      ∃ k : Call, c.calls[i]? = some k ∧ k'.used = k.used ∧ k'.phase = k.phase) :
    Apart c' := by
  intro i k' requestId p hk' hd hu hp'
  rcases hc i k' hk' with hnil | ⟨k, hk, hused, hphase⟩
  · rw [hnil] at hu
    cases hu
  · rw [hused] at hu
    rw [hphase] at hd
    exact h i k requestId p hk hd hu (hp requestId p hp')

theorem begin (h : Apart c) (hk : k.used = []) :
    Apart { c with calls := c.calls ++ [k] } := by
  refine h.weaken (fun _ _ hp => hp) fun i k' hk' => ?_
  rcases Pool.of_getElem?_concat hk' with hk' | ⟨_, rfl⟩
  · exact .inr ⟨k', hk', rfl, rfl⟩
  · exact .inl hk

theorem complete {p : Pending} {command : RemotingCommand} (h : Apart c) :
    Apart { c with
      shared := Op.apply c.shared (.cancel command.requestId)
      calls := deliver c.calls (.completed p.sender command) } := by
  refine h.weaken (fun _ _ => pending_left nofun nofun) fun i k' hk' => ?_
  obtain ⟨k, hk, rfl | ⟨_, _, rfl⟩⟩ := deliver_cases hk'
  · exact .inr ⟨k', hk, rfl, rfl⟩
  · exact .inr ⟨k, hk, rfl, rfl⟩

theorem next {x : Input} (h : Apart c) (hk : c.calls[i]? = some k)
    (hn : Next reconnect c.shared i k op k') (hG : Distinct c (.call i x)) :
    Apart (c.moved op i k') := by
  intro j kj requestId p' hkj hd hu hp'
  rcases Pool.of_getElem?_set hkj with ⟨rfl, rfl⟩ | ⟨hji, hold⟩
  · rcases pending_apply hp' with rfl | ⟨p, hp, hkept⟩
    · exact hn.registers.2.1
    · rw [hkept.sender]
      rcases hn.used with hused | ⟨other, _, hused, _, rfl⟩
      · rw [hused] at hu
        exact h _ k requestId p hk hn.not_done hu hp
      · rw [hused] at hu
        rcases mem_cons.mp hu with rfl | hu
        · exact absurd rfl hkept.ne_register
        · exact h _ k requestId p hk hn.not_done hu hp
  · rcases pending_apply hp' with rfl | ⟨p, hp, hkept⟩
    · have hfresh := hG k hk
      rw [hn.registers.1] at hfresh
      have hother := mem_eraseIdx_iff_getElem?.mpr ⟨j, hji, hold⟩
      exact absurd hu (hfresh kj hother hd)
    · rw [hkept.sender]
      exact h j kj requestId p hold hd hu hp

theorem step {env : Env} {act : Act} {c' : Client} (h : Apart c) (hG : Distinct c act)
    (hs : c.step env act = some c') : Apart c' := by
  cases onCalls_cases hs with
  | invoke | write => exact h.begin rfl
  | call hk hn => exact h.next hk hn hG
  | completed hp => exact h.complete
  | rest hc hp => exact h.weaken hp fun i k hk => .inr ⟨k, hc ▸ hk, rfl, rfl⟩

end Apart

theorem returns_cases {act : Act} {c' : Client} (h : c.step env act = some c')
    (hk : c.calls[i]? = some k) (hk' : c'.calls[i]? = some k') (hd : k.phase ≠ .done)
    (hd' : k'.phase = .done) : ∃ op, c'.shared = op.apply c.shared ∧
      Next env.reconnect c.shared i k op k' := by
  have hsame : c'.calls[i]? = c.calls[i]? → False := by
    intro heq
    rw [heq, hk] at hk'
    cases hk'
    exact hd hd'
  have hlt := (List.getElem?_eq_some_iff.mp hk).1
  cases onCalls_cases h with
  | invoke | write => exact (hsame (getElem?_append_left hlt)).elim
  | @call j x kj k'' op hkj hn =>
    rcases Pool.of_getElem?_set hk' with ⟨rfl, rfl⟩ | ⟨hne, hold⟩
    · cases hk.symm.trans hkj
      exact ⟨op, rfl, hn⟩
    · exact (hsame (hk'.trans hold.symm)).elim
  | completed hp =>
    obtain ⟨k₀, hk₀, heq⟩ := deliver_cases hk'
    cases hk.symm.trans hk₀
    rcases heq with rfl | ⟨_, _, rfl⟩
    · exact absurd hd' hd
    · exact absurd hd' hd
  | rest hc hp => exact (hsame (by rw [hc])).elim

/-- **The contract of an invocation**, in every run in which concurrent requests have different
ids: it writes at most two frames; it returns a response only to its last attempt, and not
`GO_AWAY`; and in the step in which it returns, whatever it returns, nothing stays in flight under
any request id that it used. -/
theorem invocation_contract {env : Env} {c : Client}
    (h : Machine.Reach (Client.step env) Distinct .new c) {i : Nat} {k : Call}
    (hk : c.calls[i]? = some k) (hi : k.invoke = true) :
    k.written ≤ 2 ∧
    (∀ r, k.outcome = some (.response r) →
      k.used.head? = some r.requestId ∧ r.code ≠ Call.goAwayCode) ∧
    ∀ act c' k', c.step env act = some c' → c'.calls[i]? = some k' → k.outcome = none →
      k'.outcome.isSome = true → ∀ requestId ∈ k'.used, c'.shared.pending[requestId]? = none := by
  have hacc := accounted_of_reach h
  have hsound := hacc.sound i k hk
  refine ⟨?_, hsound.result, ?_⟩
  · have hwrites := hsound.writes hi
    have hattempts := hsound.attempts
    omega
  · intro act c' k' hs hk' hnone hsome requestId hu
    have hapart : Apart c := h.invariant apart_new fun _ _ _ ha hG hst => ha.step hG hst
    have hacc' := hacc.step hs
    have hd : k.phase ≠ .done := by
      intro hdone
      have hret := hsound.returned.mpr hdone
      rw [hnone] at hret
      cases hret
    have hd' : k'.phase = .done := (hacc'.sound i k' hk').returned.mp hsome
    obtain ⟨op, hshared, hn⟩ := returns_cases hs hk hk' hd hd'
    -- an entry that is still there is the call's own, and a call that has returned owns none
    by_contra hne
    obtain ⟨p', hp'⟩ := Option.ne_none_iff_exists'.mp hne
    have hown := hacc'.owned requestId p' hp'
    rw [hshared] at hp'
    have hsender : p'.sender.1 = i := by
      rcases pending_apply hp' with rfl | ⟨p, hp, hkept⟩
      · exact hn.registers.2.1
      · rw [hkept.sender]
        rcases hn.used with hused | ⟨_, _, _, hcheck, _⟩
        · rw [hused] at hu
          exact hapart i k requestId p hk hd hu hp
        · cases hd'.symm.trans hcheck
    obtain ⟨ki, hki, howns⟩ := hown
    rw [hsender, hk'] at hki
    cases hki
    have hholding := howns.holding
    rwa [hd'] at hholding

end RocketMQ.RemotingClient

namespace RocketMQ.Script

open RocketMQ.RemotingClient

/-- A processor for requests with code 40, and another connection after `GO_AWAY`. -/
def remotingEnv : RemotingClient.Env := ⟨noFloats, true, fun code => code == 40, true⟩

def plainCommand (requestId code flag : Int32) : RemotingCommand :=
  { code
    language := 12
    version := 515
    requestId
    flag
    remark := none
    serializeType := serializeRocketMq
    body := none
    extFields := ⟨[]⟩
    customHeader := none }

def plainFrame (requestId code flag : Int32) : List UInt8 :=
  (plainCommand requestId code flag).encode noFloats

/-- A call connects, writes and waits; `GO_AWAY` makes it connect and write again, under the id 8. -/
def toldToGoAway : List Act :=
  .invoke "b" 7 3000 :: List.replicate 9 (.call 0 .go)
    ++ [.receive 0 (plainFrame 7 1500 1)] ++ List.replicate 4 (.call 0 .go)
    ++ [.call 0 (.retry 8 10)] ++ List.replicate 9 (.call 0 .go)

/-- The second attempt is answered. -/
def answeredTwice : Client :=
  Machine.after (Client.step remotingEnv) .new (toldToGoAway ++ [.receive 1 (plainFrame 8 0 1)])

/-- The call that is about to return. -/
def answeredCall : RemotingClient.Call :=
  ⟨true, "b", 2990, .wait 1, [8, 7], some (plainCommand 8 0 1), 2, some 1, none⟩

end RocketMQ.Script

namespace RocketMQ.RemotingClient

open Script

theorem invocation_contract_retried : answeredCall.written ≤ 2 ∧
    (answeredTwice.step remotingEnv (.call 0 .go)).isSome = true ∧
    ∀ c', answeredTwice.step remotingEnv (.call 0 .go) = some c' →
      ∀ k', c'.calls[0]? = some k' → k'.outcome = some (.response (plainCommand 8 0 1)) →
        ∀ requestId ∈ k'.used, c'.shared.pending[requestId]? = none := by
  have hmeets : Machine.Meets (Client.step remotingEnv) Distinct .new
      (toldToGoAway ++ [.receive 1 (plainFrame 8 0 1)]) := by
    decide +kernel
  have hk : answeredTwice.calls[0]? = some answeredCall := by decide +kernel
  have hcontract := invocation_contract hmeets.reach_after hk rfl
  refine ⟨hcontract.1, by decide +kernel, fun c' hs k' hk' hout => ?_⟩
  exact hcontract.2.2 _ c' k' hs hk' rfl (by rw [hout]; rfl)

end RocketMQ.RemotingClient
