/-
  File:      RocketMQ/Producer/RequestReply.lean
  Subject:   Requests that wait for a reply, and who finishes them.

  After `client/request_reply.rs`. A party goes on by one section under a lock, or one access of an
  atomic, at a time; in between every other party may go on. A future is named by its position.

  * `Leaves`: a future leaves the table once;
  * `Fires`: whoever swaps its flag, and nobody else, calls its callback;
  * `request_completes_once`: **no callback fires twice, and what a reply claimed never times out**.
-/
import RocketMQ.Lib.Machine
import RocketMQ.Lib.Pool
import RocketMQ.Lib.Table
import RocketMQ.Message

namespace RocketMQ

open List

/-! ## 1. The futures and their holder -/

/-- Why a request failed: some error, or the one that `scan_expired_request` sets. -/
inductive RequestCause where
  | failed (error : String)
  | expired
  deriving DecidableEq

/-- `RequestResponseFuture`, without what wakes a synchronous caller. -/
structure RequestResponseFuture where
  correlationId : String
  timeoutMillis : Int
  beginTimestamp : Int
  hasCallback : Bool
  sendRequestOk : Bool := true
  callbackFired : Bool := false
  responseMsg : Option MessageExt := none
  cause : Option RequestCause := none

/-- `is_timeout`. -/
def RequestResponseFuture.isTimeout (x : RequestResponseFuture) (now : Int) : Bool :=
  now - x.beginTimestamp > x.timeoutMillis

/-- What a callback is called with. -/
inductive RequestOutcome where
  | onSuccess (response : Option MessageExt)
  | onException (cause : RequestCause)

/-- What a party has still to do. -/
inductive RequestSection where
  /-- `put_response_message` -/
  | respond (f : Nat) (msg : MessageExt)
  /-- `set_failed`, then the cause -/
  | unsent (f : Nat)
  | setCause (f : Nat) (cause : RequestCause)
  /-- `execute_request_callback`: the swap, then the cause, then the flag, then the response -/
  | execute (f : Nat)
  | takeCause (f : Nat)
  | finish (f : Nat) (cause : Option RequestCause)
  | succeed (f : Nat)

namespace RequestSection

/-- The section is on its way to the callback of the future. -/
def fires (f : Nat) : RequestSection → Nat
  | .takeCause g | .finish g _ | .succeed g => if g = f then 1 else 0
  | _ => 0

/-- The section may report the future as timed out. -/
def reports (f : Nat) : RequestSection → Prop
  | .setCause g cause => g = f ∧ cause = .expired
  | .finish g cause => g = f ∧ cause = some .expired
  | _ => False

def toFire (f : Nat) (party : List RequestSection) : Nat := (party.map (·.fires f)).sum

end RequestSection

/-- `RequestFutureHolder`, with everybody who works on it and what has happened. -/
structure RequestFutureHolder where
  futures : List RequestResponseFuture := []
  requestFutureTable : Std.ExtTreeMap String Nat := ∅
  parties : List (List RequestSection) := []
  /-- the futures that a reply has claimed -/
  claimed : List Nat := []
  /-- the futures that a scan has taken out -/
  expired : List Nat := []
  calls : List (Nat × RequestOutcome) := []

inductive RequestAct where
  | request (correlationId : String) (timeoutMillis beginTimestamp : Int) (hasCallback : Bool)
  | reply (correlationId : Option String) (msg : MessageExt)
  | scan (now : String → Int)
  | sendFailed (f : Nat) (error : String)
  | remove (correlationId : String)
  | run (i : Nat)

namespace RequestFutureHolder

def new : RequestFutureHolder := {}

variable (s : RequestFutureHolder)

def update (f : Nat) (g : RequestResponseFuture → RequestResponseFuture) : RequestFutureHolder :=
  { s with futures := s.futures.modify f g }

def call (f : Nat) (outcome : RequestOutcome) : RequestFutureHolder :=
  { s with calls := s.calls ++ [(f, outcome)] }

/-- One section: the state it leaves, and what the party does next. -/
def runSection :
    RequestSection → RequestFutureHolder × List RequestSection
  | .respond f msg => (s.update f ({ · with responseMsg := some msg }), [])
  | .unsent f => (s.update f ({ · with sendRequestOk := false }), [])
  | .setCause f cause => (s.update f ({ · with cause := some cause }), [])
  | .execute f =>
    if s.futures[f]?.any fun x => x.hasCallback && !x.callbackFired then
      (s.update f ({ · with callbackFired := true }), [.takeCause f])
    else (s, [])
  | .takeCause f =>
    (s.update f ({ · with cause := none }), [.finish f (s.futures[f]?.bind (·.cause))])
  | .finish f (some cause) => (s.call f (.onException cause), [])
  | .finish f none =>
    match s.futures[f]? with
    | none => (s, [])
    | some x =>
      if x.sendRequestOk then (s, [.succeed f])
      else (s.call f (.onException
        (.failed ("request failed, correlationId=" ++ x.correlationId))), [])
  | .succeed f => (s.call f (.onSuccess (s.futures[f]?.bind (·.responseMsg))), [])

/-- The entries that a scan finds expired. -/
def expiring (now : String → Int) : List (String × Nat) :=
  s.requestFutureTable.toList.filter fun e => s.futures[e.2]?.any (·.isTimeout (now e.1))

def step : RequestAct → Option RequestFutureHolder
  | .request correlationId timeoutMillis beginTimestamp hasCallback =>
    some { s with
      futures := s.futures ++ [{ correlationId, timeoutMillis, beginTimestamp, hasCallback }]
      requestFutureTable := s.requestFutureTable.insert correlationId s.futures.length }
  | .reply correlationId msg => do
    let correlationId ← correlationId
    let f ← s.requestFutureTable[correlationId]?
    some { s with
      requestFutureTable := s.requestFutureTable.erase correlationId
      claimed := f :: s.claimed
      parties := s.parties ++ [[.respond f msg, .execute f]] }
  | .scan now =>
    -- a hash map has no order: what has expired is finished side by side
    some { s with
      requestFutureTable := Table.eraseAll s.requestFutureTable ((s.expiring now).map (·.1))
      expired := (s.expiring now).map (·.2) ++ s.expired
      parties := s.parties ++ (s.expiring now).map fun e =>
        [.setCause e.2 .expired, .execute e.2] }
  | .sendFailed f error =>
    some { s with parties := s.parties ++ [[.unsent f, .setCause f (.failed error)]] }
  | .remove correlationId =>
    some { s with requestFutureTable := s.requestFutureTable.erase correlationId }
  | .run i => do
    match ← s.parties[i]? with
    | [] => none
    | x :: rest =>
      let (s', next) := s.runSection x
      some { s' with parties := s.parties.set i (next ++ rest) }

/-! ## 2. Leaving the table -/

/-- **A future leaves the table once.** -/
structure Leaves (s : RequestFutureHolder) : Prop where
  one : ∀ (key key' : String) (f : Nat), s.requestFutureTable[key]? = some f →
    s.requestFutureTable[key']? = some f → key = key'
  inside : ∀ (key : String) (f : Nat), s.requestFutureTable[key]? = some f →
    f < s.futures.length ∧ f ∉ s.claimed ∧ f ∉ s.expired
  made : ∀ f, f ∈ s.claimed ∨ f ∈ s.expired → f < s.futures.length
  apart : ∀ f ∈ s.claimed, f ∉ s.expired

variable {s t : RequestFutureHolder} {f i : Nat} {x : RequestSection} {act : RequestAct}

theorem Leaves.takeOut (h : Leaves s) (keys : List String)
    (hl : t.futures.length = s.futures.length)
    (ht : t.requestFutureTable = Table.eraseAll s.requestFutureTable keys)
    (hc : ∀ f ∈ t.claimed, f ∈ s.claimed ∨ ∃ key ∈ keys, s.requestFutureTable[key]? = some f)
    (he : ∀ f ∈ t.expired, f ∈ s.expired ∨ ∃ key ∈ keys, s.requestFutureTable[key]? = some f)
    (hone : t.claimed = s.claimed ∨ t.expired = s.expired) : Leaves t := by
  have hout : ∀ f, (∃ key ∈ keys, s.requestFutureTable[key]? = some f) →
      f < s.futures.length ∧ f ∉ s.claimed ∧ f ∉ s.expired := by
    rintro f ⟨key, _, hk⟩
    exact h.inside key f hk
  have hold : ∀ (key : String) f, t.requestFutureTable[key]? = some f →
      s.requestFutureTable[key]? = some f ∧ ¬ ∃ key ∈ keys, s.requestFutureTable[key]? = some f := by
    intro key f hk
    rw [ht, Table.get_eraseAll] at hk
    split at hk
    · cases hk
    · rename_i hkey
      refine ⟨hk, ?_⟩
      rintro ⟨key', hmem, hk'⟩
      exact hkey (h.one key key' f hk hk' ▸ hmem)
  constructor
  case one => exact fun a b f ha hb => h.one a b f (hold a f ha).1 (hold b f hb).1
  case inside =>
    intro key f hk
    obtain ⟨hk, hnot⟩ := hold key f hk
    obtain ⟨hlt, hnc, hne⟩ := h.inside key f hk
    exact ⟨hl ▸ hlt, fun hf => (hc f hf).elim hnc hnot, fun hf => (he f hf).elim hne hnot⟩
  case made =>
    intro f hf
    rw [hl]
    rcases hf.imp (hc f) (he f) with (hf | hf) | (hf | hf)
    · exact h.made f (.inl hf)
    · exact (hout f hf).1
    · exact h.made f (.inr hf)
    · exact (hout f hf).1
  case apart =>
    intro f hfc hfe
    rcases hone with heq | heq
    · rw [heq] at hfc
      exact (he f hfe).elim (h.apart f hfc) fun hf => (hout f hf).2.1 hfc
    · rw [heq] at hfe
      exact (hc f hfc).elim (fun hf => h.apart f hf hfe) fun hf => (hout f hf).2.2 hfe

theorem runSection_frame (s : RequestFutureHolder) (x : RequestSection) :
    (s.runSection x).1.requestFutureTable = s.requestFutureTable ∧
      (s.runSection x).1.claimed = s.claimed ∧ (s.runSection x).1.expired = s.expired ∧
      (s.runSection x).1.futures.length = s.futures.length := by
  fun_cases runSection s x <;> simp [update, call]

theorem run_cases (hs : s.step (.run i) = some t) : ∃ x rest, s.parties[i]? = some (x :: rest) ∧
    t = { (s.runSection x).1 with parties := s.parties.set i ((s.runSection x).2 ++ rest) } := by
  simp only [step, Option.bind_eq_bind, Option.bind_eq_some_iff] at hs
  obtain ⟨party, hi, hs⟩ := hs
  cases party with
  | nil => cases hs
  | cons x rest =>
    cases hs
    exact ⟨x, rest, hi, rfl⟩

theorem Leaves.step (h : Leaves s) (hs : s.step act = some t) : Leaves t := by
  cases act with
  | request key timeoutMillis beginTimestamp hasCallback =>
    cases hs
    have hnew : ∀ key, s.requestFutureTable[key]? ≠ some s.futures.length :=
      fun key hk => lt_irrefl _ (h.inside key _ hk).1
    refine ⟨fun a b f ha hb => ?_, fun a f ha => ?_, fun f hf => ?_, h.apart⟩
    · rcases Table.of_get_insert ha with ⟨hka, rfl⟩ | ⟨_, ha⟩ <;>
        rcases Table.of_get_insert hb with ⟨hkb, hf⟩ | ⟨_, hb⟩
      · exact hka.trans hkb.symm
      · exact absurd hb (hnew b)
      · exact absurd (hf ▸ ha) (hnew a)
      · exact h.one a b f ha hb
    · rw [length_append]
      rcases Table.of_get_insert ha with ⟨_, rfl⟩ | ⟨_, ha⟩
      · exact ⟨Nat.lt_succ_self _, fun hc => lt_irrefl _ (h.made _ (.inl hc)),
          fun he => lt_irrefl _ (h.made _ (.inr he))⟩
      · exact ⟨Nat.lt_succ_of_lt (h.inside a f ha).1, (h.inside a f ha).2⟩
    · rw [length_append]
      exact Nat.lt_succ_of_lt (h.made f hf)
  | reply correlationId msg =>
    simp only [RequestFutureHolder.step, Option.bind_eq_bind, Option.bind_eq_some_iff] at hs
    obtain ⟨key, _, f, hf, hs⟩ := hs
    cases hs
    refine h.takeOut [key] rfl rfl (fun f' hf' => ?_) (fun _ => .inl) (.inr rfl)
    rcases mem_cons.mp hf' with rfl | hf'
    · exact .inr ⟨key, mem_singleton_self _, hf⟩
    · exact .inl hf'
  | scan now =>
    cases hs
    refine h.takeOut _ rfl rfl (fun _ => .inl) (fun f hf => ?_) (.inl rfl)
    rcases mem_append.mp hf with hf | hf
    · obtain ⟨e, he, rfl⟩ := mem_map.mp hf
      exact .inr ⟨e.1, mem_map_of_mem he,
        Std.ExtTreeMap.mem_toList_iff_getElem?_eq_some.mp (mem_filter.mp he).1⟩
    · exact .inl hf
  | remove key =>
    cases hs
    exact h.takeOut [key] rfl rfl (fun _ => .inl) (fun _ => .inl) (.inl rfl)
  | sendFailed =>
    cases hs
    exact h.takeOut [] rfl rfl (fun _ => .inl) (fun _ => .inl) (.inl rfl)
  | run i =>
    obtain ⟨x, rest, _, rfl⟩ := run_cases hs
    obtain ⟨ht, hc, he, hl⟩ := runSection_frame s x
    exact h.takeOut [] hl ht (fun _ hf => .inl (hc ▸ hf)) (fun _ hf => .inl (he ▸ hf)) (.inl hc)

/-! ## 3. Firing -/

open RequestSection (toFire)

def fired (s : RequestFutureHolder) (f : Nat) : Nat :=
  if s.futures[f]?.any (·.callbackFired) then 1 else 0

def cause (s : RequestFutureHolder) (f : Nat) : Option RequestCause := s.futures[f]?.bind (·.cause)

/-- **A callback is called by whoever has swapped its flag**, and a timeout that is reported is one
of the scan. -/
structure Fires (s : RequestFutureHolder) : Prop where
  once : ∀ f, (s.calls.map (·.1)).count f + (s.parties.map (toFire f)).sum ≤ s.fired f
  cause : ∀ f, s.cause f = some .expired → f ∈ s.expired
  reports : ∀ f, ∀ p ∈ s.parties, ∀ x ∈ p, x.reports f → f ∈ s.expired
  calls : ∀ f, (f, .onException .expired) ∈ s.calls → f ∈ s.expired

/-- What one section does to all this. -/
theorem runSection_spec (s : RequestFutureHolder) (x : RequestSection) (f : Nat) :
    ((s.runSection x).1.calls.map (·.1)).count f + toFire f (s.runSection x).2 + s.fired f
      ≤ (s.calls.map (·.1)).count f + x.fires f + (s.runSection x).1.fired f ∧
    ((s.runSection x).1.cause f = some .expired → s.cause f = some .expired ∨ x.reports f) ∧
    (∀ y ∈ (s.runSection x).2, y.reports f → s.cause f = some .expired) ∧
    ((f, .onException .expired) ∈ (s.runSection x).1.calls →
      (f, .onException .expired) ∈ s.calls ∨ x.reports f) := by
  fun_cases runSection s x
  all_goals
    simp only [call, update, fired, cause, toFire, RequestSection.fires, RequestSection.reports,
      map_append, map_nil]
    grind

theorem Fires.run {rest : List RequestSection} (h : Fires s)
    (hi : s.parties[i]? = some (x :: rest)) :
    Fires { (s.runSection x).1 with parties := s.parties.set i ((s.runSection x).2 ++ rest) } := by
  have hmem := mem_of_getElem? hi
  have hx := fun f => h.reports f _ hmem x mem_cons_self
  constructor <;> intro f <;> obtain ⟨hbal, hcause, hnext, hcalls⟩ := runSection_spec s x f
  case once =>
    have hsum := Pool.sum_set (x := (s.runSection x).2 ++ rest) (toFire f) hi
    have hold := h.once f
    simp only [toFire, map_append, sum_append, map_cons, sum_cons] at *
    show _ ≤ (s.runSection x).1.fired f
    omega
  case cause =>
    intro hf
    rw [(runSection_frame s x).2.2.1]
    exact (hcause hf).elim (h.cause f) (hx f)
  case reports =>
    intro p hp y hy hf
    rw [(runSection_frame s x).2.2.1]
    rcases mem_or_eq_of_mem_set hp with hp | rfl
    · exact h.reports f p hp y hy hf
    · rcases mem_append.mp hy with hy | hy
      · exact h.cause f (hnext y hy hf)
      · exact h.reports f _ hmem y (mem_cons_of_mem _ hy) hf
  case calls =>
    intro hf
    rw [(runSection_frame s x).2.2.1]
    exact (hcalls hf).elim (h.calls f) (hx f)

/-- Somebody comes who is not on the way to a callback. -/
theorem Fires.come (h : Fires s) (ps : List (List RequestSection))
    (hp : t.parties = s.parties ++ ps) (hc : t.calls = s.calls)
    (hf : ∀ f, t.fired f = s.fired f ∧ t.cause f = s.cause f) (he : ∀ f ∈ s.expired, f ∈ t.expired)
    (hps : ∀ p ∈ ps, ∀ x ∈ p, ∀ f, x.fires f = 0 ∧ (x.reports f → f ∈ t.expired)) : Fires t := by
  constructor <;> intro f
  case once =>
    have hzero : (ps.map (toFire f)).sum = 0 := by
      refine sum_eq_zero fun n hn => ?_
      obtain ⟨p, hmem, rfl⟩ := mem_map.mp hn
      refine sum_eq_zero fun n hn => ?_
      obtain ⟨x, hx, rfl⟩ := mem_map.mp hn
      exact (hps p hmem x hx f).1
    rw [hc, hp, (hf f).1, map_append, sum_append, hzero]
    exact h.once f
  case cause =>
    rw [(hf f).2]
    exact fun hcause => he f (h.cause f hcause)
  case reports =>
    intro p hmem x hx hrep
    rw [hp] at hmem
    rcases mem_append.mp hmem with hmem | hmem
    · exact he f (h.reports f p hmem x hx hrep)
    · exact (hps p hmem x hx f).2 hrep
  case calls =>
    rw [hc]
    exact fun hmem => he f (h.calls f hmem)

theorem Fires.step (h : Fires s) (hs : s.step act = some t) : Fires t := by
  cases act with
  | request key timeoutMillis beginTimestamp hasCallback =>
    cases hs
    refine h.come [] (append_nil _).symm rfl (fun f => ?_) (fun _ => id) (by simp)
    unfold fired RequestFutureHolder.cause
    grind
  | reply correlationId msg =>
    simp only [RequestFutureHolder.step, Option.bind_eq_bind, Option.bind_eq_some_iff] at hs
    obtain ⟨key, _, f, hf, hs⟩ := hs
    cases hs
    refine h.come _ rfl rfl (fun f => ⟨rfl, rfl⟩) (fun _ => id) ?_
    simp [RequestSection.fires, RequestSection.reports]
  | scan now =>
    cases hs
    refine h.come _ rfl rfl (fun f => ⟨rfl, rfl⟩) (fun _ => mem_append_right _) ?_
    intro p hp x hx f
    obtain ⟨e, he, rfl⟩ := mem_map.mp hp
    have hin := mem_append_left s.expired (mem_map_of_mem (f := (·.2)) he)
    rcases mem_pair.mp hx with rfl | rfl
    · exact ⟨rfl, fun hf => hf.1 ▸ hin⟩
    · exact ⟨rfl, False.elim⟩
  | sendFailed f error =>
    cases hs
    refine h.come _ rfl rfl (fun f => ⟨rfl, rfl⟩) (fun _ => id) ?_
    simp [RequestSection.fires, RequestSection.reports]
  | remove key =>
    cases hs
    exact ⟨h.once, h.cause, h.reports, h.calls⟩
  | run i =>
    obtain ⟨x, rest, hi, rfl⟩ := run_cases hs
    exact h.run hi

/-- **Requests are completed once**: whatever replies, scans, failures and callers do, a callback
is called at most once; and a request that a reply has claimed is not one that a scan has taken
out, and is not reported as timed out by one. -/
theorem request_completes_once (h : Machine.Reach step (fun _ _ => True) new s) (f : Nat) :
    (s.calls.map (·.1)).count f ≤ 1 ∧
    (f ∈ s.claimed → f ∉ s.expired ∧ (f, .onException .expired) ∉ s.calls) := by
  have hleaves : Leaves s :=
    h.invariant (by constructor <;> simp [new]) fun _ _ _ hi _ hs => hi.step hs
  have hfires : Fires s :=
    h.invariant (by constructor <;> simp [new, cause]) fun _ _ _ hi _ hs => hi.step hs
  refine ⟨?_, fun hc => ⟨hleaves.apart f hc, fun hf => hleaves.apart f hc (hfires.calls f hf)⟩⟩
  have hle := hfires.once f
  have hone : s.fired f ≤ 1 := by
    unfold fired
    split <;> decide
  omega

end RequestFutureHolder

namespace Script

/-- A reply claims the request, a scan finds another one expired, and both callbacks are called. -/
def replied : List RequestAct :=
  [.request "a" 3000 0 true, .request "b" 10 0 true, .reply (some "a") default, .scan fun _ => 11]
    ++ List.replicate 5 (.run 0) ++ List.replicate 4 (.run 1)

end Script

namespace RequestFutureHolder

open Script

theorem request_completes_once_replied :
    0 ∈ (Machine.after step new replied).claimed ∧
    (Machine.after step new replied).calls.map (·.1) = [0, 1] ∧
    0 ∉ (Machine.after step new replied).expired := by
  have hmeets : Machine.Meets step (fun _ _ => True) new replied := by decide +kernel
  have hc : 0 ∈ (Machine.after step new replied).claimed := by decide +kernel
  exact ⟨hc, by decide +kernel, ((request_completes_once hmeets.reach_after 0).2 hc).1⟩

end RequestFutureHolder

end RocketMQ
