/-
  File:      RocketMQ/Rebalance/ConsistentHash.lean
  Subject:   The consistent hash ring.

  After `common/consistent_hash.rs`. Every node is placed on the ring as a number of virtual nodes; a
  key goes to the first one at or behind its hash, and behind the last one to the first of all. The
  hash function is a parameter, as it is in the source (MD5 unless another one is given).

  * `routeNode_mem`: a ring with one virtual node **routes every key to one of its nodes**;
  * `routing_stable`: what nodes that come or go change, while no two virtual nodes share a hash.
-/
import RocketMQ.Lib.Table

namespace RocketMQ

open List Std

/-! ## 1. The router -/

/-- `VirtualNode`: the key of the node, and which of its replicas it is. -/
structure VirtualNode where
  physical : String
  replicaIndex : Int

/-- `VirtualNode::key`. -/
def VirtualNode.key (v : VirtualNode) : String := v.physical ++ "-" ++ toString v.replicaIndex

structure ConsistentHashRouter where
  ring : ExtTreeMap Int VirtualNode
  hashFunction : String → Int

namespace ConsistentHashRouter

variable (r : ConsistentHashRouter)

def getExistingReplicas (key : String) : Int :=
  (r.ring.toList.filter fun e => e.2.physical == key).length

/-- One virtual node of a node is placed. -/
def place (hashFunction : String → Int) (key : String) (ring : ExtTreeMap Int VirtualNode)
    (replicaIndex : Int) : ExtTreeMap Int VirtualNode :=
  ring.insert (hashFunction (VirtualNode.key ⟨key, replicaIndex⟩)) ⟨key, replicaIndex⟩

def addNode (key : String) (vNodeCount : Int) : Except String ConsistentHashRouter :=
  if vNodeCount < 0 then .error ("illegal virtual node counts :" ++ toString vNodeCount)
  else
    let existingReplicas := r.getExistingReplicas key
    .ok { r with
      ring := (List.range vNodeCount.toNat).foldl
        (fun ring (i : Nat) => place r.hashFunction key ring (i + existingReplicas)) r.ring }

def withHashFunction (keys : List String) (vNodeCount : Int) (hashFunction : String → Int) :
    Except String ConsistentHashRouter :=
  keys.foldlM (fun r key => r.addNode key vNodeCount) ⟨∅, hashFunction⟩

def removeNode (key : String) : ConsistentHashRouter :=
  let dead := (r.ring.toList.filter fun e => e.2.physical == key).map (·.1)
  { r with ring := dead.foldl (fun ring hash => ring.erase hash) r.ring }

/-- `route_node`: the key of the node. -/
def routeNode (objectKey : String) : Option String :=
  let entries := r.ring.toList
  match entries.find? fun e => decide (r.hashFunction objectKey ≤ e.1) with
  | some e => some e.2.physical
  | none => entries.head?.map (·.2.physical)

/-! ## 2. What is on the ring -/

/-- The ring holds virtual nodes of these nodes only, and is not empty once there is one. -/
structure Holds (r : ConsistentHashRouter) (keys : List String) : Prop where
  nodes : ∀ e ∈ r.ring.toList, e.2.physical ∈ keys
  filled : keys ≠ [] → r.ring.toList ≠ []

section

variable {hashFunction : String → Int} {key : String} {keys : List String}
  {ring : ExtTreeMap Int VirtualNode} {r r' : ConsistentHashRouter}

theorem mem_place {replicaIndex : Int} {e : Int × VirtualNode}
    (h : e ∈ (place hashFunction key ring replicaIndex).toList) :
    e.2.physical = key ∨ e ∈ ring.toList := by
  rw [ExtTreeMap.mem_toList_iff_getElem?_eq_some, place,
    ExtTreeMap.getElem?_insert] at h
  split at h
  · exact .inl (congrArg VirtualNode.physical (Option.some.inj h)).symm
  · exact .inr (ExtTreeMap.mem_toList_iff_getElem?_eq_some.mpr h)

theorem place_ne_nil (replicaIndex : Int) :
    (place hashFunction key ring replicaIndex).toList ≠ [] := by
  refine ne_nil_of_mem (a := (hashFunction (VirtualNode.key ⟨key, replicaIndex⟩),
    ⟨key, replicaIndex⟩)) ?_
  rw [ExtTreeMap.mem_toList_iff_getElem?_eq_some, place,
    ExtTreeMap.getElem?_insert_self]

variable {vNodeCount : Int}

theorem Holds.addNode (hcount : 1 ≤ vNodeCount) (h : Holds r keys)
    (hadd : r.addNode key vNodeCount = .ok r') : Holds r' (keys ++ [key]) := by
  unfold ConsistentHashRouter.addNode at hadd
  rw [if_neg (by omega)] at hadd
  cases hadd
  have hnodes : ∀ e ∈ ((List.range vNodeCount.toNat).foldl (fun ring (i : Nat) =>
      place r.hashFunction key ring (i + r.getExistingReplicas key)) r.ring).toList,
      e.2.physical ∈ keys ++ [key] := by
    refine List.foldlRecOn (motive := fun ring : ExtTreeMap Int VirtualNode =>
      ∀ e ∈ ring.toList, e.2.physical ∈ keys ++ [key]) _ _ ?_ ?_
    · exact fun e he => mem_append_left _ (h.nodes e he)
    · intro ring hring i _ e he
      rcases mem_place he with hkey | he
      · exact mem_append_right _ (mem_singleton.mpr hkey)
      · exact hring e he
  refine ⟨hnodes, fun _ => ?_⟩
  -- the last one that is placed is there
  obtain ⟨n, hn⟩ : ∃ n, vNodeCount.toNat = n + 1 := ⟨vNodeCount.toNat - 1, by omega⟩
  rw [hn, range_succ, foldl_append]
  exact place_ne_nil _

theorem addNode_ok (hcount : 1 ≤ vNodeCount) (r : ConsistentHashRouter)
    (key : String) : ∃ r', r.addNode key vNodeCount = .ok r' ∧ r'.hashFunction = r.hashFunction := by
  unfold ConsistentHashRouter.addNode
  rw [if_neg (by omega)]
  exact ⟨_, rfl, rfl⟩

/-- **The ring of these nodes.** -/
theorem withHashFunction_holds (hcount : 1 ≤ vNodeCount) (keys : List String)
    (hashFunction : String → Int) :
    ∃ r, withHashFunction keys vNodeCount hashFunction = .ok r ∧ Holds r keys := by
  suffices hgen : ∀ r done, Holds r done →
      ∃ r', keys.foldlM (fun r key => r.addNode key vNodeCount) r = .ok r' ∧
        Holds r' (done ++ keys) by
    refine hgen ⟨∅, hashFunction⟩ [] ⟨fun e he => ?_, fun h => absurd rfl h⟩
    cases he
  induction keys with
  | nil => exact fun r done h => ⟨r, rfl, by simpa using h⟩
  | cons key keys ih =>
    intro r done h
    obtain ⟨r₁, hadd, _⟩ := addNode_ok hcount r key
    obtain ⟨r', hrest, hholds⟩ := ih r₁ (done ++ [key]) (h.addNode hcount hadd)
    refine ⟨r', ?_, by simpa using hholds⟩
    rw [foldlM_cons, hadd]
    exact hrest

/-- **Routing finds the first entry** at or behind the hash, and behind the last one the first of
all. -/
theorem routeNode_first (hne : r.ring.toList ≠ []) (x : String) :
    ∃ e ∈ r.ring.toList, r.routeNode x = some e.2.physical ∧ ∀ d ∈ r.ring.toList,
      (r.hashFunction x ≤ e.1 ∧ (r.hashFunction x ≤ d.1 → e.1 ≤ d.1)) ∨
      (e.1 < r.hashFunction x ∧ d.1 < r.hashFunction x ∧ e.1 ≤ d.1) := by
  have hsorted : r.ring.toList.Pairwise fun a b => a.1 < b.1 :=
    ExtTreeMap.ordered_keys_toList.imp compare_lt_iff_lt.mp
  unfold routeNode
  cases hfind : r.ring.toList.find? fun e => decide (r.hashFunction x ≤ e.1) with
  | some e =>
    obtain ⟨hx, front, back, hlist, hfront⟩ := find?_eq_some_iff_append.mp hfind
    refine ⟨e, mem_of_find?_eq_some hfind, by simp only [hfind], fun d hd => ?_⟩
    refine .inl ⟨of_decide_eq_true hx, fun hxd => ?_⟩
    rw [hlist] at hd hsorted
    rcases mem_append.mp hd with hd | hd
    · simpa [hxd] using hfront _ hd
    · rcases mem_cons.mp hd with rfl | hd
      · exact le_rfl
      · exact ((pairwise_cons.mp (pairwise_append.mp hsorted).2.1).1 _ hd).le
  | none =>
    have hlt : ∀ e ∈ r.ring.toList, e.1 < r.hashFunction x := by
      simpa using find?_eq_none.mp hfind
    obtain ⟨e, es, hlist⟩ := exists_cons_of_ne_nil hne
    have he : e ∈ r.ring.toList := by rw [hlist]; exact mem_cons_self
    refine ⟨e, he, ?_, fun d hd => .inr ⟨hlt e he, hlt d hd, ?_⟩⟩
    · simp only [hfind]
      simp [hlist]
    rw [hlist] at hd hsorted
    rcases mem_cons.mp hd with rfl | hd
    · exact le_rfl
    · exact ((pairwise_cons.mp hsorted).1 _ hd).le

/-- **Every key is routed to a node.** -/
theorem routeNode_mem (h : Holds r keys) (hkeys : keys ≠ []) (objectKey : String) :
    ∃ key ∈ keys, r.routeNode objectKey = some key := by
  obtain ⟨e, he, hroute, _⟩ := routeNode_first (h.filled hkeys) objectKey
  exact ⟨_, h.nodes e he, hroute⟩

end

/-! ## 3. Two rings -/

/-- The virtual nodes of these nodes, `n` of each. -/
def virtualNodes (keys : List String) (n : Nat) : List VirtualNode :=
  keys.flatMap fun key => (List.range n).map fun i : Nat => ⟨key, i⟩

/-- No two of the virtual nodes have one hash. -/
def Apart (hash : String → Int) (vs : List VirtualNode) : Prop :=
  ∀ v ∈ vs, ∀ w ∈ vs, hash v.key = hash w.key → v = w

/-- The ring holds exactly these virtual nodes, each at its hash. -/
def Exact (vs : List VirtualNode) : Prop :=
  ∀ h v, r.ring[h]? = some v ↔ v ∈ vs ∧ r.hashFunction v.key = h

/-- The first of the virtual nodes at or clockwise after `x`. -/
def FirstFrom (hash : String → Int) (vs : List VirtualNode) (x : Int) (v : VirtualNode) : Prop :=
  v ∈ vs ∧ ∀ w ∈ vs, (x ≤ hash v.key ∧ (x ≤ hash w.key → hash v.key ≤ hash w.key)) ∨
    (hash v.key < x ∧ hash w.key < x ∧ hash v.key ≤ hash w.key)

section Stable

variable {r r' : ConsistentHashRouter} {key x : String} {keys : List String} {n : Nat}
  {vs ws : List VirtualNode} {v : VirtualNode} {hash : String → Int}

theorem mem_virtualNodes :
    v ∈ virtualNodes keys n ↔ v.physical ∈ keys ∧ ∃ i < n, v.replicaIndex = (i : Int) := by
  cases v
  simp [virtualNodes, eq_comm]

theorem Apart.mono (h : Apart hash ws) (hsub : ∀ v ∈ vs, v ∈ ws) : Apart hash vs :=
  fun v hv w hw => h v (hsub v hv) w (hsub w hw)

theorem Exact.ring_eq (h : Exact r vs) (h' : Exact r' ws) (hfun : r'.hashFunction = r.hashFunction)
    (hmem : ∀ v, v ∈ ws ↔ v ∈ vs) : r' = r := by
  obtain ⟨ring, f⟩ := r
  obtain ⟨ring', f'⟩ := r'
  cases hfun
  have hring : ring' = ring := ExtTreeMap.ext_getElem? fun x => Option.ext fun v => by
    rw [h' x v, h x v, hmem v]
  rw [hring]

/-- **One more virtual node**: nothing that is there is written over. -/
theorem Exact.place (h : Exact r vs) {i : Int} (hd : Apart r.hashFunction (vs ++ [⟨key, i⟩])) :
    Exact { r with ring := place r.hashFunction key r.ring i } (vs ++ [⟨key, i⟩]) := by
  intro x v
  rw [ConsistentHashRouter.place, ExtTreeMap.getElem?_insert, mem_append,
    mem_singleton]
  split
  · rename_i heq
    cases Std.LawfulEqCmp.compare_eq_iff_eq.mp heq
    refine ⟨fun hv => ?_, fun hv => ?_⟩
    · cases hv
      exact ⟨.inr rfl, rfl⟩
    · rw [hd v (mem_append.mpr (hv.1.imp_right mem_singleton.mpr)) _ (by simp) hv.2]
  · rename_i hne
    refine (h x v).trans ⟨fun hv => ⟨.inl hv.1, hv.2⟩, fun hv => ⟨hv.1.resolve_right ?_, hv.2⟩⟩
    rintro rfl
    exact hne (Std.LawfulEqCmp.compare_eq_iff_eq.mpr hv.2)

theorem Exact.getExistingReplicas (h : Exact r (virtualNodes keys n)) (hkey : key ∉ keys) :
    r.getExistingReplicas key = 0 := by
  refine Int.natCast_eq_zero.mpr (length_eq_zero_iff.mpr (filter_eq_nil_iff.mpr ?_))
  intro e he hphys
  rw [ExtTreeMap.mem_toList_iff_getElem?_eq_some] at he
  have hmem := (mem_virtualNodes.mp ((h _ _).mp he).1).1
  exact hkey (eq_of_beq hphys ▸ hmem)

theorem Exact.addNode (h : Exact r (virtualNodes keys n)) (hkey : key ∉ keys)
    (hd : Apart r.hashFunction (virtualNodes (keys ++ [key]) n)) :
    ∃ r', r.addNode key n = .ok r' ∧ r'.hashFunction = r.hashFunction ∧
      Exact r' (virtualNodes (keys ++ [key]) n) := by
  have hsplit : virtualNodes (keys ++ [key]) n =
      virtualNodes keys n ++ (List.range n).map fun i : Nat => ⟨key, i⟩ := by
    simp [virtualNodes]
  rw [hsplit] at hd ⊢
  refine ⟨_, if_neg (by omega), rfl, ?_⟩
  simp only [h.getExistingReplicas hkey]
  -- over the replicas already placed
  have hall : ∀ m ≤ n, Exact ⟨(List.range m).foldl (fun ring (i : Nat) =>
      ConsistentHashRouter.place r.hashFunction key ring i) r.ring, r.hashFunction⟩
      (virtualNodes keys n ++ (List.range m).map fun i : Nat => ⟨key, i⟩) := by
    intro m hm
    induction m with
    | zero => simpa using h
    | succ m ih =>
      rw [range_succ, foldl_append, map_append, ← append_assoc]
      refine (ih (by omega)).place (hd.mono fun v hv => ?_)
      rw [append_assoc] at hv
      refine (mem_append.mp hv).elim (mem_append_left _) fun hv => ?_
      refine mem_append_right _ ?_
      simp only [mem_append, mem_map, mem_range, mem_singleton] at hv ⊢
      rcases hv with ⟨i, hi, rfl⟩ | rfl
      · exact ⟨i, by omega, rfl⟩
      · exact ⟨m, by omega, rfl⟩
  exact hall n le_rfl

/-- **The ring of distinct nodes** whose virtual nodes do not meet. -/
theorem withHashFunction_exact (hkeys : keys.Nodup) (hd : Apart hash (virtualNodes keys n)) :
    ∃ r, withHashFunction keys n hash = .ok r ∧ r.hashFunction = hash ∧
      Exact r (virtualNodes keys n) := by
  induction keys using List.reverseRecOn with
  | nil => exact ⟨⟨∅, hash⟩, rfl, rfl, fun x v => by simp [virtualNodes]⟩
  | append_singleton keys key ih =>
    obtain ⟨r, hr, hfun, hex⟩ := ih (List.Nodup.of_append_left hkeys)
      (hd.mono fun v hv => by rw [mem_virtualNodes] at hv ⊢; simp [hv])
    have hkey : key ∉ keys := fun h =>
      (nodup_append.mp hkeys).2.2 key h key (mem_singleton.mpr rfl) rfl
    obtain ⟨r', hr', hfun', hex'⟩ := hex.addNode hkey (hfun ▸ hd)
    refine ⟨r', ?_, hfun'.trans hfun, hex'⟩
    rw [withHashFunction, foldlM_append, ← withHashFunction, hr]
    show (do let s ← r.addNode key n; pure s) = _
    rw [hr']

theorem Exact.mem_toList (h : Exact r vs) {e : Int × VirtualNode} :
    e ∈ r.ring.toList ↔ e.2 ∈ vs ∧ r.hashFunction e.2.key = e.1 :=
  ExtTreeMap.mem_toList_iff_getElem?_eq_some.trans (h e.1 e.2)

theorem Exact.routeNode (h : Exact r vs) (hne : vs ≠ []) (x : String) :
    ∃ v, FirstFrom r.hashFunction vs (r.hashFunction x) v ∧ r.routeNode x = some v.physical := by
  have hat : ∀ w ∈ vs, (r.hashFunction w.key, w) ∈ r.ring.toList :=
    fun w hw => h.mem_toList.mpr ⟨hw, rfl⟩
  obtain ⟨w, hw⟩ := exists_mem_of_ne_nil _ hne
  obtain ⟨e, he, hroute, hfirst⟩ := routeNode_first (ne_nil_of_mem (hat w hw)) x
  obtain ⟨hv, hhash⟩ := h.mem_toList.mp he
  refine ⟨e.2, ⟨hv, fun w hw => ?_⟩, hroute⟩
  rw [hhash]
  exact hfirst _ (hat w hw)

/-- **The owner in the larger ring**, if it is in the smaller one too, is the owner there. -/
theorem Exact.routeNode_smaller (h : Exact r vs) (h' : Exact r' ws)
    (hfun : r'.hashFunction = r.hashFunction) (hd : Apart r.hashFunction vs)
    (hws : ∀ v, v ∈ ws ↔ v ∈ vs ∧ v.physical ≠ key) (hx : r.routeNode x ≠ some key) :
    r'.routeNode x = r.routeNode x := by
  have hsub : ∀ w ∈ ws, w ∈ vs := fun w hw => ((hws w).mp hw).1
  by_cases hne : vs = []
  · have hnil : ws = [] := eq_nil_iff_forall_not_mem.mpr fun w hw => by
      simpa [hne] using hsub w hw
    rw [h.ring_eq h' hfun fun v => by rw [hne, hnil]]
  obtain ⟨v, ⟨hv, hfirst⟩, hroute⟩ := h.routeNode hne x
  have hvw : v ∈ ws := (hws v).mpr ⟨hv, fun heq => hx (hroute.trans (congrArg some heq))⟩
  obtain ⟨w, ⟨hw, hfirst'⟩, hroute'⟩ := h'.routeNode (ne_nil_of_mem hvw) x
  rw [hfun] at hfirst'
  have hhash : r.hashFunction v.key = r.hashFunction w.key := by
    rcases hfirst w (hsub w hw) with h1 | h1 <;> rcases hfirst' v hvw with h2 | h2 <;> omega
  rw [hroute, hroute', hd v hv w (hsub w hw) hhash]

theorem Exact.removeNode (h : Exact r vs) (key : String) :
    Exact (r.removeNode key) (vs.filter fun v => v.physical != key) := by
  intro x v
  rw [mem_filter, bne_iff_ne]
  show (Table.eraseAll _ _)[x]? = some v ↔ _ ∧ r.hashFunction v.key = x
  rw [Table.get_eraseAll]
  have hdead : x ∈ (r.ring.toList.filter fun e => e.2.physical == key).map (·.1) ↔
      ∃ w, r.ring[x]? = some w ∧ w.physical = key := by
    simp only [mem_map, mem_filter, beq_iff_eq, Prod.exists,
      ExtTreeMap.mem_toList_iff_getElem?_eq_some]
    constructor
    · rintro ⟨_, w, hw, rfl⟩
      exact ⟨w, hw⟩
    · rintro ⟨w, hw⟩
      exact ⟨x, w, hw, rfl⟩
  split
  · rename_i hmem
    obtain ⟨w, hw, hkey⟩ := hdead.mp hmem
    refine ⟨fun hv => (Option.some_ne_none v hv.symm).elim, fun hv => ?_⟩
    have hvw := hw.symm.trans ((h x v).mpr ⟨hv.1.1, hv.2⟩)
    exact absurd (Option.some.inj hvw ▸ hkey) hv.1.2
  · rename_i hmem
    refine ⟨fun hv => ⟨⟨((h x v).mp hv).1, fun hkey => hmem (hdead.mpr ⟨v, hv, hkey⟩)⟩,
      ((h x v).mp hv).2⟩, fun hv => (h x v).mpr ⟨hv.1.1, hv.2⟩⟩

/-- **Consistent hashing is stable**: a key goes to the owner of the first virtual node clockwise, in
whatever order the nodes were added; a new node only takes keys to itself, and a node that leaves
only gives away its own, to the owners the other nodes would have alone. -/
theorem routing_stable (hn : 0 < n) (hkeys : keys.Nodup) (hd : Apart hash (virtualNodes keys n)) :
    ∃ r, withHashFunction keys n hash = .ok r ∧
      (keys ≠ [] → ∀ x, ∃ v, FirstFrom hash (virtualNodes keys n) (hash x) v ∧
        r.routeNode x = some v.physical) ∧
      (∀ keys' : List String, keys'.Perm keys → withHashFunction keys' n hash = .ok r) ∧
      (∀ key ∉ keys, Apart hash (virtualNodes (keys ++ [key]) n) →
        ∃ r', r.addNode key n = .ok r' ∧
          ∀ x, r'.routeNode x ≠ r.routeNode x → r'.routeNode x = some key) ∧
      ∀ key, withHashFunction (keys.filter (· != key)) n hash = .ok (r.removeNode key) ∧
        ∀ x, (r.removeNode key).routeNode x ≠ r.routeNode x → r.routeNode x = some key := by
  obtain ⟨r, hr, rfl, hex⟩ := withHashFunction_exact hkeys hd
  refine ⟨r, hr, fun hne x => hex.routeNode ?_ x, fun keys' hperm => ?_, fun key hkey hd' => ?_,
    fun key => ⟨?_, fun x hx => ?_⟩⟩
  · obtain ⟨key, hkey⟩ := exists_mem_of_ne_nil _ hne
    exact ne_nil_of_mem ((mem_virtualNodes (v := ⟨key, 0⟩)).mpr ⟨hkey, 0, hn, rfl⟩)
  · have hmem : ∀ v, v ∈ virtualNodes keys' n ↔ v ∈ virtualNodes keys n := fun v => by
      rw [mem_virtualNodes, mem_virtualNodes, hperm.mem_iff]
    obtain ⟨r', hr', hfun, hex'⟩ := withHashFunction_exact (hperm.nodup_iff.mpr hkeys)
      (hd.mono fun v hv => (hmem v).mp hv)
    rw [hr', hex.ring_eq hex' hfun hmem]
  · obtain ⟨r', hadd, hfun, hex'⟩ := hex.addNode hkey hd'
    refine ⟨r', hadd, fun x hx => not_not.mp fun hown => hx ?_⟩
    refine (hex'.routeNode_smaller hex hfun.symm (hfun ▸ hd') (fun v => ?_) hown).symm
    rw [mem_virtualNodes, mem_virtualNodes]
    grind
  · have hmem : ∀ v, v ∈ virtualNodes (keys.filter (· != key)) n ↔
        v ∈ (virtualNodes keys n).filter fun v => v.physical != key := fun v => by
      rw [mem_filter, mem_virtualNodes, mem_virtualNodes, mem_filter]
      exact and_right_comm
    obtain ⟨r', hr', hfun, hex'⟩ := withHashFunction_exact (hkeys.filter _)
      (hd.mono fun v hv => mem_of_mem_filter ((hmem v).mp hv))
    rw [hr', (hex.removeNode key).ring_eq hex' hfun hmem]
  · refine not_not.mp fun hown => hx (hex.routeNode_smaller (hex.removeNode key) rfl hd ?_ hown)
    exact fun v => by rw [mem_filter, bne_iff_ne]

theorem routing_stable_two :
    Apart (fun s => if s = "a-0" then 1 else 2) (virtualNodes ["a", "b"] 1) ∧
      ∃ r, withHashFunction ["a", "b"] 1 (fun s => if s = "a-0" then 1 else 2) = .ok r ∧
        withHashFunction ["b", "a"] 1 (fun s => if s = "a-0" then 1 else 2) = .ok r := by
  have hd : Apart (fun s => if s = "a-0" then 1 else 2) (virtualNodes ["a", "b"] 1) := by
    intro v hv w hw h
    simp [virtualNodes] at hv hw
    rcases hv with rfl | rfl <;> rcases hw with rfl | rfl <;> first | rfl | exact absurd h (by decide)
  obtain ⟨r, hr, -, hperm, -⟩ := routing_stable (by decide) (by decide) hd
  exact ⟨hd, r, hr, hperm _ (by decide)⟩

end Stable

end ConsistentHashRouter

end RocketMQ
