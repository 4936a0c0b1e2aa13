/-
  File:      RocketMQ/Lib/Shares.lean
  Subject:   Items shared out among keys.

  * `IsPartition keys share all`: the shares are apart, and together they are all items;
  * `isPartition_of_perm`: it is enough that the shares in a row are the items in some order;
  * `flatMap_slices`: shares cut out one behind the other;
  * `stepFrom`, `flatMap_stepFrom_perm`, `stepFrom_fair`: shares taken in turn;
  * `isPartition_filter`: each item goes to a key of its own.
-/
import Mathlib

namespace Shares

open List

universe u v

variable {κ : Type u} {α : Type v} {keys : List κ} {share : κ → List α} {all : List α}

/-- **The shares of the keys are a partition of all items.** -/
structure IsPartition (keys : List κ) (share : κ → List α) (all : List α) : Prop where
  apart : ∀ a ∈ keys, ∀ b ∈ keys, a ≠ b → List.Disjoint (share a) (share b)
  whole : ∀ x, (∃ k ∈ keys, x ∈ share k) ↔ x ∈ all
  once : ∀ k ∈ keys, (share k).Nodup

/-- The sizes of two shares differ by one at most. -/
def Fair (keys : List κ) (share : κ → List α) : Prop :=
  ∀ a ∈ keys, ∀ b ∈ keys, (share a).length ≤ (share b).length + 1

/-! ## 1. Shares in a row -/

/-- **The shares one behind the other are the items in some order.** -/
theorem isPartition_of_perm (hall : all.Nodup) (h : (keys.flatMap share).Perm all) :
    IsPartition keys share all := by
  obtain ⟨honce, hapart⟩ := nodup_flatMap.mp (h.nodup_iff.mpr hall)
  have hsymm : Std.Symm (Function.onFun List.Disjoint share) := ⟨fun _ _ hd => hd.symm⟩
  refine ⟨fun a ha b hb hne => hapart.forall ha hb hne, fun x => ?_, honce⟩
  rw [← mem_flatMap, h.mem_iff]

theorem isPartition_filter [DecidableEq κ] {owner : α → κ} (hall : all.Nodup)
    (howner : ∀ x ∈ all, owner x ∈ keys) :
    IsPartition keys (fun k => all.filter fun x => owner x = k) all where
  apart a _ b _ hne x ha hb := by
    have hxa := of_decide_eq_true (mem_filter.mp ha).2
    have hxb := of_decide_eq_true (mem_filter.mp hb).2
    exact hne (hxa.symm.trans hxb)
  whole x := by
    constructor
    · rintro ⟨_, _, hx⟩
      exact mem_of_mem_filter hx
    · intro hx
      exact ⟨owner x, howner x hx, mem_filter.mpr ⟨hx, decide_eq_true rfl⟩⟩
  once _ _ := hall.filter _

/-! ## 2. Shares by the number of the key -/

section Index

variable [DecidableEq κ] {part : Nat → List α}

theorem map_idxOf (hkeys : keys.Nodup) : keys.map (keys.idxOf ·) = List.range keys.length := by
  refine ext_getElem (by simp) fun i hi _ => ?_
  rw [getElem_map, getElem_range, hkeys.idxOf_getElem]

theorem isPartition_of_index (hkeys : keys.Nodup) (hall : all.Nodup)
    (h : ((List.range keys.length).flatMap part).Perm all) :
    IsPartition keys (fun k => part (keys.idxOf k)) all := by
  refine isPartition_of_perm hall ?_
  rwa [← map_idxOf hkeys, flatMap_map] at h

theorem fair_of_index (h : ∀ i < keys.length, ∀ j < keys.length,
    (part i).length ≤ (part j).length + 1) : Fair keys (fun k => part (keys.idxOf k)) :=
  fun _ ha _ hb => h _ (idxOf_lt_length_of_mem ha) _ (idxOf_lt_length_of_mem hb)

end Index

/-! ## 3. Slices -/

/-- **Slices one behind the other** are the items up to the last bound. -/
theorem flatMap_slices (all : List α) {bound : Nat → Nat} (hzero : bound 0 = 0)
    (hmono : ∀ i, bound i ≤ bound (i + 1)) (n : Nat) :
    (List.range n).flatMap (fun i => (all.drop (bound i)).take (bound (i + 1) - bound i))
      = all.take (bound n) := by
  induction n with
  | zero => simp [hzero]
  | succ n ih =>
    have hnext : bound (n + 1) = bound n + (bound (n + 1) - bound n) := by
      have := hmono n
      omega
    rw [range_succ, flatMap_append, ih, flatMap_singleton]
    conv_rhs => rw [hnext, take_add]

/-! ## 4. Every `n`-th item -/

/-- The item behind the first `k` ones, and every `n`-th after it. -/
def stepFrom (n : Nat) : Nat → List α → List α
  | _, [] => []
  | 0, x :: xs => x :: stepFrom n (n - 1) xs
  | k + 1, _ :: xs => stepFrom n k xs

theorem stepFrom_zero_drop (n k : Nat) (l : List α) : stepFrom n 0 (l.drop k) = stepFrom n k l := by
  induction l generalizing k with
  | nil => simp [stepFrom]
  | cons x xs ih =>
    cases k with
    | zero => rfl
    | succ k => exact ih k

/-- **Taken in turn, every item is taken once.** -/
theorem flatMap_stepFrom_perm (m : Nat) (l : List α) :
    ((List.range (m + 1)).flatMap fun i => stepFrom (m + 1) i l).Perm l := by
  induction l with
  | nil => simp [stepFrom]
  | cons x xs ih =>
    -- the first key takes the item and is the last one from then on
    have hturn : ((List.range (m + 1)).flatMap fun i => stepFrom (m + 1) i (x :: xs))
        = x :: (stepFrom (m + 1) m xs ++ (List.range m).flatMap fun i => stepFrom (m + 1) i xs) := by
      rw [range_succ_eq_map, flatMap_cons, flatMap_map]
      rfl
    rw [hturn]
    refine List.Perm.cons x (List.Perm.trans ?_ ih)
    rw [range_succ, flatMap_append, flatMap_singleton]
    exact perm_append_comm

theorem stepFrom_fair {n i j : Nat} (hij : i ≤ j) (hj : j < n) (l : List α) :
    (stepFrom n j l).length ≤ (stepFrom n i l).length ∧
      (stepFrom n i l).length ≤ (stepFrom n j l).length + 1 := by
  induction l generalizing i j with
  | nil => simp [stepFrom]
  | cons x xs ih =>
    cases j with
    | zero =>
      obtain rfl : i = 0 := by omega
      exact ⟨le_rfl, Nat.le_succ _⟩
    | succ j =>
      cases i with
      | zero =>
        obtain ⟨hlast, hfirst⟩ := ih (i := j) (j := n - 1) (by omega) (by omega)
        simp only [stepFrom, length_cons]
        omega
      | succ i => exact ih (by omega) (by omega)

end Shares
