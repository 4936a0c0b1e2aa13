/-
  File:      RocketMQ/Lib/Assoc.lean
  Subject:   Lists of key-value pairs whose keys are distinct, changed at one position.

  The list around the position is written `l ++ (k, a) :: r`. `mem_replace`, `mem_erase` and
  `mem_insert` say what the changed list holds in terms of the list before.

  * `stableSort_eq_iff`: when two lists, sorted by a key that elements may share, are the same;
  * `sort_filter_eq`: **sorted by key, the pairs stand in one order only**;
  * `assign`: assignments one after the other; a key has its last value, whatever was there before.
-/
import Mathlib

namespace Assoc

open List

universe u v

variable {κ : Type u} {α : Type v}

/-- The keys of a list of pairs. -/
def keys (l : List (κ × α)) : List κ := l.map Prod.fst

theorem mem_keys {l : List (κ × α)} {k : κ} {a : α} (h : (k, a) ∈ l) : k ∈ keys l :=
  mem_map_of_mem h

@[simp] theorem keys_append (l r : List (κ × α)) : keys (l ++ r) = keys l ++ keys r :=
  map_append

@[simp] theorem keys_cons (x : κ × α) (l : List (κ × α)) : keys (x :: l) = x.1 :: keys l := rfl

theorem keys_replace {l r : List (κ × α)} {k : κ} {a b : α} :
    keys (l ++ (k, b) :: r) = keys (l ++ (k, a) :: r) := by simp

theorem notMem_around {l r : List (κ × α)} {k : κ} {a : α}
    (h : (keys (l ++ (k, a) :: r)).Nodup) : k ∉ keys (l ++ r) := by
  rw [keys_append] at h
  rw [keys_append]
  exact (nodup_middle.mp h).notMem

variable {s l r : List (κ × α)} {k k' : κ} {a b c : α}

/-- **One pair inserted.** -/
theorem mem_insert (h : (k', c) ∈ l ++ (k, a) :: r) : (k' = k ∧ c = a) ∨ (k', c) ∈ l ++ r := by
  rcases mem_append.mp h with h | h
  · exact .inr (mem_append_left _ h)
  · rcases mem_cons.mp h with h | h
    · cases h
      exact .inl ⟨rfl, rfl⟩
    · exact .inr (mem_append_right _ h)

/-- **One pair erased.** -/
theorem mem_erase (hs : s = l ++ (k, a) :: r) (h : (k', c) ∈ l ++ r) : (k', c) ∈ s :=
  hs ▸ ((sublist_cons_self _ r).append_left l).subset h

/-- **One pair replaced.** -/
theorem mem_replace (hs : s = l ++ (k, a) :: r) (hnd : (keys s).Nodup)
    (h : (k', c) ∈ l ++ (k, b) :: r) : (k' = k ∧ c = b) ∨ (k' ≠ k ∧ (k', c) ∈ s) := by
  refine (mem_insert h).imp_right fun hmem => ⟨?_, mem_erase hs hmem⟩
  rintro rfl
  exact notMem_around (hs ▸ hnd) (mem_keys hmem)

theorem mem_replace_or {P : α → Bool} (hs : s = l ++ (k, a) :: r) (hb : P b = false) (k' : κ) (c : α)
    (h : (k', c) ∈ l ++ (k, b) :: r) : (k', c) ∈ s ∨ P c = false := by
  rcases mem_insert h with ⟨_, rfl⟩ | h
  · exact .inr hb
  · exact .inl (mem_erase hs h)

theorem mem_of_replace (hs : s = l ++ (k, a) :: r) (h : (k', c) ∈ s) (hne : c ≠ a) :
    (k', c) ∈ l ++ (k, b) :: r := by
  rcases mem_insert (hs ▸ h) with ⟨_, rfl⟩ | h
  · exact absurd rfl hne
  · exact mem_erase rfl h

theorem nodup_insert (hk : k ∉ keys (l ++ r)) (hnd : (keys (l ++ r)).Nodup) :
    (keys (l ++ (k, a) :: r)).Nodup := by
  rw [keys_append] at hk hnd
  rw [keys_append]
  exact nodup_middle.mpr (nodup_cons.mpr ⟨hk, hnd⟩)

/-! ## Sorted by key -/

section Stable

variable [LinearOrder κ] (key : α → κ)

/-- The elements by their keys; those of one key stay in their order. -/
def stableSort (l : List α) : List α := l.insertionSort fun a b => key a ≤ key b

variable {key} {l l' : List α}

theorem pairwise_stableSort : (stableSort key l).Pairwise fun a b => key a ≤ key b := by
  exact pairwise_insertionSort _ l

theorem filter_stableSort (k : κ) :
    (stableSort key l).filter (key · = k) = l.filter (key · = k) := by
  have hsub : (l.filter (key · = k)).Sublist (stableSort key l) := by
    refine sublist_insertionSort (pairwise_of_forall_mem_list ?_) filter_sublist
    intro a ha b hb
    simp only [mem_filter, decide_eq_true_eq] at ha hb
    exact (ha.2.trans hb.2.symm).le
  have hmine := hsub.filter (key · = k)
  simp only [filter_filter, Bool.and_self] at hmine
  refine (hmine.eq_of_length ?_).symm
  exact (((perm_insertionSort _ l).filter _).length_eq).symm

theorem eq_of_filter_eq (hl : l.Pairwise fun a b => key a ≤ key b)
    (hl' : l'.Pairwise fun a b => key a ≤ key b)
    (h : ∀ k, l.filter (key · = k) = l'.filter (key · = k)) : l = l' := by
  induction l generalizing l' with
  | nil =>
    cases l' with
    | nil => rfl
    | cons y ys => simpa using h (key y)
  | cons x xs ih =>
    cases l' with
    | nil => simpa using h (key x)
    | cons y ys =>
      have hx : x ∈ (y :: ys).filter (key · = key x) := by simp [← h]
      have hy : y ∈ (x :: xs).filter (key · = key y) := by simp [h]
      have hle : ∀ {a b : α} {l : List α}, (a :: l).Pairwise (fun a b => key a ≤ key b) →
          b ∈ a :: l → key a ≤ key b := by
        intro a b l hl hb
        rcases mem_cons.mp hb with rfl | hb
        · exact le_rfl
        · exact rel_of_pairwise_cons hl hb
      have hkey : key x = key y :=
        le_antisymm (hle hl (mem_of_mem_filter hy)) (hle hl' (mem_of_mem_filter hx))
      have hhead := h (key x)
      simp only [filter_cons, hkey, decide_true] at hhead
      obtain ⟨rfl, _⟩ := List.cons.inj hhead
      refine congrArg _ (ih hl.of_cons hl'.of_cons fun k => ?_)
      have hk := h k
      simp only [filter_cons] at hk
      split at hk
      · exact (List.cons.inj hk).2
      · exact hk

/-- **Two lists are sorted into one exactly if they have the same elements of each key**, in the same
order. -/
theorem stableSort_eq_iff : stableSort key l = stableSort key l' ↔
    ∀ k, l.filter (key · = k) = l'.filter (key · = k) := by
  constructor
  · intro h k
    rw [← filter_stableSort, h, filter_stableSort]
  · intro h
    refine eq_of_filter_eq pairwise_stableSort pairwise_stableSort fun k => ?_
    rw [filter_stableSort, filter_stableSort, h]

theorem mem_iff_of_filter_eq (h : ∀ k, l.filter (key · = k) = l'.filter (key · = k)) (x : α) :
    x ∈ l ↔ x ∈ l' := by
  have hx := congrArg (x ∈ ·) (h (key x))
  simpa using hx

end Stable

theorem pairwise_sort [LinearOrder κ] {l : List (κ × α)} (h : (keys l).Nodup) :
    (l.insertionSort fun a b => a.1 ≤ b.1).Pairwise fun a b => a.1 < b.1 := by
  have hkeys : (keys (l.insertionSort fun a b => a.1 ≤ b.1)).Nodup :=
    ((perm_insertionSort _ l).map Prod.fst).nodup_iff.mpr h
  have hne := pairwise_map.mp hkeys
  exact pairwise_stableSort.imp₂ (fun _ _ h h' => lt_of_le_of_ne h h') hne

/-- **Sorted by key, the pairs stand in one order only.** -/
theorem sort_filter_eq [LinearOrder κ] {l l' : List (κ × α)} (hl : (keys l).Nodup)
    (hl' : (keys l').Nodup) (p : κ × α → Bool) (h : ∀ x, p x = true → (x ∈ l ↔ x ∈ l')) :
    (l.insertionSort fun a b => a.1 ≤ b.1).filter p
      = (l'.insertionSort fun a b => a.1 ≤ b.1).filter p := by
  refine ((pairwise_sort hl).filter p).eq_of_mem_iff ((pairwise_sort hl').filter p) fun x => ?_
  rw [mem_filter, mem_filter, mem_insertionSort, mem_insertionSort]
  exact and_congr_left (h x)

/-! ## Assignments -/

/-- One assignment after the other. -/
def assign [DecidableEq κ] (ops : List (κ × α)) (f : κ → Option α) : κ → Option α :=
  ops.foldl (fun f e => Function.update f e.1 (some e.2)) f

theorem assign_append [DecidableEq κ] (ops ops' : List (κ × α)) (f : κ → Option α) :
    assign (ops ++ ops') f = assign ops' (assign ops f) := foldl_append

theorem assign_of_notMem [DecidableEq κ] {ops : List (κ × α)} {k : κ} (h : k ∉ keys ops)
    (f : κ → Option α) : assign ops f k = f k := by
  induction ops generalizing f with
  | nil => rfl
  | cons e es ih =>
    rw [keys_cons, mem_cons, not_or] at h
    exact (ih h.2 _).trans (Function.update_of_ne h.1 _ _)

/-- **What was there before does not matter.** -/
theorem assign_of_mem [DecidableEq κ] {ops : List (κ × α)} {k : κ} (h : k ∈ keys ops)
    (f g : κ → Option α) : assign ops f k = assign ops g k := by
  induction ops generalizing f g with
  | nil => cases h
  | cons e es ih =>
    by_cases hes : k ∈ keys es
    · exact ih hes _ _
    · obtain rfl : k = e.1 := by
        rw [keys_cons, mem_cons] at h
        exact h.resolve_right hes
      have hlast f : assign (e :: es) f e.1 = some e.2 :=
        (assign_of_notMem hes _).trans (Function.update_self e.1 _ f)
      rw [hlast f, hlast g]

/-- **The last assignments, made once more, change nothing.** -/
theorem assign_again [DecidableEq κ] {ops₁ ops₂ : List (κ × α)} {f g : κ → Option α} {k : κ}
    (h : g k = assign (ops₁ ++ ops₂) f k) : assign ops₂ g k = assign (ops₁ ++ ops₂) f k := by
  by_cases hk : k ∈ keys ops₂
  · rw [assign_append]
    exact assign_of_mem hk _ _
  · rw [assign_of_notMem hk, h]

end Assoc
