/-
  File:      RocketMQ/Lib/Pool.lean
  Subject:   A pool of items, one of which is taken out and replaced by others.

  `replace l i ts` puts `ts` in the place of the item at `i`.

  * `mem_replace`, `mem_replace_of_mem`, `exists_replace`: what is in the pool after and before;
  * `sum_replace`, `sum_set`: what the items add up to, in any commutative monoid.
-/
import Mathlib

namespace Pool

open List

universe u v

variable {α : Type u} {l ts : List α} {i : Nat} {t x : α}

def replace (l : List α) (i : Nat) (ts : List α) : List α := l.take i ++ ts ++ l.drop (i + 1)

theorem split (h : l[i]? = some t) : l = l.take i ++ t :: l.drop (i + 1) := by
  obtain ⟨hlt, hget⟩ := List.getElem?_eq_some_iff.mp h
  rw [← hget, cons_getElem_drop_succ, take_append_drop]

theorem mem_replace (h : x ∈ replace l i ts) : x ∈ ts ∨ x ∈ l := by
  rcases mem_append.mp h with h | h
  · rcases mem_append.mp h with h | h
    · exact .inr (mem_of_mem_take h)
    · exact .inl h
  · exact .inr (mem_of_mem_drop h)

theorem mem_replace_new (h : x ∈ ts) : x ∈ replace l i ts :=
  mem_append_left _ (mem_append_right _ h)

theorem mem_replace_of_mem (ts : List α) (hi : l[i]? = some t) (h : x ∈ l) :
    x = t ∨ x ∈ replace l i ts := by
  rw [split hi] at h
  rcases mem_append.mp h with h | h
  · exact .inr (mem_append_left _ (mem_append_left _ h))
  · rcases mem_cons.mp h with h | h
    · exact .inl h
    · exact .inr (mem_append_right _ h)

theorem exists_replace {β : Type v} {e : β} (p : α → Option β) (hi : l[i]? = some t)
    (ht : p t = none ∨ ∃ y ∈ ts, p y = p t) (h : ∃ z ∈ l, p z = some e) :
    ∃ z ∈ replace l i ts, p z = some e := by
  obtain ⟨z, hz, hpz⟩ := h
  rcases mem_replace_of_mem ts hi hz with rfl | hz
  · rcases ht with ht | ⟨y, hy, hpy⟩
    · cases ht.symm.trans hpz
    · exact ⟨y, mem_replace_new hy, hpy.trans hpz⟩
  · exact ⟨z, hz, hpz⟩

theorem exists_append {p : α → Prop} (h : ∃ z ∈ l, p z) : ∃ z ∈ l ++ ts, p z := by
  obtain ⟨z, hz, hpz⟩ := h
  exact ⟨z, mem_append_left _ hz, hpz⟩

theorem getElem?_replace_self (ts : List α) (hi : l[i]? = some t) :
    (replace l i (x :: ts))[i]? = some x := by
  obtain ⟨hlt, _⟩ := List.getElem?_eq_some_iff.mp hi
  have hlen : (l.take i).length = i := length_take_of_le hlt.le
  rw [replace, append_assoc, getElem?_append_right hlen.le, hlen, Nat.sub_self]
  rfl

/-- **What the items add up to.** -/
theorem sum_replace {M : Type v} [AddCommMonoid M] (f : α → M) (ts : List α) (hi : l[i]? = some t) :
    ((replace l i ts).map f).sum + f t = (l.map f).sum + (ts.map f).sum := by
  have hl : (l.map f).sum = ((l.take i).map f).sum + (f t + ((l.drop (i + 1)).map f).sum) := by
    conv_lhs => rw [split hi]
    rw [map_append, sum_append, map_cons, sum_cons]
  rw [hl]
  simp only [replace, map_append, sum_append]
  abel

theorem set_eq_replace (hi : l[i]? = some t) : l.set i x = replace l i [x] := by
  obtain ⟨hlt, _⟩ := List.getElem?_eq_some_iff.mp hi
  rw [set_eq_take_append_cons_drop, if_pos hlt, replace, append_assoc]
  rfl

theorem of_getElem?_set {j : Nat} {y : α} (h : (l.set i x)[j]? = some y) :
    (j = i ∧ y = x) ∨ (j ≠ i ∧ l[j]? = some y) := by
  by_cases hji : j = i
  · subst hji
    rw [getElem?_set] at h
    simp only [if_true] at h
    split at h
    · cases h
      exact .inl ⟨rfl, rfl⟩
    · cases h
  · rw [getElem?_set_ne fun hij => hji hij.symm] at h
    exact .inr ⟨hji, h⟩

theorem of_getElem?_concat {j : Nat} {y : α} (h : (l ++ [x])[j]? = some y) :
    l[j]? = some y ∨ (j = l.length ∧ y = x) := by
  rcases lt_or_ge j l.length with hlt | hge
  · rw [getElem?_append_left hlt] at h
    exact .inl h
  · rw [getElem?_append_right hge, getElem?_singleton] at h
    split at h
    · cases h
      exact .inr ⟨by omega, rfl⟩
    · cases h

theorem mem_eraseIdx_of_mem (hi : l[i]? = some t) (h : x ∈ l) : x = t ∨ x ∈ l.eraseIdx i := by
  rcases mem_replace_of_mem [] hi h with h | h
  · exact .inl h
  · rw [replace, append_nil, ← eraseIdx_eq_take_drop_succ] at h
    exact .inr h

theorem mem_set_of_mem_eraseIdx {y : α} (h : x ∈ l.eraseIdx i) : x ∈ l.set i y := by
  obtain ⟨j, hji, hj⟩ := mem_eraseIdx_iff_getElem?.mp h
  rw [← getElem?_set_ne (Ne.symm hji)] at hj
  exact mem_of_getElem? hj

theorem sum_set {M : Type v} [AddCommMonoid M] (f : α → M) (hi : l[i]? = some t) :
    ((l.set i x).map f).sum + f t = (l.map f).sum + f x := by
  rw [set_eq_replace hi, sum_replace f [x] hi, map_singleton, sum_singleton]

theorem exists_set_iff {P : α → Prop} {Q : Prop} (hi : l[i]? = some t) (hx : P x ↔ P t ∨ Q) :
    (∃ y ∈ l.set i x, P y) ↔ (∃ y ∈ l, P y) ∨ Q := by
  obtain ⟨hlt, _⟩ := List.getElem?_eq_some_iff.mp hi
  conv_rhs => rw [split hi]
  rw [set_eq_take_append_cons_drop, if_pos hlt]
  simp only [mem_append, mem_cons, or_and_right, exists_or, exists_eq_left, hx]
  rw [or_right_comm, ← or_assoc]

theorem forall_set {P : α → Prop} (h : ∀ y ∈ l, P y) (hx : P x) : ∀ y ∈ l.set i x, P y := by
  intro y hy
  rcases mem_or_eq_of_mem_set hy with hy | rfl
  · exact h y hy
  · exact hx

theorem getElem?_of_prefix {l' : List α} (h : l <+: l') (hi : l[i]? = some x) :
    l'[i]? = some x := by
  obtain ⟨hlt, hget⟩ := List.getElem?_eq_some_iff.mp hi
  rw [prefix_iff_getElem?.mp h i hlt, hget]

end Pool
