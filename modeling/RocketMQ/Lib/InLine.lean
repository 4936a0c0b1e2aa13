/-
  File:      RocketMQ/Lib/InLine.lean
  Subject:   A line of items taken in from a log and handed out from the front.

  What was handed out and what still waits are one list `l`; items may repeat and need not be
  sorted. `InLine log low next l` says that every item of the log from `low` on stands in the line
  behind smaller items only, and is still to come from `next` on when it is not in the line at all.

  * `InLine.lt_of_notMem`: everything handed out is below an item that was not;
  * `InLine.append`: taking in the next stretch of the log;
  * `InLine.filter`: dropping waiting items below `low`.
-/
import Mathlib

namespace InLine

open List

universe u

variable {α : Type u} [LinearOrder α] {e x y : α} {a b l : List α}

/-- What stands in the line before the first `x`; the whole line if there is none. -/
def before (x : α) (l : List α) : List α := l.takeWhile fun y => decide (y ≠ x)

theorem before_cons (he : e ≠ x) : before x (e :: l) = e :: before x l := by
  simp [before, he]

theorem mem_before_append : y ∈ before x (a ++ b) ↔ y ∈ before x a ∨ (x ∉ a ∧ y ∈ before x b) := by
  induction a with
  | nil => simp [before]
  | cons e es ih =>
    by_cases he : e = x
    · simp [before, he]
    · rw [cons_append, before_cons he, before_cons he, mem_cons, ih]
      simp only [mem_cons, not_or, Ne.symm he, not_false_eq_true, true_and, or_assoc]

theorem before_of_notMem (h : x ∉ l) : before x l = l := by
  refine takeWhile_eq_self_iff.mpr fun y hy => ?_
  simpa using fun hyx : y = x => h (hyx ▸ hy)

theorem mem_before_filter {p : α → Bool} (hx : p x = true) (h : y ∈ before x (l.filter p)) :
    y ∈ before x l := by
  induction l with
  | nil => exact h
  | cons e es ih =>
    by_cases he : e = x
    · subst he
      simp [before, hx] at h
    · rw [before_cons he]
      by_cases hp : p e = true
      · rw [filter_cons_of_pos hp, before_cons he] at h
        rcases mem_cons.mp h with rfl | h
        · exact mem_cons_self ..
        · exact mem_cons_of_mem _ (ih h)
      · rw [filter_cons_of_neg hp] at h
        exact mem_cons_of_mem _ (ih h)

theorem lt_of_mem_before (hl : l.Pairwise (· < ·)) (hx : x ∈ l) (h : y ∈ before x l) : y < x := by
  induction l with
  | nil => cases hx
  | cons e es ih =>
    obtain ⟨hlt, hes⟩ := pairwise_cons.mp hl
    by_cases he : e = x
    · simp [before, he] at h
    · have hx' : x ∈ es := (mem_cons.mp hx).resolve_left (Ne.symm he)
      rw [before_cons he] at h
      rcases mem_cons.mp h with rfl | h
      · exact hlt x hx'
      · exact ih hes hx' h

end InLine

section

universe u

variable {α : Type u} [LinearOrder α] {log : List α} {low next : α} {l done rest : List α}

/-- **Every item of the log from `low` on is behind smaller ones only**, or still to come. -/
def InLine (log : List α) (low next : α) (l : List α) : Prop :=
  ∀ x ∈ log, low ≤ x → (∀ y ∈ InLine.before x l, y < x) ∧ (x ∉ l → next ≤ x)

/-- **What was handed out is below what was not.** -/
theorem InLine.lt_of_notMem (h : InLine log low next (done ++ rest)) {x y : α} (hx : x ∈ log)
    (hlow : low ≤ x) (hdone : x ∉ done) (hy : y ∈ done) : y < x := by
  refine (h x hx hlow).1 y (InLine.mem_before_append.mpr (.inl ?_))
  rw [InLine.before_of_notMem hdone]
  exact hy

/-- **The next stretch of the log is taken in**, sorted and complete. -/
theorem InLine.append (h : InLine log low next l) {rows : List α} {next' : α}
    (hsorted : rows.Pairwise (· < ·)) (hlt : ∀ y ∈ rows, y < next')
    (hcover : ∀ x ∈ log, next ≤ x → x < next' → x ∈ rows) : InLine log low next' (l ++ rows) := by
  intro x hx hlow
  obtain ⟨hbefore, hcome⟩ := h x hx hlow
  have hout : x ∉ l → x ∉ rows → next' ≤ x := by
    intro hl hrows
    by_contra hcon
    exact hrows (hcover x hx (hcome hl) (not_le.mp hcon))
  refine ⟨fun y hy => ?_, fun hmem => ?_⟩
  · rcases InLine.mem_before_append.mp hy with hy | ⟨hl, hy⟩
    · exact hbefore y hy
    · by_cases hrows : x ∈ rows
      · exact InLine.lt_of_mem_before hsorted hrows hy
      · rw [InLine.before_of_notMem hrows] at hy
        exact lt_of_lt_of_le (hlt y hy) (hout hl hrows)
  · rw [List.mem_append, not_or] at hmem
    exact hout hmem.1 hmem.2

/-- **Waiting items below `low` are dropped.** -/
theorem InLine.filter (h : InLine log low next (done ++ rest)) {p : α → Bool}
    (hp : ∀ x, low ≤ x → p x = true) : InLine log low next (done ++ rest.filter p) := by
  intro x hx hlow
  obtain ⟨hbefore, hcome⟩ := h x hx hlow
  refine ⟨fun y hy => hbefore y ?_, fun hmem => hcome fun hin => hmem ?_⟩
  · rw [InLine.mem_before_append] at hy ⊢
    rcases hy with hy | ⟨hdone, hy⟩
    · exact .inl hy
    · exact .inr ⟨hdone, InLine.mem_before_filter (hp x hlow) hy⟩
  · rcases List.mem_append.mp hin with hin | hin
    · exact List.mem_append_left _ hin
    · exact List.mem_append_right _ (List.mem_filter.mpr ⟨hin, hp x hlow⟩)

end
