/-
  File:      RocketMQ/Lib/Machine.lean
  Subject:   Labelled machines: a step emits a list of events, a run collects them.

  A machine is a relation `step : σ → List ε → σ → Prop`. The file fixes

  * `Run step s tr t`: from `s`, a finite sequence of steps reaches `t` and emits `tr`;
  * `Run.invariant`: a fact about (events so far, state) that holds at the start and is kept by
    every step holds along every run;
  * `Run.invariant_when`, `Run.invariant_of`: the same for runs whose trace, or each of whose
    events, meets a condition;
  * `Along C pre tr`: every event of `tr` meets a condition `C` on what came before it;
  * `Reach step G s t`: for a machine whose step is a function of an action, `t` is reached from `s`
    by steps that all meet `G`, a condition on the action and the state before it;
  * `Meets step G s acts`: the actions can be taken from `s` and meet `G` on the way (decidable);
  * `iterate step s inputs n`: for a machine that takes every input, the state after `n` of them, and
    `eventually_of_rank`: when it comes to be done.
-/
import Mathlib

namespace Machine

open List

universe u v

variable {σ : Type u} {ε : Type v}

/-- **A run**: the reflexive transitive closure of `step`, with the events in order. -/
inductive Run (step : σ → List ε → σ → Prop) (s : σ) : List ε → σ → Prop where
  | start : Run step s [] s
  | next {tr evs : List ε} {t t' : σ} (h : Run step s tr t) (hs : step t evs t') :
      Run step s (tr ++ evs) t'

namespace Run

variable {step : σ → List ε → σ → Prop} {s t u : σ} {tr tr' : List ε}

theorem one {evs : List ε} (hs : step s evs t) : Run step s evs t := by
  have h := Run.next Run.start hs
  simpa using h

theorem trans (h : Run step s tr t) (h' : Run step t tr' u) : Run step s (tr ++ tr') u := by
  induction h' with
  | start => simpa using h
  | next _ hs ih =>
    rw [← append_assoc]
    exact .next ih hs

variable {I : List ε → σ → Prop}

/-- **The invariant rule.** The step may use that it starts at the end of a run. -/
theorem invariant (h0 : I [] s)
    (hstep : ∀ tr t evs t', Run step s tr t → I tr t → step t evs t' → I (tr ++ evs) t')
    (h : Run step s tr t) : I tr t := by
  induction h with
  | start => exact h0
  | next hr hs ih => exact hstep _ _ _ _ hr ih hs

/-- **The invariant rule for conditioned runs**, for a condition on traces that holds of every
prefix of a trace it holds of. -/
theorem invariant_when {H : List ε → Prop} (hH : ∀ a b, H (a ++ b) → H a) (h0 : I [] s)
    (hstep : ∀ tr t evs t', Run step s tr t → H (tr ++ evs) → I tr t → step t evs t' →
      I (tr ++ evs) t')
    (h : Run step s tr t) (hG : H tr) : I tr t := by
  induction h with
  | start => exact h0
  | next hr hs ih => exact hstep _ _ _ _ hr hG (ih (hH _ _ hG)) hs

theorem invariant_of {G : ε → Prop} (h0 : I [] s)
    (hstep : ∀ tr t evs t', Run step s tr t → (∀ e ∈ tr ++ evs, G e) → I tr t → step t evs t' →
      I (tr ++ evs) t')
    (h : Run step s tr t) (hG : ∀ e ∈ tr, G e) : I tr t :=
  h.invariant_when (H := fun tr => ∀ e ∈ tr, G e)
    (fun _ _ hab e he => hab e (mem_append_left _ he)) h0 hstep hG

end Run

/-- What no event of the list changes, the list does not change. -/
theorem foldl_unchanged {β : Type u} {f : β → ε → β} {b : β} {evs : List ε}
    (h : ∀ e ∈ evs, f b e = b) : evs.foldl f b = b := by
  induction evs with
  | nil => rfl
  | cons e es ih =>
    rw [foldl_cons, h e mem_cons_self]
    exact ih fun e' he => h e' (mem_cons_of_mem _ he)

/-! Conditions on an event and its past -/

/-- Every event of the list meets `C` with the events before it, the first ones being `pre`. -/
def Along (C : List ε → ε → Prop) (pre : List ε) : List ε → Prop
  | [] => True
  | e :: es => C pre e ∧ Along C (pre ++ [e]) es

section Along

variable {C : List ε → ε → Prop} {pre a b : List ε}

instance along_decidable [∀ pre e, Decidable (C pre e)] (pre tr : List ε) :
    Decidable (Along C pre tr) :=
  match tr with
  | [] => .isTrue trivial
  | e :: es =>
    have := along_decidable (pre ++ [e]) es
    inferInstanceAs (Decidable (C pre e ∧ Along C (pre ++ [e]) es))

theorem along_append : Along C pre (a ++ b) ↔ Along C pre a ∧ Along C (pre ++ a) b := by
  induction a generalizing pre with
  | nil => simp [Along]
  | cons e es ih => simp [Along, ih, and_assoc]

theorem Along.at {e : ε} (h : Along C pre (a ++ e :: b)) : C (pre ++ a) e :=
  (along_append.mp h).2.1

theorem along_of_forall (h : ∀ x, ∀ e ∈ a, C (pre ++ x) e) : Along C pre a := by
  induction a generalizing pre with
  | nil => trivial
  | cons e es ih =>
    refine ⟨by simpa using h [] e mem_cons_self, ih fun x e' he => ?_⟩
    rw [append_assoc]
    exact h _ e' (mem_cons_of_mem _ he)

end Along

/-! Machines whose step is a function -/

section Reach

variable {α : Type v} {step : σ → α → Option σ} {G H : σ → α → Prop} {s t : σ}

/-- **The states reached by steps that all meet `G`.** -/
inductive Reach (step : σ → α → Option σ) (G : σ → α → Prop) (s : σ) : σ → Prop where
  | start : Reach step G s s
  | next {t t' : σ} {a : α} (h : Reach step G s t) (hG : G t a) (hs : step t a = some t') :
      Reach step G s t'

/-- **The invariant rule for reached states.** -/
theorem Reach.invariant {I : σ → Prop} (h0 : I s)
    (hstep : ∀ t a t', I t → G t a → step t a = some t' → I t') (h : Reach step G s t) : I t := by
  induction h with
  | start => exact h0
  | next _ hG hs ih => exact hstep _ _ _ ih hG hs

theorem Reach.trans {u : σ} (h : Reach step G s t) (h' : Reach step G t u) : Reach step G s u := by
  induction h' with
  | start => exact h
  | next _ hG hs ih => exact .next ih hG hs

/-- Take these actions one after the other. -/
def exec (step : σ → α → Option σ) (s : σ) : List α → Option σ
  | [] => some s
  | a :: as => (step s a).bind fun t => exec step t as

/-- The actions can be taken, and each meets `G`. -/
def Meets (step : σ → α → Option σ) (G : σ → α → Prop) (s : σ) : List α → Prop
  | [] => True
  | a :: as => G s a ∧ ∃ t ∈ step s a, Meets step G t as

instance meets_decidable (step : σ → α → Option σ) (G : σ → α → Prop) [∀ s a, Decidable (G s a)]
    (s : σ) (acts : List α) : Decidable (Meets step G s acts) :=
  match acts with
  | [] => .isTrue trivial
  | a :: as =>
    have := fun t => meets_decidable step G t as
    inferInstanceAs (Decidable (G s a ∧ ∃ t ∈ step s a, Meets step G t as))

/-- **What can be executed is reached.** -/
theorem Meets.reach {acts : List α} (h : Meets step G s acts) :
    ∃ t, exec step s acts = some t ∧ Reach step G s t := by
  suffices hgen : ∀ s₀, Reach step G s₀ s → ∃ t, exec step s acts = some t ∧ Reach step G s₀ t from
    hgen s .start
  induction acts generalizing s with
  | nil => exact fun _ h0 => ⟨s, rfl, h0⟩
  | cons a as ih =>
    obtain ⟨hG, u, hu, hrest⟩ := h
    have hstep : step s a = some u := hu
    intro s₀ h0
    obtain ⟨t, ht, hreach⟩ := ih hrest s₀ (.next h0 hG hstep)
    refine ⟨t, ?_, hreach⟩
    rw [exec, hstep]
    exact ht

/-- The state after actions that can be taken. -/
def after (step : σ → α → Option σ) (s : σ) (acts : List α) : σ := (exec step s acts).getD s

theorem Meets.reach_after {acts : List α} (h : Meets step G s acts) :
    Reach step G s (after step s acts) := by
  obtain ⟨t, ht, hreach⟩ := h.reach
  unfold after
  rw [ht]
  exact hreach

theorem step_eq_after {a : α} (h : (step s a).isSome = true) :
    step s a = some (after step s [a]) := by
  obtain ⟨t, ht⟩ := Option.isSome_iff_exists.mp h
  rw [after, exec, ht]
  rfl

theorem meets_of_forall {G : α → Prop} {acts : List α} (h : ∀ a ∈ acts, G a)
    (hs : (exec step s acts).isSome = true) : Meets step (fun _ => G) s acts := by
  induction acts generalizing s with
  | nil => trivial
  | cons a as ih =>
    obtain ⟨t, ht⟩ := Option.isSome_iff_exists.mp hs
    obtain ⟨u, hu, hrest⟩ := Option.bind_eq_some_iff.mp ht
    refine ⟨h a mem_cons_self, u, hu, ih (fun b hb => ?_) ?_⟩
    · exact h b (mem_cons_of_mem _ hb)
    · rw [hrest]
      rfl

end Reach

/-! Machines that take every input -/

section Iterate

variable {α : Type v} {step : σ → α → σ} {s : σ} {inputs : Nat → α}

/-- The state after the first `n` inputs of a stream. -/
def iterate (step : σ → α → σ) (s : σ) (inputs : Nat → α) : Nat → σ
  | 0 => s
  | n + 1 => step (iterate step s inputs n) (inputs n)

theorem iterate_invariant {I : σ → Prop} (h0 : I s)
    (hstep : ∀ n t, I t → I (step t (inputs n))) (n : Nat) : I (iterate step s inputs n) := by
  induction n with
  | zero => exact h0
  | succ n ih => exact hstep _ _ ih

/-- **A rank that falls until the machine is done**, in the states that the invariant allows: the
machine comes to be done. -/
theorem eventually_of_rank {I done : σ → Prop} (rank : σ → Nat) (h0 : I s)
    (hkeep : ∀ n t, I t → I (step t (inputs n)))
    (hdown : ∀ n t, I t → ¬ done t → rank (step t (inputs n)) < rank t)
    (hstay : ∀ n t, done t → done (step t (inputs n))) :
    ∃ n, ∀ m, n ≤ m → done (iterate step s inputs m) := by
  have hfall n : (∃ k, k ≤ n ∧ done (iterate step s inputs k)) ∨
      rank (iterate step s inputs n) + n ≤ rank s := by
    induction n with
    | zero => exact .inr (le_rfl)
    | succ n ih =>
      by_cases hd : done (iterate step s inputs n)
      · exact .inl ⟨n, Nat.le_succ n, hd⟩
      · rcases ih with ⟨k, hk, hdk⟩ | hle
        · exact .inl ⟨k, Nat.le_succ_of_le hk, hdk⟩
        · have hlt := hdown n _ (iterate_invariant h0 hkeep n) hd
          rw [iterate]
          omega
  obtain ⟨k, _, hk⟩ : ∃ k, k ≤ rank s + 1 ∧ done (iterate step s inputs k) := by
    rcases hfall (rank s + 1) with h | h
    · exact h
    · omega
  refine ⟨k, fun m hm => ?_⟩
  induction m, hm using Nat.le_induction with
  | base => exact hk
  | succ m _ ih => exact hstay _ _ ih

end Iterate

end Machine
