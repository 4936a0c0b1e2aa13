/-
  File:      RocketMQ/Lib/Outcome.lean
  Subject:   Programs that return a value or an error, or crash on an index out of range.

  * `Outcome`: what a call comes to; a program is written in its monad;
  * `Sat E P x`: **`x` does not crash**, a value it returns meets `P` and an error it returns meets
    `E`, with a rule for each construct (`Sat.bind`, `Sat.failIf_bind`, `Sat.loop`, `Sat.foldlM`,
    `Sat.foldlM_zipIdx`, `Sat.forRange`);
  * `Below x y`: what `x` returns, `y` returns as well; `Both R x y`: both return, and what they
    return is related;
  * `loop body fuel s`: a loop that leaves from inside; running out of turns counts as a crash, so
    that a program that does not crash also comes to an end; `Turns`: the states it gets to, with
    `Turns.loop_eq_crash` and `Sat.loop_turns`;
  * `index`, `store`, `slice`, `dropFrom`, `uint`: access to a list that crashes out of range.
-/
import RocketMQ.Lib.Binary

/-- A value, an error that is returned, or a crash. -/
inductive Outcome (ε α : Type) where
  | ok (a : α)
  | error (e : ε)
  | crash
deriving DecidableEq, Repr

namespace Outcome

open List

variable {ε α β σ : Type}

/-! ## 1. The monad -/

def andThen (x : Outcome ε α) (f : α → Outcome ε β) : Outcome ε β :=
  match x with
  | ok a => f a
  | error e => error e
  | crash => crash

instance : Monad (Outcome ε) where
  pure := ok
  bind := andThen

instance : LawfulMonad (Outcome ε) := LawfulMonad.mk'
  (Outcome ε)
  (by intro _ x; cases x <;> rfl)
  (by intro _ _ _ _; rfl)
  (by intro _ _ _ x _ _; cases x <;> rfl)

@[simp] theorem pure_eq (a : α) : (pure a : Outcome ε α) = ok a := rfl

@[simp] theorem ok_bind (a : α) (f : α → Outcome ε β) : ok a >>= f = f a := rfl

@[simp] theorem error_bind (e : ε) (f : α → Outcome ε β) : error e >>= f = error e := rfl

@[simp] theorem crash_bind (f : α → Outcome ε β) : (crash : Outcome ε α) >>= f = crash := rfl

theorem bind_eq_ok {x : Outcome ε α} {f : α → Outcome ε β} {b : β} :
    x >>= f = ok b ↔ ∃ a, x = ok a ∧ f a = ok b := by
  cases x <;> simp

/-- The check in front of the rest: `if bad { return err }`. -/
def failIf (bad : Prop) [Decidable bad] (e : ε) : Outcome ε Unit := if bad then error e else ok ()

variable {bad : Prop} {e : ε}

theorem failIf_neg [Decidable bad] (h : ¬ bad) : failIf bad e = ok () :=
  if_neg h

theorem failIf_pos [Decidable bad] (h : bad) : failIf bad e = error e :=
  if_pos h

theorem not_of_failIf [Decidable bad] {u : Unit} (h : failIf bad e = ok u) : ¬ bad := by
  intro hbad
  cases (failIf_pos hbad).symm.trans h

/-! ## 2. Without a crash -/

/-- **No crash: a value that meets `P`, or an error that meets `E`.** -/
inductive Sat (E : ε → Prop) (P : α → Prop) : Outcome ε α → Prop where
  | value {a : α} (h : P a) : Sat E P (ok a)
  | fails {e : ε} (h : E e) : Sat E P (error e)

/-- No crash, whatever the error. -/
abbrev Safe (P : α → Prop) (x : Outcome ε α) : Prop := Sat (fun _ => True) P x

/-- A value, and no error. -/
abbrev Returns (P : α → Prop) (x : Outcome ε α) : Prop := Sat (fun _ => False) P x

section Sat

variable {E : ε → Prop} {P Q : α → Prop} {R : β → Prop} {x : Outcome ε α} {f : α → Outcome ε β}

theorem sat_ok {a : α} (h : P a) : Sat E P (ok a : Outcome ε α) := .value h

theorem sat_pure {a : α} (h : P a) : Sat E P (pure a : Outcome ε α) := .value h

theorem Sat.mono (h : Sat E P x) (himp : ∀ a, P a → Q a) : Sat E Q x := by
  cases h with
  | value h => exact .value (himp _ h)
  | fails h => exact .fails h

theorem Sat.bind (hx : Sat E P x) (hf : ∀ a, P a → Sat E R (f a)) : Sat E R (x >>= f) := by
  cases hx with
  | value h => exact hf _ h
  | fails h => exact .fails h

theorem Sat.of_ok {a : α} (h : Sat E P x) (heq : x = ok a) : P a := by
  subst heq
  cases h with
  | value h => exact h

theorem Sat.with_eq (h : Sat E P x) : Sat E (fun a => P a ∧ x = ok a) x := by
  cases h with
  | value h => exact .value ⟨h, rfl⟩
  | fails h => exact .fails h

theorem Sat.ne_crash (h : Sat E P x) : x ≠ crash := by
  rintro rfl
  cases h

theorem Sat.ok_or_error (h : Sat E P x) : (∃ a, x = ok a) ∨ ∃ e, x = error e := by
  cases h with
  | value _ => exact .inl ⟨_, rfl⟩
  | fails _ => exact .inr ⟨_, rfl⟩

theorem Returns.exists (h : Returns P x) : ∃ a, x = ok a ∧ P a := by
  cases h with
  | value h => exact ⟨_, rfl, h⟩
  | fails h => exact h.elim

theorem Sat.error_of_ne_ok (h : Sat E P x) (hne : ∀ a, x ≠ ok a) : ∃ e, x = error e := by
  cases h with
  | value h => exact absurd rfl (hne _)
  | fails h => exact ⟨_, rfl⟩

theorem Sat.failIf_bind [Decidable bad] {g : Unit → Outcome ε β}
    (he : bad → E e) (h : ¬ bad → Sat E R (g ())) : Sat E R (failIf bad e >>= g) := by
  by_cases hbad : bad
  · rw [failIf_pos hbad]
    exact .fails (he hbad)
  · rw [failIf_neg hbad]
    exact h hbad

theorem Safe.failIf_bind [Decidable bad] {g : Unit → Outcome ε β}
    (h : ¬ bad → Safe R (g ())) : Safe R (failIf bad e >>= g) :=
  Sat.failIf_bind (fun _ => trivial) h

theorem failIf_safe [Decidable bad] : Safe (fun _ => True) (failIf bad e : Outcome ε Unit) := by
  unfold failIf
  split
  · exact .fails trivial
  · exact .value trivial

end Sat

/-! ## 3. What one program returns, another returns as well -/

/-- Whatever `x` returns, `y` returns. -/
def Below (x y : Outcome ε α) : Prop := ∀ a, x = ok a → y = ok a

section Below

variable {x y : Outcome ε α} {f g : α → Outcome ε β}

theorem Below.refl (x : Outcome ε α) : Below x x := fun _ h => h

theorem Below.bind (hx : Below x y) (hf : ∀ a, x = ok a → Below (f a) (g a)) :
    Below (x >>= f) (y >>= g) := by
  intro b h
  obtain ⟨a, ha, hb⟩ := bind_eq_ok.mp h
  rw [hx a ha]
  exact hf a ha b hb

theorem Below.failIf_bind {bad bad' : Prop} [Decidable bad] [Decidable bad'] {e e' : ε}
    {f g : Unit → Outcome ε β} (himp : bad' → bad) (h : ¬ bad → Below (f ()) (g ())) :
    Below (failIf bad e >>= f) (failIf bad' e' >>= g) := by
  by_cases hbad : bad
  · rw [failIf_pos hbad]
    intro b hb
    cases hb
  · rw [failIf_neg hbad, failIf_neg (fun h' => hbad (himp h'))]
    exact h hbad

end Below

/-! ## 4. Loops -/

/-- Turn after turn of `body`, until one leaves with a result. -/
def loop (body : σ → Outcome ε (σ ⊕ β)) : Nat → σ → Outcome ε β
  | 0, _ => crash
  | fuel + 1, s => body s >>= Sum.elim (loop body fuel) ok

section Loop

variable {body body' : σ → Outcome ε (σ ⊕ β)} {s t : σ} {b : β} {fuel fuel' : Nat}

theorem loop_next (h : body s = ok (.inl t)) : loop body (fuel + 1) s = loop body fuel t := by
  rw [loop, h]
  rfl

theorem loop_done (h : body s = ok (.inr b)) : loop body (fuel + 1) s = ok b := by
  rw [loop, h]
  rfl

/-- **The loop rule**: an invariant, and a measure that every turn brings down. -/
theorem Sat.loop {E : ε → Prop} {I : σ → Prop} {Q : β → Prop} (μ : σ → Nat)
    (hbody : ∀ s, I s → Sat E (Sum.elim (fun t => I t ∧ μ t < μ s) Q) (body s))
    (h : I s) (hfuel : μ s < fuel) : Sat E Q (loop body fuel s) := by
  induction fuel generalizing s with
  | zero => omega
  | succ fuel ih =>
    refine Sat.bind (hbody s h) fun r hr => ?_
    cases r with
    | inl t =>
      obtain ⟨ht, hlt⟩ := hr
      exact ih ht (by omega)
    | inr b => exact .value hr

theorem Below.loop (hbody : ∀ s, Below (body s) (body' s)) (hfuel : fuel ≤ fuel') :
    Below (loop body fuel s) (loop body' fuel' s) := by
  induction fuel generalizing s fuel' with
  | zero =>
    intro b hb
    cases hb
  | succ fuel ih =>
    obtain ⟨fuel'', rfl⟩ : ∃ k, fuel' = k + 1 := ⟨fuel' - 1, by omega⟩
    refine Below.bind (hbody s) fun r _ => ?_
    cases r with
    | inl t => exact ih (by omega)
    | inr b => exact Below.refl _

/-- Both programs return, and what they return is related. -/
inductive Both (R : α → β → Prop) : Outcome ε α → Outcome ε β → Prop where
  | value {a : α} {b : β} (h : R a b) : Both R (ok a) (ok b)

theorem Both.exists {R : α → β → Prop} {x : Outcome ε α} {y : Outcome ε β} (h : Both R x y) :
    ∃ a b, x = ok a ∧ y = ok b ∧ R a b := by
  cases h with
  | value h => exact ⟨_, _, rfl, rfl, h⟩

theorem Both.bind {γ δ : Type} {R : α → β → Prop} {Q : γ → δ → Prop} {x : Outcome ε α}
    {y : Outcome ε β} {f : α → Outcome ε γ} {g : β → Outcome ε δ} (h : Both R x y)
    (hf : ∀ a b, R a b → Both Q (f a) (g b)) : Both Q (x >>= f) (y >>= g) := by
  cases h with
  | value h => exact hf _ _ h

/-- **Two loops in step.** -/
theorem Both.loop {τ : Type} {R : σ → τ → Prop} {Q : α → β → Prop}
    {f : σ → Outcome ε (σ ⊕ α)} {g : τ → Outcome ε (τ ⊕ β)} (μ : σ → Nat)
    (hbody : ∀ s t, R s t →
      Both (Sum.LiftRel (fun s' t' => R s' t' ∧ μ s' < μ s) Q) (f s) (g t))
    {s : σ} {t : τ} (h : R s t) (hfuel : μ s < fuel) :
    Both Q (loop f fuel s) (loop g fuel t) := by
  induction fuel generalizing s t with
  | zero => omega
  | succ fuel ih =>
    refine Both.bind (hbody s t h) fun a b hab => ?_
    cases hab with
    | inl hnext => exact ih hnext.1 (by omega)
    | inr hdone => exact .value hdone

/-- The loop gets from one state to another, turn by turn. -/
inductive Turns (body : σ → Outcome ε (σ ⊕ β)) (s : σ) : σ → Prop where
  | here : Turns body s s
  | next {t u : σ} (h : Turns body s t) (hturn : body t = ok (.inl u)) : Turns body s u

theorem Turns.cases_head {u : σ} (h : Turns body s u) :
    s = u ∨ ∃ t, body s = ok (.inl t) ∧ Turns body t u := by
  induction h with
  | here => exact .inl rfl
  | next _ hlast ih =>
    rcases ih with rfl | ⟨t, hturn, hrest⟩
    · exact .inr ⟨_, hlast, .here⟩
    · exact .inr ⟨t, hturn, hrest.next hlast⟩

theorem Turns.invariant {I : σ → Prop} (h : Turns body s t) (hs : I s)
    (hstep : ∀ s t, I s → body s = ok (.inl t) → I t) : I t := by
  induction h with
  | here => exact hs
  | next _ hturn ih => exact hstep _ _ ih hturn

/-- **A loop that gets to a turn that crashes crashes.** -/
theorem Turns.loop_eq_crash {t : σ} (h : Turns body s t) (hcrash : body t = crash) (fuel : Nat) :
    loop body fuel s = crash := by
  induction fuel generalizing s with
  | zero => rfl
  | succ fuel ih =>
    rcases h.cases_head with rfl | ⟨u, hturn, hrest⟩
    · rw [loop, hcrash, crash_bind]
    · rw [loop_next hturn]
      exact ih hrest

theorem Sat.loop_turns {E : ε → Prop} {I : σ → Prop} {Q : β → Prop} (μ : σ → Nat)
    (hbody : ∀ t, Turns body s t → I t → Sat E (Sum.elim (fun u => I u ∧ μ u < μ t) Q) (body t))
    (h : I s) (hfuel : μ s < fuel) : Sat E Q (Outcome.loop body fuel s) := by
  refine Sat.loop (I := fun t => Turns body s t ∧ I t) μ (fun t ht => ?_) ⟨.here, h⟩ hfuel
  refine (hbody t ht.1 ht.2).with_eq.mono fun r hr => ?_
  obtain ⟨hr, heq⟩ := hr
  cases r with
  | inl u => exact ⟨⟨ht.1.next heq, hr.1⟩, hr.2⟩
  | inr b => exact hr

end Loop

variable {E : ε → Prop}

theorem Sat.foldlM {I : List α → σ → Prop} {f : σ → α → Outcome ε σ} {xs : List α}
    {s : σ} (h : I xs s) (hstep : ∀ x rest s, I (x :: rest) s → Sat E (I rest) (f s x)) :
    Sat E (I []) (xs.foldlM f s) := by
  induction xs generalizing s with
  | nil => exact .value h
  | cons x rest ih =>
    exact Sat.bind (hstep x rest s h) fun t ht => ih ht

theorem Sat.foldlM_zipIdx {I : List α → σ → Prop} {f : σ → α × Nat → Outcome ε σ}
    {xs : List α} {s : σ} (h : I [] s)
    (hstep : ∀ done x rest s, xs = done ++ x :: rest → I done s →
      Sat E (I (done ++ [x])) (f s (x, done.length))) :
    Sat E (I xs) (xs.zipIdx.foldlM f s) := by
  have hall : ∀ rest done s, xs = done ++ rest → I done s →
      Sat E (I xs) ((rest.zipIdx done.length).foldlM f s) := by
    intro rest
    induction rest with
    | nil =>
      intro done s heq hs
      rw [append_nil] at heq
      subst heq
      exact .value hs
    | cons x rest ih =>
      intro done s heq hs
      refine Sat.bind (hstep done x rest s heq hs) fun t ht => ?_
      have hnext := ih (done ++ [x]) t (by rw [heq, append_assoc]; rfl) ht
      rwa [length_append] at hnext
  exact hall xs [] s rfl h

theorem Sat.forRange {I : Nat → σ → Prop} {f : σ → Nat → Outcome ε σ} {n : Nat}
    {s : σ} (h : I 0 s) (hstep : ∀ i s, i < n → I i s → Sat E (I (i + 1)) (f s i)) :
    Sat E (I n) ((List.range n).foldlM f s) := by
  have hall : ∀ k ≤ n, Sat E (I k) ((List.range k).foldlM f s) := by
    intro k hk
    induction k with
    | zero => exact .value h
    | succ k ih =>
      rw [range_succ, foldlM_append]
      refine Sat.bind (ih (by omega)) fun t ht => ?_
      exact Sat.bind (hstep k t (by omega) ht) fun u hu => .value hu
  exact hall n le_rfl

/-! ## 5. Access to lists -/

variable (xs : List α)

/-- `xs[i]`. -/
def index (i : Nat) : Outcome ε α := xs[i]?.elim crash ok

/-- `xs[i] = a`. -/
def store (i : Nat) (a : α) : Outcome ε (List α) :=
  if i < xs.length then ok (xs.set i a) else crash

/-- `xs[i]`, where the index may be negative. -/
def indexInt (i : Int) : Outcome ε α := if i < 0 then crash else index xs i.toNat

/-- `xs[i] = a`, where the index may be negative. -/
def storeInt (i : Int) (a : α) : Outcome ε (List α) :=
  if i < 0 then crash else store xs i.toNat a

/-- `xs[lo:hi]`. -/
def slice (lo hi : Nat) : Outcome ε (List α) :=
  if lo ≤ hi ∧ hi ≤ xs.length then ok ((xs.drop lo).take (hi - lo)) else crash

/-- `xs[lo:]`. -/
def dropFrom (lo : Nat) : Outcome ε (List α) :=
  if lo ≤ xs.length then ok (xs.drop lo) else crash

/-- `n << k`, where the count may be negative. -/
def shiftLeft (n : Nat) (k : Int) : Outcome ε Nat := if k < 0 then crash else ok (n <<< k.toNat)

/-- The little-endian number in the first `w` bytes. -/
def uint (w : Nat) (bs : List UInt8) : Outcome ε Nat :=
  if w ≤ bs.length then ok (Binary.littleNumber (bs.take w)) else crash

/-- The little-endian number in the `w` bytes from `p` on. -/
def uintAt (w : Nat) (bs : List UInt8) (p : Nat) : Outcome ε Nat := dropFrom bs p >>= uint w

section Access

variable {E : ε → Prop} {xs ys : List α} {i lo hi w p : Nat} {a : α} {bs cs : List UInt8}

theorem index_eq (h : xs[i]? = some a) : (index xs i : Outcome ε α) = ok a := by
  rw [index, h]
  rfl

theorem store_eq (h : i < xs.length) : (store xs i a : Outcome ε (List α)) = ok (xs.set i a) :=
  if_pos h

theorem slice_eq (h : lo ≤ hi) (h' : hi ≤ xs.length) :
    (slice xs lo hi : Outcome ε (List α)) = ok ((xs.drop lo).take (hi - lo)) :=
  if_pos ⟨h, h'⟩

theorem dropFrom_eq (h : lo ≤ xs.length) :
    (dropFrom xs lo : Outcome ε (List α)) = ok (xs.drop lo) :=
  if_pos h

theorem shiftLeft_eq {n : Nat} {k : Int} (h : 0 ≤ k) :
    (shiftLeft n k : Outcome ε Nat) = ok (n <<< k.toNat) :=
  if_neg (Int.not_lt.mpr h)

theorem uint_eq (h : w ≤ bs.length) :
    (uint w bs : Outcome ε Nat) = ok (Binary.littleNumber (bs.take w)) :=
  if_pos h

theorem uintAt_eq (h : p + w ≤ bs.length) :
    (uintAt w bs p : Outcome ε Nat) = ok (Binary.littleNumber ((bs.drop p).take w)) := by
  rw [uintAt, dropFrom_eq (by omega), ok_bind, uint_eq (by rw [length_drop]; omega)]

theorem sat_index (h : i < xs.length) :
    Sat E (fun a => xs[i]? = some a) (index xs i : Outcome ε α) := by
  rw [index_eq (getElem?_eq_getElem h)]
  exact .value (getElem?_eq_getElem h)

theorem sat_slice (h : lo ≤ hi) (h' : hi ≤ xs.length) :
    Sat E (fun part => part = (xs.drop lo).take (hi - lo) ∧ part.length = hi - lo)
      (slice xs lo hi : Outcome ε (List α)) := by
  rw [slice_eq h h']
  refine .value ⟨rfl, ?_⟩
  rw [length_take, length_drop]
  omega

theorem sat_uintAt (h : p + w ≤ bs.length) :
    Sat E (fun n => n = Binary.littleNumber ((bs.drop p).take w) ∧ n < 256 ^ w)
      (uintAt w bs p : Outcome ε Nat) := by
  rw [uintAt_eq h]
  refine .value ⟨rfl, ?_⟩
  have hlt := Binary.littleNumber_lt ((bs.drop p).take w)
  have hlen : ((bs.drop p).take w).length = w := by
    rw [length_take, length_drop]
    omega
  rwa [hlen] at hlt

theorem index_below : Below (index xs i) (index (xs ++ ys) i : Outcome ε α) := by
  intro a h
  cases hget : xs[i]? with
  | none =>
    rw [index, hget] at h
    cases h
  | some b =>
    cases (index_eq hget).symm.trans h
    obtain ⟨hi, _⟩ := List.getElem?_eq_some_iff.mp hget
    exact index_eq (by rw [getElem?_append_left hi]; exact hget)

theorem slice_below : Below (slice xs lo hi) (slice (xs ++ ys) lo hi : Outcome ε (List α)) := by
  intro part h
  unfold slice at h
  split at h
  case isFalse => cases h
  case isTrue hin =>
      cases h
      rw [slice_eq hin.1 (by rw [length_append]; omega), drop_append_of_le_length
        (by omega), take_append_of_le_length (by rw [length_drop]; omega)]

theorem uintAt_below (h : p + w ≤ bs.length) :
    Below (uintAt w bs p) (uintAt w (bs ++ cs) p : Outcome ε Nat) := by
  intro n hn
  rw [uintAt_eq h] at hn
  rw [uintAt_eq (by rw [length_append]; omega), drop_append_of_le_length (by omega),
    take_append_of_le_length (by rw [length_drop]; omega)]
  exact hn

end Access

end Outcome
