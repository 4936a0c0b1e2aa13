/-
  File:      RocketMQ/Lib/Binary.lean
  Subject:   Numbers in bytes, and readers that go through bytes by position.

  * `bigEndian`, `number`: a number in a fixed count of bytes, and back; `littleEndian` and
    `littleNumber`: the same with the lowest byte first;
  * `Read`: a reader gets all the bytes and a position, and returns a value and the next position;
  * `Reads`: **a reader undoes a writer**, wherever in the bytes the writing stands;
    `Reads.bind` composes it field by field;
  * `Read.Only`, `Read.Advances`: how a reader can fail, and how far it goes at least.
-/
import Mathlib

namespace Binary

open List

/-! ## 1. Numbers -/

/-- The lowest `w` bytes of a number, the highest of them first. -/
def bigEndian : Nat → Nat → List UInt8
  | 0, _ => []
  | w + 1, n => UInt8.ofNat (n / 256 ^ w) :: bigEndian w n

variable (bs : List UInt8)

/-- The number that the bytes stand for. -/
def number : Nat := bs.foldl (fun n b => n * 256 + b.toNat) 0

@[simp] theorem length_bigEndian (w n : Nat) : (bigEndian w n).length = w := by
  induction w with
  | zero => rfl
  | succ w ih => rw [bigEndian, length_cons, ih]

theorem foldl_number (n : Nat) :
    bs.foldl (fun n b => n * 256 + b.toNat) n = n * 256 ^ bs.length + number bs := by
  unfold number
  induction bs generalizing n with
  | nil => simp
  | cons b bs ih =>
    rw [foldl_cons, foldl_cons, ih, ih (0 * 256 + b.toNat), length_cons]
    ring

theorem number_cons (b : UInt8) (bs : List UInt8) :
    number (b :: bs) = b.toNat * 256 ^ bs.length + number bs := by
  have h := foldl_number bs b.toNat
  rw [number, foldl_cons, Nat.zero_add]
  exact h

theorem number_lt : number bs < 256 ^ bs.length := by
  induction bs with
  | nil => decide
  | cons b bs ih =>
    have hb : b.toNat < 256 := b.toNat_lt
    rw [number_cons, length_cons]
    have hmul : b.toNat * 256 ^ bs.length ≤ 255 * 256 ^ bs.length :=
      Nat.mul_le_mul_right _ (by omega)
    omega

/-- **What was written is read**, up to the bytes there were. -/
theorem number_bigEndian (w n : Nat) : number (bigEndian w n) = n % 256 ^ w := by
  induction w with
  | zero => simp [bigEndian, number, Nat.mod_one]
  | succ w ih =>
    have hpow : 256 ^ (w + 1) = 256 ^ w * 256 := pow_succ 256 w
    have hbyte : (UInt8.ofNat (n / 256 ^ w)).toNat = n / 256 ^ w % 256 := UInt8.toNat_ofNat'
    rw [bigEndian, number_cons, ih, length_bigEndian, hbyte, hpow, Nat.mod_mul]
    ring

/-- The lowest `w` bytes of a number, the lowest of them first. -/
def littleEndian (w n : Nat) : List UInt8 := (bigEndian w n).reverse

/-- The number that the bytes stand for when the lowest comes first. -/
def littleNumber : Nat := number bs.reverse

@[simp] theorem length_littleEndian (w n : Nat) : (littleEndian w n).length = w := by
  rw [littleEndian, length_reverse, length_bigEndian]

theorem littleNumber_lt : littleNumber bs < 256 ^ bs.length := by
  have h := number_lt bs.reverse
  rwa [length_reverse] at h

theorem littleNumber_littleEndian (w n : Nat) : littleNumber (littleEndian w n) = n % 256 ^ w := by
  rw [littleNumber, littleEndian, reverse_reverse, number_bigEndian]

theorem eq_of_number_eq {as bs : List UInt8} (hlen : as.length = bs.length)
    (h : number as = number bs) : as = bs := by
  induction as generalizing bs with
  | nil => exact (length_eq_zero_iff.mp hlen.symm).symm
  | cons a as ih =>
    cases bs with
    | nil => cases hlen
    | cons b bs =>
      have hlen' : as.length = bs.length := Nat.succ.inj hlen
      have hpos : 0 < 256 ^ bs.length := Nat.pow_pos (by decide)
      have has := number_lt as
      have hbs := number_lt bs
      rw [number_cons, number_cons, hlen'] at h
      rw [hlen'] at has
      -- the first byte is the quotient by `256 ^ bs.length`, the rest the remainder
      have hq : a.toNat = b.toNat := by
        have hdiv := congrArg (· / 256 ^ bs.length) h
        simp only [mul_comm _ (256 ^ bs.length), Nat.mul_add_div hpos,
          Nat.div_eq_of_lt has, Nat.div_eq_of_lt hbs] at hdiv
        exact hdiv
      rw [hq] at h
      rw [UInt8.toNat_inj.mp hq, ih hlen' (by omega)]

theorem eq_of_littleNumber_eq {as bs : List UInt8} (hlen : as.length = bs.length)
    (h : littleNumber as = littleNumber bs) : as = bs :=
  reverse_injective (eq_of_number_eq (by simpa using hlen) h)

theorem littleNumber_append (as bs : List UInt8) :
    littleNumber (as ++ bs) = littleNumber as + 256 ^ as.length * littleNumber bs := by
  rw [littleNumber, reverse_append, number, foldl_append, foldl_number, length_reverse]
  exact (add_comm _ _).trans (congrArg _ (mul_comm _ _))

theorem littleNumber_cons (b : UInt8) (bs : List UInt8) :
    littleNumber (b :: bs) = b.toNat + 256 * littleNumber bs := by
  have h := littleNumber_append [b] bs
  simpa [littleNumber, number] using h

/-- **What was read is written**, in as many bytes. -/
theorem littleEndian_littleNumber : littleEndian bs.length (littleNumber bs) = bs := by
  refine eq_of_littleNumber_eq (length_littleEndian _ _) ?_
  rw [littleNumber_littleEndian, Nat.mod_eq_of_lt (littleNumber_lt bs)]

/-! ## 2. Readers -/

/-- All the bytes and a position in, a value and the next position out. -/
def Read (ε α : Type) : Type := List UInt8 → Nat → Except ε (α × Nat)

variable {ε α β : Type}

namespace Read

/-- One reader after another. -/
def andThen (p : Read ε α) (f : α → Read ε β) : Read ε β := fun data pos =>
  match p data pos with
  | .ok (a, next) => f a data next
  | .error e => .error e

instance : Monad (Read ε) where
  pure a := fun _ pos => .ok (a, pos)
  bind := andThen

def fail (e : ε) : Read ε α := fun _ _ => .error e

/-- The next `n` bytes; `underflow` is told how many were needed and how many there are. -/
def take (underflow : Nat → Nat → ε) (n : Nat) : Read ε (List UInt8) := fun data pos =>
  if pos + n ≤ data.length then .ok ((data.drop pos).take n, pos + n)
  else .error (underflow (pos + n) data.length)

/-- Where the reader stands. -/
def position : Read ε Nat := fun _ pos => .ok (pos, pos)

/-- How many bytes there are, those before the position included. -/
def size : Read ε Nat := fun data pos => .ok (data.length, pos)

theorem bind_eq (p : Read ε α) (f : α → Read ε β) (data : List UInt8) (pos : Nat) :
    (p >>= f) data pos = match p data pos with
      | .ok (a, next) => f a data next
      | .error e => .error e := rfl

theorem bind_assoc {γ : Type} (p : Read ε α) (f : α → Read ε β) (g : β → Read ε γ) :
    (p >>= f) >>= g = p >>= fun a => f a >>= g := by
  funext data pos
  rw [bind_eq, bind_eq, bind_eq]
  cases p data pos with
  | error | ok => rfl

end Read

/-! ## 3. A reader undoes a writer -/

/-- **Wherever these bytes stand, the reader reads them as this value** and goes behind them. -/
def Reads (p : Read ε α) (bs : List UInt8) (a : α) : Prop :=
  ∀ u r, p (u ++ (bs ++ r)) u.length = .ok (a, u.length + bs.length)

namespace Reads

theorem pure (a : α) : Reads (pure a : Read ε α) [] a := fun _ _ => rfl

variable {as bs : List UInt8} {p : Read ε α} {a : α}

/-- **Field after field.** -/
theorem bind {f : α → Read ε β} {b : β} (hp : Reads p as a)
    (hf : Reads (f a) bs b) : Reads (p >>= f) (as ++ bs) b := by
  intro u r
  have hfirst := hp u (bs ++ r)
  have hnext := hf (u ++ as) r
  rw [append_assoc u, length_append] at hnext
  rw [Read.bind_eq, append_assoc as, hfirst, length_append, ← add_assoc]
  exact hnext

theorem bind_nil {f : α → Read ε β} {b : β} (hp : Reads p as a)
    (hf : Reads (f a) [] b) : Reads (p >>= f) as b := by
  have h := hp.bind hf
  rwa [append_nil] at h

theorem map (f : α → β) (hp : Reads p as a) : Reads (p >>= fun x => Pure.pure (f x)) as (f a) :=
  hp.bind_nil (Reads.pure (f a))

theorem take (underflow : Nat → Nat → ε) {n : Nat} (h : bs.length = n) :
    Reads (Read.take underflow n) bs bs := by
  intro u r
  unfold Read.take
  rw [if_pos (by simp [h]), drop_left, ← h, take_left]

theorem run (h : Reads p bs a) (r : List UInt8) : p (bs ++ r) 0 = .ok (a, bs.length) := by
  have hrun := h [] r
  rwa [length_nil, zero_add] at hrun

theorem whole (h : Reads p bs a) : p bs 0 = .ok (a, bs.length) := by
  have hrun := h.run []
  rwa [append_nil] at hrun

end Reads

/-! ## 4. How a reader fails -/

/-- Wherever these bytes stand, the reader fails on them. -/
def Fails (p : Read ε α) (bs : List UInt8) : Prop :=
  ∀ u r, ∃ e, p (u ++ (bs ++ r)) u.length = .error e

theorem Reads.bind_fails {p : Read ε α} {f : α → Read ε β} {a : α} {as bs : List UInt8}
    (hp : Reads p as a) (hf : Fails (f a) bs) : Fails (p >>= f) (as ++ bs) := by
  intro u r
  obtain ⟨e, he⟩ := hf (u ++ as) r
  rw [append_assoc u, length_append] at he
  exact ⟨e, by rw [Read.bind_eq, append_assoc as, hp u (bs ++ r)]; exact he⟩

theorem Fails.bind {p : Read ε α} {f : α → Read ε β} {as bs : List UInt8} (hp : Fails p as) :
    Fails (p >>= f) (as ++ bs) := by
  intro u r
  obtain ⟨e, he⟩ := hp u (bs ++ r)
  exact ⟨e, by rw [Read.bind_eq, append_assoc as, he]⟩

/-- The reader fails with such errors only. -/
def Read.Only (P : ε → Prop) (p : Read ε α) : Prop := ∀ data pos e, p data pos = .error e → P e

/-- The reader goes this far at least. -/
def Read.Advances (k : Nat) (p : Read ε α) : Prop :=
  ∀ data pos a next, p data pos = .ok (a, next) → pos + k ≤ next

namespace Read

variable {P : ε → Prop} {p : Read ε α} {f : α → Read ε β}

theorem Only.pure (a : α) : Only P (pure a : Read ε α) := fun _ _ _ h => nomatch h

theorem Only.fail {e : ε} (h : P e) : Only P (fail e : Read ε α) := by
  intro _ _ _ heq
  cases heq
  exact h

theorem Only.take {underflow : Nat → Nat → ε} (h : ∀ i j, P (underflow i j)) (n : Nat) :
    Only P (take underflow n) := by
  intro data pos e heq
  unfold Read.take at heq
  split at heq
  · cases heq
  · cases heq
    exact h _ _

theorem Only.bind (hp : Only P p) (hf : ∀ a, Only P (f a)) : Only P (p >>= f) := by
  intro data pos e heq
  rw [bind_eq] at heq
  cases hres : p data pos with
  | error e' =>
    rw [hres] at heq
    cases heq
    exact hp data pos e hres
  | ok x =>
    rw [hres] at heq
    exact hf x.1 data x.2 e heq

theorem Advances.bind {j k : Nat} (hp : Advances j p) (hf : ∀ a, Advances k (f a)) :
    Advances (j + k) (p >>= f) := by
  intro data pos b next heq
  rw [bind_eq] at heq
  cases hres : p data pos with
  | error e =>
    rw [hres] at heq
    cases heq
  | ok x =>
    rw [hres] at heq
    have hfirst := hp data pos x.1 x.2 hres
    have hnext := hf x.1 data x.2 b next heq
    omega

theorem Advances.mono {j k : Nat} (h : Advances k p) (hjk : j ≤ k) : Advances j p :=
  fun data pos a next heq => le_trans (Nat.add_le_add_left hjk pos) (h data pos a next heq)

theorem Advances.pure (a : α) : Advances 0 (pure a : Read ε α) := by
  intro _ _ _ _ heq
  cases heq
  exact le_rfl

theorem Advances.fail (k : Nat) (e : ε) : Advances k (fail e : Read ε α) :=
  fun _ _ _ _ heq => nomatch heq

theorem Advances.take (underflow : Nat → Nat → ε) (n : Nat) :
    Advances n (Read.take underflow n) := by
  intro data pos a next heq
  unfold Read.take at heq
  split at heq
  · cases heq
    exact le_rfl
  · cases heq

end Read

end Binary
