/-
  File:      RocketMQ/Lib/Decimal.lean
  Subject:   Decimal text of integers, and reading it back as a 64-bit integer.

  * `parseI64`: an optional sign, at least one digit, nothing else, within 64 bits;
  * `parseI64_toString`: reading the decimal text of a 64-bit integer returns it;
  * `mem_toString_int`: decimal text holds digits and at most a leading minus.
-/
import Mathlib

namespace Decimal

def i64Min : Int := -9223372036854775808

def i64Max : Int := 9223372036854775807

/-- A 64-bit value. -/
def InI64 (z : Int) : Prop := i64Min ≤ z ∧ z ≤ i64Max

instance (z : Int) : Decidable (InI64 z) := by unfold InI64; infer_instance

/-- One or more digits. -/
def parseDigits (cs : List Char) : Option Nat :=
  if cs ≠ [] ∧ cs.all Char.isDigit = true then some (Nat.ofDigitChars 10 cs 0) else none

/-- The number before the range check. -/
def parseSigned : List Char → Option Int
  | '-' :: cs => (parseDigits cs).map fun (n : Nat) => -(n : Int)
  | '+' :: cs => (parseDigits cs).map fun (n : Nat) => (n : Int)
  | cs => (parseDigits cs).map fun (n : Nat) => (n : Int)

/-- Reading a signed 64-bit integer. -/
def parseI64 (s : String) : Option Int := (parseSigned s.toList).filter fun z => decide (InI64 z)

theorem toList_toString_nat (n : Nat) : (toString n).toList = Nat.toDigits 10 n := by
  rw [Nat.toString_eq_ofList_toDigits, String.toList_ofList]

theorem toList_toString_int (z : Int) :
    (toString z).toList
      = if z < 0 then '-' :: Nat.toDigits 10 z.natAbs else Nat.toDigits 10 z.natAbs := by
  cases z with
  | ofNat n =>
    have hn : ¬ (Int.ofNat n < 0) := by simp
    exact toList_toString_nat n
  | negSucc n =>
    have hn : Int.negSucc n < 0 := Int.negSucc_lt_zero n
    rw [if_pos hn]
    show ("-" ++ toString n.succ).toList = _
    rw [String.toList_append, toList_toString_nat]
    rfl

theorem parseDigits_toDigits (n : Nat) : parseDigits (Nat.toDigits 10 n) = some n := by
  have hall : (Nat.toDigits 10 n).all Char.isDigit = true := by
    rw [List.all_eq_true]
    intro c hc
    exact Nat.isDigit_of_mem_toDigits (by decide) (by decide) hc
  unfold parseDigits
  rw [if_pos ⟨Nat.toDigits_ne_nil, hall⟩, Nat.ofDigitChars_ten_toDigits]

theorem parseSigned_toDigits (n : Nat) : parseSigned (Nat.toDigits 10 n) = some (n : Int) := by
  have hd : ∀ c ∈ Nat.toDigits 10 n, c.isDigit = true := fun c hc =>
    Nat.isDigit_of_mem_toDigits (by decide) (by decide) hc
  have hp := parseDigits_toDigits n
  generalize Nat.toDigits 10 n = cs at hd hp
  -- neither sign is a digit, so the third equation applies
  unfold parseSigned
  split
  · exact absurd (hd '-' (by simp)) (by decide)
  · exact absurd (hd '+' (by simp)) (by decide)
  · rw [hp]; rfl

theorem parseSigned_toString (z : Int) : parseSigned (toString z).toList = some z := by
  rw [toList_toString_int]
  split
  · have hz : -(z.natAbs : Int) = z := by omega
    rw [parseSigned, parseDigits_toDigits, Option.map_some, hz]
  · have hz : (z.natAbs : Int) = z := by omega
    rw [parseSigned_toDigits, hz]

/-- **Reading decimal text back.** -/
theorem parseI64_toString {z : Int} (hz : InI64 z) : parseI64 (toString z) = some z := by
  unfold parseI64
  rw [parseSigned_toString]
  simp [hz]

theorem parseI64_of_not {z : Int} (hz : ¬ InI64 z) : parseI64 (toString z) = none := by
  unfold parseI64
  rw [parseSigned_toString]
  simp [hz]

theorem mem_toString_int {z : Int} {c : Char} (h : c ∈ (toString z).toList) :
    c = '-' ∨ c.isDigit = true := by
  have hd : ∀ n : Nat, c ∈ Nat.toDigits 10 n → c.isDigit = true := fun n hc =>
    Nat.isDigit_of_mem_toDigits (by decide) (by decide) hc
  rw [toList_toString_int] at h
  split at h
  · rcases List.mem_cons.mp h with h | h
    · exact .inl h
    · exact .inr (hd _ h)
  · exact .inr (hd _ h)

end Decimal
