/-
  File:      RocketMQ/Compress/ZstdBits.lean
  Subject:   The bit readers of the ZSTD decoder (`common/zstd_entropy.go`).

  * `zstdReadBitsLE_sat`: **reading never leaves the stream, and a read of `n` bits is below `2 ^ n`**.
-/
import RocketMQ.Compress.Xxh32

namespace RocketMQ.Compress

open Outcome

/-! ## 1. The readers -/

/-- `for v != 0 { v >>= 1; r++ }`; an `int` has 64 bits. -/
def highBitLoop : Nat → Nat → Int → Int
  | 0, _, r => r
  | fuel + 1, v, r => if v ≠ 0 then highBitLoop fuel (v >>> 1) (r + 1) else r

/-- `zstdHighBit`, of a value that is not negative. -/
def zstdHighBit (v : Nat) : Int := highBitLoop 64 v (-1)

/-- One turn of the loop over the eight bytes of the window. -/
def windowByte {ε : Type} (src : List UInt8) (first : Int) (window i : Nat) : Outcome ε Nat :=
  let j := first + i
  if j < 0 then return window
  else if j ≥ src.length then return window
  else do
    let b ← index src j.toNat
    return window ||| b.toNat <<< (8 * i)

def zstdReadBitsLE {ε : Type} (src : List UInt8) (numBits : Nat) (bitOff : Int) : Outcome ε Nat :=
  if numBits = 0 then return 0
  else do
    let window ← (List.range 8).foldlM (windowByte src (bitOff >>> (3 : Nat))) 0
    let val := window >>> (bitOff % 8).toNat
    return if numBits ≥ 64 then val else val &&& (1 <<< numBits - 1)

/-- `zstdBitReader`. -/
structure BitReader where
  src : List UInt8
  bits : Nat

def BitReader.read {ε : Type} (br : BitReader) (n : Nat) : Outcome ε (Nat × BitReader) := do
  let v ← zstdReadBitsLE br.src n br.bits
  return (v, { br with bits := br.bits + n })

variable (br : BitReader)

def BitReader.rewind (n : Nat) : BitReader := { br with bits := br.bits - n }

/-- `(br.bits + 7) &^ 7`. -/
def BitReader.align : BitReader := { br with bits := (br.bits + 7) / 8 * 8 }

def BitReader.consumed : Nat := (br.bits + 7) / 8

/-! ## 2. The highest bit -/

theorem highBitLoop_eq (fuel v : Nat) (r : Int) (h : v < 2 ^ fuel) :
    highBitLoop fuel v r = if v = 0 then r else r + 1 + Nat.log2 v := by
  induction fuel generalizing v r with
  | zero =>
    rw [if_pos (by omega)]
    rfl
  | succ fuel ih =>
    rw [highBitLoop]
    by_cases hv : v = 0
    · rw [if_neg (by simp [hv]), if_pos hv]
    · have hlog : v.log2 = if 2 ≤ v then (v / 2).log2 + 1 else 0 := Nat.log2_def v
      rw [if_pos hv, if_neg hv, ih _ _ (by omega),
        Nat.shiftRight_eq_div_pow, hlog]
      by_cases hone : v / 2 = 0
      · rw [if_pos hone, if_neg (show ¬ 2 ≤ v by omega)]
        simp
      · push_cast
        omega

theorem zstdHighBit_eq {v : Nat} (hv : v ≠ 0) (h : v < 2 ^ 64) : zstdHighBit v = Nat.log2 v := by
  rw [zstdHighBit, highBitLoop_eq 64 v (-1) h]
  omega

/-! ## 3. Reads stay inside the stream -/

section Reads

variable {ε : Type} {E : ε → Prop} {src : List UInt8}

theorem windowByte_sat (first : Int) (window i : Nat) :
    Sat E (fun w => first ≥ src.length → w = window) (windowByte src first window i : Outcome ε Nat) := by
  unfold windowByte
  dsimp only
  split
  · exact sat_pure fun _ => rfl
  · split
    · exact sat_pure fun _ => rfl
    · refine Sat.bind (sat_index (by omega)) fun b _ => sat_ok ?_
      omega

theorem window_sat (first : Int) :
    Sat E (fun w => first ≥ src.length → w = 0)
      ((List.range 8).foldlM (windowByte src first) 0 : Outcome ε Nat) := by
  refine Sat.forRange (I := fun _ w => first ≥ src.length → w = 0) (fun _ => rfl)
    fun i w _ hw => (windowByte_sat first w i).mono ?_
  intro w' hw' hpast
  rw [hw' hpast, hw hpast]

theorem zstdReadBitsLE_sat {numBits : Nat} (h : numBits < 64) (bitOff : Int) :
    Sat E (fun v => v < 2 ^ numBits ∧ (bitOff ≥ 8 * src.length → v = 0))
      (zstdReadBitsLE src numBits bitOff : Outcome ε Nat) := by
  unfold zstdReadBitsLE
  split
  · rename_i hzero
    subst hzero
    exact sat_pure ⟨by decide, fun _ => rfl⟩
  · refine Sat.bind (window_sat (bitOff >>> (3 : Nat))) fun window hw => sat_ok ?_
    rw [if_neg (by omega), Nat.one_shiftLeft, Nat.and_two_pow_sub_one_eq_mod]
    refine ⟨Nat.mod_lt _ (Nat.two_pow_pos numBits), fun hpast => ?_⟩
    have hzero : window = 0 := hw (by rw [Int.shiftRight_eq_div_pow]; omega)
    rw [hzero, Nat.zero_shiftRight, Nat.zero_mod]

theorem zstdReadBitsLE_returns (numBits : Nat) (bitOff : Int) :
    Sat E (fun _ => True) (zstdReadBitsLE src numBits bitOff : Outcome ε Nat) := by
  unfold zstdReadBitsLE
  split
  · exact sat_pure trivial
  · exact Sat.bind (window_sat _) fun _ _ => sat_pure trivial

theorem BitReader.read_sat {n : Nat} (h : n < 64) :
    Sat E (fun r => r.1 < 2 ^ n ∧ (br.bits ≥ 8 * br.src.length → r.1 = 0) ∧
      r.2 = { br with bits := br.bits + n }) (br.read n : Outcome ε (Nat × BitReader)) := by
  refine Sat.bind (zstdReadBitsLE_sat h br.bits) fun v hv => sat_ok ?_
  exact ⟨hv.1, fun hpast => hv.2 (by omega), rfl⟩

end Reads

end RocketMQ.Compress
