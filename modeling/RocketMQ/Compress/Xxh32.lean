/-
  File:      RocketMQ/Compress/Xxh32.lean
  Subject:   The checksum of LZ4 frames (`common/lz4.go`).

  * `xxh32`: four lanes over stripes of 16 bytes, then groups of 4 bytes, then single bytes;
  * `xxh32_sat`: **it returns a value for all bytes and every seed**.
-/
import RocketMQ.Lib.Outcome

namespace RocketMQ.Compress

open Outcome

/-- `DecodeError(message)` of `errors.go`: an error of the kind `KindDecode`. -/
structure DecodeError where
  message : String
deriving DecidableEq, Repr

/-- The verb `%x`. -/
def hex (n : Nat) : String := String.ofList (Nat.toDigits 16 n)

namespace Xxh32

/-! ## 1. The rounds -/

def p1 : UInt32 := 2654435761
def p2 : UInt32 := 2246822519
def p3 : UInt32 := 3266489917
def p4 : UInt32 := 668265263
def p5 : UInt32 := 374761393

/-- `bits.RotateLeft32`, by fewer than 32 places. -/
def rotateLeft32 (x k : UInt32) : UInt32 := x <<< k ||| x >>> (32 - k)

variable {ε : Type} (data : List UInt8)

/-- `binary.LittleEndian.Uint32(data[i:])`. -/
def lane (i : Nat) : Outcome ε UInt32 := do
  let u ← uintAt 4 data i
  return UInt32.ofNat u

def accumulate (lane v : UInt32) : UInt32 := rotateLeft32 (lane * p2 + v) 13 * p1

structure Lanes where
  i : Nat
  v1 : UInt32
  v2 : UInt32
  v3 : UInt32
  v4 : UInt32

/-- One stripe of 16 bytes. -/
def stripe (limit : Nat) (s : Lanes) : Outcome ε (Lanes ⊕ Lanes) := do
  let l1 ← lane data s.i
  let l2 ← lane data (s.i + 4)
  let l3 ← lane data (s.i + 8)
  let l4 ← lane data (s.i + 12)
  let next : Lanes := ⟨s.i + 16, accumulate l1 s.v1, accumulate l2 s.v2, accumulate l3 s.v3,
    accumulate l4 s.v4⟩
  return if next.i > limit then .inr next else .inl next

def group (s : Nat × UInt32) : Outcome ε ((Nat × UInt32) ⊕ (Nat × UInt32)) :=
  if s.1 + 4 ≤ data.length then do
    let l ← lane data s.1
    return .inl (s.1 + 4, rotateLeft32 (s.2 + l * p3) 17 * p4)
  else return .inr s

def single (s : Nat × UInt32) : Outcome ε ((Nat × UInt32) ⊕ UInt32) :=
  if s.1 < data.length then do
    let b ← index data s.1
    return .inl (s.1 + 1, rotateLeft32 (s.2 + b.toUInt32 * p5) 11 * p1)
  else return .inr s.2

/-- Where the stripes end, and what the lanes come to. -/
def stripes (seed : UInt32) : Outcome ε (Nat × UInt32) :=
  if data.length ≥ 16 then do
    let start : Lanes := ⟨0, seed + p1 + p2, seed + p2, seed, seed - p1⟩
    let s ← loop (stripe data (data.length - 16)) (data.length + 1) start
    return (s.i, rotateLeft32 s.v1 1 + rotateLeft32 s.v2 7 + rotateLeft32 s.v3 12
      + rotateLeft32 s.v4 18)
  else return (0, seed + p5)

def avalanche (h : UInt32) : UInt32 :=
  let h := h ^^^ h >>> 15
  let h := h * p2
  let h := h ^^^ h >>> 13
  let h := h * p3
  h ^^^ h >>> 16

end Xxh32

open Xxh32

def xxh32 {ε : Type} (data : List UInt8) (seed : UInt32) : Outcome ε UInt32 := do
  let (i, h) ← stripes data seed
  let (i, h) ← loop (group data) (data.length + 1) (i, h + UInt32.ofNat data.length)
  let h ← loop (single data) (data.length + 1) (i, h)
  return avalanche h

/-! ## 2. Every byte it reads is there -/

section Returns

variable {ε : Type} {E : ε → Prop} {data : List UInt8}

theorem lane_sat {i : Nat} (h : i + 4 ≤ data.length) :
    Sat E (fun _ => True) (lane data i : Outcome ε UInt32) := by
  refine Sat.bind (sat_uintAt h) fun _ _ => ?_
  exact sat_pure trivial

theorem stripe_sat (s : Lanes) (h : s.i + 16 ≤ data.length) :
    Sat E (Sum.elim (fun t => t.i + 16 ≤ data.length ∧ data.length - t.i < data.length - s.i)
      (fun _ => True)) (stripe data (data.length - 16) s : Outcome ε (Lanes ⊕ Lanes)) := by
  refine Sat.bind (lane_sat (by omega)) fun l1 _ => ?_
  refine Sat.bind (lane_sat (by omega)) fun l2 _ => ?_
  refine Sat.bind (lane_sat (by omega)) fun l3 _ => ?_
  refine Sat.bind (lane_sat (by omega)) fun l4 _ => sat_ok ?_
  dsimp only
  split
  · exact trivial
  · refine ⟨?_, ?_⟩ <;> simp only <;> omega

theorem stripes_sat (seed : UInt32) :
    Sat E (fun _ => True) (stripes data seed : Outcome ε (Nat × UInt32)) := by
  unfold stripes
  split
  · refine Sat.bind (P := fun _ => True) ?_ fun _ _ => sat_pure trivial
    exact Sat.loop (fun s => data.length - s.i) stripe_sat (by simpa using ‹_›)
      (by omega)
  · exact sat_pure trivial

theorem group_sat (s : Nat × UInt32) :
    Sat E (Sum.elim (fun t => True ∧ data.length - t.1 < data.length - s.1) (fun _ => True))
      (group data s : Outcome ε _) := by
  unfold group
  split
  · refine Sat.bind (lane_sat (by assumption)) fun _ _ => ?_
    refine sat_pure ⟨trivial, ?_⟩
    omega
  · exact sat_pure trivial

theorem single_sat (s : Nat × UInt32) :
    Sat E (Sum.elim (fun t => True ∧ data.length - t.1 < data.length - s.1) (fun _ => True))
      (single data s : Outcome ε _) := by
  unfold single
  split
  · refine Sat.bind (sat_index (by assumption)) fun _ _ => ?_
    refine sat_pure ⟨trivial, ?_⟩
    omega
  · exact sat_pure trivial

theorem xxh32_sat (data : List UInt8) (seed : UInt32) :
    Sat E (fun _ => True) (xxh32 data seed : Outcome ε UInt32) := by
  refine Sat.bind (stripes_sat seed) fun s _ => ?_
  refine Sat.bind (Sat.loop (fun s => data.length - s.1)
    (fun s _ => group_sat s) trivial (by omega)) fun s _ => ?_
  refine Sat.bind (Sat.loop (fun s => data.length - s.1)
    (fun s _ => single_sat s) trivial (by omega)) fun s _ => ?_
  exact sat_pure trivial

end Returns

end RocketMQ.Compress
