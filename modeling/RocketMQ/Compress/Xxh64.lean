/-
  File:      RocketMQ/Compress/Xxh64.lean
  Subject:   The checksum of ZSTD frames (`common/zstd.go`).

  * `zstdXXH64`: four lanes over stripes of 32 bytes, then groups of 8 and 4 bytes, then single bytes;
  * `zstdXXH64_sat`: it returns a value for all bytes and every seed.
-/
import RocketMQ.Compress.Xxh32

namespace RocketMQ.Compress

open Outcome

namespace Xxh64

/-! ## 1. The rounds -/

def p1 : UInt64 := 0x9e3779b185ebca87
def p2 : UInt64 := 0xc2b2ae3d27d4eb4f
def p3 : UInt64 := 0x165667b19e3779f9
def p4 : UInt64 := 0x85ebca77c2b2ae63
def p5 : UInt64 := 0x27d4eb2f165667c5

/-- `bits.RotateLeft64`, by fewer than 64 places. -/
def rotateLeft64 (x k : UInt64) : UInt64 := x <<< k ||| x >>> (64 - k)

def round (acc input : UInt64) : UInt64 := rotateLeft64 (acc + input * p2) 31 * p1

def mergeRound (acc val : UInt64) : UInt64 := (acc ^^^ round 0 val) * p1 + p4

variable {ε : Type} (data : List UInt8)

/-- `binary.LittleEndian.Uint64(data[pos:])`. -/
def word (pos : Nat) : Outcome ε UInt64 := do
  let u ← uintAt 8 data pos
  return UInt64.ofNat u

structure Lanes where
  pos : Nat
  v1 : UInt64
  v2 : UInt64
  v3 : UInt64
  v4 : UInt64

/-- One stripe of 32 bytes. -/
def stripe (s : Lanes) : Outcome ε (Lanes ⊕ Lanes) :=
  if s.pos + 32 ≤ data.length then do
    let w1 ← word data s.pos
    let w2 ← word data (s.pos + 8)
    let w3 ← word data (s.pos + 16)
    let w4 ← word data (s.pos + 24)
    return .inl ⟨s.pos + 32, round s.v1 w1, round s.v2 w2, round s.v3 w3, round s.v4 w4⟩
  else return .inr s

/-- Where the stripes end, and what the lanes come to. -/
def stripes (seed : UInt64) : Outcome ε (Nat × UInt64) :=
  if data.length ≥ 32 then do
    let s ← loop (stripe data) (data.length + 1) ⟨0, seed + p1 + p2, seed + p2, seed, seed - p1⟩
    let h := rotateLeft64 s.v1 1 + rotateLeft64 s.v2 7 + rotateLeft64 s.v3 12
      + rotateLeft64 s.v4 18
    return (s.pos, mergeRound (mergeRound (mergeRound (mergeRound h s.v1) s.v2) s.v3) s.v4)
  else return (0, seed + p5)

def group (s : Nat × UInt64) : Outcome ε ((Nat × UInt64) ⊕ (Nat × UInt64)) :=
  if s.1 + 8 ≤ data.length then do
    let w ← word data s.1
    return .inl (s.1 + 8, rotateLeft64 (s.2 ^^^ round 0 w) 27 * p1 + p4)
  else return .inr s

/-- At most one group of 4 bytes. -/
def half (s : Nat × UInt64) : Outcome ε (Nat × UInt64) :=
  if s.1 + 4 ≤ data.length then do
    let u ← uintAt 4 data s.1
    return (s.1 + 4, rotateLeft64 (s.2 ^^^ UInt64.ofNat u * p1) 23 * p2 + p3)
  else return s

def single (s : Nat × UInt64) : Outcome ε ((Nat × UInt64) ⊕ UInt64) :=
  if s.1 < data.length then do
    let b ← index data s.1
    return .inl (s.1 + 1, rotateLeft64 (s.2 ^^^ b.toUInt64 * p5) 11 * p1)
  else return .inr s.2

def avalanche (h : UInt64) : UInt64 :=
  let h := h ^^^ h >>> 33
  let h := h * p2
  let h := h ^^^ h >>> 29
  let h := h * p3
  h ^^^ h >>> 32

end Xxh64

open Xxh64

def zstdXXH64 {ε : Type} (data : List UInt8) (seed : UInt64) : Outcome ε UInt64 := do
  let (pos, h) ← stripes data seed
  let s ← loop (group data) (data.length + 1) (pos, h + UInt64.ofNat data.length)
  let s ← half data s
  let h ← loop (single data) (data.length + 1) s
  return avalanche h

/-! ## 2. Every byte it reads is there -/

section Returns

variable {ε : Type} {E : ε → Prop} {data : List UInt8}

theorem word_sat {pos : Nat} (h : pos + 8 ≤ data.length) :
    Sat E (fun _ => True) (word data pos : Outcome ε UInt64) :=
  Sat.bind (sat_uintAt h) fun _ _ => sat_pure trivial

theorem Xxh64.stripe_sat (s : Lanes) :
    Sat E (Sum.elim (fun t => True ∧ data.length - t.pos < data.length - s.pos) (fun _ => True))
      (stripe data s : Outcome ε (Lanes ⊕ Lanes)) := by
  unfold stripe
  split
  · refine Sat.bind (word_sat (by omega)) fun w1 _ => ?_
    refine Sat.bind (word_sat (by omega)) fun w2 _ => ?_
    refine Sat.bind (word_sat (by omega)) fun w3 _ => ?_
    refine Sat.bind (word_sat (by omega)) fun w4 _ => ?_
    exact sat_pure ⟨trivial, by dsimp only; omega⟩
  · exact sat_pure trivial

theorem Xxh64.stripes_sat (seed : UInt64) :
    Sat E (fun _ => True) (stripes data seed : Outcome ε (Nat × UInt64)) := by
  unfold stripes
  split
  · refine Sat.bind (Sat.loop (fun s => data.length - s.pos)
      (fun s _ => Xxh64.stripe_sat s) trivial (by omega)) fun _ _ => ?_
    exact sat_pure trivial
  · exact sat_pure trivial

theorem Xxh64.group_sat (s : Nat × UInt64) :
    Sat E (Sum.elim (fun t => True ∧ data.length - t.1 < data.length - s.1) (fun _ => True))
      (group data s : Outcome ε _) := by
  unfold group
  split
  · refine Sat.bind (word_sat (by assumption)) fun _ _ => ?_
    exact sat_pure ⟨trivial, by dsimp only; omega⟩
  · exact sat_pure trivial

theorem half_sat (s : Nat × UInt64) :
    Sat E (fun _ => True) (half data s : Outcome ε (Nat × UInt64)) := by
  unfold half
  split
  · exact Sat.bind (sat_uintAt (by assumption)) fun _ _ => sat_pure trivial
  · exact sat_pure trivial

theorem Xxh64.single_sat (s : Nat × UInt64) :
    Sat E (Sum.elim (fun t => True ∧ data.length - t.1 < data.length - s.1) (fun _ => True))
      (single data s : Outcome ε _) := by
  unfold single
  split
  · refine Sat.bind (sat_index (by assumption)) fun _ _ => ?_
    exact sat_pure ⟨trivial, by dsimp only; omega⟩
  · exact sat_pure trivial

theorem zstdXXH64_sat (data : List UInt8) (seed : UInt64) :
    Sat E (fun _ => True) (zstdXXH64 data seed : Outcome ε UInt64) := by
  refine Sat.bind (Xxh64.stripes_sat seed) fun s _ => ?_
  refine Sat.bind (Sat.loop (fun s => data.length - s.1)
    (fun s _ => Xxh64.group_sat s) trivial (by omega)) fun s _ => ?_
  refine Sat.bind (half_sat s) fun s _ => ?_
  refine Sat.bind (Sat.loop (fun s => data.length - s.1)
    (fun s _ => Xxh64.single_sat s) trivial (by omega)) fun s _ => ?_
  exact sat_pure trivial

end Returns

end RocketMQ.Compress
