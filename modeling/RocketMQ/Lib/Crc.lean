/-
  File:      RocketMQ/Lib/Crc.lean
  Subject:   Cyclic redundancy checks of a reflected polynomial, bit by bit and many bits at once.

  The register is a word of any width; its lowest bit falls out first.

  * `feed`: one bit of the message enters;
  * `foldl_feed`: bits fed one by one are one word put over the register;
  * `turn_split`: the high part of a register only shifts, so a table of the low parts will do.
-/
import Mathlib

namespace Crc

variable {w : Nat} (p : BitVec w)

/-- One bit of the message enters: the register moves by one place, and the polynomial comes in
when the bit that falls out differs from it. -/
def feed (c : BitVec w) (bit : Bool) : BitVec w :=
  if c.getLsbD 0 ^^ bit then p ^^^ (c >>> 1) else c >>> 1

/-- The register moves `n` places, no message entering. -/
def turn (n : Nat) (c : BitVec w) : BitVec w := (List.range n).foldl (fun c _ => feed p c false) c

/-- The first `n` bits of a word, the lowest first. -/
def bits (m : BitVec w) (n : Nat) : List Bool := (List.range n).map m.getLsbD

theorem turn_succ (n : Nat) (c : BitVec w) : turn p (n + 1) c = feed p (turn p n c) false := by
  simp [turn, List.range_succ]

theorem feed_xor (c m : BitVec w) :
    feed p (c ^^^ m) (m.getLsbD 0) = feed p c false ^^^ (m >>> 1) := by
  unfold feed
  rw [BitVec.getLsbD_xor, BitVec.ushiftRight_xor_distrib, Bool.xor_assoc, Bool.xor_self]
  split
  · exact (BitVec.xor_assoc ..).symm
  · rfl

/-- **Bits fed one by one** are the word put over the register before it moves as many places. -/
theorem foldl_feed (c m : BitVec w) (n : Nat) :
    (bits m n).foldl (feed p) c = turn p n (c ^^^ m) ^^^ (m >>> n) := by
  -- the part of the word that has not entered yet is taken off again
  induction n with
  | zero => simp [bits, turn]
  | succ n ih =>
    have hbit : m.getLsbD n = (m >>> n).getLsbD 0 := by simp
    have hbits : bits m (n + 1) = bits m n ++ [m.getLsbD n] := by simp [bits, List.range_succ]
    rw [hbits, List.foldl_concat, ih, hbit, feed_xor, turn_succ, BitVec.shiftRight_add]

/-- **The high part of a register only shifts** while its low part falls out. -/
theorem turn_split {c low : BitVec w} {n : Nat} (h : bits c n = bits low n)
    (h0 : low >>> n = 0#w) : turn p n c = turn p n low ^^^ (c >>> n) := by
  have hlow := foldl_feed p 0#w low n
  rw [← h, foldl_feed, h0] at hlow
  simp only [BitVec.zero_xor, BitVec.xor_zero] at hlow
  rw [← hlow, BitVec.xor_assoc, BitVec.xor_self, BitVec.xor_zero]

end Crc
