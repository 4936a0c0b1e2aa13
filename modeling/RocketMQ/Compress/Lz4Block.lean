/-
  File:      RocketMQ/Compress/Lz4Block.lean
  Subject:   The LZ4 block codec (`common/lz4.go`).

  * `lz4CompressBlock`: a greedy compressor, with a table of the last place of each hash of 4 bytes;
  * `lz4DecompressBlock`: token, literals, offset and copy, sequence by sequence;
  * every access to a slice is checked: out of range it crashes, as the code does.
-/
import RocketMQ.Compress.Xxh32

namespace RocketMQ.Compress

open Outcome

def lz4MinMatch : Nat := 4
def lz4MFLimit : Nat := 12
def lz4HashLog : Nat := 16
def lz4HashMul : UInt32 := 2654435761

def lz4Hash (u : UInt32) : UInt32 := (u * lz4HashMul) >>> 16

/-! ## 1. The compressor -/

/-- `for ll >= 255 { out = append(out, 255); ll -= 255 }`, then `byte(ll)`. -/
def extension (ll : Nat) : List UInt8 :=
  if 255 ≤ ll then 255 :: extension (ll - 255) else [UInt8.ofNat ll]
termination_by ll

variable {ε : Type}

/-- `emitSequence`: the bytes that it appends to `out`. -/
def emitSequence (data : List UInt8) (litFrom litTo off matchLen : Nat) :
    Outcome ε (List UInt8) := do
  let ll := litTo - litFrom
  let ml := matchLen - lz4MinMatch
  let litToken : UInt8 := if 15 ≤ ll then 0xf0 else UInt8.ofNat ll <<< 4
  let matchToken : UInt8 :=
    if matchLen < lz4MinMatch then 0 else if 15 ≤ ml then 0x0f else UInt8.ofNat ml
  let literals ← slice data litFrom litTo
  let tail :=
    if lz4MinMatch ≤ matchLen then
      UInt8.ofNat off :: UInt8.ofNat (off >>> 8) :: (if 15 ≤ ml then extension (ml - 15) else [])
    else []
  return (litToken ||| matchToken) ::
    ((if 15 ≤ ll then extension (ll - 15) else []) ++ (literals ++ tail))

/-- `for i+matchLen < n-5 && data[ref+matchLen] == data[i+matchLen] { matchLen++ }`. -/
def extendMatch (data : List UInt8) (ref i : Nat) (matchLen : Nat) : Outcome ε (Nat ⊕ Nat) :=
  if (i : Int) + matchLen < (data.length : Int) - 5 then do
    let a ← index data (ref + matchLen)
    let b ← index data (i + matchLen)
    return if a = b then .inl (matchLen + 1) else .inr matchLen
  else return .inr matchLen

structure Compressor where
  table : List Int32
  anchor : Nat
  i : Nat
  out : List UInt8

/-- Whether the place that the table had for the hash is a match for the four bytes at `i`. -/
def matchesAt (data : List UInt8) (ref : Int) (i u : Nat) : Outcome ε Bool :=
  if ref < 0 ∨ ref ≥ i ∨ i - ref > 65535 then return false
  else do
    let v ← uintAt 4 data ref.toNat
    return v = u

/-- One turn of the loop over the input. -/
def compressTurn (data : List UInt8) (s : Compressor) : Outcome ε (Compressor ⊕ Compressor) :=
  if (s.i : Int) + lz4MinMatch ≤ (data.length : Int) - lz4MFLimit then do
    let u ← uintAt 4 data s.i
    let h := (lz4Hash (UInt32.ofNat u)).toNat
    let ref ← index s.table h
    let table ← store s.table h (Int32.ofNat s.i)
    let found ← matchesAt data ref.toInt s.i u
    if found then do
      let ref := ref.toInt.toNat
      let matchLen ← loop (extendMatch data ref s.i) (data.length + 1) lz4MinMatch
      let bytes ← emitSequence data s.anchor s.i (s.i - ref) matchLen
      return .inl ⟨table, s.i + matchLen, s.i + matchLen, s.out ++ bytes⟩
    else return .inl ⟨table, s.anchor, s.i + 1, s.out⟩
  else return .inr s

def lz4CompressBlock (data : List UInt8) : Outcome ε (List UInt8) :=
  if data.length = 0 then return []
  else do
    let table := List.replicate (1 <<< lz4HashLog) (-1)
    let s ← loop (compressTurn data) (data.length + 1) ⟨table, 0, 0, []⟩
    let bytes ← emitSequence data s.anchor data.length 0 0
    return s.out ++ bytes

/-! ## 2. The decompressor -/

variable (data : List UInt8)

/-- One byte of an extended length: what it adds up to and the next position. -/
def extTurn (s : Nat × Nat) :
    Outcome DecodeError ((Nat × Nat) ⊕ (Nat × Nat)) := do
  failIf (s.2 ≥ data.length) ⟨"lz4 decompress: truncated extended length"⟩
  let b ← index data s.2
  let next := (s.1 + b.toNat, s.2 + 1)
  return if b.toNat ≠ 255 then .inr next else .inl next

/-- `extLen`, with the position `src` as a second argument and result. -/
def extLen (len src : Nat) : Outcome DecodeError (Nat × Nat) :=
  if len ≠ 15 then return (len, src) else loop (extTurn data) (data.length + 1) (len, src)

/-- `for k := 0; k < matchLen; k++ { out = append(out, out[ref+k]) }`. -/
def copyMatch (out : List UInt8) (ref matchLen : Nat) : Outcome ε (List UInt8) :=
  (List.range matchLen).foldlM (fun out k => do
    let b ← index out (ref + k)
    return out ++ [b]) out

/-- The match of a sequence: offset, length and copy. -/
def decodeMatch (token src : Nat) (out : List UInt8) :
    Outcome DecodeError (Nat × List UInt8) := do
  failIf (src + 2 > data.length) ⟨"lz4 decompress: truncated match offset"⟩
  let lo ← index data src
  let hi ← index data (src + 1)
  let off := lo.toNat ||| hi.toNat <<< 8
  failIf (off = 0) ⟨"lz4 decompress: zero match offset"⟩
  let (len, src) ← extLen data (token &&& 0x0f) (src + 2)
  let matchLen := len + lz4MinMatch
  failIf (off > out.length) ⟨"lz4 decompress: match offset before start"⟩
  let out ← copyMatch out (out.length - off) matchLen
  return (src, out)

/-- One turn of the loop over the block. -/
def decompressTurn (s : Nat × List UInt8) : Outcome DecodeError ((Nat × List UInt8) ⊕ List UInt8) :=
  if s.1 < data.length then do
    let token ← index data s.1
    let (litLen, src) ← extLen data (token.toNat >>> 4) (s.1 + 1)
    failIf (src + litLen > data.length) ⟨"lz4 decompress: literals overrun input"⟩
    let literals ← slice data src (src + litLen)
    let out := s.2 ++ literals
    let src := src + litLen
    if src ≥ data.length then return .inr out
    else do
      let next ← decodeMatch data token.toNat src out
      return .inl next
  else return .inr s.2

def lz4DecompressBlock : Outcome DecodeError (List UInt8) :=
  loop (decompressTurn data) (data.length + 1) (0, [])

/-! ## 3. The decompressor stays inside its input -/

section Safe

variable {data : List UInt8}

theorem extTurn_safe (s : Nat × Nat) :
    Safe (Sum.elim (fun t => s.2 ≤ t.2 ∧ data.length - t.2 < data.length - s.2)
      (fun r => s.2 ≤ r.2)) (extTurn data s) := by
  refine Safe.failIf_bind fun hlt => ?_
  refine Sat.bind (sat_index (by omega)) fun b _ => sat_ok ?_
  split
  · exact Nat.le_succ _
  · exact ⟨Nat.le_succ _, by omega⟩

theorem extLen_safe (len src : Nat) : Safe (fun r => src ≤ r.2) (extLen data len src) := by
  unfold extLen
  split
  · exact sat_pure le_rfl
  · refine Sat.loop (I := fun s => src ≤ s.2) (fun s => data.length - s.2) ?_ le_rfl (by omega)
    intro s hs
    refine (extTurn_safe s).mono fun r hr => ?_
    cases r with
    | inl t => exact ⟨hs.trans hr.1, hr.2⟩
    | inr t => exact hs.trans hr

theorem copyMatch_safe {out : List UInt8} {off matchLen : Nat} (hpos : off ≠ 0)
    (hoff : ¬ off > out.length) :
    Safe (fun _ => True) (copyMatch out (out.length - off) matchLen : Outcome DecodeError _) := by
  have hlen : Safe (fun t : List UInt8 => t.length = out.length + matchLen)
      (copyMatch out (out.length - off) matchLen : Outcome DecodeError _) := by
    refine Sat.forRange (I := fun k (t : List UInt8) => t.length = out.length + k) rfl
      fun k t _ ht => ?_
    refine Sat.bind (sat_index (by omega)) fun b _ => sat_ok ?_
    rw [List.length_append, ht]
    rfl
  exact hlen.mono fun _ _ => trivial

theorem decodeMatch_safe (token src : Nat) (out : List UInt8) :
    Safe (fun r => src ≤ r.1) (decodeMatch data token src out) := by
  refine Safe.failIf_bind fun hroom => ?_
  refine Sat.bind (sat_index (by omega)) fun lo _ => ?_
  refine Sat.bind (sat_index (by omega)) fun hi _ => ?_
  refine Safe.failIf_bind fun hpos => ?_
  refine Sat.bind (extLen_safe _ (src + 2)) fun r hr => ?_
  refine Safe.failIf_bind fun hoff => ?_
  refine Sat.bind (copyMatch_safe hpos hoff) fun _ _ => sat_ok ?_
  exact (Nat.le_add_right src 2).trans hr

theorem decompressTurn_safe (s : Nat × List UInt8) :
    Safe (Sum.elim (fun t => True ∧ data.length - t.1 < data.length - s.1) (fun _ => True))
      (decompressTurn data s) := by
  unfold decompressTurn
  split
  · refine Sat.bind (sat_index (by assumption)) fun token _ => ?_
    refine Sat.bind (extLen_safe _ (s.1 + 1)) fun r hr => ?_
    refine Safe.failIf_bind fun hroom => ?_
    refine Sat.bind (sat_slice (Nat.le_add_right _ _) (by omega)) fun literals _ => ?_
    dsimp only
    split
    · exact sat_pure trivial
    · refine Sat.bind (decodeMatch_safe _ _ _) fun next hnext => sat_ok ?_
      exact ⟨trivial, by omega⟩
  · exact sat_pure trivial

/-- **The decompressor returns content or an error, whatever the block.** -/
theorem lz4DecompressBlock_safe (data : List UInt8) :
    Safe (fun _ => True) (lz4DecompressBlock data) :=
  Sat.loop (fun s => data.length - s.1) (fun s _ => decompressTurn_safe s)
    trivial (by omega)

end Safe

end RocketMQ.Compress
