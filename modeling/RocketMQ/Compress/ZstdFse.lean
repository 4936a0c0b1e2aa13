/-
  File:      RocketMQ/Compress/ZstdFse.lean
  Subject:   FSE tables of the ZSTD decoder (`common/zstd_entropy.go`).

  * every access to a slice is checked: out of range it crashes, as the code does.
-/
import RocketMQ.Compress.ZstdBits

namespace RocketMQ.Compress

open Outcome

def zstdFSEMinTableLog : Nat := 5
def zstdFSEMaxTableLog : Nat := 12
def zstdHUFMaxTableLog : Nat := 11
def zstdHUFMaxWeights : Nat := 255
def zstdHUFWeightsMaxLog : Nat := 6

/-! ## 1. A table in use -/

/-- `zstdFseTable`. -/
structure FseTable where
  accuracyLog : Nat
  symbols : List UInt8
  nbBits : List UInt8
  newBase : List UInt16
deriving DecidableEq

namespace FseTable

variable {ε : Type}

/-- The initial state, and the offset in the stream behind it. -/
def initBackward (t : FseTable) (src : List UInt8) (off : Int) : Outcome ε (UInt16 × Int) := do
  let off := off - t.accuracyLog
  let v ← zstdReadBitsLE src t.accuracyLog off
  return (UInt16.ofNat v, off)

def updateBackward (t : FseTable) (state : UInt16) (src : List UInt8) (off : Int) :
    Outcome ε (UInt16 × Int) := do
  let nb ← index t.nbBits state.toNat
  let off := off - nb.toNat
  let base ← index t.newBase state.toNat
  let v ← zstdReadBitsLE src nb.toNat off
  return (base + UInt16.ofNat v, off)

def decodeBackward (t : FseTable) (state : UInt16) (src : List UInt8) (off : Int) :
    Outcome ε (UInt8 × UInt16 × Int) := do
  let symb ← index t.symbols state.toNat
  let next ← t.updateBackward state src off
  return (symb, next)

end FseTable

def zstdFseRLETable (symb : UInt8) : FseTable := ⟨0, [symb], [0], [0]⟩

/-! ## 2. Building a table -/

/-- What the first pass over the distribution leaves. -/
structure LowCells where
  symbols : List UInt8
  stateNext : List Int
  highThreshold : Int

variable {ε : Type}

/-- One turn of the first pass: a probability "less than 1" takes a cell at the end. -/
def lowCell (st : LowCells) (entry : Int × Nat) : Outcome ε LowCells :=
  if entry.1 = -1 then do
    let highThreshold := st.highThreshold - 1
    let symbols ← storeInt st.symbols highThreshold (UInt8.ofNat entry.2)
    let stateNext ← store st.stateNext entry.2 1
    return ⟨symbols, stateNext, highThreshold⟩
  else do
    let stateNext ← store st.stateNext entry.2 entry.1
    return { st with stateNext }

/-- One turn of the search for the next cell below the threshold. -/
def nextCell (step mask : Nat) (highThreshold : Int) (pos : Nat) : Outcome ε (Nat ⊕ Nat) :=
  let pos := (pos + step) &&& mask
  return if (pos : Int) < highThreshold then .inr pos else .inl pos

/-- One cell of a symbol, and the way to the next cell. -/
def spreadOne (size step mask : Nat) (highThreshold : Int) (s : Nat)
    (st : List UInt8 × Nat) (_ : Nat) : Outcome ε (List UInt8 × Nat) := do
  let symbols ← store st.1 st.2 (UInt8.ofNat s)
  let pos ← loop (nextCell step mask highThreshold) (size + 1) st.2
  return (symbols, pos)

/-- One turn of the second pass: all cells of a symbol. -/
def spreadSymbol (size step mask : Nat) (highThreshold : Int)
    (st : List UInt8 × Nat) (entry : Int × Nat) : Outcome ε (List UInt8 × Nat) :=
  if entry.1 ≤ 0 then return st
  else (List.range entry.1.toNat).foldlM (spreadOne size step mask highThreshold entry.2) st

structure FseStates where
  stateNext : List Int
  nbBits : List UInt8
  newBase : List UInt16

/-- One turn of the third pass; the counters in `stateNext` are never negative. -/
def fillState (symbols : List UInt8) (accuracyLog size : Nat) (st : FseStates)
    (u : Nat) : Outcome ε FseStates := do
  let symb ← index symbols u
  let next ← index st.stateNext symb.toNat
  let stateNext ← store st.stateNext symb.toNat (next + 1)
  let nb := UInt8.ofInt (accuracyLog - zstdHighBit next.toNat)
  let nbBits ← store st.nbBits u nb
  let newBase ← store st.newBase u (UInt16.ofInt ((next.toNat <<< nb.toNat : Nat) - size))
  return ⟨stateNext, nbBits, newBase⟩

def zstdFseBuildTable (norm : List Int) (accuracyLog : Nat) : Outcome DecodeError FseTable := do
  let size := 1 <<< accuracyLog
  let low ← norm.zipIdx.foldlM lowCell
    ⟨List.replicate size 0, List.replicate norm.length 0, size⟩
  let step := (size >>> 1) + (size >>> 3) + 3
  let mask := size - 1
  let (symbols, pos) ← norm.zipIdx.foldlM (spreadSymbol size step mask low.highThreshold)
    (low.symbols, 0)
  failIf (pos ≠ 0) ⟨"zstd decompress: corrupted FSE distribution (cells not exactly covered)"⟩
  let states ← (List.range size).foldlM (fillState symbols accuracyLog size)
    ⟨low.stateNext, List.replicate size 0, List.replicate size 0⟩
  return ⟨accuracyLog, symbols, states.nbBits, states.newBase⟩

/-! ## 3. Reading a distribution -/

structure NCount where
  br : BitReader
  norm : List Int
  remaining : Int
  syms : Nat

/-- The low half of the range is written with one bit less. -/
def ncountValue (br : BitReader) (val bits : Nat) (remaining : Int) : Int × BitReader :=
  let lowerMask := 1 <<< (bits - 1) - 1
  let threshold := ((1 <<< bits : Nat) : Int) - 1 - (remaining + 1)
  if ((val &&& lowerMask : Nat) : Int) < threshold then ((val &&& lowerMask : Nat), br.rewind 1)
  else if val > lowerMask then (val - threshold, br)
  else (val, br)

/-- One turn over the 2-bit repeat flags; the state is the reader, `syms` and `repeat`. -/
def repeatTurn (s : BitReader × Nat × Nat) :
    Outcome ε ((BitReader × Nat × Nat) ⊕ (BitReader × Nat)) :=
  let syms := s.2.1 + s.2.2
  if s.2.2 ≠ 3 then return .inr (s.1, syms)
  else do
    let (again, br) ← s.1.read 2
    return .inl (br, syms, again)

/-- What follows a zero probability. -/
def zeroRun (br : BitReader) (syms : Nat) : Outcome ε (BitReader × Nat) := do
  let (again, br) ← br.read 2
  loop repeatTurn (8 * br.src.length + 2) (br, syms, again)

/-- One turn of the loop over the symbols. -/
def ncountTurn (maxSyms : Nat) (s : NCount) : Outcome ε (NCount ⊕ NCount) :=
  if s.remaining > 0 ∧ s.syms < maxSyms then do
    let bits := (zstdHighBit (s.remaining + 1).toNat + 1).toNat
    let (val, br) ← s.br.read bits
    let (val, br) := ncountValue br val bits s.remaining
    let proba := val - 1
    let remaining := if proba < 0 then s.remaining - (-proba) else s.remaining - proba
    let norm ← store s.norm s.syms proba
    if proba = 0 then do
      let (br, syms) ← zeroRun br (s.syms + 1)
      return .inl ⟨br, norm, remaining, syms⟩
    else return .inl ⟨br, norm, remaining, s.syms + 1⟩
  else return .inr s

def zstdFseReadNCount (src : List UInt8) (maxSyms maxAccuracyLog : Nat) :
    Outcome DecodeError (List Int × Nat × Nat) := do
  let (low, br) ← (BitReader.mk src 0).read 4
  let accuracyLog := low + zstdFSEMinTableLog
  failIf (accuracyLog > zstdFSEMaxTableLog ∨ accuracyLog > maxAccuracyLog)
    ⟨"zstd decompress: FSE accuracy log " ++ toString accuracyLog ++ " too large (max "
      ++ toString maxAccuracyLog ++ ")"⟩
  let n ← loop (ncountTurn maxSyms) (maxSyms + 1)
    ⟨br, List.replicate maxSyms 0, (1 <<< accuracyLog : Nat), 0⟩
  let br := n.br.align
  failIf (n.remaining ≠ 0)
    ⟨"zstd decompress: corrupted FSE distribution (probabilities do not sum to the table size)"⟩
  failIf (n.syms > maxSyms)
    ⟨"zstd decompress: FSE distribution has " ++ toString n.syms ++ " symbols, max "
      ++ toString maxSyms⟩
  failIf (br.consumed > src.length) ⟨"zstd decompress: truncated FSE distribution header"⟩
  return (n.norm, accuracyLog, br.consumed)

def zstdFseDecodeTable (src : List UInt8) (maxSyms maxAccuracyLog : Nat) :
    Outcome DecodeError (FseTable × Nat) := do
  let (norm, accuracyLog, consumed) ← zstdFseReadNCount src maxSyms maxAccuracyLog
  let t ← zstdFseBuildTable norm accuracyLog
  return (t, consumed)

/-! ## 4. Huffman weights -/

/-- `int64(len(src)*8) - int64(8-zstdHighBit(last))`: just below the final bit flag. -/
def streamEnd (src : List UInt8) (last : Nat) : Int :=
  ((src.length * 8 : Nat) : Int) - (8 - zstdHighBit last)

structure Weights where
  state1 : UInt16
  state2 : UInt16
  off : Int
  weights : List UInt8

/-- One turn of the loop: `state1` emits a weight, then `state2`. -/
def weightTurn (t : FseTable) (src : List UInt8) (s : Weights) :
    Outcome DecodeError (Weights ⊕ List UInt8) := do
  failIf (s.weights.length = zstdHUFMaxWeights) ⟨"zstd decompress: Huffman weight list too long"⟩
  let (w, state1, off) ← t.decodeBackward s.state1 src s.off
  let weights := s.weights ++ [w]
  if off < 0 then do
    let w ← index t.symbols s.state2.toNat
    return .inr (weights ++ [w])
  else do
    failIf (weights.length = zstdHUFMaxWeights) ⟨"zstd decompress: Huffman weight list too long"⟩
    let (w, state2, off) ← t.decodeBackward s.state2 src off
    let weights := weights ++ [w]
    if off < 0 then do
      let w ← index t.symbols state1.toNat
      return .inr (weights ++ [w])
    else return .inl ⟨state1, state2, off, weights⟩

def zstdFseDecodeWeights (sec : List UInt8) : Outcome DecodeError (List UInt8) := do
  let (t, headerSize) ← zstdFseDecodeTable sec zstdHUFMaxWeights zstdHUFWeightsMaxLog
  let src ← dropFrom sec headerSize
  failIf (src.length = 0) ⟨"zstd decompress: truncated FSE-compressed Huffman weights"⟩
  let last ← index src (src.length - 1)
  failIf (last.toNat = 0) ⟨"zstd decompress: corrupted FSE bitstream (final bit flag missing)"⟩
  let (state1, off) ← t.initBackward src (streamEnd src last.toNat)
  let (state2, off) ← t.initBackward src off
  loop (weightTurn t src) (zstdHUFMaxWeights + 1) ⟨state1, state2, off, []⟩

end RocketMQ.Compress
