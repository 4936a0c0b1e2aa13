/-
  File:      RocketMQ/Compress/ZstdHuffman.lean
  Subject:   Huffman tables and streams of the ZSTD decoder (`common/zstd_entropy.go`).

  * every access to a slice and every shift is checked: out of range it crashes, as the code does.
-/
import RocketMQ.Compress.ZstdFse

namespace RocketMQ.Compress

open Outcome

/-- `zstdHufTable`. -/
structure HufTable where
  maxBits : Nat
  symbols : List UInt8
  nbBits : List UInt8
deriving DecidableEq

/-! ## 1. A table from weights -/

variable {ε : Type}

/-- `ranks[r]++`. -/
def bump (ranks : List Nat) (r : Nat) : Outcome ε (List Nat) := do
  let n ← index ranks r
  store ranks r (n + 1)

/-- One turn of the loop over the weights: `weightTotal` and `rankStats`. -/
def weightStep (st : Nat × List Nat) (w : UInt8) : Outcome DecodeError (Nat × List Nat) := do
  failIf (w.toNat > zstdHUFMaxTableLog)
    ⟨"zstd decompress: Huffman weight " ++ toString w.toNat ++ " exceeds max "
      ++ toString zstdHUFMaxTableLog⟩
  let rankStats ← bump st.2 w.toNat
  return (if w.toNat > 0 then st.1 + 1 <<< (w.toNat - 1) else st.1, rankStats)

/-- `byte(maxBits + 1 - w)`. -/
def weightBits (maxBits w : Nat) : UInt8 := UInt8.ofInt ((maxBits : Int) + 1 - w)

/-- The number of bits of a symbol; an absent symbol keeps 0. -/
def storeBits (maxBits : Nat) (bits : List UInt8) (i : Nat) (w : UInt8) : Outcome ε (List UInt8) :=
  if w.toNat > 0 then store bits i (weightBits maxBits w.toNat) else return bits

/-- One turn of the loop that sets `bits` and `rankCount`. -/
def bitsStep (maxBits : Nat) (st : List UInt8 × List Nat) (entry : UInt8 × Nat) :
    Outcome ε (List UInt8 × List Nat) := do
  let bits ← storeBits maxBits st.1 entry.2 entry.1
  let b ← index bits entry.2
  let rankCount ← bump st.2 b.toNat
  return (bits, rankCount)

/-- `for u := from; u < from+count; u++ { cells[u] = v }`. -/
def fillCells (cells : List UInt8) (start count : Nat) (v : UInt8) : Outcome ε (List UInt8) :=
  (List.range count).foldlM (fun cells u => store cells (start + u) v) cells

/-- One turn of the loop over the ranks, the longest codes first: `rankIdx` and `nbBits`. -/
def rankStep (maxBits : Nat) (rankCount : List Nat) (st : List Nat × List UInt8)
    (turn : Nat) : Outcome ε (List Nat × List UInt8) := do
  let i := maxBits - turn
  let start ← index st.1 i
  let count ← index rankCount i
  let stop := start + count * 1 <<< (maxBits - i)
  let rankIdx ← store st.1 (i - 1) stop
  let nbBits ← fillCells st.2 start (stop - start) (UInt8.ofNat i)
  return (rankIdx, nbBits)

/-- One turn of the loop over the symbols: `rankIdx` and `symbols`. -/
def codeStep (maxBits : Nat) (st : List Nat × List UInt8) (entry : UInt8 × Nat) :
    Outcome ε (List Nat × List UInt8) :=
  if entry.1.toNat = 0 then return st
  else do
    let code ← index st.1 entry.1.toNat
    let length ← shiftLeft 1 ((maxBits : Int) - entry.1.toNat)
    let symbols ← fillCells st.2 code length (UInt8.ofNat entry.2)
    let rankIdx ← store st.1 entry.1.toNat (code + length)
    return (rankIdx, symbols)

/-- The part of `zstdHufBuildFromWeights` behind the checks of the weights. -/
def hufFromBits (weights : List UInt8) (maxBits lastWeight : Nat) :
    Outcome DecodeError HufTable := do
  let numSymbs := weights.length + 1
  let ranks := List.replicate (zstdHUFMaxTableLog + 1) 0
  let (bits, rankCount) ← weights.zipIdx.foldlM (bitsStep maxBits)
    (List.replicate numSymbs 0, ranks)
  let bits ← store bits (numSymbs - 1) (weightBits maxBits lastWeight)
  let last ← index bits (numSymbs - 1)
  let rankCount ← bump rankCount last.toNat
  let size := 1 <<< maxBits
  let (rankIdx, nbBits) ← (List.range maxBits).foldlM (rankStep maxBits rankCount)
    (ranks, List.replicate size 0)
  let total ← index rankIdx 0
  failIf (total ≠ size)
    ⟨"zstd decompress: corrupted Huffman tree (codes do not fill the table)"⟩
  let (_, symbols) ← bits.zipIdx.foldlM (codeStep maxBits) (rankIdx, List.replicate size 0)
  return ⟨maxBits, symbols, nbBits⟩

def zstdHufBuildFromWeights (weights : List UInt8) : Outcome DecodeError HufTable := do
  failIf (weights.length ≥ zstdHUFMaxWeights + 1) ⟨"zstd decompress: too many Huffman weights"⟩
  let (weightTotal, rankStats) ← weights.foldlM weightStep
    (0, List.replicate (zstdHUFMaxTableLog + 1) 0)
  failIf (weightTotal = 0) ⟨"zstd decompress: Huffman tree has no symbol"⟩
  let maxBits := (zstdHighBit weightTotal + 1).toNat
  failIf (maxBits > zstdHUFMaxTableLog)
    ⟨"zstd decompress: Huffman tree needs " ++ toString maxBits ++ " bits, max "
      ++ toString zstdHUFMaxTableLog⟩
  let rest := 1 <<< maxBits - weightTotal
  failIf (rest &&& (rest - 1) ≠ 0)
    ⟨"zstd decompress: corrupted Huffman tree weights (last weight is not a clean power of 2)"⟩
  let lastWeight := (zstdHighBit rest + 1).toNat
  let rankStats ← bump rankStats lastWeight
  let longest ← index rankStats 1
  failIf (longest < 2 ∨ longest &&& 1 ≠ 0)
    ⟨"zstd decompress: corrupted Huffman tree (invalid number of longest weights)"⟩
  hufFromBits weights maxBits lastWeight

/-! ## 2. A table from a description -/

variable (src : List UInt8)

/-- `weights[i]` of a direct list: the high half of a byte, then the low half. -/
def directWeight (weights : List UInt8) (i : Nat) :
    Outcome ε (List UInt8) := do
  let b ← index src (1 + i / 2)
  return weights ++ [if i % 2 = 0 then b >>> 4 else b &&& 0xf]

/-- A direct list of 4-bit weights, and the bytes of the description. -/
def directWeights (numWeights : Nat) :
    Outcome DecodeError (List UInt8 × Nat) := do
  failIf (numWeights > zstdHUFMaxWeights)
    ⟨"zstd decompress: Huffman tree has " ++ toString numWeights ++ " weights, max "
      ++ toString zstdHUFMaxWeights⟩
  let byteCount := (numWeights + 1) / 2
  failIf (1 + byteCount > src.length)
    ⟨"zstd decompress: truncated Huffman tree description"⟩
  let weights ← (List.range numWeights).foldlM (directWeight src) []
  return (weights, 1 + byteCount)

/-- FSE-compressed weights in `header` bytes, and the bytes of the description. -/
def compressedWeights (header : Nat) :
    Outcome DecodeError (List UInt8 × Nat) := do
  failIf (header < 1) ⟨"zstd decompress: empty Huffman tree description"⟩
  failIf (1 + header > src.length)
    ⟨"zstd decompress: truncated FSE-compressed Huffman tree description"⟩
  let sec ← slice src 1 (1 + header)
  let weights ← zstdFseDecodeWeights sec
  return (weights, 1 + header)

/-- The weights that the first byte announces. -/
def hufWeights (header : Nat) : Outcome DecodeError (List UInt8 × Nat) :=
  if header ≥ 128 then directWeights src (header - 127) else compressedWeights src header

def zstdDecodeHufTable : Outcome DecodeError (HufTable × Nat) := do
  failIf (src.length < 1) ⟨"zstd decompress: truncated Huffman tree description"⟩
  let header ← index src 0
  let (weights, consumed) ← hufWeights src header.toNat
  let t ← zstdHufBuildFromWeights weights
  return (t, consumed)

/-! ## 3. A stream -/

structure HufStream where
  off : Int
  state : UInt16
  n : Nat
  dst : List UInt8

/-- One turn of the loop over the stream. -/
def hufTurn (t : HufTable) (src : List UInt8) (s : HufStream) :
    Outcome DecodeError (HufStream ⊕ HufStream) :=
  if s.off > -(t.maxBits : Int) then do
    failIf (s.n = s.dst.length)
      ⟨"zstd decompress: Huffman bitstream decodes more literals than announced"⟩
    let nb ← index t.nbBits s.state.toNat
    let symb ← index t.symbols s.state.toNat
    let dst ← store s.dst s.n symb
    let off := s.off - nb.toNat
    let rest ← zstdReadBitsLE src nb.toNat off
    let shifted := s.state.toNat <<< nb.toNat % 2 ^ 32
    let state := (shifted + rest % 2 ^ 32) % 2 ^ 32 &&& (1 <<< t.maxBits - 1)
    return .inl ⟨off, UInt16.ofNat state, s.n + 1, dst⟩
  else return .inr s

/-- `zstdHufDecodeStream`: the number of literals, and `dst` with them written into it. -/
def zstdHufDecodeStream (t : HufTable) (src dst : List UInt8) :
    Outcome DecodeError (Nat × List UInt8) := do
  failIf (src.length = 0) ⟨"zstd decompress: empty Huffman bitstream"⟩
  let last ← index src (src.length - 1)
  failIf (last.toNat = 0)
    ⟨"zstd decompress: corrupted Huffman bitstream (final bit flag missing)"⟩
  let off := streamEnd src last.toNat - t.maxBits
  let v ← zstdReadBitsLE src t.maxBits off
  let s ← loop (hufTurn t src) (dst.length + 2) ⟨off, UInt16.ofNat v, 0, dst⟩
  failIf (s.off ≠ -(t.maxBits : Int))
    ⟨"zstd decompress: Huffman bitstream not exactly consumed"⟩
  return (s.n, s.dst)

end RocketMQ.Compress
