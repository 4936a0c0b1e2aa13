/-
  File:      RocketMQ/Compress/ZstdSequences.lean
  Subject:   The sequences section of a compressed ZSTD block, and its execution (`common/zstd.go`).

  * `zstdDecodeSequences_safe`, `zstdExecuteSequences_safe`: **no section reads outside its bytes, and
    no match reaches outside the output**.
-/
import RocketMQ.Compress.ZstdFseSpread
import RocketMQ.Compress.ZstdHuffmanTable

namespace RocketMQ.Compress

open List Outcome

/-! ## 1. Codes and tables -/

def zstdLLBase : List Nat :=
  [0, 1, 2, 3, 4, 5, 6, 7, 8, 9, 10, 11, 12, 13, 14, 15,
   16, 18, 20, 22, 24, 28, 32, 40, 48, 64, 128, 256, 512, 1024, 2048, 4096,
   8192, 16384, 32768, 65536]

def zstdLLBits : List Nat :=
  [0, 0, 0, 0, 0, 0, 0, 0, 0, 0, 0, 0, 0, 0, 0, 0,
   1, 1, 1, 1, 2, 2, 3, 3, 4, 6, 7, 8, 9, 10, 11, 12,
   13, 14, 15, 16]

def zstdMLBase : List Nat :=
  [3, 4, 5, 6, 7, 8, 9, 10, 11, 12, 13, 14, 15, 16, 17, 18,
   19, 20, 21, 22, 23, 24, 25, 26, 27, 28, 29, 30, 31, 32, 33, 34,
   35, 37, 39, 41, 43, 47, 51, 59, 67, 83, 99, 131, 259, 515,
   1027, 2051, 4099, 8195, 16387, 32771, 65539]

def zstdMLBits : List Nat :=
  [0, 0, 0, 0, 0, 0, 0, 0, 0, 0, 0, 0, 0, 0, 0, 0,
   0, 0, 0, 0, 0, 0, 0, 0, 0, 0, 0, 0, 0, 0, 0, 0,
   1, 1, 1, 1, 2, 2, 3, 3, 4, 4, 5, 7, 8, 9, 10, 11,
   12, 13, 14, 15, 16]

def zstdMaxLLCode : Nat := 35
def zstdMaxOFCode : Nat := 31
def zstdMaxMLCode : Nat := 52

def zstdLLDefaultNorm : List Int :=
  [4, 3, 2, 2, 2, 2, 2, 2, 2, 2, 2, 2, 2, 1, 1, 1,
   2, 2, 2, 2, 2, 2, 2, 2, 2, 3, 2, 1, 1, 1, 1, 1,
   -1, -1, -1, -1]

def zstdOFDefaultNorm : List Int :=
  [1, 1, 1, 1, 1, 1, 2, 2, 2, 1, 1, 1, 1, 1, 1, 1,
   1, 1, 1, 1, 1, 1, 1, 1, -1, -1, -1, -1, -1]

def zstdMLDefaultNorm : List Int :=
  [1, 4, 3, 2, 2, 2, 2, 2, 2, 1, 1, 1, 1, 1, 1, 1,
   1, 1, 1, 1, 1, 1, 1, 1, 1, 1, 1, 1, 1, 1, 1, 1,
   1, 1, 1, 1, 1, 1, 1, 1, 1, 1, 1, 1, 1, 1, -1, -1,
   -1, -1, -1, -1, -1]

/-- The limits of a sequence symbol type: an entry of `zstdSeqTables`. -/
structure SeqTable where
  defNorm : List Int
  defLog : Nat
  maxSyms : Nat
  maxCode : Nat
  maxLog : Nat

def zstdLLTable : SeqTable := ⟨zstdLLDefaultNorm, 6, 36, zstdMaxLLCode, 9⟩
def zstdOFTable : SeqTable := ⟨zstdOFDefaultNorm, 5, zstdMaxOFCode + 1, zstdMaxOFCode, 8⟩
def zstdMLTable : SeqTable := ⟨zstdMLDefaultNorm, 6, 53, zstdMaxMLCode, 9⟩

def zstdSeqPredefined : Nat := 0
def zstdSeqRLE : Nat := 1
def zstdSeqFSE : Nat := 2
def zstdSeqRepeat : Nat := 3

/-- The table of one symbol that is repeated. -/
def rleSeqTable (src : List UInt8) (d : SeqTable) : Outcome DecodeError (FseTable × Nat) := do
  failIf (src.length < 1) ⟨"zstd decompress: truncated RLE sequence table"⟩
  let symb ← index src 0
  failIf (symb.toNat > d.maxCode)
    ⟨"zstd decompress: RLE symbol " ++ toString symb.toNat ++ " exceeds max code "
      ++ toString d.maxCode⟩
  return (zstdFseRLETable symb, 1)

/-- `zstdDecodeSeqTable`, for the symbol type with the limits `d`. -/
def zstdDecodeSeqTable (prev : Option FseTable) (src : List UInt8) (mode : Nat) (d : SeqTable)
    (hasPrev : Bool) : Outcome DecodeError (FseTable × Nat) :=
  if mode = zstdSeqPredefined then do
    let table ← zstdFseBuildTable d.defNorm d.defLog
    return (table, 0)
  else if mode = zstdSeqRLE then rleSeqTable src d
  else if mode = zstdSeqFSE then zstdFseDecodeTable src d.maxSyms d.maxLog
  else if mode = zstdSeqRepeat then
    match hasPrev, prev with
    | true, some table => return (table, 0)
    | _, _ => error ⟨"zstd decompress: Repeat_Mode sequence table without a previous table"⟩
  else error ⟨"zstd decompress: impossible sequence table mode " ++ toString mode⟩

/-! ## 2. Sequences -/

/-- `rep`: the repeated-offset history. -/
structure Offsets where
  rep0 : Int
  rep1 : Int
  rep2 : Int
deriving DecidableEq

/-- `zstdBlockState`: what a compressed block inherits from the blocks in front of it. -/
structure BlockState where
  blockMax : Nat
  rep : Offsets
  huf : Option HufTable
  ll : Option FseTable
  of : Option FseTable
  ml : Option FseTable
  litEntropy : Bool
  fseEntropy : Bool
deriving DecidableEq

structure ZstdSequence where
  litLength : Nat
  offsetValue : Int
  matchLength : Nat
deriving DecidableEq

/-- `nbSeq`, and where the bytes behind it start. -/
def sequenceCount (src : List UInt8) : Outcome DecodeError (Nat × Nat) := do
  failIf (0 ≥ src.length) ⟨"zstd decompress: truncated sequences section header"⟩
  let b0 ← index src 0
  if b0.toNat > 0x7f then
    if b0.toNat = 0xff then do
      failIf ((src.length : Int) - 1 < 2)
        ⟨"zstd decompress: truncated sequences section header"⟩
      let u ← uintAt 2 src 1
      return (u + 0x7f00, 3)
    else do
      failIf ((src.length : Int) - 1 < 1)
        ⟨"zstd decompress: truncated sequences section header"⟩
      let b1 ← index src 1
      return ((b0.toNat - 0x80) <<< 8 + b1.toNat, 2)
  else return (b0.toNat, 1)

/-- The tables of one section. -/
structure SeqTables where
  ll : FseTable
  of : FseTable
  ml : FseTable

/-- `zstdDecodeSeqTable` on `src[pos:]`, and where the bytes behind the table start. -/
def seqTableAt (prev : Option FseTable) (src : List UInt8) (pos mode : Nat) (d : SeqTable)
    (hasPrev : Bool) : Outcome DecodeError (FseTable × Nat) := do
  let rest ← dropFrom src pos
  let (table, used) ← zstdDecodeSeqTable prev rest mode d hasPrev
  return (table, pos + used)

/-- The loop over the three tables. -/
def sequenceTables (st : BlockState) (src : List UInt8) (pos modes : Nat) :
    Outcome DecodeError (SeqTables × Nat) := do
  let (ll, pos) ← seqTableAt st.ll src pos (modes >>> 6) zstdLLTable st.fseEntropy
  let (of, pos) ← seqTableAt st.of src pos (modes >>> 4 &&& 3) zstdOFTable st.fseEntropy
  let (ml, pos) ← seqTableAt st.ml src pos (modes >>> 2 &&& 3) zstdMLTable st.fseEntropy
  return (⟨ll, of, ml⟩, pos)

/-- The states of the three tables, the offset in the stream, and the sequences so far. -/
structure SeqReader where
  llState : UInt16
  ofState : UInt16
  mlState : UInt16
  off : Int
  seqs : List ZstdSequence

variable {ε : Type}

/-- A base from a table of codes plus its extra bits, read backwards from `off`. -/
def codeValue (bases bits : List Nat) (bitSrc : List UInt8) (code : Nat) (off : Int) :
    Outcome ε (Nat × Int) := do
  let nb ← index bits code
  let off := off - nb
  let base ← index bases code
  let v ← zstdReadBitsLE bitSrc nb off
  return (base + v, off)

/-- The sequence that the states stand for: offset, match length, literals length. -/
def readSequence (t : SeqTables) (bitSrc : List UInt8) (r : SeqReader) :
    Outcome DecodeError SeqReader := do
  let llCode ← index t.ll.symbols r.llState.toNat
  let ofCode ← index t.of.symbols r.ofState.toNat
  let mlCode ← index t.ml.symbols r.mlState.toNat
  failIf (llCode.toNat > zstdMaxLLCode ∨ mlCode.toNat > zstdMaxMLCode)
    ⟨"zstd decompress: sequence code out of range (ll " ++ toString llCode.toNat ++ ", ml "
      ++ toString mlCode.toNat ++ ")"⟩
  let off := r.off - ofCode.toNat
  let v ← zstdReadBitsLE bitSrc ofCode.toNat off
  let offsetValue : Nat := 1 <<< ofCode.toNat + v
  let (matchLength, off) ← codeValue zstdMLBase zstdMLBits bitSrc mlCode.toNat off
  let (litLength, off) ← codeValue zstdLLBase zstdLLBits bitSrc llCode.toNat off
  return { r with off := off, seqs := r.seqs ++ [⟨litLength, offsetValue, matchLength⟩] }

/-- The states move on: literals length, match length, offset. -/
def updateStates (t : SeqTables) (bitSrc : List UInt8) (r : SeqReader) :
    Outcome ε SeqReader := do
  let (llState, off) ← t.ll.updateBackward r.llState bitSrc r.off
  let (mlState, off) ← t.ml.updateBackward r.mlState bitSrc off
  let (ofState, off) ← t.of.updateBackward r.ofState bitSrc off
  return { r with llState := llState, ofState := ofState, mlState := mlState, off := off }

/-- One turn of the loop over the sequences; the last one does not update the states. -/
def sequenceStep (t : SeqTables) (bitSrc : List UInt8) (nbSeq : Nat) (r : SeqReader) (i : Nat) :
    Outcome DecodeError SeqReader := do
  let r ← readSequence t bitSrc r
  if i = nbSeq - 1 then return r else updateStates t bitSrc r

/-- The interleaved stream behind the tables. -/
def sequenceStream (t : SeqTables) (bitSrc : List UInt8) (nbSeq : Nat) :
    Outcome DecodeError (List ZstdSequence) := do
  failIf (bitSrc.length = 0) ⟨"zstd decompress: truncated sequences bitstream"⟩
  let last ← index bitSrc (bitSrc.length - 1)
  failIf (last.toNat = 0)
    ⟨"zstd decompress: corrupted sequences bitstream (final bit flag missing)"⟩
  let (llState, off) ← t.ll.initBackward bitSrc (streamEnd bitSrc last.toNat)
  let (ofState, off) ← t.of.initBackward bitSrc off
  let (mlState, off) ← t.ml.initBackward bitSrc off
  let r ← (List.range nbSeq).foldlM (sequenceStep t bitSrc nbSeq)
    ⟨llState, ofState, mlState, off, []⟩
  failIf (r.off ≠ 0) ⟨"zstd decompress: sequences bitstream not exactly consumed"⟩
  return r.seqs

/-- The section behind its count, when there are sequences. -/
def someSequences (st : BlockState) (src : List UInt8) (nbSeq pos : Nat) :
    Outcome DecodeError (List ZstdSequence × BlockState) := do
  failIf (pos ≥ src.length) ⟨"zstd decompress: truncated symbol compression modes"⟩
  let modes ← index src pos
  failIf (modes.toNat &&& 0x03 ≠ 0)
    ⟨"zstd decompress: reserved bits set in symbol compression modes"⟩
  let (t, pos) ← sequenceTables st src (pos + 1) modes.toNat
  let bitSrc ← dropFrom src pos
  let seqs ← sequenceStream t bitSrc nbSeq
  return (seqs, { st with ll := some t.ll, of := some t.of, ml := some t.ml, fseEntropy := true })

def zstdDecodeSequences (st : BlockState) (src : List UInt8) :
    Outcome DecodeError (List ZstdSequence × BlockState) := do
  let (nbSeq, pos) ← sequenceCount src
  if nbSeq = 0 then do
    failIf (pos ≠ src.length)
      ⟨"zstd decompress: extraneous data present in the Sequences section"⟩
    return ([], st)
  else someSequences st src nbSeq pos

/-! ## 3. Execution -/

/-- `idx`: without literals the repeated offsets shift by one. -/
def repeatIndex (offsetValue : Int) (litLength : Nat) : Int :=
  if litLength = 0 then offsetValue - 1 + 1 else offsetValue - 1

/-- `zstdResolveOffset`: the offset of the match, and the history behind it. -/
def zstdResolveOffset (rep : Offsets) (offsetValue : Int) (litLength : Nat) :
    Outcome DecodeError (Int × Offsets) :=
  if offsetValue > 3 then return (offsetValue - 3, ⟨offsetValue - 3, rep.rep0, rep.rep1⟩)
  else if repeatIndex offsetValue litLength = 0 then return (rep.rep0, rep)
  else if repeatIndex offsetValue litLength = 1 then
    return (rep.rep1, ⟨rep.rep1, rep.rep0, rep.rep2⟩)
  else if repeatIndex offsetValue litLength = 2 then
    return (rep.rep2, ⟨rep.rep2, rep.rep0, rep.rep1⟩)
  else do
    let offset := rep.rep0 - 1
    failIf (offset ≤ 0)
      ⟨"zstd decompress: invalid repeated offset (Repeated_Offset1 minus 1 byte)"⟩
    return (offset, ⟨offset, rep.rep0, rep.rep1⟩)

def zstdRepeatByte (b : UInt8) (n : Nat) : List UInt8 := List.replicate n b

/-- One byte of a match: `(*out)[start+k] = (*out)[start+k-int(offset)]`. -/
def matchByte (start : Nat) (offset : Int) (out : List UInt8) (k : Nat) :
    Outcome ε (List UInt8) := do
  let b ← indexInt out ((start : Int) + k - offset)
  store out (start + k) b

/-- Room for the match, and then its bytes one by one. -/
def appendMatch (out : List UInt8) (offset : Int) (matchLength : Nat) : Outcome ε (List UInt8) :=
  (List.range matchLength).foldlM (matchByte out.length offset)
    (out ++ zstdRepeatByte 0 matchLength)

/-- Where the execution stands in the literals and in the output. -/
structure Execution where
  rep : Offsets
  litPos : Nat
  totalOutput : Int
  out : List UInt8

/-- How far back a match may reach. -/
def matchLimit (totalOutput : Int) (windowSize : Nat) : Int :=
  if totalOutput > windowSize then windowSize else totalOutput

/-- One turn of the loop over the sequences. -/
def executeSequence (literals : List UInt8) (windowSize : Nat) (e : Execution)
    (seq : ZstdSequence) : Outcome DecodeError Execution := do
  failIf ((seq.litLength : Int) > (literals.length : Int) - e.litPos)
    ⟨"zstd decompress: sequence needs " ++ toString seq.litLength ++ " literals, "
      ++ toString ((literals.length : Int) - e.litPos) ++ " left"⟩
  let part ← slice literals e.litPos (e.litPos + seq.litLength)
  let totalOutput := e.totalOutput + seq.litLength
  let (offset, rep) ← zstdResolveOffset e.rep seq.offsetValue seq.litLength
  failIf (offset > matchLimit totalOutput windowSize)
    ⟨"zstd decompress: match offset " ++ toString offset
      ++ " reaches before the start of the frame output ("
      ++ toString (matchLimit totalOutput windowSize) ++ " bytes available)"⟩
  let out ← appendMatch (e.out ++ part) offset seq.matchLength
  return ⟨rep, e.litPos + seq.litLength, totalOutput + seq.matchLength, out⟩

/-- `zstdExecuteSequences`: the history and the output behind the block. -/
def zstdExecuteSequences (rep : Offsets) (literals : List UInt8) (seqs : List ZstdSequence)
    (out : List UInt8) (frameStart windowSize : Nat) :
    Outcome DecodeError (Offsets × List UInt8) := do
  let e ← seqs.foldlM (executeSequence literals windowSize)
    ⟨rep, 0, (out.length : Int) - frameStart, out⟩
  let rest ← dropFrom literals e.litPos
  return (e.rep, e.out ++ rest)

/-! ## 4. What a block inherits -/

/-- All three offsets of the history are at least 1. -/
def Offsets.Positive (rep : Offsets) : Prop := 1 ≤ rep.rep0 ∧ 1 ≤ rep.rep1 ∧ 1 ≤ rep.rep2

/-- Every table is closed under its steps, and every offset of the history is at least 1. -/
structure BlockState.Valid (st : BlockState) : Prop where
  rep : st.rep.Positive
  huf : ∀ t, st.huf = some t → t.Valid
  ll : ∀ t, st.ll = some t → t.Valid 36
  of : ∀ t, st.of = some t → t.Valid 32
  ml : ∀ t, st.ml = some t → t.Valid 53

theorem FseTable.Valid.mono {t : FseTable} {bound bound' : Nat} (h : t.Valid bound)
    (hle : bound ≤ bound') : t.Valid bound' :=
  { h with codes := fun c hc => (h.codes c hc).trans_le hle }

/-- A symbol type whose predefined table exists and whose codes are below `maxSyms`. -/
structure SeqTable.Sound (d : SeqTable) : Prop where
  predefined : Distribution d.defNorm d.defLog
  defSyms : d.defNorm.length ≤ d.maxSyms
  code : d.maxCode < d.maxSyms
  syms : d.maxSyms ≤ 256

theorem zstdLLTable_sound : zstdLLTable.Sound :=
  ⟨⟨by decide, by decide, by decide, by decide, by decide⟩, by decide, by decide, by decide⟩

theorem zstdOFTable_sound : zstdOFTable.Sound :=
  ⟨⟨by decide, by decide, by decide, by decide, by decide⟩, by decide, by decide, by decide⟩

theorem zstdMLTable_sound : zstdMLTable.Sound :=
  ⟨⟨by decide, by decide, by decide, by decide, by decide⟩, by decide, by decide, by decide⟩

section Tables

variable {d : SeqTable} {prev : Option FseTable}

theorem rleSeqTable_safe (hd : d.Sound) (src : List UInt8) :
    Safe (fun r => r.1.Valid d.maxSyms ∧ r.2 ≤ src.length) (rleSeqTable src d) := by
  refine Safe.failIf_bind fun hlen => ?_
  refine Sat.bind (sat_index (by omega)) fun symb _ => ?_
  refine Safe.failIf_bind fun hcode => ?_
  have hlt := hd.code
  exact sat_pure ⟨zstdFseRLETable_valid (by omega), by dsimp only; omega⟩

theorem zstdDecodeSeqTable_safe (hd : d.Sound) (hprev : ∀ t, prev = some t → t.Valid d.maxSyms)
    (src : List UInt8) (mode : Nat) (hasPrev : Bool) :
    Safe (fun r => r.1.Valid d.maxSyms ∧ r.2 ≤ src.length)
      (zstdDecodeSeqTable prev src mode d hasPrev) := by
  unfold zstdDecodeSeqTable
  split
  · refine Sat.bind (zstdFseBuildTable_sat hd.predefined) fun t ht => ?_
    exact sat_pure ⟨ht.2.mono hd.defSyms, Nat.zero_le _⟩
  split
  · exact rleSeqTable_safe hd src
  split
  · exact zstdFseDecodeTable_safe src hd.syms d.maxLog
  split
  · split
    · exact sat_pure ⟨hprev _ rfl, Nat.zero_le _⟩
    · exact .fails trivial
  · exact .fails trivial

theorem seqTableAt_safe (hd : d.Sound) (hprev : ∀ t, prev = some t → t.Valid d.maxSyms)
    {src : List UInt8} {pos : Nat} (hpos : pos ≤ src.length) (mode : Nat) (hasPrev : Bool) :
    Safe (fun r => r.1.Valid d.maxSyms ∧ r.2 ≤ src.length)
      (seqTableAt prev src pos mode d hasPrev) := by
  unfold seqTableAt
  rw [dropFrom_eq hpos, ok_bind]
  refine Sat.bind (zstdDecodeSeqTable_safe hd hprev _ mode hasPrev) fun r hr => ?_
  obtain ⟨hvalid, hused⟩ := hr
  rw [length_drop] at hused
  exact sat_pure ⟨hvalid, by dsimp only; omega⟩

end Tables

/-- The three tables of a section. -/
structure SeqTables.Valid (t : SeqTables) : Prop where
  ll : t.ll.Valid 36
  of : t.of.Valid 32
  ml : t.ml.Valid 53

variable {st : BlockState} {rep : Offsets} {out : List UInt8} {frameStart : Nat}

theorem sequenceTables_safe (hst : st.Valid) {src : List UInt8} {pos : Nat}
    (hpos : pos ≤ src.length) (modes : Nat) :
    Safe (fun r => r.1.Valid ∧ r.2 ≤ src.length) (sequenceTables st src pos modes) := by
  refine Sat.bind (seqTableAt_safe zstdLLTable_sound hst.ll hpos _ _) fun ll hll => ?_
  refine Sat.bind (seqTableAt_safe zstdOFTable_sound hst.of hll.2 _ _) fun of hof => ?_
  refine Sat.bind (seqTableAt_safe zstdMLTable_sound hst.ml hof.2 _ _) fun ml hml => ?_
  exact sat_pure ⟨⟨hll.1, hof.1, hml.1⟩, hml.2⟩

/-! ## 5. The stream of the sequences -/

section Stream

variable {t : SeqTables} {bitSrc : List UInt8}

/-- The states are inside their tables, and every offset value is at least 1. -/
structure SeqReader.Inside (t : SeqTables) (r : SeqReader) : Prop where
  ll : r.llState.toNat < 2 ^ t.ll.accuracyLog
  of : r.ofState.toNat < 2 ^ t.of.accuracyLog
  ml : r.mlState.toNat < 2 ^ t.ml.accuracyLog
  seqs : ∀ s ∈ r.seqs, 1 ≤ s.offsetValue

theorem codeValue_sat {E : ε → Prop} {bases bits : List Nat} {code : Nat}
    (hbases : code < bases.length) (hbits : code < bits.length) (off : Int) :
    Sat E (fun _ => True) (codeValue bases bits bitSrc code off : Outcome ε (Nat × Int)) := by
  refine Sat.bind (sat_index hbits) fun nb _ => ?_
  refine Sat.bind (sat_index hbases) fun base _ => ?_
  refine Sat.bind (zstdReadBitsLE_returns nb _) fun v _ => ?_
  exact sat_pure trivial

theorem readSequence_safe (ht : t.Valid) {r : SeqReader} (hr : r.Inside t) :
    Safe (SeqReader.Inside t) (readSequence t bitSrc r) := by
  refine Sat.bind (ht.ll.symbolAt hr.ll) fun llCode _ => ?_
  refine Sat.bind (ht.of.symbolAt hr.of) fun ofCode _ => ?_
  refine Sat.bind (ht.ml.symbolAt hr.ml) fun mlCode _ => ?_
  refine Safe.failIf_bind fun hcodes => ?_
  have hll : llCode.toNat < 36 := by unfold zstdMaxLLCode at hcodes; omega
  have hml : mlCode.toNat < 53 := by unfold zstdMaxMLCode at hcodes; omega
  refine Sat.bind (zstdReadBitsLE_returns _ _) fun v _ => ?_
  refine Sat.bind (codeValue_sat hml hml _) fun ml _ => ?_
  refine Sat.bind (codeValue_sat hll hll _) fun ll _ => ?_
  refine sat_pure ⟨hr.ll, hr.of, hr.ml, ?_⟩
  intro s hs
  rcases mem_append.mp hs with hold | hnew
  · exact hr.seqs s hold
  · rw [mem_singleton.mp hnew]
    dsimp only
    have hpos : 0 < 1 <<< ofCode.toNat := by
      rw [Nat.one_shiftLeft]
      exact Nat.two_pow_pos _
    omega

theorem updateStates_sat {E : ε → Prop} (ht : t.Valid) {r : SeqReader} (hr : r.Inside t) :
    Sat E (SeqReader.Inside t) (updateStates t bitSrc r : Outcome ε SeqReader) := by
  refine Sat.bind (ht.ll.updateBackward hr.ll _ _) fun ll hll => ?_
  refine Sat.bind (ht.ml.updateBackward hr.ml _ _) fun ml hml => ?_
  refine Sat.bind (ht.of.updateBackward hr.of _ _) fun of hof => ?_
  exact sat_pure ⟨hll, hof, hml, hr.seqs⟩

theorem sequenceStep_safe (ht : t.Valid) (nbSeq i : Nat) {r : SeqReader} (hr : r.Inside t) :
    Safe (SeqReader.Inside t) (sequenceStep t bitSrc nbSeq r i) := by
  refine Sat.bind (readSequence_safe ht hr) fun r' hr' => ?_
  split
  · exact sat_pure hr'
  · exact updateStates_sat ht hr'

theorem sequenceStream_safe (ht : t.Valid) (nbSeq : Nat) :
    Safe (fun seqs => ∀ s ∈ seqs, 1 ≤ s.offsetValue) (sequenceStream t bitSrc nbSeq) := by
  refine Safe.failIf_bind fun hlen => ?_
  refine Sat.bind (sat_index (by omega)) fun last _ => ?_
  refine Safe.failIf_bind fun _ => ?_
  refine Sat.bind (ht.ll.initBackward _ _) fun ll hll => ?_
  refine Sat.bind (ht.of.initBackward _ _) fun of hof => ?_
  refine Sat.bind (ht.ml.initBackward _ _) fun ml hml => ?_
  have hstart : SeqReader.Inside t ⟨ll.1, of.1, ml.1, ml.2, []⟩ :=
    ⟨hll, hof, hml, by intro s hs; cases hs⟩
  refine Sat.bind (Sat.forRange (I := fun _ r => r.Inside t) hstart
    fun i r _ hr => sequenceStep_safe ht nbSeq i hr) fun r hr => ?_
  refine Safe.failIf_bind fun _ => ?_
  exact sat_pure hr.seqs

end Stream

theorem sequenceCount_safe (src : List UInt8) :
    Safe (fun r => r.2 ≤ src.length) (sequenceCount src) := by
  refine Safe.failIf_bind fun hlen => ?_
  refine Sat.bind (sat_index (by omega)) fun b0 _ => ?_
  split
  · split
    · refine Safe.failIf_bind fun hroom => ?_
      refine Sat.bind (sat_uintAt (by omega)) fun u _ => sat_ok ?_
      omega
    · refine Safe.failIf_bind fun hroom => ?_
      refine Sat.bind (sat_index (by omega)) fun b1 _ => sat_ok ?_
      omega
  · exact sat_pure (by omega)

/-- **The sequences section stays inside its bytes, and what it leaves is valid again.** -/
theorem zstdDecodeSequences_safe (hst : st.Valid) (src : List UInt8) :
    Safe (fun r => (∀ s ∈ r.1, 1 ≤ s.offsetValue) ∧ r.2.Valid ∧ r.2.rep = st.rep ∧
      r.2.blockMax = st.blockMax) (zstdDecodeSequences st src) := by
  refine Sat.bind (sequenceCount_safe src) fun r hr => ?_
  obtain ⟨nbSeq, pos⟩ := r
  dsimp only at hr ⊢
  split
  · refine Safe.failIf_bind fun _ => ?_
    exact sat_pure ⟨(by intro s hs; cases hs), hst, rfl, rfl⟩
  · refine Safe.failIf_bind fun hpos => ?_
    refine Sat.bind (sat_index (by omega)) fun modes _ => ?_
    refine Safe.failIf_bind fun _ => ?_
    refine Sat.bind (sequenceTables_safe hst (by omega) _) fun r hr => ?_
    obtain ⟨ht, hpos⟩ := hr
    dsimp only at ht hpos ⊢
    rw [dropFrom_eq hpos, ok_bind]
    refine Sat.bind (sequenceStream_safe ht nbSeq) fun seqs hseqs => ?_
    refine sat_pure ⟨hseqs, ⟨hst.rep, hst.huf, ?_, ?_, ?_⟩, rfl, rfl⟩
    · rintro _ ⟨⟩
      exact ht.ll
    · rintro _ ⟨⟩
      exact ht.of
    · rintro _ ⟨⟩
      exact ht.ml

/-! ## 6. Matches stay inside the output -/

/-- **The repeat-offset rules**: what an offset value stands for behind so many literals, and the
history behind it. Without literals the meaning of the first three values is shifted. -/
inductive Offsets.Resolves (rep : Offsets) : Int → Nat → Int → Offsets → Prop where
  | new {v : Int} {n : Nat} (hv : 3 < v) :
      rep.Resolves v n (v - 3) ⟨v - 3, rep.rep0, rep.rep1⟩
  | first {n : Nat} (hn : n ≠ 0) : rep.Resolves 1 n rep.rep0 rep
  | second {v : Int} {n : Nat} (h : (v = 2 ∧ n ≠ 0) ∨ (v = 1 ∧ n = 0)) :
      rep.Resolves v n rep.rep1 ⟨rep.rep1, rep.rep0, rep.rep2⟩
  | third {v : Int} {n : Nat} (h : (v = 3 ∧ n ≠ 0) ∨ (v = 2 ∧ n = 0)) :
      rep.Resolves v n rep.rep2 ⟨rep.rep2, rep.rep0, rep.rep1⟩
  | less : rep.Resolves 3 0 (rep.rep0 - 1) ⟨rep.rep0 - 1, rep.rep0, rep.rep1⟩

theorem zstdResolveOffset_safe (hrep : rep.Positive) (offsetValue : Int) (litLength : Nat) :
    Safe (fun r => 1 ≤ r.1 ∧ r.2.Positive ∧
        (1 ≤ offsetValue → rep.Resolves offsetValue litLength r.1 r.2))
      (zstdResolveOffset rep offsetValue litLength) := by
  obtain ⟨h0, h1, h2⟩ := hrep
  have hindex : (litLength = 0 ∧ repeatIndex offsetValue litLength = offsetValue) ∨
      (litLength ≠ 0 ∧ repeatIndex offsetValue litLength = offsetValue - 1) := by
    unfold repeatIndex
    split <;> omega
  unfold zstdResolveOffset
  split
  · exact sat_pure ⟨by dsimp only; omega, ⟨by dsimp only; omega, h0, h1⟩, fun _ => .new ‹_›⟩
  split
  · refine sat_pure ⟨h0, ⟨h0, h1, h2⟩, fun hv => ?_⟩
    obtain ⟨rfl, hn⟩ : offsetValue = 1 ∧ litLength ≠ 0 := by omega
    exact .first hn
  split
  · exact sat_pure ⟨h1, ⟨h1, h0, h2⟩, fun hv => .second (by omega)⟩
  split
  · exact sat_pure ⟨h2, ⟨h2, h0, h1⟩, fun hv => .third (by omega)⟩
  · refine Safe.failIf_bind fun hpos => ?_
    refine sat_pure ⟨by dsimp only; omega, ⟨by dsimp only; omega, h0, h1⟩, fun hv => ?_⟩
    obtain ⟨rfl, rfl⟩ : offsetValue = 3 ∧ litLength = 0 := by omega
    exact .less

theorem appendMatch_sat {E : ε → Prop} {offset : Int} (hpos : 1 ≤ offset)
    (hback : offset ≤ out.length) (n : Nat) :
    Sat E (fun out' => out'.length = out.length + n)
      (appendMatch out offset n : Outcome ε (List UInt8)) := by
  have hstart : (out ++ zstdRepeatByte 0 n).length = out.length + n := by
    rw [length_append, zstdRepeatByte, length_replicate]
  refine Sat.forRange (I := fun _ (out' : List UInt8) => out'.length = out.length + n) hstart
    fun k out' hk hlen => ?_
  unfold matchByte indexInt
  rw [if_neg (by omega)]
  refine Sat.bind (sat_index (by omega)) fun b _ => ?_
  rw [store_eq (by omega)]
  exact sat_ok (by rw [length_set]; exact hlen)

/-- The execution stands inside the literals, and counts the output of the frame. -/
structure Execution.Inside (literals : List UInt8) (frameStart : Nat) (e : Execution) : Prop where
  rep : e.rep.Positive
  lit : e.litPos ≤ literals.length
  frame : frameStart ≤ e.out.length
  total : e.totalOutput = (e.out.length : Int) - frameStart

theorem matchLimit_le (totalOutput : Int) (windowSize : Nat) :
    matchLimit totalOutput windowSize ≤ totalOutput ∧
      matchLimit totalOutput windowSize ≤ windowSize := by
  unfold matchLimit
  split <;> omega

theorem executeSequence_safe {literals : List UInt8} (windowSize : Nat) {e : Execution}
    (he : e.Inside literals frameStart) (seq : ZstdSequence) :
    Safe (fun e' => e'.Inside literals frameStart ∧
        ∃ offset, zstdResolveOffset e.rep seq.offsetValue seq.litLength = ok (offset, e'.rep) ∧
          (1 ≤ seq.offsetValue → e.rep.Resolves seq.offsetValue seq.litLength offset e'.rep) ∧
          1 ≤ offset ∧ offset ≤ windowSize ∧
          offset ≤ (e.out.length : Int) + seq.litLength - frameStart)
      (executeSequence literals windowSize e seq) := by
  have htotal := he.total
  refine Safe.failIf_bind fun hroom => ?_
  refine Sat.bind (sat_slice (by omega) (by omega)) fun part hpart => ?_
  refine Sat.bind (zstdResolveOffset_safe he.rep _ _).with_eq fun r hr => ?_
  obtain ⟨offset, rep⟩ := r
  obtain ⟨⟨hoffset, hrep, hrules⟩, heq⟩ := hr
  refine Safe.failIf_bind fun hlimit => ?_
  have hle := matchLimit_le (e.totalOutput + seq.litLength) windowSize
  have hlen : (e.out ++ part).length = e.out.length + seq.litLength := by
    rw [length_append]
    omega
  refine Sat.bind (appendMatch_sat hoffset (by omega) _) fun out hout => ?_
  exact sat_pure ⟨⟨hrep, by dsimp only; omega, by dsimp only; omega, by dsimp only; omega⟩,
    offset, heq, hrules, hoffset, by omega, by omega⟩

theorem executeSequences_safe (hrep : rep.Positive) (literals : List UInt8)
    (seqs : List ZstdSequence) (hframe : frameStart ≤ out.length) (windowSize : Nat) :
    Safe (Execution.Inside literals frameStart) (seqs.foldlM (executeSequence literals windowSize)
      ⟨rep, 0, (out.length : Int) - frameStart, out⟩) :=
  Sat.foldlM (I := fun _ e => e.Inside literals frameStart) ⟨hrep, Nat.zero_le _, hframe, rfl⟩
    fun seq _ _ he => (executeSequence_safe windowSize he seq).mono fun _ h => h.1

/-- **No match reaches outside the output, whatever the sequences ask for.** -/
theorem zstdExecuteSequences_safe (hrep : rep.Positive) (literals : List UInt8)
    (seqs : List ZstdSequence) (hframe : frameStart ≤ out.length) (windowSize : Nat) :
    Safe (fun r => r.1.Positive ∧ frameStart ≤ r.2.length)
      (zstdExecuteSequences rep literals seqs out frameStart windowSize) := by
  refine Sat.bind (executeSequences_safe hrep literals seqs hframe windowSize) fun e he => ?_
  rw [dropFrom_eq he.lit]
  refine sat_pure ⟨he.rep, ?_⟩
  have hout := he.frame
  rw [length_append]
  omega

end RocketMQ.Compress
