/-
  File:      RocketMQ/Compress/ZstdFrame.lean
  Subject:   ZSTD frames and streams of frames (`common/zstd.go`).

  * `CutHeader`, `BlockOverrun`, `FrameOverrun`: the frames on which the code reads outside a buffer
    (`zstdDecodeFrameInto_crash`), and no others (`zstdDecodeFrameInto_safe`);
  * `zstdDecompressFrame_returns_iff`: **the decoder returns content or an error exactly on the
    streams that are sound wherever it gets to**.
-/
import RocketMQ.Compress.Xxh64
import RocketMQ.Compress.ZstdLiterals

namespace RocketMQ.Compress

open List Outcome

def zstdMagic : Nat := 0xfd2fb528
def zstdSkippableMagicMin : Nat := 0x184d2a50
def zstdSkippableMagicMax : Nat := 0x184d2a5f
def zstdBlockMax : Nat := 128 * 1024
def zstdWindowLogMax : Nat := 31
def zstdBlockTypeRaw : Nat := 0
def zstdBlockTypeRLE : Nat := 1
def zstdBlockTypeCompressed : Nat := 2

def zstdStartOffsets : Offsets := ⟨1, 4, 8⟩

/-! ## 1. Blocks -/

def blockExceeds (size blockMax : Nat) : DecodeError :=
  ⟨"zstd decompress: block regenerates " ++ toString size ++ " bytes, max " ++ toString blockMax⟩

/-- `zstdDecodeCompressedBlock`: the state and the output behind the block. -/
def zstdDecodeCompressedBlock (st : BlockState) (src out : List UInt8)
    (frameStart windowSize : Nat) : Outcome DecodeError (BlockState × List UInt8) := do
  failIf (src.length < 2) ⟨"zstd decompress: compressed block too small"⟩
  let (literals, pos, st) ← zstdDecodeLiterals st src
  let rest ← dropFrom src pos
  let (seqs, st) ← zstdDecodeSequences st rest
  let (rep, out') ← zstdExecuteSequences st.rep literals seqs out frameStart windowSize
  failIf (out'.length - out.length > st.blockMax)
    (blockExceeds (out'.length - out.length) st.blockMax)
  return ({ st with rep := rep }, out')

/-- Where the loop over the blocks stands. -/
structure ZstdBlocks where
  p : Nat
  st : BlockState
  out : List UInt8

variable (data : List UInt8)

/-- The content of one block of `size` bytes, behind its header. -/
def zstdBlock (frameStart windowSize blockMax blockType size : Nat)
    (s : ZstdBlocks) : Outcome DecodeError ZstdBlocks :=
  if blockType = zstdBlockTypeRaw then do
    failIf (size > blockMax) (blockExceeds size blockMax)
    failIf ((size : Int) > (data.length : Int) - s.p) ⟨"zstd decompress: truncated raw block"⟩
    let part ← slice data s.p (s.p + size)
    return ⟨s.p + size, s.st, s.out ++ part⟩
  else if blockType = zstdBlockTypeRLE then do
    failIf (size > blockMax) (blockExceeds size blockMax)
    failIf ((data.length : Int) - s.p < 1) ⟨"zstd decompress: truncated rle block"⟩
    let b ← index data s.p
    return ⟨s.p + 1, s.st, s.out ++ zstdRepeatByte b size⟩
  else if blockType = zstdBlockTypeCompressed then do
    failIf ((size : Int) > (data.length : Int) - s.p)
      ⟨"zstd decompress: truncated compressed block"⟩
    let src ← slice data s.p (s.p + size)
    let (st, out) ← zstdDecodeCompressedBlock s.st src s.out frameStart windowSize
    return ⟨s.p + size, st, out⟩
  else error ⟨"zstd decompress: reserved block type 3 (not a block in this format version)"⟩

/-- One turn of the loop over the blocks. -/
def zstdBlockTurn (frameStart windowSize blockMax : Nat) (s : ZstdBlocks) :
    Outcome DecodeError (ZstdBlocks ⊕ ZstdBlocks) := do
  failIf (s.p + 3 > data.length) ⟨"zstd decompress: truncated block header"⟩
  let b0 ← index data s.p
  let b1 ← index data (s.p + 1)
  let b2 ← index data (s.p + 2)
  let h := uint24 b0 b1 b2
  let s ← zstdBlock data frameStart windowSize blockMax (h >>> 1 &&& 0x3) (h >>> 3)
    { s with p := s.p + 3 }
  return if h &&& 1 = 1 then .inr s else .inl s

/-! ## 2. Frames -/

def zstdReadLE {ε : Type} (b : List UInt8) (size : Nat) : Outcome ε Nat :=
  if size = 1 then do
    let b0 ← index b 0
    return b0.toNat
  else if size = 2 ∨ size = 4 ∨ size = 8 then uint size b
  else return 0

/-- What the decoder takes from a frame header, and where the blocks start. -/
structure ZstdHeader where
  p : Nat
  windowSize : Nat
  hasContentSize : Bool
  contentSize : Nat
  checksumFlag : Bool
deriving DecidableEq

variable (singleSegment : Bool)

/-- The window size, and the position behind the Window_Descriptor; a single segment has none. -/
def windowDescriptor (p : Nat) : Outcome DecodeError (Nat × Nat) :=
  if singleSegment then return (0, p)
  else do
    let wd ← index data p
    let windowLog := wd.toNat >>> 3 + 10
    failIf (windowLog > zstdWindowLogMax)
      ⟨"zstd decompress: window log " ++ toString windowLog ++ " too large (max "
        ++ toString zstdWindowLogMax ++ ")"⟩
    let base := 1 <<< windowLog
    return (base + base >>> 3 * (wd.toNat &&& 7), p + 1)

/-- The check of the Dictionary_ID, and the position behind it. -/
def dictionaryId (dictIdFlag p : Nat) : Outcome DecodeError Nat := do
  let dictIdSize ← index [0, 1, 2, 4] dictIdFlag
  failIf (p + dictIdSize > data.length) ⟨"zstd decompress: truncated frame header"⟩
  let rest ← dropFrom data p
  let id ← zstdReadLE rest dictIdSize
  failIf (dictIdSize > 0 ∧ id ≠ 0)
    ⟨"zstd decompress: frames using Dictionary_ID " ++ toString id
      ++ " are not supported (no dictionary)"⟩
  return p + dictIdSize

def fcsSizes : List Nat :=
  if singleSegment then [1, 2, 4, 8] else [0, 2, 4, 8]

/-- The size of the Frame_Content_Size, its value, and the position behind it. -/
def frameContentSize (fcsFlag p : Nat) :
    Outcome DecodeError (Nat × Nat × Nat) := do
  let fcsSize ← index (fcsSizes singleSegment) fcsFlag
  failIf (p + fcsSize > data.length) ⟨"zstd decompress: truncated frame header"⟩
  let rest ← dropFrom data p
  let contentSize ← zstdReadLE rest fcsSize
  -- the 2-byte field is the offset-of-256 encoding
  return (fcsSize, if fcsSize = 2 then contentSize + 256 else contentSize, p + fcsSize)

/-- The frame header, in front of the blocks. -/
def zstdFrameHeader : Outcome DecodeError ZstdHeader := do
  failIf (data.length < 5) ⟨"zstd decompress: truncated frame header"⟩
  let magic ← uint 4 data
  failIf (magic ≠ zstdMagic) ⟨"zstd decompress: bad magic 0x" ++ hex magic⟩
  let desc ← index data 4
  let desc := desc.toNat
  failIf (desc &&& 0x08 ≠ 0) ⟨"zstd decompress: reserved bit set in Frame_Header_Descriptor"⟩
  let singleSegment : Bool := desc &&& 0x20 ≠ 0
  let (windowSize, p) ← windowDescriptor data singleSegment 5
  let p ← dictionaryId data (desc &&& 0x3) p
  let (fcsSize, contentSize, p) ← frameContentSize data singleSegment (desc >>> 6 &&& 0x3) p
  return ⟨p, if singleSegment then contentSize else windowSize, fcsSize > 0, contentSize,
    desc &&& 0x04 ≠ 0⟩

def ZstdHeader.blockMax (h : ZstdHeader) : Nat :=
  if h.windowSize > zstdBlockMax then zstdBlockMax else h.windowSize

/-- Where the loop over the blocks starts. -/
def ZstdHeader.start (h : ZstdHeader) (out : List UInt8) : ZstdBlocks :=
  ⟨h.p, ⟨h.blockMax, zstdStartOffsets, none, none, none, none, false, false⟩, out⟩

/-- Eight hexadecimal digits. -/
def hex8 (n : Nat) : String := String.ofList (List.replicate (8 - (hex n).length) '0') ++ hex n

/-- The content checksum, and the position behind it. -/
def zstdChecksum (checksumFlag : Bool) (frameStart : Nat) (s : ZstdBlocks) :
    Outcome DecodeError Nat :=
  if checksumFlag then do
    failIf ((data.length : Int) - s.p < 4) ⟨"zstd decompress: truncated content checksum"⟩
    let want ← uintAt 4 data s.p
    let content ← dropFrom s.out frameStart
    let sum ← zstdXXH64 content 0
    let got := sum.toNat % 2 ^ 32
    failIf (got ≠ want)
      ⟨"zstd decompress: content checksum mismatch (frame has 0x" ++ hex8 want
        ++ ", content hashes to 0x" ++ hex8 got ++ ")"⟩
    return s.p + 4
  else return s.p

/-- `zstdDecodeFrameInto`: the bytes that the frame takes, and the output behind it. -/
def zstdDecodeFrameInto (data out : List UInt8) : Outcome DecodeError (Nat × List UInt8) := do
  let h ← zstdFrameHeader data
  let s ← loop (zstdBlockTurn data out.length h.windowSize h.blockMax) (data.length + 1)
    (h.start out)
  let produced := s.out.length - out.length
  failIf (h.hasContentSize ∧ produced ≠ h.contentSize)
    ⟨"zstd decompress: frame regenerates " ++ toString produced ++ " bytes, header announces "
      ++ toString h.contentSize⟩
  let p ← zstdChecksum data h.checksumFlag out.length s
  return (p, s.out)

/-! ## 3. Streams -/

/-- The position behind a skippable frame. -/
def skippableFrame (p : Nat) : Outcome DecodeError Nat := do
  failIf (p + 8 > data.length) ⟨"zstd decompress: truncated skippable frame header"⟩
  let size ← uintAt 4 data (p + 4)
  failIf (size > data.length - p - 8) ⟨"zstd decompress: truncated skippable frame"⟩
  return p + 8 + size

/-- One turn of the loop over the frames. -/
def streamTurn (s : Nat × List UInt8) : Outcome DecodeError ((Nat × List UInt8) ⊕ List UInt8) :=
  if s.1 < data.length then do
    let magic ← uintAt 4 data s.1
    if magic = zstdMagic then do
      let frame ← dropFrom data s.1
      let (n, out) ← zstdDecodeFrameInto frame s.2
      return .inl (s.1 + n, out)
    else if zstdSkippableMagicMin ≤ magic ∧ magic ≤ zstdSkippableMagicMax then do
      let p ← skippableFrame data s.1
      return .inl (p, s.2)
    else error ⟨"zstd decompress: bad magic 0x" ++ hex magic ++ " at offset " ++ toString s.1⟩
  else return .inr s.2

def zstdDecompressFrame : Outcome DecodeError (List UInt8) := do
  failIf (data.length < 4) ⟨"zstd decompress: input too short"⟩
  loop (streamTurn data) (data.length + 1) (0, [])

/-! ## 4. Where a block crashes -/

section Block

variable {st : BlockState} {src out : List UInt8} {frameStart windowSize : Nat}

theorem length_of_rleOverrun {blockMax : Nat} (h : RleOverrun blockMax src) : 2 ≤ src.length := by
  obtain ⟨f, n, b, rest, _, _, rfl, _⟩ := h
  have hlen := length_plainHeaderBytes 1 f n
  have hpos : 1 ≤ f.width := by cases f <;> decide
  rw [length_append, length_cons]
  omega

theorem zstdDecodeCompressedBlock_crash (h : RleOverrun st.blockMax src) :
    zstdDecodeCompressedBlock st src out frameStart windowSize = crash := by
  have hlen := length_of_rleOverrun h
  obtain ⟨f, n, b, rest, hfits, hmax, rfl, hover⟩ := h
  have hheader := length_plainHeaderBytes 1 f n
  have hout : ¬ f.width + n ≤ (plainHeaderBytes 1 f n ++ b :: rest).length := by
    rw [length_append, length_cons]
    omega
  unfold zstdDecodeCompressedBlock
  rw [failIf_neg (by omega), ok_bind, zstdDecodeLiterals_rle rest hfits hmax b, ok_bind]
  dsimp only
  rw [dropFrom, if_neg hout, crash_bind]

theorem zstdDecodeCompressedBlock_safe (hst : st.Valid) (hframe : frameStart ≤ out.length)
    (h : ¬ RleOverrun st.blockMax src) :
    Safe (fun r => r.1.Valid ∧ r.1.blockMax = st.blockMax ∧ frameStart ≤ r.2.length)
      (zstdDecodeCompressedBlock st src out frameStart windowSize) := by
  refine Safe.failIf_bind fun hlen => ?_
  refine Sat.bind (zstdDecodeLiterals_safe hst (by omega)) fun r hr => ?_
  obtain ⟨literals, pos, st'⟩ := r
  obtain ⟨hpos, hfollows⟩ := hr
  dsimp only at hpos hfollows ⊢
  rw [dropFrom_eq (hpos.resolve_right h), ok_bind]
  refine Sat.bind (zstdDecodeSequences_safe hfollows.valid _) fun r hr => ?_
  obtain ⟨seqs, st''⟩ := r
  obtain ⟨_, hvalid, _, hmax⟩ := hr
  refine Sat.bind (zstdExecuteSequences_safe hvalid.rep literals seqs hframe windowSize)
    fun r hr => ?_
  refine Safe.failIf_bind fun _ => ?_
  refine sat_pure ⟨⟨hr.1, hvalid.huf, hvalid.ll, hvalid.of, hvalid.ml⟩, ?_, hr.2⟩
  exact hmax.trans hfollows.blockMax

end Block

/-- **A complete compressed block whose RLE literals overrun it.** -/
def BlockOverrun (blockMax : Nat) (bytes : List UInt8) : Prop :=
  ∃ (last : Nat) (src rest : List UInt8), last < 2 ∧ src.length < 2 ^ 21 ∧
    bytes = Binary.littleEndian 3 (last + 4 + 8 * src.length) ++ (src ++ rest) ∧
    RleOverrun blockMax src

/-- What the loop over the blocks keeps. -/
structure ZstdBlocks.Inside (frameStart blockMax : Nat) (s : ZstdBlocks) : Prop where
  st : s.st.Valid
  blockMax : s.st.blockMax = blockMax
  frame : frameStart ≤ s.out.length

section Blocks

variable {data : List UInt8} {frameStart windowSize blockMax : Nat} {s : ZstdBlocks}

theorem zstdBlock_safe (hs : s.Inside frameStart blockMax) (blockType size : Nat)
    (h : blockType = zstdBlockTypeCompressed → s.p + size ≤ data.length →
      ¬ RleOverrun blockMax ((data.drop s.p).take size)) :
    Safe (fun t => t.Inside frameStart blockMax ∧ s.p ≤ t.p)
      (zstdBlock data frameStart windowSize blockMax blockType size s) := by
  have hframe := hs.frame
  unfold zstdBlock
  split
  · refine Safe.failIf_bind fun _ => ?_
    refine Safe.failIf_bind fun hroom => ?_
    refine Sat.bind (sat_slice (by omega) (by omega)) fun part _ => ?_
    refine sat_pure ⟨⟨hs.st, hs.blockMax, ?_⟩, by dsimp only; omega⟩
    rw [length_append]
    omega
  split
  · refine Safe.failIf_bind fun _ => ?_
    refine Safe.failIf_bind fun hroom => ?_
    refine Sat.bind (sat_index (by omega)) fun b _ => ?_
    refine sat_pure ⟨⟨hs.st, hs.blockMax, ?_⟩, by dsimp only; omega⟩
    rw [length_append]
    omega
  split
  · rename_i htype
    refine Safe.failIf_bind fun hroom => ?_
    refine Sat.bind (sat_slice (by omega) (by omega)) fun src hsrc => ?_
    have hover := h htype (by omega)
    rw [Nat.add_sub_cancel_left] at hsrc
    rw [← hsrc.1, ← hs.blockMax] at hover
    refine Sat.bind (zstdDecodeCompressedBlock_safe hs.st hframe hover) fun r hr => ?_
    exact sat_pure ⟨⟨hr.1, hr.2.1.trans hs.blockMax, hr.2.2⟩, by dsimp only; omega⟩
  · exact .fails trivial

/-- The number in a block header. -/
def blockHeader (data : List UInt8) (p : Nat) : Nat := Binary.littleNumber ((data.drop p).take 3)

theorem blockHeader_lt (data : List UInt8) (p : Nat) : blockHeader data p < 2 ^ 24 := by
  have hlt := Binary.littleNumber_lt ((data.drop p).take 3)
  have hle : 256 ^ ((data.drop p).take 3).length ≤ 256 ^ 3 :=
    Nat.pow_le_pow_right (by decide) (length_take_le 3 _)
  rw [blockHeader]
  omega

theorem zstdBlockTurn_eq (hroom : s.p + 3 ≤ data.length) :
    zstdBlockTurn data frameStart windowSize blockMax s =
      (zstdBlock data frameStart windowSize blockMax (blockHeader data s.p / 2 % 4)
        (blockHeader data s.p / 8) { s with p := s.p + 3 } >>= fun t =>
          pure (if blockHeader data s.p % 2 = 1 then .inr t else .inl t)) := by
  obtain ⟨b0, hb0⟩ : ∃ b0, data[s.p]? = some b0 := ⟨_, getElem?_eq_getElem (by omega)⟩
  have hfirst : (data.drop s.p)[0]? = some b0 := by
    rw [getElem?_drop]
    exact hb0
  obtain ⟨b1, b2, rest, hdrop⟩ := exists_three hfirst (by rw [length_drop]; omega)
  have hb1 : data[s.p + 1]? = some b1 := by rw [← getElem?_drop, hdrop]; rfl
  have hb2 : data[s.p + 2]? = some b2 := by rw [← getElem?_drop, hdrop]; rfl
  have hhead : blockHeader data s.p = uint24 b0 b1 b2 := by
    rw [blockHeader, hdrop, uint24_eq]
    rfl
  unfold zstdBlockTurn
  rw [failIf_neg (by omega), ok_bind, index_eq hb0, ok_bind, index_eq hb1, ok_bind, index_eq hb2,
    ok_bind, ← hhead]
  dsimp only
  rw [and_three, Nat.shiftRight_eq_div_pow, Nat.shiftRight_eq_div_pow, Nat.and_one_is_mod]

/-- **A turn over a compressed block whose RLE literals overrun it crashes.** -/
theorem zstdBlockTurn_crash (hs : s.Inside frameStart blockMax)
    (h : BlockOverrun blockMax (data.drop s.p)) :
    zstdBlockTurn data frameStart windowSize blockMax s = crash := by
  obtain ⟨last, src, rest, hlast, hsize, hbytes, hover⟩ := h
  have hheader : (Binary.littleEndian 3 (last + 4 + 8 * src.length)).length = 3 :=
    Binary.length_littleEndian 3 _
  have hlen := congrArg List.length hbytes
  rw [length_drop, length_append, length_append] at hlen
  have hnum : blockHeader data s.p = last + 4 + 8 * src.length := by
    rw [blockHeader, hbytes, take_left' hheader, Binary.littleNumber_littleEndian,
      Nat.mod_eq_of_lt (by omega)]
  have hpart : ((data.drop (s.p + 3)).take src.length) = src := by
    rw [← drop_drop, hbytes, drop_left' hheader, take_left]
  have htype : (last + 4 + 8 * src.length) / 2 % 4 = 2 := by omega
  have hcount : (last + 4 + 8 * src.length) / 8 = src.length := by omega
  rw [← hs.blockMax] at hover
  rw [zstdBlockTurn_eq (by omega), hnum, htype, hcount]
  unfold zstdBlock
  rw [if_neg (by decide), if_neg (by decide), if_pos (by decide)]
  dsimp only
  rw [failIf_neg (by omega), ok_bind, slice_eq (by omega) (by omega), ok_bind,
    Nat.add_sub_cancel_left, hpart, zstdDecodeCompressedBlock_crash hover, crash_bind, crash_bind]

theorem zstdBlockTurn_safe (hs : s.Inside frameStart blockMax)
    (h : ¬ BlockOverrun blockMax (data.drop s.p)) :
    Safe (Sum.elim
        (fun t => t.Inside frameStart blockMax ∧ data.length - t.p < data.length - s.p)
        (fun t => t.Inside frameStart blockMax ∧ 3 ≤ t.p))
      (zstdBlockTurn data frameStart windowSize blockMax s) := by
  by_cases hroom : s.p + 3 ≤ data.length
  case neg =>
    unfold zstdBlockTurn
    rw [failIf_pos (by omega)]
    exact .fails trivial
  rw [zstdBlockTurn_eq hroom]
  have hs' : ({ s with p := s.p + 3 }).Inside frameStart blockMax :=
    ⟨hs.st, hs.blockMax, hs.frame⟩
  refine Sat.bind (zstdBlock_safe hs' _ _ fun htype hsize hover => ?_) fun t ht => ?_
  · refine h ⟨blockHeader data s.p % 2, _, data.drop (s.p + 3 + blockHeader data s.p / 8),
      Nat.mod_lt _ (by decide), ?_, ?_, hover⟩
    · have hlt := blockHeader_lt data s.p
      rw [length_take]
      omega
    · dsimp only at htype hsize ⊢
      have hlen : ((data.drop (s.p + 3)).take (blockHeader data s.p / 8)).length
          = blockHeader data s.p / 8 := by
        rw [length_take, length_drop]
        omega
      have hnum : blockHeader data s.p % 2 + 4 + 8 * (blockHeader data s.p / 8)
          = blockHeader data s.p := by
        unfold zstdBlockTypeCompressed at htype
        omega
      have hhead : Binary.littleEndian 3 (blockHeader data s.p) = (data.drop s.p).take 3 := by
        have hback := Binary.littleEndian_littleNumber ((data.drop s.p).take 3)
        rwa [length_take, length_drop, min_eq_left (by omega)] at hback
      rw [hlen, hnum, hhead, ← drop_drop (i := blockHeader data s.p / 8),
        take_append_drop, ← drop_drop, take_append_drop]
  · obtain ⟨hinside, hp⟩ := ht
    dsimp only at hp
    split
    · exact sat_pure ⟨hinside, by omega⟩
    · exact sat_pure ⟨hinside, by omega⟩

theorem zstdBlockTurn_inside {t : ZstdBlocks} (hs : s.Inside frameStart blockMax)
    (h : zstdBlockTurn data frameStart windowSize blockMax s = ok (.inl t)) :
    t.Inside frameStart blockMax := by
  by_cases hover : BlockOverrun blockMax (data.drop s.p)
  · cases (zstdBlockTurn_crash hs hover).symm.trans h
  · exact ((zstdBlockTurn_safe hs hover).of_ok h).1

end Blocks

/-! ## 5. Where a frame crashes -/

def zstdMagicBytes : List UInt8 := [0x28, 0xb5, 0x2f, 0xfd]

/-- **A frame that ends where its Window_Descriptor should stand.** -/
def CutHeader (frame : List UInt8) : Prop :=
  ∃ desc : UInt8, frame = zstdMagicBytes ++ [desc] ∧ desc.toNat &&& 0x08 = 0 ∧
    desc.toNat &&& 0x20 = 0

section Header

variable {data : List UInt8}

theorem zstdFrameHeader_crash (h : CutHeader data) : zstdFrameHeader data = crash := by
  obtain ⟨desc, rfl, hreserved, hsingle⟩ := h
  have hmagic : (uint 4 (zstdMagicBytes ++ [desc]) : Outcome DecodeError Nat) = ok zstdMagic := rfl
  have hdesc : (zstdMagicBytes ++ [desc])[4]? = some desc := rfl
  unfold zstdFrameHeader
  rw [failIf_neg (by simp [zstdMagicBytes]), ok_bind, hmagic, ok_bind, failIf_neg (by simp),
    ok_bind, index_eq hdesc, ok_bind]
  dsimp only
  rw [failIf_neg (by simpa using hreserved)]
  simp only [hsingle, ne_eq, not_true_eq_false]
  rfl

theorem zstdReadLE_sat {ε : Type} {E : ε → Prop} {b : List UInt8} {size : Nat}
    (h : size ≤ b.length) : Sat E (fun _ => True) (zstdReadLE b size : Outcome ε Nat) := by
  unfold zstdReadLE
  split
  · exact Sat.bind (sat_index (by omega)) fun _ _ => sat_pure trivial
  split
  · rw [uint_eq h]
    exact sat_ok trivial
  · exact sat_pure trivial

theorem windowDescriptor_safe {singleSegment : Bool} {p : Nat}
    (h : singleSegment = true ∨ p < data.length) :
    Safe (fun _ => True) (windowDescriptor data singleSegment p) := by
  unfold windowDescriptor
  split
  · exact sat_pure trivial
  · rename_i hsingle
    refine Sat.bind (sat_index (h.resolve_left hsingle)) fun wd _ => ?_
    refine Safe.failIf_bind fun _ => ?_
    exact sat_pure trivial

theorem dictionaryId_safe {dictIdFlag : Nat} (hflag : dictIdFlag < 4) (p : Nat) :
    Safe (fun _ => True) (dictionaryId data dictIdFlag p) := by
  refine Sat.bind (sat_index hflag) fun size _ => ?_
  refine Safe.failIf_bind fun hroom => ?_
  rw [dropFrom_eq (by omega), ok_bind]
  refine Sat.bind (zstdReadLE_sat (by rw [length_drop]; omega)) fun id _ => ?_
  refine Safe.failIf_bind fun _ => ?_
  exact sat_pure trivial

theorem frameContentSize_safe {fcsFlag : Nat} (hflag : fcsFlag < 4)
    (p : Nat) : Safe (fun _ => True) (frameContentSize data singleSegment fcsFlag p) := by
  have hsizes : (fcsSizes singleSegment).length = 4 := by cases singleSegment <;> rfl
  refine Sat.bind (sat_index (by omega)) fun size _ => ?_
  refine Safe.failIf_bind fun hroom => ?_
  rw [dropFrom_eq (by omega), ok_bind]
  refine Sat.bind (zstdReadLE_sat (by rw [length_drop]; omega)) fun contentSize _ => ?_
  exact sat_pure trivial

theorem eq_magic_append {desc : UInt8} (hlen : data.length = 5)
    (hmagic : Binary.littleNumber (data.take 4) = zstdMagic) (hdesc : data[4]? = some desc) :
    data = zstdMagicBytes ++ [desc] := by
  have hfour : data.take 4 = zstdMagicBytes := by
    refine Binary.eq_of_littleNumber_eq ?_ (hmagic.trans rfl)
    rw [length_take, hlen]
    rfl
  have hlast : data.drop 4 = [desc] := by
    obtain ⟨hlt, hget⟩ := List.getElem?_eq_some_iff.mp hdesc
    rw [drop_eq_getElem_cons hlt, hget, drop_eq_nil_of_le (by omega)]
  rw [← hfour, ← hlast, take_append_drop]

theorem zstdFrameHeader_safe (h : ¬ CutHeader data) :
    Safe (fun _ => True) (zstdFrameHeader data) := by
  refine Safe.failIf_bind fun hlen => ?_
  rw [uint_eq (by omega)]
  refine Safe.failIf_bind fun hmagic => ?_
  refine Sat.bind (sat_index (by omega)) fun desc hdesc => ?_
  refine Safe.failIf_bind fun hreserved => ?_
  have hwindow : decide (desc.toNat &&& 0x20 ≠ 0) = true ∨ 5 < data.length := by
    by_contra hnone
    obtain ⟨hsingle, hshort⟩ := not_or.mp hnone
    refine h ⟨desc, eq_magic_append (by omega) (not_not.mp hmagic) hdesc, ?_, ?_⟩
    · exact not_not.mp hreserved
    · simpa using hsingle
  refine Sat.bind (windowDescriptor_safe hwindow) fun r _ => ?_
  refine Sat.bind (dictionaryId_safe ?_ _) fun p _ => ?_
  · rw [and_three]
    exact Nat.mod_lt _ (by decide)
  refine Sat.bind (frameContentSize_safe _ ?_ _) fun r _ => ?_
  · rw [and_three]
    exact Nat.mod_lt _ (by decide)
  exact sat_pure trivial

end Header

/-- **A compressed block with an overrun, in front of which the whole frame decodes.** -/
def FrameOverrun (frame out : List UInt8) : Prop :=
  ∃ (h : ZstdHeader) (t : ZstdBlocks), zstdFrameHeader frame = ok h ∧
    Turns (zstdBlockTurn frame out.length h.windowSize h.blockMax) (h.start out) t ∧
    BlockOverrun h.blockMax (frame.drop t.p)

section Frame

variable {frame out : List UInt8}

theorem ZstdHeader.start_inside (h : ZstdHeader) (out : List UInt8) :
    (h.start out).Inside out.length h.blockMax := by
  have hrep : zstdStartOffsets.Positive := ⟨by decide, by decide, by decide⟩
  refine ⟨⟨hrep, ?_, ?_, ?_, ?_⟩, rfl, le_rfl⟩ <;> intro t ht <;> cases ht

theorem zstdChecksum_safe (checksumFlag : Bool) {frameStart blockMax : Nat} {s : ZstdBlocks}
    (hs : s.Inside frameStart blockMax) :
    Safe (fun p => s.p ≤ p) (zstdChecksum frame checksumFlag frameStart s) := by
  unfold zstdChecksum
  split
  · refine Safe.failIf_bind fun hroom => ?_
    refine Sat.bind (sat_uintAt (by omega)) fun want _ => ?_
    rw [dropFrom_eq hs.frame, ok_bind]
    refine Sat.bind (zstdXXH64_sat _ 0) fun sum _ => ?_
    refine Safe.failIf_bind fun _ => ?_
    exact sat_pure (Nat.le_add_right _ 4)
  · exact sat_pure le_rfl

/-- **A frame that is not cut and does not overrun is decoded or refused.** -/
theorem zstdDecodeFrameInto_safe (hcut : ¬ CutHeader frame) (hover : ¬ FrameOverrun frame out) :
    Safe (fun r => 1 ≤ r.1) (zstdDecodeFrameInto frame out) := by
  refine Sat.bind (zstdFrameHeader_safe hcut).with_eq fun h hh => ?_
  have hblocks := Sat.loop_turns (fun s : ZstdBlocks => frame.length - s.p)
    (fun t ht hinside => zstdBlockTurn_safe hinside fun hblock => hover ⟨h, t, hh.2, ht, hblock⟩)
    (h.start_inside out) (Nat.lt_succ_of_le (Nat.sub_le _ _))
  refine Sat.bind hblocks fun s hs => ?_
  obtain ⟨hinside, hp⟩ := hs
  refine Safe.failIf_bind fun _ => ?_
  refine Sat.bind (zstdChecksum_safe _ hinside) fun p hle => ?_
  exact sat_pure (by omega)

theorem zstdDecodeFrameInto_crash (h : CutHeader frame ∨ FrameOverrun frame out) :
    zstdDecodeFrameInto frame out = crash := by
  unfold zstdDecodeFrameInto
  rcases h with hcut | ⟨h, t, hheader, hturns, hblock⟩
  · rw [zstdFrameHeader_crash hcut, crash_bind]
  · have hinside : t.Inside out.length h.blockMax :=
      hturns.invariant (h.start_inside out) fun s u hs hturn => zstdBlockTurn_inside hs hturn
    rw [hheader, ok_bind, hturns.loop_eq_crash (zstdBlockTurn_crash hinside hblock), crash_bind]

end Frame

/-! ## 6. Where a stream crashes -/

/-- The decoder gets to the position `p` with the output `out`: all in front of it is decoded. -/
def GetsTo (data : List UInt8) (p : Nat) (out : List UInt8) : Prop :=
  4 ≤ data.length ∧ Turns (streamTurn data) (0, []) (p, out)

/-- **Wherever the decoder gets to, there is nothing left or a whole magic number, and a frame
    there has its Window_Descriptor and no RLE literals that overrun their block.** -/
def StreamSound (data : List UInt8) : Prop :=
  ∀ p out, GetsTo data p out → p < data.length →
    p + 4 ≤ data.length ∧ ¬ CutHeader (data.drop p) ∧ ¬ FrameOverrun (data.drop p) out

section Stream

variable {data : List UInt8} {p : Nat} {out : List UInt8}

theorem skippableFrame_safe (data : List UInt8) (p : Nat) :
    Safe (fun q => p < q) (skippableFrame data p) := by
  refine Safe.failIf_bind fun hroom => ?_
  refine Sat.bind (sat_uintAt (by omega)) fun size _ => ?_
  refine Safe.failIf_bind fun _ => ?_
  exact sat_pure (by omega)

theorem streamTurn_safe
    (h : p < data.length →
      p + 4 ≤ data.length ∧ ¬ CutHeader (data.drop p) ∧ ¬ FrameOverrun (data.drop p) out) :
    Safe (Sum.elim (fun t => True ∧ data.length - t.1 < data.length - p) (fun _ => True))
      (streamTurn data (p, out)) := by
  unfold streamTurn
  split
  · rename_i hp
    obtain ⟨hmagic, hcut, hover⟩ := h hp
    refine Sat.bind (sat_uintAt hmagic) fun magic _ => ?_
    split
    · rw [dropFrom_eq (by omega), ok_bind]
      refine Sat.bind (zstdDecodeFrameInto_safe hcut hover) fun r hr => ?_
      exact sat_pure ⟨trivial, by dsimp only; omega⟩
    split
    · refine Sat.bind (skippableFrame_safe data p) fun q hq => ?_
      exact sat_pure ⟨trivial, by dsimp only; omega⟩
    · exact .fails trivial
  · exact sat_pure trivial

theorem magic_of_frame {frame : List UInt8} (h : CutHeader frame ∨ FrameOverrun frame out) :
    4 ≤ frame.length ∧ Binary.littleNumber (frame.take 4) = zstdMagic := by
  rcases h with ⟨desc, rfl, _, _⟩ | ⟨h, _, hheader, _, _⟩
  · exact ⟨by simp [zstdMagicBytes], rfl⟩
  · obtain ⟨_, hlen, hheader⟩ := bind_eq_ok.mp hheader
    have hlen := not_of_failIf hlen
    rw [uint_eq (by omega), ok_bind] at hheader
    obtain ⟨_, hmagic, _⟩ := bind_eq_ok.mp hheader
    exact ⟨by omega, not_not.mp (not_of_failIf hmagic)⟩

theorem streamTurn_crash (hp : p < data.length)
    (h : ¬ (p + 4 ≤ data.length ∧ ¬ CutHeader (data.drop p) ∧ ¬ FrameOverrun (data.drop p) out)) :
    streamTurn data (p, out) = crash := by
  unfold streamTurn
  rw [if_pos hp]
  by_cases hmagic : p + 4 ≤ data.length
  · have hframe : CutHeader (data.drop p) ∨ FrameOverrun (data.drop p) out := by tauto
    obtain ⟨_, hnum⟩ := magic_of_frame hframe
    rw [uintAt_eq hmagic, ok_bind, hnum, if_pos rfl, dropFrom_eq (by omega), ok_bind,
      zstdDecodeFrameInto_crash hframe, crash_bind]
  · have hshort : ¬ 4 ≤ (data.drop p).length := by
      rw [length_drop]
      omega
    rw [uintAt, dropFrom_eq (by omega), ok_bind, uint, if_neg hshort, crash_bind]

end Stream

/-- **For all bytes: the decoder returns content or an error exactly when the stream is sound
    wherever it gets to.** -/
theorem zstdDecompressFrame_returns_iff (data : List UInt8) :
    ((∃ out, zstdDecompressFrame data = ok out) ∨ ∃ e, zstdDecompressFrame data = error e)
      ↔ StreamSound data := by
  constructor
  · intro h p out hgets hp
    by_contra hbad
    have hcrash : zstdDecompressFrame data = crash := by
      unfold zstdDecompressFrame
      rw [failIf_neg (by have := hgets.1; omega), ok_bind]
      exact hgets.2.loop_eq_crash (streamTurn_crash hp hbad) _
    rw [hcrash] at h
    rcases h with ⟨out, hout⟩ | ⟨e, he⟩
    · cases hout
    · cases he
  · intro h
    have hsafe : Safe (fun _ => True) (zstdDecompressFrame data) := by
      refine Safe.failIf_bind fun hlen => ?_
      refine Sat.loop_turns (I := fun _ => True) (fun s => data.length - s.1)
        (fun t ht _ => ?_) trivial (Nat.lt_succ_of_le (Nat.sub_le _ _))
      exact streamTurn_safe fun hp => h t.1 t.2 ⟨by omega, ht⟩ hp
    exact hsafe.ok_or_error

/-- An empty frame with one byte behind it, a frame cut behind its descriptor, and a legal frame of
    31 times the byte 0x41 whose literals are RLE: **all three crash**. -/
theorem zstdDecompressFrame_crashes :
    zstdDecompressFrame (zstdMagicBytes ++ [0x20, 0x00, 0x01, 0x00, 0x00] ++ [0x00]) = crash ∧
      zstdDecompressFrame (zstdMagicBytes ++ [0x00]) = crash ∧
      zstdDecompressFrame (zstdMagicBytes ++ [0x00, 0x00, 0x1d, 0x00, 0x00, 0xf9, 0x41, 0x00])
        = crash :=
  ⟨by decide +kernel, by decide +kernel, by decide +kernel⟩

/-! ## 7. The repeated offsets -/

/-- In a compressed block that starts at `s` the execution stands at `e`, with `post` to come. -/
def ZstdBlocks.Executes (s : ZstdBlocks) (frameStart windowSize : Nat) (literals : List UInt8)
    (post : List ZstdSequence) (e : Execution) : Prop :=
  ∃ (src : List UInt8) (pos : Nat) (st st' : BlockState) (pre : List ZstdSequence),
    1 ≤ src.length ∧ zstdDecodeLiterals s.st src = ok (literals, pos, st) ∧
    zstdDecodeSequences st (src.drop pos) = ok (pre ++ post, st') ∧
    pre.foldlM (executeSequence literals windowSize)
      ⟨st'.rep, 0, (s.out.length : Int) - frameStart, s.out⟩ = ok e

/-- **The repeated offsets, all along a frame.** They stay at least 1; every sequence that is
executed resolves its offset by the rules, and its match starts inside the output of the frame and
inside the window. -/
theorem repeated_offsets_follow_rules {frame out : List UInt8} {h : ZstdHeader} {s : ZstdBlocks}
    (hs : Turns (zstdBlockTurn frame out.length h.windowSize h.blockMax) (h.start out) s) :
    s.st.rep.Positive ∧ ∀ literals post e, s.Executes out.length h.windowSize literals post e →
      e.rep.Positive ∧ ∀ seq rest e', post = seq :: rest →
        executeSequence literals h.windowSize e seq = ok e' →
        ∃ offset, zstdResolveOffset e.rep seq.offsetValue seq.litLength = ok (offset, e'.rep) ∧
          e.rep.Resolves seq.offsetValue seq.litLength offset e'.rep ∧
          1 ≤ offset ∧ offset ≤ h.windowSize ∧
          offset ≤ (e.out.length : Int) + seq.litLength - out.length := by
  have hinside : s.Inside out.length h.blockMax :=
    hs.invariant (h.start_inside out) fun s u hs hturn => zstdBlockTurn_inside hs hturn
  refine ⟨hinside.st.rep, fun literals post e he => ?_⟩
  obtain ⟨src, pos, st, st', pre, hlen, hlit, hseq, hrun⟩ := he
  have hfollows := ((zstdDecodeLiterals_safe hinside.st hlen).of_ok hlit).2
  obtain ⟨hvalues, hvalid, _⟩ := (zstdDecodeSequences_safe hfollows.valid _).of_ok hseq
  have hat := (executeSequences_safe hvalid.rep literals pre hinside.frame _).of_ok hrun
  refine ⟨hat.rep, fun seq rest e' hpost hstep => ?_⟩
  obtain ⟨_, offset, heq, hrules, hbounds⟩ := (executeSequence_safe _ hat seq).of_ok hstep
  have hmem : seq ∈ pre ++ post := by simp [hpost]
  exact ⟨offset, heq, hrules (hvalues seq hmem), hbounds⟩

/-- One literal, and a match of three bytes at the first repeated offset. -/
theorem repeated_offsets_follow_rules_first : ∃ offset,
    zstdResolveOffset zstdStartOffsets 1 1 = ok (offset, zstdStartOffsets) ∧
      zstdStartOffsets.Resolves 1 1 offset zstdStartOffsets ∧ 1 ≤ offset ∧ offset ≤ 1024 ∧
      offset ≤ 1 := by
  have hrules := (@repeated_offsets_follow_rules [] [] ⟨6, 1024, false, 0, false⟩ _ .here).2
    [97] [⟨1, 1, 3⟩] ⟨zstdStartOffsets, 0, 0, []⟩
    ⟨[8, 97, 1, 0x54, 1, 0, 0, 1], 2, _, _, [], by decide, rfl, rfl, rfl⟩
  exact hrules.2 ⟨1, 1, 3⟩ [] ⟨zstdStartOffsets, 1, 4, [97, 97, 97, 97]⟩ rfl rfl

end RocketMQ.Compress
