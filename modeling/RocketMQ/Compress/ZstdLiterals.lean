/-
  File:      RocketMQ/Compress/ZstdLiterals.lean
  Subject:   The literals section of a compressed ZSTD block (`common/zstd.go`).

  * `zstdDecodeLiterals_safe`: **no section reads outside its bytes**; the size that is returned is
    inside them too, unless the literals are RLE (`RleOverrun`).
-/
import RocketMQ.Compress.ZstdSequences

namespace RocketMQ.Compress

open List Outcome

def zstdMinLitsFor4Streams : Nat := 6

/-! ## 1. Raw and RLE literals -/

/-- `int(b0) | int(b1)<<8 | int(b2)<<16`. -/
def uint24 (b0 b1 b2 : UInt8) : Nat := b0.toNat ||| b1.toNat <<< 8 ||| b2.toNat <<< 16

variable (src : List UInt8)

/-- `lhSize` and `litSize` of Raw and RLE literals. -/
def plainHeader (sizeFormat : Nat) : Outcome DecodeError (Nat × Nat) :=
  if sizeFormat = 0 ∨ sizeFormat = 2 then do
    let b0 ← index src 0
    return (1, b0.toNat >>> 3)
  else if sizeFormat = 1 then do
    failIf (src.length < 2) ⟨"zstd decompress: truncated literals section header"⟩
    let u ← uint 2 src
    return (2, u >>> 4)
  else do
    failIf (src.length < 3) ⟨"zstd decompress: truncated literals section header"⟩
    let b0 ← index src 0
    let b1 ← index src 1
    let b2 ← index src 2
    return (3, uint24 b0 b1 b2 >>> 4)

def literalsExceed (litSize blockMax : Nat) : DecodeError :=
  ⟨"zstd decompress: " ++ toString litSize ++ " literals exceed the block size limit "
    ++ toString blockMax⟩

def rawLiterals (lhSize litSize : Nat) : Outcome DecodeError (List UInt8) := do
  failIf ((litSize : Int) > (src.length : Int) - lhSize)
    ⟨"zstd decompress: truncated raw literals"⟩
  slice src lhSize (lhSize + litSize)

def rleLiterals (lhSize litSize : Nat) : Outcome DecodeError (List UInt8) := do
  failIf ((src.length : Int) - lhSize < 1) ⟨"zstd decompress: truncated rle literals"⟩
  let b ← index src lhSize
  return List.replicate litSize b

/-- Raw and RLE literals. **The size counts the literals that were made, not the bytes that were
    read**: for Raw literals these are the same. -/
def plainLiterals (blockMax : Nat) (src : List UInt8) (rle : Bool) (sizeFormat : Nat) :
    Outcome DecodeError (List UInt8 × Nat) := do
  let (lhSize, litSize) ← plainHeader src sizeFormat
  failIf (litSize > blockMax) (literalsExceed litSize blockMax)
  let literals ← if rle then rleLiterals src lhSize litSize else rawLiterals src lhSize litSize
  return (literals, lhSize + literals.length)

/-! ## 2. Huffman literals -/

/-- What the header of Huffman literals announces. -/
structure HufHeader where
  lhSize : Nat
  litSize : Nat
  litCSize : Nat
deriving DecidableEq

def hufHeader (sizeFormat : Nat) : Outcome DecodeError HufHeader := do
  failIf (src.length < 4) ⟨"zstd decompress: truncated literals section header"⟩
  let lhc ← uint 4 src
  if sizeFormat = 0 ∨ sizeFormat = 1 then
    return ⟨3, lhc >>> 4 &&& 0x3ff, lhc >>> 14 &&& 0x3ff⟩
  else if sizeFormat = 2 then
    return ⟨4, lhc >>> 4 &&& 0x3fff, lhc >>> 18⟩
  else do
    failIf (src.length < 5) ⟨"zstd decompress: truncated literals section header"⟩
    let b4 ← index src 4
    return ⟨5, lhc >>> 4 &&& 0x3ffff, lhc >>> 22 + b4.toNat <<< 10⟩

/-- The tree of the section: its own one, with the bytes behind it, or that of an earlier block. -/
def literalsTree (st : BlockState) (treeless : Bool) (sec : List UInt8) :
    Outcome DecodeError (HufTable × List UInt8) :=
  if treeless then
    match st.litEntropy, st.huf with
    | true, some t => return (t, sec)
    | _, _ =>
      error ⟨"zstd decompress: treeless literals block without a previous Huffman tree"⟩
  else do
    let (t, used) ← zstdDecodeHufTable sec
    let rest ← dropFrom sec used
    return (t, rest)

/-- Literals in one stream. -/
def oneStream (t : HufTable) (sec : List UInt8) (litSize : Nat) :
    Outcome DecodeError (List UInt8) := do
  let (n, literals) ← zstdHufDecodeStream t sec (List.replicate litSize 0)
  failIf (n ≠ litSize)
    ⟨"zstd decompress: Huffman stream decodes " ++ toString n ++ " literals, expected "
      ++ toString litSize⟩
  return literals

/-- Where the loop over the four streams stands. -/
structure FourStreams where
  written : Nat
  pos : Nat
  literals : List UInt8

/-- One turn of the loop over the four streams; the sizes are those of the streams. -/
def streamStep (t : HufTable) (sec : List UInt8) (s : FourStreams) (size : Int) :
    Outcome DecodeError FourStreams := do
  failIf (size < 1 ∨ size > (sec.length : Int) - s.pos)
    ⟨"zstd decompress: corrupted Huffman stream sizes"⟩
  let src ← slice sec s.pos (s.pos + size.toNat)
  let dst ← dropFrom s.literals s.written
  let (n, dst) ← zstdHufDecodeStream t src dst
  return ⟨s.written + n, s.pos + size.toNat, s.literals.take s.written ++ dst⟩

/-- Literals in four streams: three sizes, and the fourth stream is what remains. -/
def fourStreams (t : HufTable) (sec : List UInt8) (litSize : Nat) :
    Outcome DecodeError (List UInt8) := do
  failIf (sec.length < 6 + 4) ⟨"zstd decompress: truncated Huffman stream sizes"⟩
  let size0 ← uint 2 sec
  let size1 ← uintAt 2 sec 2
  let size2 ← uintAt 2 sec 4
  let size3 : Int := (sec.length : Int) - 6 - size0 - size1 - size2
  let s ← [(size0 : Int), (size1 : Int), (size2 : Int), size3].foldlM (streamStep t sec)
    ⟨0, 6, List.replicate litSize 0⟩
  failIf (s.written ≠ litSize)
    ⟨"zstd decompress: Huffman streams decode " ++ toString s.written ++ " literals, expected "
      ++ toString litSize⟩
  return s.literals

/-- The literals behind the tree. -/
def hufStreams (t : HufTable) (sec : List UInt8) (singleStream : Bool) (litSize : Nat) :
    Outcome DecodeError (List UInt8) :=
  if litSize = 0 then do
    failIf (sec.length ≠ 0)
      ⟨"zstd decompress: extraneous Huffman data after empty literals"⟩
    return []
  else if singleStream then oneStream t sec litSize
  else fourStreams t sec litSize

/-- Huffman literals; a tree of their own is kept for later blocks. -/
def hufLiterals (st : BlockState) (src : List UInt8) (treeless : Bool) (sizeFormat : Nat) :
    Outcome DecodeError (List UInt8 × Nat × BlockState) := do
  let h ← hufHeader src sizeFormat
  failIf (h.litSize > st.blockMax) (literalsExceed h.litSize st.blockMax)
  failIf (sizeFormat ≠ 0 ∧ h.litSize < zstdMinLitsFor4Streams)
    ⟨"zstd decompress: " ++ toString h.litSize
      ++ " literals are not enough for the 4-stream mode (min "
      ++ toString zstdMinLitsFor4Streams ++ ")"⟩
  failIf ((h.litCSize : Int) > (src.length : Int) - h.lhSize)
    ⟨"zstd decompress: truncated Huffman-compressed literals"⟩
  let sec ← slice src h.lhSize (h.lhSize + h.litCSize)
  let (t, rest) ← literalsTree st treeless sec
  let literals ← hufStreams t rest (sizeFormat = 0) h.litSize
  return (literals, h.lhSize + h.litCSize, { st with huf := some t, litEntropy := true })

/-- `zstdDecodeLiterals`: the literals, the size of the section, and the state behind it. -/
def zstdDecodeLiterals (st : BlockState) (src : List UInt8) :
    Outcome DecodeError (List UInt8 × Nat × BlockState) := do
  let b0 ← index src 0
  let blockType := b0.toNat &&& 3
  let sizeFormat := b0.toNat >>> 2 &&& 3
  if blockType = 0 ∨ blockType = 1 then do
    let (literals, size) ← plainLiterals st.blockMax src (blockType = 1) sizeFormat
    return (literals, size, st)
  else hufLiterals st src (blockType = 3) sizeFormat

/-! ## 3. The header of Raw and RLE literals -/

/-- The three widths of a header of Raw and RLE literals. -/
inductive SizeFormat where
  | short
  | medium
  | long
deriving DecidableEq

namespace SizeFormat

def width : SizeFormat → Nat
  | short => 1
  | medium => 2
  | long => 3

/-- How many literals the header can announce. -/
def limit : SizeFormat → Nat
  | short => 2 ^ 5
  | medium => 2 ^ 12
  | long => 2 ^ 20

/-- The number in the header: the type of the block, the format, the count. -/
def field (blockType n : Nat) : SizeFormat → Nat
  | short => blockType + 8 * n
  | medium => blockType + 4 + 16 * n
  | long => blockType + 12 + 16 * n

end SizeFormat

/-- The header of `n` Raw (0) or RLE (1) literals. -/
def plainHeaderBytes (blockType : Nat) (f : SizeFormat) (n : Nat) : List UInt8 :=
  Binary.littleEndian f.width (f.field blockType n)

theorem length_plainHeaderBytes (blockType : Nat) (f : SizeFormat) (n : Nat) :
    (plainHeaderBytes blockType f n).length = f.width := Binary.length_littleEndian _ _

theorem and_three (n : Nat) : n &&& 3 = n % 4 := Nat.and_two_pow_sub_one_eq_mod n 2

theorem uint24_eq (b0 b1 b2 : UInt8) : uint24 b0 b1 b2 = Binary.littleNumber [b0, b1, b2] := by
  have h0 := b0.toNat_lt
  have h1 := b1.toNat_lt
  have hlow : b0.toNat ||| b1.toNat <<< 8 = b1.toNat <<< 8 + b0.toNat := by
    rw [Nat.or_comm]
    exact (Nat.shiftLeft_add_eq_or_of_lt h0 _).symm
  have hall : (b0.toNat ||| b1.toNat <<< 8) ||| b2.toNat <<< 16
      = b2.toNat <<< 16 + (b0.toNat ||| b1.toNat <<< 8) := by
    rw [Nat.or_comm]
    refine (Nat.shiftLeft_add_eq_or_of_lt ?_ _).symm
    omega
  rw [uint24, hall, Binary.littleNumber_cons, Binary.littleNumber_cons,
    Binary.littleNumber_cons]
  have hnil : Binary.littleNumber [] = 0 := rfl
  omega

variable {src : List UInt8} {b0 : UInt8} {f : SizeFormat} {blockType n : Nat}

theorem exists_littleNumber (h : src[0]? = some b0) {w : Nat} (hw : 1 ≤ w) :
    ∃ k, Binary.littleNumber (src.take w) = b0.toNat + 256 * k := by
  cases src with
  | nil => cases h
  | cons b rest =>
    cases h
    obtain ⟨v, rfl⟩ : ∃ v, w = v + 1 := ⟨w - 1, by omega⟩
    rw [take_succ_cons, Binary.littleNumber_cons]
    exact ⟨_, rfl⟩

theorem exists_three (h : src[0]? = some b0) (hlen : 3 ≤ src.length) :
    ∃ b1 b2 rest, src = b0 :: b1 :: b2 :: rest := by
  rcases src with _ | ⟨c0, _ | ⟨b1, _ | ⟨b2, rest⟩⟩⟩
  · cases h
  · exact absurd hlen (by simp)
  · exact absurd hlen (by simp)
  · cases h
    exact ⟨b1, b2, rest, rfl⟩

theorem take_eq_plainHeaderBytes (hlen : f.width ≤ src.length)
    (h : Binary.littleNumber (src.take f.width) = f.field blockType n) :
    src.take f.width = plainHeaderBytes blockType f n := by
  have hback := Binary.littleEndian_littleNumber (src.take f.width)
  rw [length_take, min_eq_left hlen, h] at hback
  exact hback.symm

/-- The format that the first byte announces. -/
def SizeFormat.of (b0 : Nat) : SizeFormat :=
  if b0 / 4 % 2 = 0 then short else if b0 / 4 % 4 = 1 then medium else long

/-- What one literal counts in the number of the header. -/
def SizeFormat.unit : SizeFormat → Nat
  | short => 8
  | medium | long => 16

/-- **What a header of Raw and RLE literals is read as.** -/
theorem plainHeader_eq (hb0 : src[0]? = some b0) (hf : SizeFormat.of b0.toNat = f) :
    plainHeader src (b0.toNat >>> 2 &&& 3) =
      if src.length < f.width then error ⟨"zstd decompress: truncated literals section header"⟩
      else ok (f.width, Binary.littleNumber (src.take f.width) / f.unit) := by
  obtain ⟨hlen, _⟩ := List.getElem?_eq_some_iff.mp hb0
  unfold SizeFormat.of at hf
  unfold plainHeader
  rw [and_three]
  split at hf
  · subst hf
    obtain ⟨b, rest, rfl⟩ : ∃ b rest, src = b :: rest := exists_cons_of_length_pos hlen
    cases hb0
    have hone : Binary.littleNumber ((b0 :: rest).take 1) = b0.toNat := by
      rw [take_succ_cons, Binary.littleNumber_cons]
      rfl
    rw [if_pos (by omega), index_eq rfl, ok_bind, SizeFormat.width, hone,
      Nat.shiftRight_eq_div_pow]
    rfl
  rw [if_neg (by omega)]
  split at hf <;> subst hf
  · rw [if_pos (by omega), SizeFormat.width]
    by_cases hroom : src.length < 2
    · rw [failIf_pos hroom, if_pos hroom]
      rfl
    · rw [failIf_neg hroom, ok_bind, if_neg hroom, uint_eq (by omega), ok_bind,
        Nat.shiftRight_eq_div_pow]
      rfl
  · rw [if_neg (by omega), SizeFormat.width]
    by_cases hroom : src.length < 3
    · rw [failIf_pos hroom, if_pos hroom]
      rfl
    · obtain ⟨b1, b2, rest, rfl⟩ := exists_three hb0 (not_lt.mp hroom)
      rw [failIf_neg hroom, ok_bind, index_eq rfl, ok_bind, index_eq rfl, ok_bind,
        index_eq rfl, ok_bind, uint24_eq, Nat.shiftRight_eq_div_pow]
      rfl

theorem plainHeader_safe (hb0 : src[0]? = some b0) :
    Safe (fun r => ∃ f : SizeFormat, r.1 = f.width ∧ r.2 < f.limit ∧ f.width ≤ src.length ∧
      src.take f.width = plainHeaderBytes (b0.toNat &&& 3) f r.2)
      (plainHeader src (b0.toNat >>> 2 &&& 3)) := by
  generalize hf : SizeFormat.of b0.toNat = f
  rw [plainHeader_eq hb0 hf, and_three]
  split
  · exact .fails trivial
  · have hlt := Binary.littleNumber_lt (src.take f.width)
    obtain ⟨m, hm⟩ := exists_littleNumber hb0 (w := f.width) (by cases f <;> decide)
    rw [length_take, min_eq_left (by omega)] at hlt
    refine sat_pure ⟨f, rfl, ?_, by omega, take_eq_plainHeaderBytes (by omega) ?_⟩
    · cases f <;> simp only [SizeFormat.limit, SizeFormat.unit, SizeFormat.width] at hlt ⊢ <;> omega
    · unfold SizeFormat.of at hf
      split at hf
      · subst hf
        simp only [SizeFormat.field, SizeFormat.unit] at hm hlt ⊢
        omega
      · split at hf <;> subst hf <;> simp only [SizeFormat.field, SizeFormat.unit] <;> omega

theorem SizeFormat.field_lt (htype : blockType < 4) (hn : n < f.limit) :
    f.field blockType n < 256 ^ f.width := by
  cases f <;> simp only [SizeFormat.limit, SizeFormat.field, SizeFormat.width] at hn ⊢ <;> omega

/-- **A header that was written is read.** -/
theorem plainHeader_bytes (htype : blockType < 4) (hn : n < f.limit) (rest : List UInt8) :
    ∃ b0, (plainHeaderBytes blockType f n ++ rest)[0]? = some b0 ∧ b0.toNat &&& 3 = blockType ∧
      plainHeader (plainHeaderBytes blockType f n ++ rest) (b0.toNat >>> 2 &&& 3)
        = ok (f.width, n) := by
  have hlen := length_plainHeaderBytes blockType f n
  have hpos : 1 ≤ f.width := by cases f <;> decide
  have hnum : Binary.littleNumber ((plainHeaderBytes blockType f n ++ rest).take f.width)
      = f.field blockType n := by
    rw [take_left' hlen, plainHeaderBytes, Binary.littleNumber_littleEndian,
      Nat.mod_eq_of_lt (SizeFormat.field_lt htype hn)]
  obtain ⟨b0, hb0⟩ : ∃ b0, (plainHeaderBytes blockType f n ++ rest)[0]? = some b0 :=
    ⟨_, getElem?_eq_getElem (by rw [length_append]; omega)⟩
  obtain ⟨m, hm⟩ := exists_littleNumber hb0 hpos
  rw [hnum] at hm
  have hf : SizeFormat.of b0.toNat = f := by
    unfold SizeFormat.of
    cases f <;> simp only [SizeFormat.field] at hm
    · rw [if_pos (by omega)]
    · rw [if_neg (by omega), if_pos (by omega)]
    · rw [if_neg (by omega), if_neg (by omega)]
  have hcount : f.field blockType n / f.unit = n ∧ f.field blockType n % 4 = blockType := by
    cases f <;> simp only [SizeFormat.field, SizeFormat.unit] <;> omega
  refine ⟨b0, hb0, ?_, ?_⟩
  · rw [and_three]
    omega
  · rw [plainHeader_eq hb0 hf, if_neg (by rw [length_append]; omega), hnum, hcount.1]

section Written

variable {st : BlockState} {f : SizeFormat} (rest : List UInt8)

/-- RLE literals that were written are read; **the size is that of as many Raw literals**. -/
theorem zstdDecodeLiterals_rle {n : Nat} (hfits : n < f.limit) (hmax : n ≤ st.blockMax)
    (b : UInt8) :
    zstdDecodeLiterals st (plainHeaderBytes 1 f n ++ b :: rest)
      = ok (List.replicate n b, f.width + n, st) := by
  obtain ⟨b0, hb0, htype, hheader⟩ := plainHeader_bytes (show 1 < 4 by decide) hfits (b :: rest)
  have hlen := length_plainHeaderBytes 1 f n
  have hbyte : (plainHeaderBytes 1 f n ++ b :: rest)[f.width]? = some b := by
    rw [getElem?_append_right (by omega), hlen, Nat.sub_self]
    rfl
  have hroom : f.width < (plainHeaderBytes 1 f n ++ b :: rest).length := by
    rw [length_append, length_cons]
    omega
  unfold zstdDecodeLiterals plainLiterals rleLiterals
  rw [index_eq hb0]
  simp only [htype, or_true, hheader, ok_bind]
  rw [failIf_neg (by omega), ok_bind]
  rw [failIf_neg (by omega), ok_bind, index_eq hbyte, ok_bind, pure_eq, ok_bind,
    length_replicate]
  rfl

end Written

/-! ## 4. Sections stay inside their bytes -/

section Safe

variable {st : BlockState} {src : List UInt8}

theorem rawLiterals_safe (src : List UInt8) (lhSize litSize : Nat) :
    Safe (fun literals => lhSize + literals.length ≤ src.length)
      (rawLiterals src lhSize litSize) := by
  refine Safe.failIf_bind fun hroom => ?_
  refine (sat_slice (by omega) (by omega)).mono fun literals hlit => ?_
  omega

theorem rleLiterals_safe (src : List UInt8) (lhSize litSize : Nat) :
    Safe (fun literals => literals.length = litSize ∧ lhSize < src.length)
      (rleLiterals src lhSize litSize) := by
  refine Safe.failIf_bind fun hroom => ?_
  refine Sat.bind (sat_index (by omega)) fun b _ => ?_
  exact sat_pure ⟨length_replicate, by omega⟩

theorem hufHeader_safe (sizeFormat : Nat) : Safe (fun _ => True) (hufHeader src sizeFormat) := by
  refine Safe.failIf_bind fun hlen => ?_
  rw [uint_eq (by omega)]
  split
  · exact sat_pure trivial
  split
  · exact sat_pure trivial
  · refine Safe.failIf_bind fun hroom => ?_
    refine Sat.bind (sat_index (by omega)) fun b4 _ => ?_
    exact sat_pure trivial

theorem literalsTree_safe (hst : st.Valid) (treeless : Bool) (sec : List UInt8) :
    Safe (fun r => r.1.Valid) (literalsTree st treeless sec) := by
  unfold literalsTree
  split
  · split
    · rename_i t _ ht
      exact sat_pure (hst.huf t ht)
    · exact .fails trivial
  · refine Sat.bind (zstdDecodeHufTable_safe sec) fun r hr => ?_
    obtain ⟨ht, hused⟩ := hr
    dsimp only at ht hused ⊢
    rw [dropFrom_eq hused]
    exact sat_pure ht

section Streams

variable {t : HufTable} {sec : List UInt8}

theorem oneStream_safe (ht : t.Valid) (litSize : Nat) :
    Safe (fun _ => True) (oneStream t sec litSize) := by
  refine Sat.bind (zstdHufDecodeStream_safe ht sec _) fun r _ => ?_
  refine Safe.failIf_bind fun _ => ?_
  exact sat_pure trivial

theorem streamStep_safe (ht : t.Valid) {litSize : Nat} {s : FourStreams}
    (hlen : s.literals.length = litSize) (hwritten : s.written ≤ litSize) (size : Int) :
    Safe (fun s' => s'.literals.length = litSize ∧ s'.written ≤ litSize)
      (streamStep t sec s size) := by
  refine Safe.failIf_bind fun hsize => ?_
  refine Sat.bind (sat_slice (by omega) (by omega)) fun src _ => ?_
  rw [dropFrom_eq (by omega), ok_bind]
  refine Sat.bind (zstdHufDecodeStream_safe ht src _) fun r hr => ?_
  rw [length_drop] at hr
  refine sat_pure ⟨?_, by dsimp only; omega⟩
  rw [length_append, length_take]
  omega

theorem fourStreams_safe (ht : t.Valid) (litSize : Nat) :
    Safe (fun _ => True) (fourStreams t sec litSize) := by
  refine Safe.failIf_bind fun hlen => ?_
  rw [uint_eq (by omega), ok_bind]
  refine Sat.bind (sat_uintAt (by omega)) fun size1 _ => ?_
  refine Sat.bind (sat_uintAt (by omega)) fun size2 _ => ?_
  refine Sat.bind (Sat.foldlM (I := fun _ s =>
    s.literals.length = litSize ∧ s.written ≤ litSize) ⟨length_replicate, Nat.zero_le _⟩
    fun size _ s hs => streamStep_safe ht hs.1 hs.2 size) fun s _ => ?_
  refine Safe.failIf_bind fun _ => ?_
  exact sat_pure trivial

theorem hufStreams_safe (ht : t.Valid) (singleStream : Bool) (litSize : Nat) :
    Safe (fun _ => True) (hufStreams t sec singleStream litSize) := by
  unfold hufStreams
  split
  · refine Safe.failIf_bind fun _ => ?_
    exact sat_pure trivial
  split
  · exact oneStream_safe ht litSize
  · exact fourStreams_safe ht litSize

end Streams

/-- What a block inherits from a literals section. -/
structure BlockState.Follows (st st' : BlockState) : Prop where
  valid : st'.Valid
  rep : st'.rep = st.rep
  blockMax : st'.blockMax = st.blockMax

theorem hufLiterals_safe (hst : st.Valid) (treeless : Bool) (sizeFormat : Nat) :
    Safe (fun r => r.2.1 ≤ src.length ∧ st.Follows r.2.2)
      (hufLiterals st src treeless sizeFormat) := by
  refine Sat.bind (hufHeader_safe sizeFormat) fun h _ => ?_
  refine Safe.failIf_bind fun _ => ?_
  refine Safe.failIf_bind fun _ => ?_
  refine Safe.failIf_bind fun hroom => ?_
  refine Sat.bind (sat_slice (by omega) (by omega)) fun sec _ => ?_
  refine Sat.bind (literalsTree_safe hst treeless sec) fun r hr => ?_
  refine Sat.bind (hufStreams_safe hr _ _) fun literals _ => ?_
  refine sat_pure ⟨by dsimp only; omega, ⟨hst.rep, ?_, hst.ll, hst.of, hst.ml⟩, rfl, rfl⟩
  rintro _ ⟨⟩
  exact hr

/-- **RLE literals whose count is larger than the number of bytes behind their header.** -/
def RleOverrun (blockMax : Nat) (src : List UInt8) : Prop :=
  ∃ (f : SizeFormat) (n : Nat) (b : UInt8) (rest : List UInt8), n < f.limit ∧ n ≤ blockMax ∧
    src = plainHeaderBytes 1 f n ++ b :: rest ∧ rest.length + 1 < n

theorem plainLiterals_safe {b0 : UInt8} (hb0 : src[0]? = some b0) {rle : Bool}
    (hrle : rle = true → b0.toNat &&& 3 = 1) (blockMax : Nat) :
    Safe (fun r => r.2 ≤ src.length ∨ RleOverrun blockMax src)
      (plainLiterals blockMax src rle (b0.toNat >>> 2 &&& 3)) := by
  refine Sat.bind (plainHeader_safe hb0) fun r hr => ?_
  obtain ⟨lhSize, litSize⟩ := r
  obtain ⟨f, hwidth, hlimit, hroom, htake⟩ := hr
  subst hwidth
  refine Safe.failIf_bind fun hmax => ?_
  cases rle with
  | false =>
    refine Sat.bind (rawLiterals_safe src f.width litSize) fun literals hlit => ?_
    exact sat_pure (.inl hlit)
  | true =>
    have hkind := hrle rfl
    refine Sat.bind (rleLiterals_safe src f.width litSize) fun literals hlit => ?_
    refine sat_pure (Classical.or_iff_not_imp_left.mpr fun hover => ?_)
    rw [hkind] at htake
    have hsplit : src = plainHeaderBytes 1 f litSize ++ src.drop f.width := by
      rw [← htake, take_append_drop]
    obtain ⟨b, rest, hrest⟩ : ∃ b rest, src.drop f.width = b :: rest :=
      exists_cons_of_length_pos (by rw [length_drop]; omega)
    have hcount : (src.drop f.width).length = rest.length + 1 := by rw [hrest, length_cons]
    rw [length_drop] at hcount
    refine ⟨f, litSize, b, rest, hlimit, by omega, ?_, by omega⟩
    rw [← hrest]
    exact hsplit

theorem zstdDecodeLiterals_safe (hst : st.Valid) (hlen : 1 ≤ src.length) :
    Safe (fun r => (r.2.1 ≤ src.length ∨ RleOverrun st.blockMax src) ∧ st.Follows r.2.2)
      (zstdDecodeLiterals st src) := by
  refine Sat.bind (sat_index (by omega)) fun b0 hb0 => ?_
  dsimp only
  split
  · refine Sat.bind (plainLiterals_safe hb0 ?_ st.blockMax) fun r hr => ?_
    · exact of_decide_eq_true
    · exact sat_pure ⟨hr, hst, rfl, rfl⟩
  · exact (hufLiterals_safe hst _ _).mono fun r hr => ⟨.inl hr.1, hr.2⟩

end Safe

end RocketMQ.Compress
