/-
  File:      RocketMQ/Compress/Lz4Frame.lean
  Subject:   The LZ4 frame (`common/lz4.go`): blocks of at most 64 KB between a header and an end mark.

  * `lz4CompressFrame`, `lz4DecompressFrame`;
  * `lz4DecompressFrame_safe`: the reader returns content or an error, whatever the bytes;
  * `lz4_frame_round_trip`: **what was written is read, and no strict prefix of it is accepted**.
-/
import RocketMQ.Compress.Lz4Sequences

namespace RocketMQ.Compress

open List Outcome Binary

def lz4Magic : Nat := 0x184d2204
def lz4FrameBlockMax : Nat := 65536
def lz4EndMark : Nat := 0
def lz4RawFlag : Nat := 0x80000000
def lz4FlgWrite : UInt8 := 0x40 ||| 0x20 ||| 0x08
def lz4BdWrite : UInt8 := 0x40

/-! ## 1. The writer -/

variable {ε : Type}

/-- `byte((xxh32(header, 0) >> 8) & 0xff)`. -/
def headerChecksum (header : List UInt8) : Outcome ε UInt8 := do
  let h ← xxh32 header 0
  return (h >>> 8 &&& 0xff).toUInt8

/-- The size field and the bytes of one block, raw when it does not get shorter. -/
def frameBlock (chunk : List UInt8) : Outcome ε (List UInt8) := do
  let block ← lz4CompressBlock chunk
  return if block.length = 0 ∨ block.length ≥ chunk.length then
    littleEndian 4 (lz4RawFlag ||| chunk.length % 2 ^ 32) ++ chunk
  else littleEndian 4 block.length ++ block

/-- One turn of the loop over the chunks. -/
def frameTurn (data : List UInt8) (s : Nat × List UInt8) :
    Outcome ε ((Nat × List UInt8) ⊕ List UInt8) := do
  let stop := if s.1 + lz4FrameBlockMax > data.length then data.length else s.1 + lz4FrameBlockMax
  let chunk ← slice data s.1 stop
  let bytes ← frameBlock chunk
  return if stop ≥ data.length then .inr (s.2 ++ bytes) else .inl (stop, s.2 ++ bytes)

def lz4CompressFrame (data : List UInt8) : Outcome ε (List UInt8) := do
  let header := [lz4FlgWrite, lz4BdWrite]
  let cs := littleEndian 8 data.length
  let hc ← headerChecksum (header ++ cs)
  let parts ← loop (frameTurn data) (data.length + 1)
    (0, [0x04, 0x22, 0x4d, 0x18] ++ (header ++ (cs ++ [hc])))
  return parts ++ littleEndian 4 lz4EndMark

/-! ## 2. The reader -/

/-- What the reader takes from the header, and where the blocks start. -/
structure FrameHeader where
  blockChecksum : Bool
  contentChecksum : Bool
  contentSize : Nat
  p : Nat
deriving DecidableEq

variable (data : List UInt8)

/-- The content size, when the flag says that it is there. -/
def contentSizeField (flg p : Nat) : Outcome DecodeError (Nat × Nat) :=
  if flg &&& 0x08 ≠ 0 then do
    failIf (p + 8 > data.length) ⟨"lz4 frame decompress: truncated content size"⟩
    let contentSize ← uintAt 8 data p
    return (contentSize, p + 8)
  else return (0, p)

def frameHeader : Outcome DecodeError FrameHeader := do
  failIf (data.length < 7) ⟨"lz4 frame decompress: input too short"⟩
  let magic ← uintAt 4 data 0
  failIf (magic ≠ lz4Magic) ⟨"lz4 frame decompress: bad magic 0x" ++ hex magic⟩
  let flg ← index data 4
  let flg := flg.toNat
  failIf (flg >>> 6 ≠ 0x1)
    ⟨"lz4 frame decompress: unsupported version " ++ toString (flg >>> 6)⟩
  let (contentSize, p) ← contentSizeField data flg 6
  failIf (p ≥ data.length) ⟨"lz4 frame decompress: truncated header checksum"⟩
  let hc ← index data p
  let covered ← slice data 4 p
  let sum ← headerChecksum covered
  failIf (sum ≠ hc) ⟨"lz4 frame decompress: header checksum mismatch"⟩
  return ⟨flg &&& 0x10 ≠ 0, flg &&& 0x04 ≠ 0, contentSize, p + 1⟩

/-- What a block holds, raw or compressed. -/
def blockContent (sizeField : Nat) (block : List UInt8) : Outcome DecodeError (List UInt8) :=
  if sizeField &&& lz4RawFlag ≠ 0 then return block else lz4DecompressBlock block

/-- One turn of the loop over the blocks; a block checksum is passed over. -/
def blockTurn (blockChecksum : Bool) (s : Nat × List UInt8) :
    Outcome DecodeError ((Nat × List UInt8) ⊕ (Nat × List UInt8)) := do
  failIf (s.1 + 4 > data.length) ⟨"lz4 frame decompress: truncated block size"⟩
  let sizeField ← uintAt 4 data s.1
  let p := s.1 + 4
  if sizeField = lz4EndMark then return .inr (p, s.2)
  else do
    -- `sizeField &^ lz4RawFlag` on 32 bits
    let blockLen := sizeField &&& 0x7fffffff
    failIf (p + blockLen > data.length) ⟨"lz4 frame decompress: truncated block data"⟩
    let block ← slice data p (p + blockLen)
    let content ← blockContent sizeField block
    return .inl (p + blockLen + (if blockChecksum then 4 else 0), s.2 ++ content)

/-- The content checksum, when the flag says that it is there. -/
def contentChecksumField (contentChecksum : Bool) (p : Nat)
    (parts : List UInt8) : Outcome DecodeError Unit :=
  if contentChecksum then do
    failIf (p + 4 > data.length) ⟨"lz4 frame decompress: truncated content checksum"⟩
    let sum ← xxh32 parts 0
    let want ← uintAt 4 data p
    failIf (sum.toNat ≠ want) ⟨"lz4 frame decompress: content checksum mismatch"⟩
  else return ()

def lz4DecompressFrame : Outcome DecodeError (List UInt8) := do
  let header ← frameHeader data
  let (p, parts) ← loop (blockTurn data header.blockChecksum) (data.length + 1) (header.p, [])
  contentChecksumField data header.contentChecksum p parts
  failIf (header.contentSize ≠ 0 ∧ parts.length ≠ header.contentSize)
    ⟨"lz4 frame decompress: content size mismatch"⟩
  return parts

/-! ## 3. The reader stays inside its input -/

section Safe

variable {data : List UInt8}

theorem headerChecksum_sat {E : ε → Prop} (header : List UInt8) :
    Sat E (fun _ => True) (headerChecksum header : Outcome ε UInt8) := by
  refine Sat.bind (xxh32_sat header 0) fun _ _ => ?_
  exact sat_pure trivial

theorem contentSizeField_safe (flg p : Nat) :
    Safe (fun r => p ≤ r.2) (contentSizeField data flg p) := by
  unfold contentSizeField
  split
  · refine Safe.failIf_bind fun hroom => ?_
    refine Sat.bind (sat_uintAt (by omega)) fun _ _ => sat_ok ?_
    exact Nat.le_add_right p 8
  · exact sat_pure le_rfl

theorem frameHeader_safe : Safe (fun _ => True) (frameHeader data) := by
  refine Safe.failIf_bind fun hlen => ?_
  refine Sat.bind (sat_uintAt (by omega)) fun magic _ => ?_
  refine Safe.failIf_bind fun _ => ?_
  refine Sat.bind (sat_index (by omega)) fun flg _ => ?_
  refine Safe.failIf_bind fun _ => ?_
  refine Sat.bind (contentSizeField_safe _ 6) fun r hr => ?_
  refine Safe.failIf_bind fun hp => ?_
  refine Sat.bind (sat_index (by omega)) fun hc _ => ?_
  refine Sat.bind (sat_slice (by omega) (by omega)) fun covered _ => ?_
  refine Sat.bind (headerChecksum_sat covered) fun sum _ => ?_
  refine Safe.failIf_bind fun _ => ?_
  exact sat_pure trivial

theorem blockContent_safe (sizeField : Nat) (block : List UInt8) :
    Safe (fun _ => True) (blockContent sizeField block) := by
  unfold blockContent
  split
  · exact sat_pure trivial
  · exact lz4DecompressBlock_safe block

theorem blockTurn_safe (checksum : Bool) (s : Nat × List UInt8) :
    Safe (Sum.elim (fun t => True ∧ data.length - t.1 < data.length - s.1)
      (fun r => r.1 ≤ data.length)) (blockTurn data checksum s) := by
  refine Safe.failIf_bind fun hroom => ?_
  refine Sat.bind (sat_uintAt (by omega)) fun sizeField _ => ?_
  split
  · exact sat_pure (le_of_not_gt hroom)
  · refine Safe.failIf_bind fun hblock => ?_
    refine Sat.bind (sat_slice (Nat.le_add_right _ _) (by omega)) fun block _ => ?_
    refine Sat.bind (blockContent_safe sizeField block) fun content _ => ?_
    exact sat_pure ⟨trivial, by omega⟩

theorem blockTurns_safe (checksum : Bool) (p : Nat) :
    Safe (fun r => r.1 ≤ data.length)
      (loop (blockTurn data checksum) (data.length + 1) (p, [])) :=
  Sat.loop (fun s => data.length - s.1)
    (fun s _ => blockTurn_safe checksum s) trivial (by omega)

theorem contentChecksumField_safe (flag : Bool) (p : Nat) (parts : List UInt8) :
    Safe (fun _ => True) (contentChecksumField data flag p parts) := by
  unfold contentChecksumField
  split
  · refine Safe.failIf_bind fun hroom => ?_
    refine Sat.bind (xxh32_sat parts 0) fun sum _ => ?_
    refine Sat.bind (sat_uintAt (by omega)) fun want _ => ?_
    exact failIf_safe
  · exact sat_pure trivial

/-- **The reader returns content or an error, whatever the bytes.** -/
theorem lz4DecompressFrame_safe (data : List UInt8) :
    Safe (fun _ => True) (lz4DecompressFrame data) := by
  refine Sat.bind frameHeader_safe fun header _ => ?_
  refine Sat.bind (blockTurns_safe header.blockChecksum header.p) fun r _ => ?_
  refine Sat.bind (contentChecksumField_safe header.contentChecksum r.1 r.2) fun _ _ => ?_
  refine Safe.failIf_bind fun _ => ?_
  exact sat_pure trivial

end Safe

/-! ## 4. What is read does not depend on what comes behind -/

section Below

variable {xs ys : List UInt8}

theorem contentSizeField_below (flg p : Nat) :
    Below (contentSizeField xs flg p) (contentSizeField (xs ++ ys) flg p) := by
  unfold contentSizeField
  split
  · refine Below.failIf_bind (by rw [length_append]; omega) fun hroom => ?_
    exact Below.bind (uintAt_below (by omega)) fun _ _ => Below.refl _
  · exact Below.refl _

theorem frameHeader_below : Below (frameHeader xs) (frameHeader (xs ++ ys)) := by
  refine Below.failIf_bind (by rw [length_append]; omega) fun hlen => ?_
  refine Below.bind (uintAt_below (by omega)) fun magic _ => ?_
  refine Below.failIf_bind id fun _ => ?_
  refine Below.bind index_below fun flg _ => ?_
  refine Below.failIf_bind id fun _ => ?_
  refine Below.bind (contentSizeField_below _ _) fun r _ => ?_
  refine Below.failIf_bind (by rw [length_append]; omega) fun _ => ?_
  refine Below.bind index_below fun hc _ => ?_
  refine Below.bind slice_below fun covered _ => ?_
  exact Below.refl _

theorem blockTurn_below (checksum : Bool) (s : Nat × List UInt8) :
    Below (blockTurn xs checksum s) (blockTurn (xs ++ ys) checksum s) := by
  refine Below.failIf_bind (by rw [length_append]; omega) fun hroom => ?_
  refine Below.bind (uintAt_below (by omega)) fun sizeField _ => ?_
  split
  · exact Below.refl _
  · refine Below.failIf_bind (by rw [length_append]; omega) fun _ => ?_
    exact Below.bind slice_below fun block _ => Below.refl _

end Below

/-! ## 5. The reader reads what the writer wrote -/

/-- The reader takes these bytes, wherever they stand, for a block with this content. -/
structure HoldsBlock (content bytes : List UInt8) : Prop where
  ne : bytes ≠ []
  reads : ∀ u r parts, blockTurn (u ++ (bytes ++ r)) false (u.length, parts) =
    ok (.inl (u.length + bytes.length, parts ++ content))

section Blocks

variable {u r block content chunk : List UInt8} {field : Nat}

theorem uintAt_littleEndian (w n : Nat) :
    (uintAt w (u ++ (littleEndian w n ++ r)) u.length : Outcome DecodeError Nat) =
      ok (n % 256 ^ w) := by
  rw [uintAt_eq (by simp), drop_left, take_left' (length_littleEndian w n),
    littleNumber_littleEndian]

theorem holdsBlock_of_field (hwide : field < 2 ^ 32) (hne : field ≠ lz4EndMark)
    (hlen : field &&& 0x7fffffff = block.length) (hcontent : blockContent field block = ok content) :
    HoldsBlock content (littleEndian 4 field ++ block) := by
  constructor
  · intro hnil
    have hzero := congrArg List.length hnil
    simp at hzero
  · intro u r parts
    have hfield : field % 256 ^ 4 = field := Nat.mod_eq_of_lt (by simpa using hwide)
    have hsize : (u ++ (littleEndian 4 field ++ block ++ r)).length =
        u.length + 4 + block.length + r.length := by
      simp only [length_append, length_littleEndian]
      omega
    have hsplit : u ++ (littleEndian 4 field ++ block ++ r) =
        (u ++ littleEndian 4 field) ++ (block ++ r) := by
      simp only [append_assoc]
    have hblock : (slice (u ++ (littleEndian 4 field ++ block ++ r)) (u.length + 4)
        (u.length + 4 + block.length) : Outcome DecodeError _) = ok block := by
      rw [slice_eq (by omega) (by omega), hsplit, drop_left' (by simp),
        Nat.add_sub_cancel_left, take_left]
    unfold blockTurn
    rw [failIf_neg (by omega), ok_bind, append_assoc _ block, uintAt_littleEndian, hfield,
      ok_bind, ← append_assoc _ block]
    dsimp only
    rw [if_neg hne, hlen, failIf_neg (by omega), ok_bind, hblock, ok_bind, hcontent]
    simp [add_assoc]

theorem lz4RawFlag_or {n : Nat} (h : n < 2 ^ 31) : lz4RawFlag ||| n = 2 ^ 31 + n :=
  (Nat.two_pow_add_eq_or_of_lt h 1).symm

theorem and_lz4RawFlag (n : Nat) : n &&& lz4RawFlag = (n.testBit 31).toNat * 2 ^ 31 :=
  Nat.and_two_pow n 31

theorem and_rest (n : Nat) : n &&& 0x7fffffff = n % 2 ^ 31 := Nat.and_two_pow_sub_one_eq_mod n 31

theorem holdsBlock_raw (h : chunk.length ≤ lz4FrameBlockMax) :
    HoldsBlock chunk (littleEndian 4 (lz4RawFlag ||| chunk.length % 2 ^ 32) ++ chunk) := by
  have hmax : lz4FrameBlockMax = 65536 := rfl
  have hlt : chunk.length < 2 ^ 31 := by omega
  rw [Nat.mod_eq_of_lt (by omega), lz4RawFlag_or hlt]
  refine holdsBlock_of_field (by omega) (ne_of_gt (by show 0 < _; omega)) ?_ ?_
  · rw [and_rest]
    omega
  · have hbit : (2 ^ 31 + chunk.length).testBit 31 = true := by
      rw [Nat.testBit_two_pow_add_eq, Nat.testBit_lt_two_pow hlt]
      rfl
    unfold blockContent
    rw [and_lz4RawFlag, hbit]
    rfl

theorem holdsBlock_compressed (hpos : block.length ≠ 0) (hlt : block.length < 2 ^ 31)
    (h : lz4DecompressBlock block = ok content) :
    HoldsBlock content (littleEndian 4 block.length ++ block) := by
  refine holdsBlock_of_field (by omega) hpos ?_ ?_
  · rw [and_rest]
    omega
  · unfold blockContent
    rw [and_lz4RawFlag, Nat.testBit_lt_two_pow hlt, if_neg (by decide), h]

variable {ε : Type} {data parts header : List UInt8} {blocks : List (List UInt8 × List UInt8)}

theorem lz4CompressBlock_decodes (chunk : List UInt8) :
    Returns (fun block => block.length ≠ 0 → lz4DecompressBlock block = ok chunk)
      (lz4CompressBlock chunk : Outcome ε (List UInt8)) := by
  by_cases hne : chunk = []
  · subst hne
    exact sat_ok (absurd rfl)
  · refine (lz4CompressBlock_returns hne).mono ?_
    rintro block ⟨seqs, content, last, hdec, rfl, rfl⟩ _
    exact lz4DecompressBlock_blockBytes hdec

theorem frameBlock_returns (h : chunk.length ≤ lz4FrameBlockMax) :
    Returns (HoldsBlock chunk) (frameBlock chunk : Outcome ε (List UInt8)) := by
  have hmax : lz4FrameBlockMax = 65536 := rfl
  refine Sat.bind (lz4CompressBlock_decodes chunk) fun block hblock => sat_ok ?_
  by_cases hraw : block.length = 0 ∨ block.length ≥ chunk.length
  · rw [if_pos hraw]
    exact holdsBlock_raw h
  · rw [if_neg hraw]
    exact holdsBlock_compressed (by omega) (by omega) (hblock (by omega))

theorem blockTurns_at {fuel : Nat} (hblocks : ∀ b ∈ blocks, HoldsBlock b.1 b.2)
    (hdata : data = u ++ (blocks.flatMap Prod.snd ++ (littleEndian 4 lz4EndMark ++ r)))
    (hfuel : blocks.length < fuel) :
    loop (blockTurn data false) fuel (u.length, parts) =
      ok (u.length + (blocks.flatMap Prod.snd).length + 4, parts ++ blocks.flatMap Prod.fst) := by
  induction blocks generalizing u parts fuel with
  | nil =>
    obtain ⟨fuel, rfl⟩ : ∃ k, fuel = k + 1 := ⟨fuel - 1, by omega⟩
    have hturn : blockTurn data false (u.length, parts) = ok (.inr (u.length + 4, parts)) := by
      have hroom : ¬ u.length + 4 > data.length := by
        rw [hdata]
        simp
      unfold blockTurn
      rw [failIf_neg hroom, hdata, flatMap_nil, nil_append,
        uintAt_littleEndian]
      rfl
    rw [loop_done hturn, flatMap_nil, flatMap_nil, append_nil]
    rfl
  | cons b rest ih =>
    obtain ⟨fuel, rfl⟩ : ∃ k, fuel = k + 1 := ⟨fuel - 1, by omega⟩
    have hb := hblocks b mem_cons_self
    have hfirst : data = u ++ (b.2 ++ (rest.flatMap Prod.snd ++
        (littleEndian 4 lz4EndMark ++ r))) := by
      rw [hdata, flatMap_cons, append_assoc]
    have hnext : data = (u ++ b.2) ++ (rest.flatMap Prod.snd ++
        (littleEndian 4 lz4EndMark ++ r)) := by
      rw [hfirst, append_assoc]
    have hturn : blockTurn data false (u.length, parts) =
        ok (.inl (u.length + b.2.length, parts ++ b.1)) := by
      rw [hfirst]
      exact hb.reads u _ parts
    have hrest : loop (blockTurn data false) fuel ((u ++ b.2).length, parts ++ b.1) = _ :=
      ih (fun c hc => hblocks c (mem_cons_of_mem b hc)) hnext
        (Nat.lt_of_succ_lt_succ hfuel)
    rw [length_append] at hrest
    rw [loop_next hturn, hrest, flatMap_cons, length_append,
      append_assoc]
    congr 2
    omega

theorem length_le_flatMap_snd (hblocks : ∀ b ∈ blocks, HoldsBlock b.1 b.2) :
    blocks.length ≤ (blocks.flatMap Prod.snd).length := by
  induction blocks with
  | nil => exact le_rfl
  | cons b rest ih =>
    have hb := length_pos_iff.mpr (hblocks b mem_cons_self).ne
    have hrest := ih fun c hc => hblocks c (mem_cons_of_mem b hc)
    rw [flatMap_cons, length_append, length_cons]
    omega

/-- The parts are the header and the blocks of what lies before `pos`. -/
def Cut (data header : List UInt8) (pos : Nat) (parts : List UInt8) : Prop :=
  ∃ blocks : List (List UInt8 × List UInt8), (∀ b ∈ blocks, HoldsBlock b.1 b.2) ∧
    blocks.flatMap Prod.fst = data.take pos ∧ parts = header ++ blocks.flatMap Prod.snd

theorem Cut.next {bytes : List UInt8} {pos stop : Nat} (h : Cut data header pos parts)
    (hle : pos ≤ stop) (hb : HoldsBlock ((data.drop pos).take (stop - pos)) bytes) :
    Cut data header stop (parts ++ bytes) := by
  obtain ⟨blocks, hblocks, hcontent, hparts⟩ := h
  refine ⟨blocks ++ [((data.drop pos).take (stop - pos), bytes)], ?_, ?_, ?_⟩
  · intro b hmem
    rcases mem_append.mp hmem with hold | hnew
    · exact hblocks b hold
    · rw [mem_singleton.mp hnew]
      exact hb
  · rw [flatMap_append, hcontent, flatMap_singleton, ← take_add,
      Nat.add_sub_cancel' hle]
  · rw [flatMap_append, flatMap_singleton, hparts, append_assoc]

theorem frameTurn_returns (s : Nat × List UInt8) (h : s.1 ≤ data.length ∧ Cut data header s.1 s.2) :
    Returns (Sum.elim
        (fun t => (t.1 ≤ data.length ∧ Cut data header t.1 t.2) ∧
          data.length - t.1 < data.length - s.1)
        (Cut data header data.length))
      (frameTurn data s : Outcome ε ((Nat × List UInt8) ⊕ List UInt8)) := by
  obtain ⟨hpos, hcut⟩ := h
  have hmax : lz4FrameBlockMax = 65536 := rfl
  obtain ⟨stop, hstop⟩ : ∃ stop, stop = if s.1 + lz4FrameBlockMax > data.length then data.length
    else s.1 + lz4FrameBlockMax := ⟨_, rfl⟩
  have hbounds : s.1 ≤ stop ∧ stop ≤ data.length ∧ stop - s.1 ≤ lz4FrameBlockMax ∧
      (stop < data.length → s.1 < stop) := by
    rw [hstop]
    split <;> omega
  obtain ⟨hle, hin, hsize, hmore⟩ := hbounds
  unfold frameTurn
  rw [← hstop]
  refine Sat.bind (sat_slice hle hin) fun chunk hchunk => ?_
  obtain ⟨hchunk, hlen⟩ := hchunk
  refine Sat.bind (frameBlock_returns (by omega)) fun bytes hbytes => sat_ok ?_
  have hnext : Cut data header stop (s.2 ++ bytes) := hcut.next hle (by rw [← hchunk]; exact hbytes)
  split
  · have hall : stop = data.length := by omega
    rw [← hall]
    exact hnext
  · exact ⟨⟨hin, hnext⟩, by dsimp only; omega⟩

end Blocks

/-! ## 6. The frame -/

/-- The 15 bytes in front of the blocks. -/
def headerBytes (cs : List UInt8) (hc : UInt8) : List UInt8 :=
  [0x04, 0x22, 0x4d, 0x18] ++ ([lz4FlgWrite, lz4BdWrite] ++ (cs ++ [hc]))

section Header

variable {cs rest : List UInt8} {hc : UInt8}

theorem length_headerBytes (hcs : cs.length = 8) : (headerBytes cs hc).length = 15 := by
  simp [headerBytes, hcs]

theorem contentSizeField_at (hcs : cs.length = 8) :
    contentSizeField (headerBytes cs hc ++ rest) lz4FlgWrite.toNat 6 =
      ok (littleNumber cs, 14) := by
  have hlen : (headerBytes cs hc ++ rest).length = 15 + rest.length := by
    rw [length_append, length_headerBytes hcs]
  have hdrop : (headerBytes cs hc ++ rest).drop 6 = cs ++ ([hc] ++ rest) := by
    simp [headerBytes]
  unfold contentSizeField
  rw [failIf_neg (by omega), uintAt_eq (by omega), hdrop,
    take_left' hcs]
  rfl

theorem frameHeader_at (hcs : cs.length = 8)
    (hsum : headerChecksum ([lz4FlgWrite, lz4BdWrite] ++ cs) = (ok hc : Outcome DecodeError UInt8)) :
    frameHeader (headerBytes cs hc ++ rest) = ok ⟨false, false, littleNumber cs, 15⟩ := by
  have hlen : (headerBytes cs hc ++ rest).length = 15 + rest.length := by
    rw [length_append, length_headerBytes hcs]
  have hmagic : (uintAt 4 (headerBytes cs hc ++ rest) 0 : Outcome DecodeError Nat) = ok lz4Magic := by
    rfl
  have hflg : (headerBytes cs hc ++ rest)[4]? = some lz4FlgWrite := rfl
  have hsplit : headerBytes cs hc ++ rest = [0x04, 0x22, 0x4d, 0x18] ++
      (([lz4FlgWrite, lz4BdWrite] ++ cs) ++ ([hc] ++ rest)) := by
    simp [headerBytes]
  have hcovered : (slice (headerBytes cs hc ++ rest) 4 14 : Outcome DecodeError _) =
      ok ([lz4FlgWrite, lz4BdWrite] ++ cs) := by
    have hdrop : (headerBytes cs hc ++ rest).drop 4 =
        ([lz4FlgWrite, lz4BdWrite] ++ cs) ++ ([hc] ++ rest) := by
      rw [hsplit]
      rfl
    rw [slice_eq (by omega) (by omega), hdrop, take_left' (by simp [hcs])]
  have hhc : (headerBytes cs hc ++ rest)[14]? = some hc := by
    rw [hsplit]
    simp [hcs]
  unfold frameHeader
  rw [failIf_neg (by omega), ok_bind, hmagic, ok_bind, failIf_neg (by simp), ok_bind,
    index_eq hflg, ok_bind]
  dsimp only
  rw [failIf_neg (by decide), ok_bind, contentSizeField_at hcs, ok_bind]
  rw [failIf_neg (by omega), ok_bind, index_eq hhc, ok_bind, hcovered, ok_bind, hsum, ok_bind,
    failIf_neg (by simp)]
  rfl

end Header

/-- What the reader makes of a frame: its header, and the blocks up to the last byte of it. -/
structure WellWritten (d frame : List UInt8) : Prop where
  header : frameHeader frame = ok ⟨false, false, d.length, 15⟩
  blocks : loop (blockTurn frame false) (frame.length + 1) (15, []) = ok (frame.length, d)

theorem Cut.wellWritten {d cs parts : List UInt8} {hc : UInt8} (hd : d.length < 2 ^ 63)
    (hcs : cs = littleEndian 8 d.length)
    (hsum : headerChecksum ([lz4FlgWrite, lz4BdWrite] ++ cs) = (ok hc : Outcome DecodeError UInt8))
    (h : Cut d (headerBytes cs hc) d.length parts) :
    WellWritten d (parts ++ littleEndian 4 lz4EndMark) := by
  have hlen : cs.length = 8 := by rw [hcs, length_littleEndian]
  have hnum : littleNumber cs = d.length := by
    rw [hcs, littleNumber_littleEndian, Nat.mod_eq_of_lt (by omega)]
  obtain ⟨blocks, hblocks, hcontent, rfl⟩ := h
  have hcount := length_le_flatMap_snd hblocks
  have hsplit : headerBytes cs hc ++ blocks.flatMap Prod.snd ++ littleEndian 4 lz4EndMark =
      headerBytes cs hc ++ (blocks.flatMap Prod.snd ++
        (littleEndian 4 lz4EndMark ++ [])) := by
    rw [append_nil, append_assoc]
  constructor
  · rw [append_assoc, frameHeader_at hlen hsum, hnum]
  · have hfuel : blocks.length <
        (headerBytes cs hc ++ blocks.flatMap Prod.snd ++ littleEndian 4 lz4EndMark).length
          + 1 := by
      simp only [length_append]
      omega
    have hrun : loop _ _ ((headerBytes cs hc).length, []) = _ :=
      blockTurns_at hblocks hsplit hfuel
    rw [length_headerBytes hlen] at hrun
    rw [hrun, hcontent, take_length, nil_append]
    simp only [length_append, length_headerBytes hlen, length_littleEndian]

theorem lz4CompressFrame_returns {d : List UInt8} (hd : d.length < 2 ^ 63) :
    Returns (WellWritten d) (lz4CompressFrame d : Outcome DecodeError (List UInt8)) := by
  obtain ⟨hc, hsum, _⟩ := Returns.exists
    (headerChecksum_sat ([lz4FlgWrite, lz4BdWrite] ++
      littleEndian 8 d.length))
  have hstart : Cut d (headerBytes (littleEndian 8 d.length) hc) 0
      (headerBytes (littleEndian 8 d.length) hc) :=
    ⟨[], by simp, rfl, by simp⟩
  unfold lz4CompressFrame
  dsimp only
  rw [hsum, ok_bind]
  refine Sat.bind (Sat.loop (fun s => d.length - s.1) frameTurn_returns
    ⟨Nat.zero_le _, hstart⟩ (by omega)) fun parts hparts => sat_ok ?_
  exact hparts.wellWritten hd rfl hsum

/-- **The reader returns what was written.** -/
theorem WellWritten.reads {d frame : List UInt8} (h : WellWritten d frame) :
    lz4DecompressFrame frame = ok d := by
  unfold lz4DecompressFrame
  rw [h.header, ok_bind, h.blocks, ok_bind]
  dsimp only
  rw [failIf_neg (by simp)]
  rfl

/-- **A strict prefix runs out of bytes**: with all that comes behind, the reader would have gone
on to the last byte of the frame. -/
theorem WellWritten.rejects {d cut rest : List UInt8} (h : WellWritten d (cut ++ rest))
    (hne : rest ≠ []) : ∃ e, lz4DecompressFrame cut = error e := by
  refine (lz4DecompressFrame_safe cut).error_of_ne_ok fun content hok => ?_
  obtain ⟨header, hheader, hrest⟩ := bind_eq_ok.mp hok
  obtain ⟨⟨p, parts⟩, hblocks, _⟩ := bind_eq_ok.mp hrest
  have hsame : header = ⟨false, false, d.length, 15⟩ := by
    have hfull : frameHeader (cut ++ rest) = ok header := frameHeader_below header hheader
    rw [h.header] at hfull
    exact (Outcome.ok.inj hfull).symm
  subst hsame
  have hp : p ≤ cut.length := (blockTurns_safe false 15).of_ok hblocks
  have hmore : cut.length + 1 ≤ (cut ++ rest).length + 1 := by
    rw [length_append]
    omega
  have hfull : loop (blockTurn (cut ++ rest) false) ((cut ++ rest).length + 1) (15, []) =
      ok (p, parts) := Below.loop (blockTurn_below false) hmore _ hblocks
  rw [h.blocks] at hfull
  have hend : (cut ++ rest).length = p := congrArg Prod.fst (Outcome.ok.inj hfull)
  have hpos := length_pos_iff.mpr hne
  rw [length_append] at hend
  omega

/-- **Round trip.** A frame that was written is read back, and every strict prefix of it is
rejected with an error. -/
theorem lz4_frame_round_trip (d : List UInt8) (hd : d.length < 2 ^ 63) :
    ∃ frame, lz4CompressFrame d = (ok frame : Outcome DecodeError (List UInt8)) ∧
      lz4DecompressFrame frame = ok d ∧
      ∀ cut, cut <+: frame → cut ≠ frame → ∃ e, lz4DecompressFrame cut = error e := by
  obtain ⟨frame, hframe, hwell⟩ := Returns.exists (lz4CompressFrame_returns hd)
  refine ⟨frame, hframe, hwell.reads, ?_⟩
  rintro cut ⟨rest, rfl⟩ hne
  exact hwell.rejects fun hnil => hne (by rw [hnil, append_nil])

theorem lz4_frame_round_trip_hi :
    ([104, 105] : List UInt8).length < 2 ^ 63 ∧
      ∃ frame, lz4CompressFrame [104, 105] = (ok frame : Outcome DecodeError (List UInt8)) ∧
        lz4DecompressFrame frame = ok [104, 105] ∧
        ∀ cut, cut <+: frame → cut ≠ frame → ∃ e, lz4DecompressFrame cut = error e :=
  ⟨by decide, lz4_frame_round_trip [104, 105] (by decide)⟩

/-! ## 7. Bytes behind a frame -/

theorem contentChecksumField_below {xs ys : List UInt8} (flag : Bool) (p : Nat)
    (parts : List UInt8) : Below (contentChecksumField xs flag p parts)
      (contentChecksumField (xs ++ ys) flag p parts) := by
  unfold contentChecksumField
  split
  · refine Below.failIf_bind (by rw [length_append]; omega) fun hroom => ?_
    refine Below.bind (Below.refl _) fun sum _ => ?_
    exact Below.bind (uintAt_below (by omega)) fun want _ => Below.refl _
  · exact Below.refl _

/-- **The reader ignores what stands behind a frame**: a second frame is dropped without an
error. -/
theorem lz4_frame_tail_ignored {xs out : List UInt8} (h : lz4DecompressFrame xs = ok out)
    (ys : List UInt8) : lz4DecompressFrame (xs ++ ys) = ok out := by
  have hbelow : Below (lz4DecompressFrame xs) (lz4DecompressFrame (xs ++ ys)) := by
    refine Below.bind frameHeader_below fun header _ => ?_
    refine Below.bind (Below.loop (blockTurn_below header.blockChecksum) ?_) fun r _ => ?_
    · rw [length_append]
      omega
    · exact Below.bind (contentChecksumField_below _ _ _) fun _ _ => Below.refl _
  exact hbelow out h

/-- Two frames behind each other are read as the first. -/
theorem lz4_frame_tail_ignored_twice : ∃ frame,
    lz4CompressFrame [104, 105] = (ok frame : Outcome DecodeError (List UInt8)) ∧
      lz4DecompressFrame (frame ++ frame) = ok [104, 105] := by
  obtain ⟨frame, hframe, hwell⟩ := Returns.exists
    (lz4CompressFrame_returns (show ([104, 105] : List UInt8).length < 2 ^ 63 by decide))
  exact ⟨frame, hframe, lz4_frame_tail_ignored hwell.reads frame⟩

end RocketMQ.Compress
