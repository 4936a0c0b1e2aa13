/-
  File:      RocketMQ/Compress/Lz4Sequences.lean
  Subject:   The LZ4 block format, and that the two halves of the codec keep to it.

  * `blockBytes`: how it is written;
  * `lz4DecompressBlock_blockBytes`: **the decoder reads every well-formed block**;
  * `lz4CompressBlock_returns`: **the compressor writes a well-formed block of its input**.
-/
import RocketMQ.Compress.Lz4Block
import RocketMQ.Lib.BackReference

namespace RocketMQ.Compress

open List Outcome BackReference

/-! ## 1. The format -/

/-- Literals, and a copy of `matchLen` bytes from `offset` bytes back. -/
structure Sequence where
  literals : List UInt8
  offset : Nat
  matchLen : Nat

/-- The sequence takes the content from `out` to `out'`. -/
structure Sequence.Applies (s : Sequence) (out out' : List UInt8) : Prop where
  min : lz4MinMatch ≤ s.matchLen
  pos : 1 ≤ s.offset
  wide : s.offset < 65536
  inside : s.offset ≤ (out ++ s.literals).length
  copies : Extends s.offset s.matchLen (out ++ s.literals) out'

/-- One sequence after another. -/
inductive Decodes : List Sequence → List UInt8 → List UInt8 → Prop where
  | nil (out : List UInt8) : Decodes [] out out
  | cons {s : Sequence} {rest : List Sequence} {out mid out' : List UInt8}
      (h : s.Applies out mid) (hrest : Decodes rest mid out') : Decodes (s :: rest) out out'

variable {seqs : List Sequence}

theorem Decodes.snoc {s : Sequence} {out mid out' : List UInt8}
    (h : Decodes seqs out mid) (hs : s.Applies mid out') : Decodes (seqs ++ [s]) out out' := by
  induction h with
  | nil out => exact .cons hs (.nil out')
  | cons hfirst _ ih => exact .cons hfirst (ih hs)

/-- What a length has beyond the 15 that the token can hold. -/
def lengthBytes (len : Nat) : List UInt8 := if 15 ≤ len then extension (len - 15) else []

def tokenByte (lit ml : Nat) : UInt8 := UInt8.ofNat (min lit 15 * 16 + min ml 15)

def sequenceBytes (s : Sequence) : List UInt8 :=
  tokenByte s.literals.length (s.matchLen - lz4MinMatch) ::
    (lengthBytes s.literals.length ++ (s.literals ++
      (Binary.littleEndian 2 s.offset ++ lengthBytes (s.matchLen - lz4MinMatch))))

/-- The literals that a block ends in. -/
def lastBytes (literals : List UInt8) : List UInt8 :=
  tokenByte literals.length 0 :: (lengthBytes literals.length ++ literals)

def blockBytes (seqs : List Sequence) (last : List UInt8) : List UInt8 :=
  seqs.flatMap sequenceBytes ++ lastBytes last

theorem token_or {a b : Nat} (ha : a < 16) (hb : b < 16) :
    UInt8.ofNat a <<< 4 ||| UInt8.ofNat b = UInt8.ofNat (a * 16 + b) := by
  have hall : ∀ a b : Fin 16, UInt8.ofNat a.1 <<< 4 ||| UInt8.ofNat b.1
      = UInt8.ofNat (a.1 * 16 + b.1) := by decide +kernel
  exact hall ⟨a, ha⟩ ⟨b, hb⟩

theorem toNat_tokenByte (lit ml : Nat) : (tokenByte lit ml).toNat = min lit 15 * 16 + min ml 15 := by
  rw [tokenByte, UInt8.toNat_ofNat']
  omega

theorem token_literals (lit ml : Nat) : (tokenByte lit ml).toNat >>> 4 = min lit 15 := by
  rw [toNat_tokenByte]
  omega

theorem token_match (lit ml : Nat) : (tokenByte lit ml).toNat &&& 0x0f = min ml 15 := by
  rw [toNat_tokenByte, show 0x0f = 2 ^ 4 - 1 from rfl, Nat.and_two_pow_sub_one_eq_mod]
  omega

/-! ## 2. The decoder reads it -/

section Decoder

variable {data u r out out' : List UInt8}

variable {len fuel off n ml : Nat} {last : List UInt8}

theorem extTurn_at {b : UInt8} (hdata : data = u ++ b :: r) :
    extTurn data (len, u.length) =
      ok (if b.toNat ≠ 255 then .inr (len + b.toNat, u.length + 1)
        else .inl (len + b.toNat, u.length + 1)) := by
  have hget : data[u.length]? = some b := by rw [hdata]; simp
  have hlt : ¬ u.length ≥ data.length := by rw [hdata]; simp
  unfold extTurn
  rw [failIf_neg hlt, index_eq hget]
  rfl

theorem extTurns_at (ll : Nat) (hdata : data = u ++ (extension ll ++ r))
    (hfuel : (extension ll).length ≤ fuel) :
    loop (extTurn data) fuel (len, u.length) =
      ok (len + ll, u.length + (extension ll).length) := by
  fun_induction extension ll generalizing u len fuel with
  | case1 ll hge ih =>
    rw [length_cons] at hfuel
    obtain ⟨fuel, rfl⟩ : ∃ k, fuel = k + 1 := ⟨fuel - 1, by omega⟩
    have hturn : extTurn data (len, u.length) = ok (.inl (len + 255, u.length + 1)) := by
      rw [extTurn_at hdata, show (255 : UInt8).toNat = 255 from rfl, if_neg (by simp)]
    have hrest : data = (u ++ [255]) ++ (extension (ll - 255) ++ r) := by
      rw [hdata]
      simp
    have hnext : loop (extTurn data) fuel (len + 255, (u ++ [255]).length) =
        ok (len + 255 + (ll - 255), (u ++ [255]).length + (extension (ll - 255)).length) :=
      ih hrest (by omega)
    rw [length_append, length_singleton] at hnext
    have hsum : len + 255 + (ll - 255) = len + ll := by omega
    rw [loop_next hturn, hnext, length_cons, hsum, add_assoc u.length 1, add_comm 1]
  | case2 ll hlt =>
    rw [length_singleton] at hfuel
    obtain ⟨fuel, rfl⟩ : ∃ k, fuel = k + 1 := ⟨fuel - 1, by omega⟩
    have hbyte : (UInt8.ofNat ll).toNat = ll := by
      rw [UInt8.toNat_ofNat']
      omega
    have hturn : extTurn data (len, u.length) = ok (.inr (len + ll, u.length + 1)) := by
      rw [extTurn_at hdata, hbyte, if_pos (by omega)]
    rw [loop_done hturn, length_singleton]

theorem extLen_at (len : Nat) (hdata : data = u ++ (lengthBytes len ++ r)) :
    extLen data (min len 15) u.length = ok (len, u.length + (lengthBytes len).length) := by
  unfold extLen
  by_cases hlen : 15 ≤ len
  · have hbytes : lengthBytes len = extension (len - 15) := if_pos hlen
    rw [hbytes] at hdata ⊢
    have hfuel : (extension (len - 15)).length ≤ data.length + 1 := by
      rw [hdata]
      simp only [length_append]
      omega
    rw [min_eq_right hlen, if_neg (by decide), extTurns_at (len - 15) hdata hfuel]
    congr 2
    omega
  · have hbytes : lengthBytes len = [] := if_neg hlen
    rw [hbytes, if_pos (by omega), min_eq_left (by omega)]
    rfl

/-- **Byte by byte, the copy comes out as the format has it.** -/
theorem copyMatch_extends (h : Extends off n out out') (hpos : 1 ≤ off) (hoff : off ≤ out.length) :
    (copyMatch out (out.length - off) n : Outcome DecodeError _) = ok out' := by
  have hall : ∀ k ≤ n, (copyMatch out (out.length - off) k : Outcome DecodeError _) =
      ok (out'.take (out.length + k)) := by
    intro k hk
    unfold copyMatch
    induction k with
    | zero =>
      rw [add_zero, h.start]
      rfl
    | succ k ih =>
      obtain ⟨a, hget, hnext⟩ := h.take_succ hpos hoff (Nat.lt_of_succ_le hk)
      rw [range_succ, foldlM_append, ih (by omega), ok_bind, foldlM_cons,
        index_eq hget, ok_bind, pure_eq, hnext]
      rfl
  rw [hall n le_rfl, ← h.length, take_length]

theorem littleEndian_two (n : Nat) :
    Binary.littleEndian 2 n = [UInt8.ofNat n, UInt8.ofNat (n / 256)] := by
  simp [Binary.littleEndian, Binary.bigEndian]

theorem two_bytes (h : n < 65536) :
    (UInt8.ofNat n).toNat ||| (UInt8.ofNat (n / 256)).toNat <<< 8 = n := by
  rw [Nat.or_comm, ← Nat.shiftLeft_add_eq_or_of_lt (UInt8.toNat_lt _),
    UInt8.toNat_ofNat', UInt8.toNat_ofNat']
  omega

theorem decodeMatch_at {token : Nat}
    (hdata : data = u ++ (Binary.littleEndian 2 off ++ (lengthBytes ml ++ r)))
    (htoken : token &&& 0x0f = min ml 15) (hpos : 1 ≤ off) (hwide : off < 65536)
    (hoff : off ≤ out.length) (h : Extends off (ml + lz4MinMatch) out out') :
    decodeMatch data token u.length out = ok (u.length + 2 + (lengthBytes ml).length, out') := by
  rw [littleEndian_two] at hdata
  have hlo : data[u.length]? = some (UInt8.ofNat off) := by rw [hdata]; simp
  have hhi : data[u.length + 1]? = some (UInt8.ofNat (off / 256)) := by rw [hdata]; simp
  have hlt : ¬ u.length + 2 > data.length := by rw [hdata]; simp
  have hrest : data = (u ++ [UInt8.ofNat off, UInt8.ofNat (off / 256)]) ++ (lengthBytes ml ++ r) := by
    rw [hdata]
    simp
  have hlen := extLen_at ml hrest
  rw [length_append, length_cons, length_singleton] at hlen
  unfold decodeMatch
  rw [failIf_neg hlt, ok_bind, index_eq hlo, ok_bind, index_eq hhi, ok_bind, two_bytes hwide]
  dsimp only
  rw [failIf_neg (by omega), htoken, hlen, ok_bind]
  rw [failIf_neg (by omega), ok_bind, copyMatch_extends h hpos hoff]
  rfl

theorem decompressTurn_literals {lits : List UInt8}
    (hdata : data = u ++ (tokenByte lits.length ml :: (lengthBytes lits.length ++ (lits ++ r)))) :
    decompressTurn data (u.length, out) =
      if r = [] then ok (.inr (out ++ lits))
      else decodeMatch data (tokenByte lits.length ml).toNat
        (u ++ tokenByte lits.length ml :: (lengthBytes lits.length ++ lits)).length (out ++ lits)
          >>= fun next => ok (.inl next) := by
  have hget : data[u.length]? = some (tokenByte lits.length ml) := by rw [hdata]; simp
  have hlt : u.length < data.length := by rw [hdata]; simp
  have hbehind : data = (u ++ [tokenByte lits.length ml]) ++
      (lengthBytes lits.length ++ (lits ++ r)) := by
    rw [hdata]
    simp
  have hlen := extLen_at lits.length hbehind
  rw [length_append, length_singleton] at hlen
  have hsize : data.length =
      u.length + 1 + (lengthBytes lits.length).length + lits.length + r.length := by
    rw [hdata]
    simp only [length_append, length_cons]
    omega
  have hlits : (slice data (u.length + 1 + (lengthBytes lits.length).length)
      (u.length + 1 + (lengthBytes lits.length).length + lits.length) : Outcome DecodeError _) =
        ok lits := by
    rw [slice_eq (by omega) (by omega)]
    have hskip : data = (u ++ [tokenByte lits.length ml] ++ lengthBytes lits.length) ++
        (lits ++ r) := by
      rw [hbehind]
      simp only [append_assoc]
    rw [hskip, drop_left' (by simp; omega), Nat.add_sub_cancel_left, take_left]
  unfold decompressTurn
  rw [if_pos hlt, index_eq hget, ok_bind, token_literals, hlen, ok_bind]
  dsimp only
  rw [failIf_neg (by omega), ok_bind, hlits, ok_bind]
  by_cases hr : r = []
  · rw [if_pos hr, if_pos (by rw [hsize, hr]; simp)]
    rfl
  · have hpos := length_pos_iff.mpr hr
    have hsrc : (u ++ tokenByte lits.length ml :: (lengthBytes lits.length ++ lits)).length =
        u.length + 1 + (lengthBytes lits.length).length + lits.length := by
      simp only [length_append, length_cons]
      omega
    rw [if_neg hr, if_neg (by omega), hsrc]
    rfl

theorem decompressTurn_sequence {s : Sequence} (hdata : data = u ++ (sequenceBytes s ++ r))
    (h : s.Applies out out') :
    decompressTurn data (u.length, out) =
      ok (.inl (u.length + (sequenceBytes s).length, out')) := by
  obtain ⟨lits, off, matchLen⟩ := s
  obtain ⟨hmin, hpos, hwide, hoff, hcopy⟩ := h
  dsimp only at hmin hpos hwide hoff hcopy
  obtain ⟨ml, rfl⟩ : ∃ ml, matchLen = ml + lz4MinMatch := ⟨matchLen - lz4MinMatch, by omega⟩
  simp only [sequenceBytes, Nat.add_sub_cancel] at hdata ⊢
  have hfirst : data = u ++ (tokenByte lits.length ml :: (lengthBytes lits.length ++ (lits ++
      (Binary.littleEndian 2 off ++ (lengthBytes ml ++ r))))) := by
    rw [hdata]
    simp only [append_assoc, cons_append]
  have hsecond : data = (u ++ tokenByte lits.length ml :: (lengthBytes lits.length ++ lits)) ++
      (Binary.littleEndian 2 off ++ (lengthBytes ml ++ r)) := by
    rw [hfirst]
    simp only [append_assoc, cons_append]
  have hne : Binary.littleEndian 2 off ++ (lengthBytes ml ++ r) ≠ [] := by
    rw [littleEndian_two]
    simp
  rw [decompressTurn_literals hfirst, if_neg hne,
    decodeMatch_at hsecond (token_match _ _) hpos hwide hoff hcopy, ok_bind]
  congr 3
  simp only [length_append, length_cons, Binary.length_littleEndian]
  omega

theorem decompressTurn_last (hdata : data = u ++ lastBytes last) :
    decompressTurn data (u.length, out) = ok (.inr (out ++ last)) := by
  have hfirst : data = u ++ (tokenByte last.length 0 :: (lengthBytes last.length ++ (last ++ []))) := by
    rw [hdata, append_nil, lastBytes]
  rw [decompressTurn_literals hfirst, if_pos rfl]

theorem decompressTurns (h : Decodes seqs out out')
    (hdata : data = u ++ blockBytes seqs last) (hfuel : seqs.length < fuel) :
    loop (decompressTurn data) fuel (u.length, out) = ok (out' ++ last) := by
  induction h generalizing u fuel with
  | nil out =>
    obtain ⟨fuel, rfl⟩ : ∃ k, fuel = k + 1 := ⟨fuel - 1, by omega⟩
    exact loop_done (decompressTurn_last hdata)
  | @cons s rest out mid out' hs _ ih =>
    obtain ⟨fuel, rfl⟩ : ∃ k, fuel = k + 1 := ⟨fuel - 1, by omega⟩
    have hturn : data = u ++ (sequenceBytes s ++ blockBytes rest last) := by
      rw [hdata, blockBytes, flatMap_cons, append_assoc]
      rfl
    have hnext : data = (u ++ sequenceBytes s) ++ blockBytes rest last := by
      rw [hturn, append_assoc]
    have hrest := ih hnext (Nat.lt_of_succ_lt_succ hfuel)
    rw [length_append] at hrest
    rw [loop_next (decompressTurn_sequence hturn hs), hrest]

end Decoder

theorem length_le_flatMap_sequenceBytes (seqs : List Sequence) :
    seqs.length ≤ (seqs.flatMap sequenceBytes).length := by
  induction seqs with
  | nil => exact le_rfl
  | cons s rest ih =>
    rw [flatMap_cons, length_append, length_cons, sequenceBytes, length_cons]
    omega

/-- **The decoder reads every well-formed block.** -/
theorem lz4DecompressBlock_blockBytes {last content : List UInt8} (h : Decodes seqs [] content) :
    lz4DecompressBlock (blockBytes seqs last) = ok (content ++ last) := by
  have hcount := length_le_flatMap_sequenceBytes seqs
  refine decompressTurns (u := []) h rfl ?_
  rw [blockBytes, length_append]
  omega

/-! ## 3. The compressor writes it -/

section Compressor

variable {ε : Type} {data : List UInt8}

theorem litToken_eq (ll : Nat) :
    (if 15 ≤ ll then (0xf0 : UInt8) else UInt8.ofNat ll <<< 4) = UInt8.ofNat (min ll 15) <<< 4 := by
  split
  · rw [min_eq_right (by assumption)]
    rfl
  · rw [min_eq_left (by omega)]

theorem matchToken_eq (ml : Nat) :
    (if 15 ≤ ml then (0x0f : UInt8) else UInt8.ofNat ml) = UInt8.ofNat (min ml 15) := by
  split
  · rw [min_eq_right (by assumption)]
    rfl
  · rw [min_eq_left (by omega)]

theorem emitSequence_match {litFrom litTo off matchLen : Nat} (hle : litFrom ≤ litTo)
    (hto : litTo ≤ data.length) (hmin : lz4MinMatch ≤ matchLen) :
    (emitSequence data litFrom litTo off matchLen : Outcome ε _) =
      ok (sequenceBytes ⟨(data.drop litFrom).take (litTo - litFrom), off, matchLen⟩) := by
  have hlen : ((data.drop litFrom).take (litTo - litFrom)).length = litTo - litFrom := by
    rw [length_take, length_drop]
    omega
  have hoff : off >>> 8 = off / 256 := Nat.shiftRight_eq_div_pow off 8
  unfold emitSequence
  rw [slice_eq hle hto, ok_bind, litToken_eq, matchToken_eq, if_neg (not_lt.mpr hmin),
    if_pos hmin, token_or (by omega) (by omega), hoff, sequenceBytes, hlen, littleEndian_two]
  rfl

theorem emitSequence_last {litFrom : Nat} (hle : litFrom ≤ data.length) :
    (emitSequence data litFrom data.length 0 0 : Outcome ε _) =
      ok (lastBytes (data.drop litFrom)) := by
  have htake : (data.drop litFrom).take (data.length - litFrom) = data.drop litFrom := by
    rw [← length_drop, take_length]
  have hzero : 0 = UInt8.ofNat 0 := rfl
  have hmin : 0 < lz4MinMatch := by decide
  unfold emitSequence
  dsimp only
  rw [slice_eq hle le_rfl, ok_bind, htake, if_pos hmin, if_neg (not_le.mpr hmin), litToken_eq,
    hzero, token_or (by omega) (by omega), append_nil, lastBytes, length_drop]
  rfl

theorem extendMatch_returns {ref i : Nat} (href : ref < i)
    (hroom : i + lz4MinMatch + 5 ≤ data.length)
    (hsame : ∀ k < lz4MinMatch, data[ref + k]? = data[i + k]?) :
    Returns (fun m => lz4MinMatch ≤ m ∧ i + m + 5 ≤ data.length ∧
        ∀ k < m, data[ref + k]? = data[i + k]?)
      (loop (extendMatch data ref i) (data.length + 1) lz4MinMatch : Outcome ε Nat) := by
  refine Sat.loop (I := fun m => lz4MinMatch ≤ m ∧ i + m + 5 ≤ data.length ∧
    ∀ k < m, data[ref + k]? = data[i + k]?) (fun m => data.length - m) ?_ ⟨le_rfl, hroom, hsame⟩
    (by omega)
  rintro m ⟨hmin, hend, hm⟩
  unfold extendMatch
  split
  · refine Sat.bind (sat_index (by omega)) fun a ha => ?_
    refine Sat.bind (sat_index (by omega)) fun b hb => ?_
    by_cases hab : a = b
    · rw [if_pos hab]
      refine sat_pure ⟨⟨by omega, by omega, fun k hk => ?_⟩, by omega⟩
      rcases Nat.lt_succ_iff_lt_or_eq.mp hk with hlt | rfl
      · exact hm k hlt
      · rw [ha, hb, hab]
    · rw [if_neg hab]
      exact sat_pure ⟨hmin, hend, hm⟩
  · exact sat_pure ⟨hmin, hend, hm⟩

theorem matchesAt_returns {ref : Int} {i u : Nat} (hroom : i + 4 ≤ data.length) :
    Returns (fun found => found = true → 0 ≤ ref ∧ ref < i ∧ i - ref ≤ 65535 ∧
        Binary.littleNumber ((data.drop ref.toNat).take 4) = u)
      (matchesAt data ref i u : Outcome ε Bool) := by
  unfold matchesAt
  split
  · exact sat_pure fun h => by cases h
  · refine Sat.bind (sat_uintAt (by omega)) fun v hv => sat_pure ?_
    intro heq
    have hvu : v = u := of_decide_eq_true heq
    exact ⟨by omega, by omega, by omega, by rw [← hv.1, hvu]⟩

theorem same_four {i j : Nat} (hi : i + 4 ≤ data.length) (hj : j + 4 ≤ data.length)
    (h : Binary.littleNumber ((data.drop i).take 4) = Binary.littleNumber ((data.drop j).take 4)) :
    ∀ k < 4, data[i + k]? = data[j + k]? := by
  intro k hk
  have hlen : ((data.drop i).take 4).length = ((data.drop j).take 4).length := by
    simp only [length_take, length_drop]
    omega
  have heq := congrArg (fun part => part[k]?) (Binary.eq_of_littleNumber_eq hlen h)
  simpa only [getElem?_take_of_lt hk, getElem?_drop] using heq

theorem lz4Hash_lt (u : UInt32) : (lz4Hash u).toNat < 1 <<< lz4HashLog := by
  have hlt := (u * lz4HashMul).toNat_lt
  rw [lz4Hash, UInt32.toNat_shiftRight, Nat.shiftRight_eq_div_pow]
  show _ / 2 ^ 16 < 65536
  omega

/-- What the loop over the input keeps: all of it up to the anchor is written. -/
structure Compressor.Written (data : List UInt8) (s : Compressor) : Prop where
  table : s.table.length = 1 <<< lz4HashLog
  anchor : s.anchor ≤ s.i
  inside : s.i ≤ data.length
  written : ∃ seqs, Decodes seqs [] (data.take s.anchor) ∧ s.out = seqs.flatMap sequenceBytes

theorem applies_of_match {anchor ref i m : Nat} (hanchor : anchor ≤ i) (href : ref < i)
    (hfar : i - ref < 65536) (hmin : lz4MinMatch ≤ m) (hend : i + m ≤ data.length)
    (hsame : ∀ k < m, data[ref + k]? = data[i + k]?) :
    Sequence.Applies ⟨(data.drop anchor).take (i - anchor), i - ref, m⟩ (data.take anchor)
      (data.take (i + m)) := by
  have hlits : data.take anchor ++ (data.drop anchor).take (i - anchor) = data.take i := by
    rw [← take_add, Nat.add_sub_cancel' hanchor]
  refine ⟨hmin, by dsimp only; omega, hfar, ?_, ?_⟩
  · rw [hlits, length_take]
    dsimp only
    omega
  · rw [hlits]
    exact extends_of_repeat hend href hsame

theorem compressTurn_returns (s : Compressor) (h : s.Written data) :
    Returns (Sum.elim (fun t => t.Written data ∧ data.length - t.i < data.length - s.i)
      (Compressor.Written data)) (compressTurn data s : Outcome ε (Compressor ⊕ Compressor)) := by
  have hlim : lz4MinMatch = 4 ∧ lz4MFLimit = 12 := ⟨rfl, rfl⟩
  unfold compressTurn
  split
  · rename_i hroom
    have hslot := lz4Hash_lt
    rw [← h.table] at hslot
    refine Sat.bind (sat_uintAt (by omega)) fun u hu => ?_
    refine Sat.bind (sat_index (hslot _)) fun ref _ => ?_
    rw [store_eq (hslot _), ok_bind]
    refine Sat.bind (matchesAt_returns (by omega)) fun found hfound => ?_
    cases found with
    | false =>
      refine sat_pure ⟨⟨?_, ?_, ?_, h.written⟩, ?_⟩
      · rw [length_set, h.table]
      · exact Nat.le_succ_of_le h.anchor
      · dsimp only
        omega
      · dsimp only
        omega
    | true =>
      obtain ⟨hpos, hlt, hfar, hnum⟩ := hfound rfl
      have hsame := same_four (by omega) (by omega) (hnum.trans hu.1)
      refine Sat.bind (extendMatch_returns (by omega) (by omega) hsame) fun m hm => ?_
      obtain ⟨hmin, hend, hall⟩ := hm
      obtain ⟨seqs, hdec, hout⟩ := h.written
      have happ := applies_of_match h.anchor (by omega) (by omega) hmin (by omega) hall
      rw [emitSequence_match h.anchor h.inside hmin]
      refine sat_pure ⟨⟨?_, le_rfl, ?_, _, hdec.snoc happ, ?_⟩, ?_⟩
      · rw [length_set, h.table]
      · dsimp only
        omega
      · rw [flatMap_append, flatMap_singleton, hout]
      · dsimp only
        omega
  · exact sat_pure h

/-- **The compressor writes a well-formed block, and it stands for the input.** -/
theorem lz4CompressBlock_returns (hne : data ≠ []) :
    Returns (fun block => ∃ seqs content last, Decodes seqs [] content ∧ content ++ last = data ∧
      block = blockBytes seqs last) (lz4CompressBlock data : Outcome ε (List UInt8)) := by
  have hpos := length_pos_iff.mpr hne
  have hstart : Compressor.Written data ⟨List.replicate (1 <<< lz4HashLog) (-1), 0, 0, []⟩ :=
    ⟨length_replicate, le_rfl, Nat.zero_le _, [], .nil [], rfl⟩
  unfold lz4CompressBlock
  rw [if_neg (by omega)]
  refine Sat.bind (Sat.loop (fun s => data.length - s.i) compressTurn_returns hstart ?_)
    fun s hs => ?_
  · omega
  · obtain ⟨seqs, hdec, hout⟩ := hs.written
    have hanchor := hs.anchor
    have hinside := hs.inside
    rw [emitSequence_last (by omega)]
    refine sat_pure ⟨seqs, data.take s.anchor, data.drop s.anchor, hdec, take_append_drop _ _, ?_⟩
    rw [hout]
    rfl

end Compressor

end RocketMQ.Compress
