/-
  File:      RocketMQ/Remoting/Frame.lean
  Subject:   Which frames a peer can kill the decoder with.

  Every byte of a frame comes from outside. The readers of fixed fields return an error where the
  bytes end; the length of the header has 24 bits; the extension fields are read up to a length
  that was checked. What is left are one subtraction and the strings of a JSON header.

  * `decode_of_parts`, `decode_cases`: a frame cut into its parts;
  * `decode_eq_panic_iff`: **what kills the decoder**: a JSON header that is cut inside a surrogate
    pair and, in a build that checks for overflow, a frame of about 2^31 bytes.
-/
import RocketMQ.Remoting.Command
import RocketMQ.Remoting.Spelling

namespace RocketMQ

open List Binary

/-! ## 1. The header word -/

theorem toNat_headerLengthOf (x : Int32) :
    (headerLengthOf x).toBitVec.toNat = x.toBitVec.toNat % 2 ^ 24 := by
  exact Nat.and_two_pow_sub_one_eq_mod _ 24

theorem and_sshiftRight (x : BitVec 32) : x.sshiftRight 24 &&& 255#32 = x >>> 24 := by
  apply BitVec.eq_of_getLsbD_eq
  intro i hi
  have hmask : (255#32).getLsbD i = decide (i < 8) := by
    revert i
    decide
  rw [BitVec.getLsbD_and, hmask, BitVec.getLsbD_sshiftRight, BitVec.getLsbD_ushiftRight]
  by_cases h8 : i < 8
  · simp [h8, show 24 + i < 32 by omega, show ¬ 32 ≤ i by omega]
  · rw [BitVec.getLsbD_of_ge x (24 + i) (by omega)]
    simp [h8]

theorem toNat_protocolTypeOf (x : Int32) :
    (protocolTypeOf x).toBitVec.toNat = x.toBitVec.toNat / 2 ^ 24 := by
  have hbits : (protocolTypeOf x).toBitVec = x.toBitVec >>> 24 := by
    rw [← and_sshiftRight]
    rfl
  rw [hbits, BitVec.toNat_ushiftRight, Nat.shiftRight_eq_div_pow]

/-- **The word of the header**: eight bits of encoding, 24 bits of length. -/
theorem toNat_markProtocolType (n : Nat) (st : Int32) :
    (markProtocolType (Int32.ofNat n) st).toBitVec.toNat
      = st.toBitVec.toNat % 256 * 2 ^ 24 + n % 2 ^ 24 := by
  have hlow : (st.toBitVec &&& 255#32).toNat = st.toBitVec.toNat % 256 := by
    exact Nat.and_two_pow_sub_one_eq_mod _ 8
  have hlen : (BitVec.ofNat 32 n &&& 16777215#32).toNat = n % 2 ^ 24 := by
    rw [BitVec.toNat_and, BitVec.toNat_ofNat, show (16777215#32).toNat = 2 ^ 24 - 1 from rfl,
      Nat.and_two_pow_sub_one_eq_mod, Nat.mod_mod_of_dvd _ (by decide)]
  have hbits : (markProtocolType (Int32.ofNat n) st).toBitVec
      = (st.toBitVec &&& 255#32) <<< 24 ||| (BitVec.ofNat 32 n &&& 16777215#32) := by
    rfl
  have hsmall : (st.toBitVec.toNat % 256) <<< 24 < 2 ^ 32 := by
    omega
  rw [hbits, BitVec.toNat_or, BitVec.toNat_shiftLeft, hlow, hlen, Nat.mod_eq_of_lt hsmall,
    ← Nat.shiftLeft_add_eq_or_of_lt (Nat.mod_lt _ (by decide)), Nat.shiftLeft_eq]

/-! ## 2. The binary header returns -/

section

variable (lib : StdLib) {data : List UInt8} {n stop pos : Nat} {map : ExtFields}

variable {lib} in
theorem mapLoop_stop (h : stop ≤ pos) : mapLoop lib (n + 1) stop map data pos = .ok (map, pos) := by
  rw [mapLoop, Read.bind_eq]
  show (if pos < stop then _ else Pure.pure map : Read Fault ExtFields) data pos = _
  rw [if_neg (by omega)]
  rfl

variable {lib} in
theorem mapLoop_step (h : pos < stop) :
    mapLoop lib (n + 1) stop map data pos = (mapEntry lib map >>= mapLoop lib n stop) data pos := by
  rw [mapLoop, Read.bind_eq]
  show (if pos < stop then _ else Pure.pure map : Read Fault ExtFields) data pos = _
  rw [if_pos h]

theorem returns_mapEntry (map : ExtFields) : Returns (mapEntry lib map) :=
  (returns_string lib true).bind fun _ => (returns_string lib false).bind fun _ => .pure _

theorem advances_mapEntry (map : ExtFields) : Read.Advances 4 (mapEntry lib map) :=
  (advances_string lib true).bind fun _ =>
    (advances_string lib false).bind fun _ => .pure _

theorem mapLoop_returns {e : Fault}
    (hn : stop - pos < n) (h : mapLoop lib n stop map data pos = .error e) :
    ∃ err, e = .err err := by
  induction n generalizing pos map with
  | zero => exact absurd hn (Nat.not_lt_zero _)
  | succ n ih =>
    by_cases hpos : pos < stop
    · rw [mapLoop_step hpos, Read.bind_eq] at h
      cases hentry : mapEntry lib map data pos with
      | error e' =>
        rw [hentry] at h
        cases h
        exact returns_mapEntry lib map data pos e hentry
      | ok x =>
        rw [hentry] at h
        have hnext := advances_mapEntry lib map data pos x.1 x.2 hentry
        exact ih (by omega) h
    · rw [mapLoop_stop (by omega)] at h
      cases h

theorem returns_mapDeserialize (length : Nat) : Returns (mapDeserialize lib length) := by
  intro data pos e h
  unfold mapDeserialize at h
  simp only [Read.bind_eq, Read.position, Read.size] at h
  split at h
  · cases h
    exact ⟨_, rfl⟩
  · exact mapLoop_returns lib (by omega) h

theorem returns_headerFields (length : Int32) : Returns (headerFields lib length) := by
  unfold headerFields
  split
  · exact returns_mapDeserialize lib _
  · exact .pure _

theorem returns_rocketMqProtocolDecode : Returns (rocketMqProtocolDecode lib) := by
  refine returns_i16.bind fun code => returns_u8.bind fun language => returns_i16.bind fun version =>
    returns_i32.bind fun requestId => returns_i32.bind fun flag =>
    (returns_string lib false).bind fun remark => returns_i32.bind fun length =>
    (returns_headerFields lib length).bind fun ext => .pure _

end

/-! ## 3. What kills the decoder -/

section

variable {lib : StdLib} {checked : Bool}

variable {header w data : List UInt8} {stype : Int32} {body : Option (List UInt8)}

theorem jsonDecode_eq_panic_iff :
    jsonDecode lib header = .error .panic ↔
      ∃ cs, header = Utf8.encode cs ∧ FastJson.CutValue lib (FastJson.dropWs cs) := by
  unfold jsonDecode
  by_cases hnil : header = []
  · rw [if_pos hnil]
    refine ⟨(fun h => nomatch h), fun h => ?_⟩
    obtain ⟨cs, hcs, hcut⟩ := h
    rw [hnil] at hcs
    cases Utf8.encode_injective (a := []) hcs
    cases hcut
  · rw [if_neg hnil]
    cases hdecode : Utf8.decode header with
    | some cs =>
      have hheader := Utf8.decode_eq_some.mp hdecode
      rw [FastJson.fromStr_eq_panic_iff]
      constructor
      · exact fun hcut => ⟨cs, hheader, hcut⟩
      · intro h
        obtain ⟨cs', hcs', hcut⟩ := h
        cases Utf8.encode_injective (hheader.symm.trans hcs')
        exact hcut
    | none =>
      refine ⟨(fun h => nomatch h), fun h => ?_⟩
      obtain ⟨cs, hcs, _⟩ := h
      cases (Utf8.decode_eq_some.mpr hcs).symm.trans hdecode

theorem jsonDecode_ne_fuel : jsonDecode lib header ≠ .error .fuel := by
  unfold jsonDecode
  split
  · exact fun h => nomatch h
  · split
    · exact FastJson.fromStr_ne_fuel
    · exact fun h => nomatch h

theorem headerDecode_eq_panic_iff :
    headerDecode lib stype header body = .error .panic ↔ stype ≠ serializeRocketMq ∧
      ∃ cs, header = Utf8.encode cs ∧ FastJson.CutValue lib (FastJson.dropWs cs) := by
  unfold headerDecode
  by_cases hst : stype = serializeRocketMq
  · rw [if_pos hst]
    refine ⟨fun h => ?_, fun h => absurd hst h.1⟩
    cases hres : rocketMqProtocolDecode lib header 0 with
    | ok x =>
      rw [hres] at h
      cases h
    | error e =>
      rw [hres] at h
      cases h
      obtain ⟨err, herr⟩ := returns_rocketMqProtocolDecode lib header 0 _ hres
      cases herr
  · rw [if_neg hst, ← jsonDecode_eq_panic_iff, and_iff_right hst]
    cases jsonDecode lib header with
    | ok v => exact ⟨(fun h => nomatch h), fun h => nomatch h⟩
    | error e => exact ⟨fun h => by cases h; rfl, fun h => by cases h; rfl⟩

theorem headerDecode_ne_fuel : headerDecode lib stype header body ≠ .error .fuel := by
  intro h
  unfold headerDecode at h
  split at h
  · cases hres : rocketMqProtocolDecode lib header 0 with
    | ok x =>
      rw [hres] at h
      cases h
    | error e =>
      rw [hres] at h
      cases h
      obtain ⟨err, herr⟩ := returns_rocketMqProtocolDecode lib header 0 _ hres
      cases herr
  · cases hres : jsonDecode lib header with
    | ok v =>
      rw [hres] at h
      cases h
    | error e =>
      rw [hres] at h
      cases h
      exact jsonDecode_ne_fuel hres

/-- The length of the frame, as an `i32`, is less than 4 above the least one. -/
def Overflows (checked : Bool) (n : Nat) : Prop :=
  checked = true ∧ 2 ^ 31 ≤ n % 2 ^ 32 ∧ n % 2 ^ 32 < 2 ^ 31 + 4

instance (checked : Bool) (n : Nat) : Decidable (Overflows checked n) := by
  unfold Overflows
  infer_instance

theorem toInt_ofNat (n : Nat) : (Int32.ofNat n).toInt = if n % 2 ^ 32 < 2 ^ 31 then
    ((n % 2 ^ 32 : Nat) : Int) else ((n % 2 ^ 32 : Nat) : Int) - 2 ^ 32 := by
  rw [← Int32.toInt_toBitVec, Int32.toBitVec_ofNat', BitVec.toInt_eq_toNat_cond, BitVec.toNat_ofNat]
  by_cases h : n % 2 ^ 32 < 2 ^ 31
  · rw [if_pos h, if_pos (by omega)]
  · rw [if_neg h, if_neg (by omega)]
    rfl

theorem subI32_four (n : Nat) : subI32 checked (Int32.ofNat n) 4
    = if Overflows checked n then .error .panic else .ok (Int32.ofNat n - 4) := by
  have hfour : (4 : Int32).toInt = 4 := by decide
  have hiff : (checked = true ∧ ((Int32.ofNat n).toInt - (4 : Int32).toInt < -2147483648 ∨
      2147483647 < (Int32.ofNat n).toInt - (4 : Int32).toInt)) ↔ Overflows checked n := by
    rw [toInt_ofNat]
    refine and_congr_right fun _ => ?_
    split <;> omega
  unfold subI32
  by_cases hover : Overflows checked n
  · rw [if_pos hover, if_pos (hiff.mpr hover)]
  · rw [if_neg hover, if_neg (mt hiff.mp hover)]

theorem i32_run (data : List UInt8) (pos : Nat) : Reader.i32 data pos
    = if pos + 4 ≤ data.length then .ok (Int32.ofNat (number ((data.drop pos).take 4)), pos + 4)
      else .error (Reader.underflow (pos + 4) data.length) := by
  rw [Reader.i32, Read.bind_eq, Reader.bytes, Read.take]
  by_cases h : pos + 4 ≤ data.length
  · rw [if_pos h, if_pos h]
    rfl
  · rw [if_neg h, if_neg h]

/-- A frame cut into its parts. -/
structure Parts (data t w header rest : List UInt8) : Prop where
  eq : data = t ++ (w ++ (header ++ rest))
  total : t.length = 4
  word : w.length = 4
  /-- the length of the header is the one in the word -/
  length : header.length = number w % 2 ^ 24
  /-- the total length is not too large -/
  fits : Int32.ofNat (number t) ≤ Int32.ofNat data.length - 4
  /-- the length of the header is not too large -/
  headerFits : Int32.ofNat header.length ≤ Int32.ofNat (data.length - 8)

/-- The body of a frame. -/
def bodyOf (rest : List UInt8) : Option (List UInt8) := if rest = [] then none else some rest

theorem number_lt_word (h : w.length = 4) : number w < 2 ^ 32 := by
  have hlt := number_lt w
  rwa [h] at hlt

theorem headerLengthOf_number :
    headerLengthOf (Int32.ofNat (number w)) = Int32.ofNat (number w % 2 ^ 24) := by
  apply Int32.toBitVec_inj.mp
  apply BitVec.eq_of_toNat_eq
  rw [toNat_headerLengthOf, Int32.toBitVec_ofNat', Int32.toBitVec_ofNat', BitVec.toNat_ofNat,
    BitVec.toNat_ofNat]
  omega

/-- **A frame of these parts** is decoded as its header says. -/
theorem decode_of_parts {t rest : List UInt8} (h : Parts data t w header rest)
    (hover : ¬ Overflows checked data.length) :
    RemotingCommand.decode lib checked data
      = headerDecode lib (protocolTypeOf (Int32.ofNat (number w))) header (bodyOf rest) := by
  have hlen : data.length = 8 + header.length + rest.length := by
    rw [h.eq]
    simp only [length_append, h.total, h.word]
    omega
  have htake : (data.drop 0).take 4 = t := by
    rw [drop_zero, h.eq, ← h.total, take_left]
  have hdrop : data.drop 4 = w ++ (header ++ rest) := by
    rw [h.eq, ← h.total, drop_left]
  have hword : (data.drop 4).take 4 = w := by
    rw [hdrop, ← h.word, take_left]
  have hdrop8 : data.drop 8 = header ++ rest := by
    have hd : (data.drop 4).drop 4 = header ++ rest := by
      rw [hdrop, ← h.word, drop_left]
    rwa [drop_drop] at hd
  have hsmall : number w % 2 ^ 24 < 2 ^ 31 := by omega
  have hnat : (Int32.ofNat (number w % 2 ^ 24)).toInt.toNat = header.length := by
    rw [Int32.toInt_ofNat_of_lt hsmall, h.length]
    rfl
  have hrest : data.drop (8 + header.length) = rest := by
    rw [← drop_drop, hdrop8, drop_left]
  have hfits := h.headerFits
  rw [h.length] at hfits
  unfold RemotingCommand.decode
  rw [i32_run, if_pos (by omega), htake]
  dsimp only [bind, Except.bind]
  rw [subI32_four, if_neg hover]
  dsimp only
  rw [if_neg (Int32.not_lt.mpr h.fits), decodeHeader, i32_run, if_pos (by omega), hword]
  dsimp only [bind, Except.bind]
  rw [headerLengthOf_number, if_neg (Int32.not_lt.mpr hfits), hnat, Reader.bytes, Read.take,
    if_pos (by omega)]
  dsimp only
  rw [hdrop8, take_left, hrest]
  rfl

theorem le_of_ofNat_le {m n : Nat} (hm : m < 2 ^ 31) (h : Int32.ofNat m ≤ Int32.ofNat n) :
    m ≤ n := by
  rw [Int32.le_iff_toInt_le, Int32.toInt_ofNat_of_lt hm, toInt_ofNat] at h
  split at h <;> omega

theorem parts_of_lengths (h8 : 8 ≤ data.length)
    (hfits : Int32.ofNat (number ((data.drop 0).take 4)) ≤ Int32.ofNat data.length - 4)
    (hhead : headerLengthOf (Int32.ofNat (number ((data.drop 4).take 4)))
      ≤ Int32.ofNat (data.length - 8)) :
    Parts data (data.take 4) ((data.drop 4).take 4)
      ((data.drop 8).take (number ((data.drop 4).take 4) % 2 ^ 24))
      (data.drop (8 + number ((data.drop 4).take 4) % 2 ^ 24)) := by
  have hword : ((data.drop 4).take 4).length = 4 := by
    rw [length_take, length_drop]
    omega
  rw [headerLengthOf_number] at hhead
  have hle := le_of_ofNat_le (by omega) hhead
  have hlength : ((data.drop 8).take (number ((data.drop 4).take 4) % 2 ^ 24)).length
      = number ((data.drop 4).take 4) % 2 ^ 24 := by
    rw [length_take, length_drop, min_eq_left hle]
  refine ⟨?_, ?_, hword, hlength, hfits, ?_⟩
  · have h48 : data.drop 8 = (data.drop 4).drop 4 := by rw [drop_drop]
    rw [← drop_drop, take_append_drop, h48, take_append_drop,
      take_append_drop]
  · rw [length_take]
    omega
  · rw [hlength]
    exact hhead

theorem decode_cases (lib : StdLib) (checked : Bool) (data : List UInt8) :
    (∃ e, RemotingCommand.decode lib checked data = .error (.err e)) ∨
    (Overflows checked data.length ∧ RemotingCommand.decode lib checked data = .error .panic) ∨
    ¬ Overflows checked data.length ∧ ∃ t w header rest, Parts data t w header rest := by
  unfold RemotingCommand.decode
  rw [i32_run]
  by_cases h4 : 0 + 4 ≤ data.length
  · rw [if_pos h4]
    dsimp only [bind, Except.bind]
    rw [subI32_four]
    by_cases hover : Overflows checked data.length
    · rw [if_pos hover]
      exact .inr (.inl ⟨hover, rfl⟩)
    · rw [if_neg hover]
      dsimp only
      split
      · exact .inl ⟨_, rfl⟩
      · rename_i hfits
        rw [decodeHeader, i32_run]
        by_cases h8 : 0 + 4 + 4 ≤ data.length
        · rw [if_pos h8]
          dsimp only [bind, Except.bind]
          split
          · exact .inl ⟨_, rfl⟩
          · rename_i hhead
            exact .inr (.inr ⟨hover, _, _, _, _,
              parts_of_lengths h8 (Int32.not_lt.mp hfits) (Int32.not_lt.mp hhead)⟩)
        · rw [if_neg h8]
          exact .inl ⟨_, rfl⟩
  · rw [if_neg h4]
    exact .inl ⟨_, rfl⟩

/-- **A frame whose JSON header is cut inside a surrogate pair.** -/
def CutFrame (lib : StdLib) (data : List UInt8) : Prop :=
  ∃ t w cs rest, Parts data t w (Utf8.encode cs) rest ∧ number w / 2 ^ 24 ≠ 1 ∧
    FastJson.CutValue lib (FastJson.dropWs cs)

theorem protocolTypeOf_eq_iff (h : w.length = 4) :
    protocolTypeOf (Int32.ofNat (number w)) = serializeRocketMq ↔ number w / 2 ^ 24 = 1 := by
  have hlt := number_lt_word h
  rw [← Int32.toBitVec_inj, ← BitVec.toNat_inj, toNat_protocolTypeOf, Int32.toBitVec_ofNat',
    BitVec.toNat_ofNat, Nat.mod_eq_of_lt hlt]
  exact Iff.rfl

theorem decode_of_overflows (h : Overflows checked data.length) :
    RemotingCommand.decode lib checked data = .error .panic := by
  have hlen : 4 ≤ data.length := by
    have hlow := h.2.1
    omega
  unfold RemotingCommand.decode
  rw [i32_run, if_pos (by omega)]
  dsimp only [bind, Except.bind]
  rw [subI32_four, if_pos h]

/-- **What kills the decoder.** -/
theorem decode_eq_panic_iff :
    RemotingCommand.decode lib checked data = .error .panic ↔
      Overflows checked data.length ∨ CutFrame lib data := by
  constructor
  · intro h
    rcases decode_cases lib checked data with ⟨e, herr⟩ | ⟨hover, _⟩ | ⟨hover, t, w, header, rest, hp⟩
    · cases herr.symm.trans h
    · exact .inl hover
    · rw [decode_of_parts hp hover] at h
      obtain ⟨hst, cs, rfl, hcut⟩ := headerDecode_eq_panic_iff.mp h
      exact .inr ⟨t, w, cs, rest, hp, mt (protocolTypeOf_eq_iff hp.word).mpr hst, hcut⟩
  · intro h
    by_cases hover : Overflows checked data.length
    · exact decode_of_overflows hover
    · obtain ⟨t, w, cs, rest, hp, hst, hcut⟩ := h.resolve_left hover
      rw [decode_of_parts hp hover]
      exact headerDecode_eq_panic_iff.mpr
        ⟨mt (protocolTypeOf_eq_iff hp.word).mp hst, cs, rfl, hcut⟩

theorem decode_ne_fuel : RemotingCommand.decode lib checked data ≠ .error .fuel := by
  intro h
  rcases decode_cases lib checked data with ⟨e, herr⟩ | ⟨_, hpanic⟩ | ⟨hover, t, w, header, rest, hp⟩
  · cases herr.symm.trans h
  · cases hpanic.symm.trans h
  · rw [decode_of_parts hp hover] at h
    exact headerDecode_ne_fuel h

end

/-- A value or an error comes back. -/
def ComesBack {α : Type} (res : Except Fault α) : Prop :=
  (∃ a, res = .ok a) ∨ ∃ e, res = .error (.err e)

theorem comesBack_iff {α : Type} {res : Except Fault α} (hfuel : res ≠ .error .fuel) :
    ComesBack res ↔ ¬ res = .error .panic := by
  constructor
  · intro h hpanic
    rcases h with ⟨a, ha⟩ | ⟨e, he⟩
    · cases ha.symm.trans hpanic
    · cases he.symm.trans hpanic
  · intro h
    cases hres : res with
    | ok a => exact .inl ⟨a, rfl⟩
    | error e =>
      cases e with
      | err e => exact .inr ⟨e, rfl⟩
      | panic => exact absurd hres h
      | fuel => exact absurd hres hfuel

/-- **Decoding returns**, from the parser and from the whole frame, exactly if no surrogate pair is
cut off and the length of the frame does not overflow. -/
theorem decoding_returns_iff (lib : StdLib) :
    (∀ cs, ComesBack (FastJson.fromStr lib (Utf8.encode cs)) ↔
      ¬ FastJson.CutValue lib (FastJson.dropWs cs)) ∧
    ∀ checked data, ComesBack (RemotingCommand.decode lib checked data) ↔
      ¬ Overflows checked data.length ∧ ¬ CutFrame lib data := by
  constructor
  · intro cs
    rw [comesBack_iff FastJson.fromStr_ne_fuel, FastJson.fromStr_eq_panic_iff]
  · intro checked data
    rw [comesBack_iff decode_ne_fuel, decode_eq_panic_iff, not_or]

/-- A frame with the header `"\ud83d\u12"`. -/
theorem cut_header_panics : RemotingCommand.decode Script.noFloats false
    [0, 0, 0, 16, 0, 0, 0, 12, 34, 92, 117, 100, 56, 51, 100, 92, 117, 49, 50, 34]
      = .error .panic := by
  decide +kernel

end RocketMQ
