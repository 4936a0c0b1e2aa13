/-
  File:      RocketMQ/Remoting/RoundTrip.lean
  Subject:   A frame is decoded as the command that was sent, in both encodings.

  * `reads_mapDeserialize`: the extension fields are read back from their bytes;
  * `reads_rocketMqHeader`: **the binary header is read back**, what it truncates included;
  * `ofJson_toJsonValue`: the JSON header says the same;
  * `frame_round_trip`: **the frame is decoded as the command that was sent**.
-/
import RocketMQ.Remoting.Frame

namespace RocketMQ

open List Binary Writer

variable {lib : StdLib}

/-! ## 1. Extension fields in bytes -/

/-- One pair of `map_serialize`. -/
def pairBytes (e : String × String) : List UInt8 :=
  string true (some e.1) ++ string false (some e.2)

/-- The lengths of the pair fit their fields. -/
def PairFits (e : String × String) : Prop :=
  (strBytes e.1).length ≤ maxLen true ∧ (strBytes e.2).length ≤ maxLen false

/-- The table that is read: pairs with an empty key or value are left out. -/
def readFields (entries : List (String × String)) (map : ExtFields) : ExtFields :=
  entries.foldl (fun map e => insertPair map (nonEmpty e.1) (nonEmpty e.2)) map

theorem reads_mapEntry {e : String × String} (map : ExtFields) (h : PairFits e) :
    Reads (mapEntry lib map) (pairBytes e) (insertPair map (nonEmpty e.1) (nonEmpty e.2)) :=
  (reads_string h.1).bind ((reads_string h.2).map (insertPair map (nonEmpty e.1)))

theorem length_string (shortLength : Bool) (s : String) :
    2 ≤ (string shortLength (some s)).length := by
  unfold string
  rw [length_append]
  cases shortLength with
  | true =>
    have h2 : (u16 (((some s).map strBytes).getD []).length).length = 2 :=
      length_bigEndian 2 _
    simp only [if_true]
    omega
  | false =>
    have h4 : (len32 (((some s).map strBytes).getD []).length).length = 4 :=
      length_bigEndian 4 _
    simp only [Bool.false_eq_true, if_false]
    omega

theorem length_pairBytes (e : String × String) : 0 < (pairBytes e).length := by
  have h := length_string true e.1
  rw [pairBytes, length_append]
  omega

variable {entries : List (String × String)} {c : RemotingCommand} {ext : ExtFields}

/-- **The loop reads the pairs** that stand before its end. -/
theorem mapLoop_reads (h : ∀ e ∈ entries, PairFits e) {n : Nat} (hn : entries.length < n)
    (map : ExtFields) (u r : List UInt8) :
    mapLoop lib n (u.length + (entries.flatMap pairBytes).length) map
        (u ++ (entries.flatMap pairBytes ++ r)) u.length
      = .ok (readFields entries map, u.length + (entries.flatMap pairBytes).length) := by
  induction entries generalizing n map u with
  | nil =>
    obtain ⟨n, rfl⟩ := Nat.exists_eq_succ_of_ne_zero (ne_of_gt hn)
    exact mapLoop_stop (le_rfl)
  | cons e es ih =>
    obtain ⟨n, rfl⟩ := Nat.exists_eq_succ_of_ne_zero (ne_of_gt (Nat.zero_lt_of_lt hn))
    have hpos := length_pairBytes e
    have hread : Reads (mapEntry lib map) (pairBytes e) _ :=
      reads_mapEntry map (h e mem_cons_self)
    have hentry := hread u (es.flatMap pairBytes ++ r)
    have hrest := ih (fun e' he' => h e' (mem_cons_of_mem _ he'))
      (Nat.lt_of_succ_lt_succ hn) (insertPair map (nonEmpty e.1) (nonEmpty e.2)) (u ++ pairBytes e)
    rw [flatMap_cons, length_append]
    rw [mapLoop_step (by omega), Read.bind_eq, append_assoc, hentry]
    rwa [length_append, append_assoc, add_assoc] at hrest

theorem length_le_flatMap (entries : List (String × String)) :
    entries.length ≤ (entries.flatMap pairBytes).length := by
  induction entries with
  | nil => exact le_rfl
  | cons e es ih =>
    have hpos := length_pairBytes e
    rw [flatMap_cons, length_append, length_cons]
    omega

theorem reads_mapDeserialize (h : ∀ e ∈ entries, PairFits e) :
    Reads (mapDeserialize lib (entries.flatMap pairBytes).length) (entries.flatMap pairBytes)
      (readFields entries ⟨[]⟩) := by
  intro u r
  have hloop : mapLoop lib ((entries.flatMap pairBytes).length + 1) _ _ _ _ = _ :=
    mapLoop_reads h (Nat.lt_succ_of_le (length_le_flatMap entries)) ⟨[]⟩ u r
  unfold mapDeserialize
  simp only [Read.bind_eq, Read.position, Read.size]
  rw [if_neg]
  · exact hloop
  · simp only [length_append]
    omega

theorem mapSerialize_eq (map : ExtFields) :
    mapSerialize map = if map.entries = [] then none else some (map.entries.flatMap pairBytes) := rfl

/-- **The extension fields behind their length are read back.** -/
theorem reads_headerFields {map : ExtFields} (h : ∀ e ∈ map.entries, PairFits e)
    (hlen : (map.entries.flatMap pairBytes).length < 2 ^ 31) :
    Reads (Reader.i32 >>= headerFields lib) (lengthAndBytes (mapSerialize map))
      (readFields map.entries ⟨[]⟩) := by
  rw [mapSerialize_eq]
  by_cases hnil : map.entries = []
  · rw [hnil]
    exact (reads_i32 0).bind_nil (.pure _)
  · rw [if_neg hnil]
    have hint := Int32.toInt_ofNat_of_lt hlen
    have hpos : 0 < (map.entries.flatMap pairBytes).length :=
      lt_of_lt_of_le (length_pos_iff.mpr hnil) (length_le_flatMap _)
    refine (reads_i32 _).bind ?_
    rw [headerFields, if_pos, hint]
    · exact reads_mapDeserialize h
    · show 0 < _
      rw [Int32.lt_iff_toInt_lt, hint]
      exact Int.natCast_pos.mpr hpos

theorem reads_remark {remark : Option String}
    (h : ∀ s ∈ remark, (strBytes s).length ≤ maxLen false) :
    Reads (Reader.string lib false)
      (lengthAndBytes ((remark.filter fun r => r != "").map strBytes)) (remark.bind nonEmpty) := by
  cases remark with
  | none => exact reads_string (s := "") (Nat.zero_le _)
  | some s =>
    by_cases hs : s = ""
    · subst hs
      exact reads_string (s := "") (Nat.zero_le _)
    · have hkeep : (some s).filter (fun r => r != "") = some s := by
        rw [Option.filter_some, if_pos (by simp [hs])]
      rw [hkeep]
      exact reads_string (h s rfl)

/-! ## 2. The binary header -/

/-- What every length field of the binary header can hold. -/
structure HeaderFits (c : RemotingCommand) : Prop where
  remark : ∀ s ∈ c.remark, (strBytes s).length ≤ maxLen false
  pairs : ∀ e ∈ c.extFields.entries, PairFits e
  fields : (c.extFields.entries.flatMap pairBytes).length < 2 ^ 31

/-- What the binary header keeps of a command. -/
def headerOf (c : RemotingCommand) : RocketMqHeader :=
  { code := low16 c.code
    language := Int32.ofNat (UInt8.ofNat c.language.toBitVec.toNat).toNat
    version := low16 c.version
    requestId := c.requestId
    flag := c.flag
    remark := c.remark.bind nonEmpty
    extFields := readFields c.extFields.entries ⟨[]⟩ }

/-- **The binary header is read back.** -/
theorem reads_rocketMqHeader (h : HeaderFits c) :
    Reads (rocketMqProtocolDecode lib) (rocketMqProtocolEncode c) (headerOf c) := by
  refine (reads_i16 c.code).bind ((reads_u8 _).bind ((reads_i16 c.version).bind
    ((reads_i32 c.requestId).bind ((reads_i32 c.flag).bind ((reads_remark h.remark).bind ?_)))))
  have hfields : Reads (Reader.i32 >>= headerFields lib) _ _ :=
    reads_headerFields h.pairs h.fields
  have hheader := hfields.map fun ext => { headerOf c with extFields := ext }
  rwa [Read.bind_assoc] at hheader

/-! ## 3. The JSON header -/

theorem foldl_toJson {a : List (String × Json)} (h : (a.map Prod.fst ++ entries.map Prod.fst).Nodup) :
    entries.foldl (fun map e => Json.insert map e.1 (.str e.2)) a
      = a ++ entries.map fun e => (e.1, .str e.2) := by
  induction entries generalizing a with
  | nil => simp
  | cons e es ih =>
    have habsent : e.1 ∉ a.map Prod.fst := fun hmem =>
      (nodup_append.mp h).2.2 e.1 hmem e.1 mem_cons_self rfl
    rw [foldl_cons, Json.insert_of_absent _ habsent, ih]
    · rw [map_cons, append_assoc, singleton_append]
    · rw [map_append, append_assoc]
      exact h

theorem toJson_eq (h : (ext.entries.map Prod.fst).Nodup) :
    ext.toJson = .obj (ext.entries.map fun e => (e.1, .str e.2)) := by
  rw [ExtFields.toJson, foldl_toJson (a := []) h, nil_append]

theorem foldl_insert {a : ExtFields} (h : (a.entries.map Prod.fst ++ entries.map Prod.fst).Nodup) :
    entries.foldl (fun out e => out.insert e.1 e.2) a = ⟨a.entries ++ entries⟩ := by
  induction entries generalizing a with
  | nil => simp
  | cons e es ih =>
    have habsent : ∀ e' ∈ a.entries, e'.1 ≠ e.1 := fun e' he' heq =>
      (nodup_append.mp h).2.2 e'.1 (mem_map_of_mem he') e.1 mem_cons_self heq
    rw [foldl_cons, ih]
    · rw [ExtFields.insert, ExtFields.insertEntry_of_absent _ habsent, append_assoc,
        singleton_append]
    · rw [ExtFields.insert, ExtFields.insertEntry_of_absent _ habsent, map_append,
        append_assoc]
      exact h

theorem fromJson_toJson (h : (ext.entries.map Prod.fst).Nodup) :
    ExtFields.fromJson lib ext.toJson = ext := by
  rw [toJson_eq h, ExtFields.fromJson, foldl_map]
  have hinsert := foldl_insert (a := ⟨[]⟩) h
  rwa [nil_append] at hinsert

theorem readFields_eq (h : (entries.map Prod.fst).Nodup) (hne : ∀ e ∈ entries, e.1 ≠ "" ∧ e.2 ≠ "") :
    readFields entries ⟨[]⟩ = ⟨entries⟩ := by
  have hsame : ∀ acc : ExtFields, readFields entries acc
      = entries.foldl (fun out e => out.insert e.1 e.2) acc := by
    intro acc
    refine foldl_ext _ _ _ fun out e he => ?_
    rw [nonEmpty, if_neg (hne e he).1, nonEmpty, if_neg (hne e he).2]
    rfl
  rw [hsame, foldl_insert (a := ⟨[]⟩) h, nil_append]

theorem toJsonValue_eq (c : RemotingCommand) : c.toJsonValue = .obj
    ([("code", .num (.int c.code.toInt)), ("language", .num (.int c.language.toInt)),
      ("version", .num (.int c.version.toInt)), ("opaque", .num (.int c.requestId.toInt)),
      ("flag", .num (.int c.flag.toInt))]
      ++ ((c.remark.map fun r => ("remark", Json.str r)).toList
      ++ if c.extFields.entries = [] then [] else [("extFields", c.extFields.toJson)])) := by
  unfold RemotingCommand.toJsonValue
  cases c.remark with
  | none | some => by_cases hext : c.extFields.entries = [] <;> simp [hext, Json.insert]

theorem int32_bounds (v : Int32) : -2147483648 ≤ v.toInt ∧ v.toInt ≤ 2147483647 :=
  ⟨v.le_toInt, v.toInt_le⟩

theorem plain_int32 (v : Int32) : (Json.num (.int v.toInt)).Plain := by
  have hv := int32_bounds v
  exact .int (by omega)

theorem toJson_plain (h : (ext.entries.map Prod.fst).Nodup) : ext.toJson.Plain := by
  rw [toJson_eq h]
  refine .obj ?_ fun e he => ?_
  · rw [map_map]
    exact h
  · obtain ⟨e', _, rfl⟩ := mem_map.mp he
    exact .str _

theorem toJsonValue_plain (h : (c.extFields.entries.map Prod.fst).Nodup) : c.toJsonValue.Plain := by
  rw [toJsonValue_eq]
  refine .obj ?_ fun e he => ?_
  · cases c.remark with
    | none | some => by_cases hext : c.extFields.entries = [] <;> simp [hext]
  · rcases mem_append.mp he with he | he
    · simp only [mem_cons, not_mem_nil, or_false] at he
      rcases he with rfl | rfl | rfl | rfl | rfl <;> exact plain_int32 _
    · rcases mem_append.mp he with he | he
      · obtain ⟨r, _, rfl⟩ := Option.map_eq_some_iff.mp (Option.mem_toList.mp he)
        exact .str r
      · split at he
        · cases he
        · cases mem_singleton.mp he
          exact toJson_plain h

theorem numberAsI32_int (v : Int32) : numberAsI32 lib (.num (.int v.toInt)) = some v := by
  have hv := int32_bounds v
  rw [numberAsI32, if_pos (by unfold Decimal.i64Max; omega), Int32.ofInt_toInt]

/-- **The JSON header says what the command does.** -/
theorem ofJson_toJsonValue (h : (c.extFields.entries.map Prod.fst).Nodup) (stype : Int32)
    (body : Option (List UInt8)) :
    RemotingCommand.ofJson lib c.toJsonValue stype body
      = { c with serializeType := stype, body := body, customHeader := none } := by
  have hext : ExtFields.fromJson lib c.extFields.toJson = c.extFields := fromJson_toJson h
  rw [toJsonValue_eq]
  obtain ⟨code, language, version, requestId, flag, remark, st, b, ext, header⟩ := c
  by_cases hnil : ext.entries = []
  · have hempty : ext = ⟨[]⟩ := by
      cases ext
      cases hnil
      rfl
    cases remark <;>
      simp [RemotingCommand.ofJson, jsonI32, Json.get, numberAsI32_int, Json.asStr, hempty]
  · cases remark <;>
      simp [RemotingCommand.ofJson, jsonI32, Json.get, numberAsI32_int, Json.asStr, hnil, hext]

/-! ## 4. Whole frames -/

/-- **The commands that a frame holds**: both headers have room for them, and nothing in them is
empty where it could be missing. -/
structure Sendable (lib : StdLib) (checked : Bool) (c : RemotingCommand) : Prop where
  code : 0 ≤ c.code.toInt ∧ c.code.toInt < 65536
  language : 0 ≤ c.language.toInt ∧ c.language.toInt < 256
  version : 0 ≤ c.version.toInt ∧ c.version.toInt < 65536
  remark : c.remark ≠ some ""
  body : c.body ≠ some []
  distinct : (c.makeCustomHeaderToNet.extFields.entries.map Prod.fst).Nodup
  fields : ∀ e ∈ c.makeCustomHeaderToNet.extFields.entries,
    e.1 ≠ "" ∧ (strBytes e.1).length ≤ 65535 ∧ e.2 ≠ ""
  encoding : c.serializeType = serializeJson ∨ c.serializeType = serializeRocketMq
  header : (c.headerEncode lib).length < 2 ^ 24
  /-- where overflow is checked for, the field of the total length counts as well -/
  total : c.totalLen lib + (if checked then 4 else 0) < 2 ^ 31

/-- What arrives of a command: its header object has become extension fields. -/
def received (c : RemotingCommand) : RemotingCommand :=
  { c.makeCustomHeaderToNet with customHeader := none }

theorem makeCustomHeaderToNet_eq (c : RemotingCommand) :
    c.makeCustomHeaderToNet = { c with extFields := c.makeCustomHeaderToNet.extFields } := by
  obtain ⟨code, language, version, requestId, flag, remark, st, body, ext, header⟩ := c
  cases header <;> rfl

theorem length_lengthAndBytes (part : Option (List UInt8)) :
    (lengthAndBytes part).length = 4 + (part.getD []).length := by
  cases part with
  | none => exact length_bigEndian 4 _
  | some b =>
    have h4 : (len32 b.length).length = 4 := length_bigEndian 4 _
    rw [lengthAndBytes, length_append]
    rfl

theorem number_i32 (v : Int32) : number (i32 v) = v.toBitVec.toNat := by
  rw [i32, number_bigEndian]
  exact Nat.mod_eq_of_lt v.toBitVec.isLt

section

variable {checked : Bool} {c : RemotingCommand}

theorem bodyOf_getD (h : c.body ≠ some []) : bodyOf (c.body.getD []) = c.body := by
  cases hb : c.body with
  | none => rfl
  | some b =>
    have hne : b ≠ [] := by
      intro hnil
      rw [hb, hnil] at h
      exact h rfl
    rw [Option.getD_some, bodyOf, if_neg hne]

theorem length_encode (lib : StdLib) (c : RemotingCommand) :
    (c.encode lib).length = c.totalLen lib + 4 := by
  have h4 n : (len32 n).length = 4 := length_bigEndian 4 _
  have h4' v : (i32 v).length = 4 := length_bigEndian 4 _
  unfold RemotingCommand.encode
  simp only [length_append, h4, h4', RemotingCommand.totalLen]
  omega

theorem parts_encode (h : Sendable lib checked c) :
    Parts (c.encode lib) (len32 (c.totalLen lib))
      (i32 (markProtocolType (Int32.ofNat (c.headerEncode lib).length) c.serializeType))
      (c.headerEncode lib) (c.body.getD []) := by
  have htotal : c.totalLen lib < 2 ^ 31 := lt_of_le_of_lt (Nat.le_add_right _ _) h.total
  have hheader := h.header
  have hfour : Int32.ofNat (c.totalLen lib + 4) - 4 = Int32.ofNat (c.totalLen lib) := by
    simp
  refine ⟨rfl, length_bigEndian 4 _, length_bigEndian 4 _, ?_, ?_, ?_⟩
  · rw [number_i32, toNat_markProtocolType]
    omega
  · rw [length_encode, hfour, len32, number_i32, ofNat_toBitVec]
    exact Int32.le_refl _
  · rw [length_encode, Int32.le_iff_toInt_le, Int32.toInt_ofNat_of_lt (by omega)]
    unfold RemotingCommand.totalLen at htotal ⊢
    rw [Int32.toInt_ofNat_of_lt (by omega)]
    omega

theorem not_overflows_encode (h : Sendable lib checked c) :
    ¬ Overflows checked (c.encode lib).length := by
  intro hover
  have htotal := h.total
  have hlow := hover.2.1
  rw [hover.1] at htotal
  rw [length_encode] at hlow
  simp only [if_true] at htotal
  omega

theorem protocolTypeOf_mark {st : Int32} (h : st = serializeJson ∨ st = serializeRocketMq)
    (n : Nat) :
    protocolTypeOf (Int32.ofNat (number (i32 (markProtocolType (Int32.ofNat n) st))))
      = st := by
  rw [number_i32, ofNat_toBitVec]
  apply Int32.toBitVec_inj.mp
  apply BitVec.eq_of_toNat_eq
  rw [toNat_protocolTypeOf, toNat_markProtocolType]
  rcases h with rfl | rfl
  · show (0 % 256 * 2 ^ 24 + n % 2 ^ 24) / 2 ^ 24 = 0
    omega
  · show (1 % 256 * 2 ^ 24 + n % 2 ^ 24) / 2 ^ 24 = 1
    omega

theorem length_rocketMqProtocolEncode (c : RemotingCommand) :
    (rocketMqProtocolEncode c).length
      = 21 + (((c.remark.filter fun r => r != "").map strBytes).getD []).length
        + ((mapSerialize c.extFields).getD []).length := by
  have h2 v : (i16 v).length = 2 := length_bigEndian 2 _
  have h4 v : (i32 v).length = 4 := length_bigEndian 4 _
  unfold rocketMqProtocolEncode
  simp only [length_append, length_lengthAndBytes, h2, h4, u8, length_singleton]
  omega

theorem length_le_of_mem {entries : List (String × String)} {e : String × String}
    (h : e ∈ entries) : (strBytes e.2).length ≤ (entries.flatMap pairBytes).length := by
  induction entries with
  | nil => cases h
  | cons e' es ih =>
    rw [flatMap_cons, length_append]
    rcases mem_cons.mp h with rfl | h
    · have hpair : (strBytes e.2).length ≤ (pairBytes e).length := by
        unfold pairBytes string
        simp only [length_append, Option.map_some, Option.getD_some]
        omega
      omega
    · have hrest := ih h
      omega

theorem headerEncode_rocketMq (hst : c.serializeType = serializeRocketMq) :
    c.headerEncode lib = rocketMqProtocolEncode c.makeCustomHeaderToNet := by
  have hsame : c.makeCustomHeaderToNet.serializeType = serializeRocketMq := by
    rw [makeCustomHeaderToNet_eq]
    exact hst
  unfold RemotingCommand.headerEncode
  rw [if_pos hsame]

theorem headerEncode_json (hst : c.serializeType = serializeJson) : c.headerEncode lib
    = Utf8.encode (Json.chars lib c.makeCustomHeaderToNet.toJsonValue) := by
  have hsame : c.makeCustomHeaderToNet.serializeType ≠ serializeRocketMq := by
    rw [makeCustomHeaderToNet_eq]
    rw [hst]
    decide
  unfold RemotingCommand.headerEncode
  rw [if_neg hsame]

theorem headerFits_of_sendable (h : Sendable lib checked c)
    (hst : c.serializeType = serializeRocketMq) : HeaderFits c.makeCustomHeaderToNet := by
  have hheader := h.header
  rw [headerEncode_rocketMq hst, length_rocketMqProtocolEncode, mapSerialize_eq] at hheader
  have hfields : (c.makeCustomHeaderToNet.extFields.entries.flatMap pairBytes).length < 2 ^ 24 := by
    by_cases hnil : c.makeCustomHeaderToNet.extFields.entries = []
    · rw [hnil]
      decide
    · rw [if_neg hnil, Option.getD_some] at hheader
      omega
  refine ⟨fun s hs => ?_, fun e he => ⟨(h.fields e he).2.1, ?_⟩, by omega⟩
  · have hne : s ≠ "" := by
      intro hnil
      rw [hnil, makeCustomHeaderToNet_eq] at hs
      exact h.remark hs
    have hkeep : c.makeCustomHeaderToNet.remark.filter (fun r => r != "") = some s := by
      rw [hs, Option.filter_some, if_pos (by simp [hne])]
    rw [hkeep, Option.map_some, Option.getD_some] at hheader
    show _ ≤ 2147483647
    omega
  · have hle := length_le_of_mem he
    show _ ≤ 2147483647
    omega

theorem jsonDecode_chars {v : Json} (hp : v.Plain) :
    jsonDecode lib (Utf8.encode (Json.chars lib v)) = .ok v := by
  obtain ⟨x, t, hx, _⟩ := (FastJson.spelled_chars lib v hp).starts
  have hne : Utf8.encode (Json.chars lib v) ≠ [] := by
    intro hnil
    rw [Utf8.encode_injective (b := []) hnil] at hx
    cases hx
  unfold jsonDecode
  rw [if_neg hne, Utf8.decode_eq_some.mpr rfl]
  exact FastJson.fromStr_chars hp

theorem ofHeader_headerOf (h : Sendable lib checked c) :
    RemotingCommand.ofHeader (headerOf c.makeCustomHeaderToNet) c.serializeType c.body
      = received c := by
  have hlanguage : Int32.ofNat (UInt8.ofNat c.language.toBitVec.toNat).toNat = c.language := by
    have hbits := toNat_toBitVec h.language.1
    have hlt := h.language.2
    rw [UInt8.toNat_ofNat', Nat.mod_eq_of_lt (by omega), ofNat_toBitVec]
  have hremark : c.remark.bind nonEmpty = c.remark := by
    cases hr : c.remark with
    | none => rfl
    | some r =>
      have hne : r ≠ "" := by
        intro hnil
        apply h.remark
        rw [hr, hnil]
      rw [Option.bind_some, nonEmpty, if_neg hne]
  have hfields : readFields c.makeCustomHeaderToNet.extFields.entries ⟨[]⟩
      = c.makeCustomHeaderToNet.extFields :=
    readFields_eq h.distinct fun e he => ⟨(h.fields e he).1, (h.fields e he).2.2⟩
  unfold received RemotingCommand.ofHeader headerOf
  rw [hfields, makeCustomHeaderToNet_eq]
  simp only [low16_of_lt h.code.1 h.code.2, low16_of_lt h.version.1 h.version.2, hlanguage, hremark]

/-- The decoder finds the encoding, the header and the body of a frame again. -/
theorem decode_encode (h : Sendable lib checked c) :
    RemotingCommand.decode lib checked (c.encode lib)
      = headerDecode lib c.serializeType (c.headerEncode lib) c.body := by
  rw [decode_of_parts (parts_encode h) (not_overflows_encode h), protocolTypeOf_mark h.encoding,
    bodyOf_getD h.body]

theorem headerDecode_headerEncode (h : Sendable lib checked c) :
    headerDecode lib c.serializeType (c.headerEncode lib) c.body = .ok (received c) := by
  rw [headerDecode]
  rcases h.encoding with hst | hst
  · have hdecode : jsonDecode lib (c.headerEncode lib) = .ok c.makeCustomHeaderToNet.toJsonValue := by
      rw [headerEncode_json hst]
      exact jsonDecode_chars (toJsonValue_plain h.distinct)
    rw [if_neg (by rw [hst]; decide), hdecode]
    show Except.ok (RemotingCommand.ofJson lib _ c.serializeType c.body) = _
    rw [ofJson_toJsonValue h.distinct, received, makeCustomHeaderToNet_eq]
  · have hread : Reads (rocketMqProtocolDecode lib) _ _ :=
      reads_rocketMqHeader (headerFits_of_sendable h hst)
    rw [if_pos hst, headerEncode_rocketMq hst, hread.whole]
    show Except.ok (RemotingCommand.ofHeader _ c.serializeType c.body) = _
    rw [ofHeader_headerOf h]

/-- **A frame is decoded as the command that was sent**, whichever header it has. -/
theorem frame_round_trip (h : Sendable lib checked c) :
    RemotingCommand.decode lib checked (c.encode lib) = .ok (received c) := by
  rw [decode_encode h, headerDecode_headerEncode h]

end

namespace Script

/-- A request with a header object and a body, in the binary encoding. -/
def pullCommand : RemotingCommand :=
  { code := 11
    language := 12
    version := 515
    requestId := -7
    flag := 0
    remark := none
    serializeType := serializeRocketMq
    body := some [1, 2]
    extFields := ⟨[("topic", "T")]⟩
    customHeader := some ⟨[("queueId", "3")]⟩ }

end Script

open Script

theorem frame_round_trip_pull : Sendable noFloats true pullCommand ∧
    RemotingCommand.decode noFloats true (pullCommand.encode noFloats)
      = .ok (received pullCommand) := by
  have hsend : Sendable noFloats true pullCommand :=
    ⟨by decide, by decide, by decide, by decide, by decide, by decide, by decide +kernel, by decide,
      by decide +kernel, by decide +kernel⟩
  exact ⟨hsend, frame_round_trip hsend⟩

end RocketMQ
