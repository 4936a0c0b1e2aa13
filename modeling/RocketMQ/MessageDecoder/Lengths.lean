/-
  File:      RocketMQ/MessageDecoder/Lengths.lean
  Subject:   When the length fields of the encoders tell the truth.

  A length is narrowed to the width of its field. The encoder of the store frame checks the length
  of the topic and nothing else; the others check nothing.

  * `storeTells_iff`, `batchTells_iff`, `headerTells_iff`: **the fields of an encoder tell the
    truth exactly if the lengths fit them**;
  * `lengths_true_iff`: when all three are true, and what is written then is decoded;
  * `long_properties_lost`: 65536 bytes of properties are announced as none.
-/
import RocketMQ.MessageDecoder.StoreRoundTrip

namespace RocketMQ.MessageDecoder

open List Binary Writer

/-! ## 1. Length fields -/

/-- What a length field says: the one of four bytes is read with a sign. -/
def said (field : List UInt8) : Int :=
  if field.length = 4 then (Int32.ofNat (number field)).toInt else number field

/-- **A length field tells the truth**: behind the `w` bytes at `pos` stand the data, and they are
as long as the field says. -/
def Tells (w : Nat) (data frame : List UInt8) (pos : Nat) : Prop :=
  said ((frame.drop pos).take w) = data.length ∧ (frame.drop (pos + w)).take data.length = data

variable {w pos n : Nat} {a field rest frame : List UInt8}

theorem tells_iff {data : List UInt8} (hframe : frame = a ++ ((field ++ data) ++ rest))
    (hpos : a.length = pos) (hw : field.length = w) :
    Tells w data frame pos ↔ said field = data.length := by
  have hfield : (frame.drop pos).take w = field := by
    rw [hframe, drop_left' hpos, append_assoc, take_left' hw]
  have hdata : (frame.drop (pos + w)).take data.length = data := by
    rw [← drop_drop, hframe, drop_left' hpos, append_assoc, drop_left' hw,
      take_left]
  unfold Tells
  rw [hfield]
  exact and_iff_left hdata

theorem length_behind (data : List UInt8) (hpos : a.length = pos) (hw : field.length = w) :
    (a ++ (field ++ data)).length = pos + w + data.length := by
  rw [length_append, length_append, hpos, hw, add_assoc]

theorem length_len32 (n : Nat) : (len32 n).length = 4 := length_bigEndian 4 _

theorem length_u16 (n : Nat) : (u16 n).length = 2 := length_bigEndian 2 _

theorem said_len32 (n : Nat) : said (len32 n) = (Int32.ofNat n).toInt := by
  rw [said, len32, i32, if_pos (length_bigEndian 4 _), number_bigEndian,
    show 256 ^ 4 = 2 ^ 32 from rfl, Nat.mod_eq_of_lt (Int32.ofNat n).toBitVec.isLt,
    ofNat_toBitVec]

theorem said_len32_iff : said (len32 n) = n ↔ n < 2 ^ 31 := by
  rw [said_len32]
  constructor
  · have hle := (int32_bounds (Int32.ofNat n)).2
    omega
  · exact Int32.toInt_ofNat_of_lt

theorem said_u16_iff : said (u16 n) = n ↔ n ≤ 65535 := by
  rw [said, u16, if_neg (by rw [length_bigEndian]; decide), number_bigEndian]
  omega

theorem said_u8_iff : said (u8 (UInt8.ofNat n)) = n ↔ n ≤ 255 := by
  have hbyte : number [UInt8.ofNat n] = n % 256 := by
    simp [number]
  rw [said, u8, if_neg (by simp)]
  omega

/-! ## 2. The store frame -/

/-- Where the body starts. -/
def bodyAt (sysFlag : Int32) : Nat :=
  headerWithoutBodyLen + hostLength sysFlag bornhostV6Flag
    + hostLength sysFlag storehostaddressV6Flag

/-- **Every length field of a store frame tells the truth.** -/
structure StoreTells (m : MessageExt) (body frame : List UInt8) : Prop where
  totalSize : said (frame.take 4) = frame.length
  bodyLength : Tells 4 body frame (bodyAt m.sysFlag)
  topicLength : Tells 1 (strBytes m.topic) frame (bodyAt m.sysFlag + 4 + body.length)
  propertiesLength : Tells 2 (propertiesBytes m.properties) frame
    (bodyAt m.sysFlag + 4 + body.length + 1 + (strBytes m.topic).length)

/-- The lengths fit their fields. -/
def StoreFits (m : MessageExt) (body : List UInt8) : Prop :=
  messageBytesSize m.topic body.length m.properties m.sysFlag < 2 ^ 31 ∧
    (propertiesBytes m.properties).length ≤ 65535

/-- What stands before the body. -/
def frameHead (m : MessageExt) (storeSize : Nat) (bornAddr storeAddr : List UInt8) : List UInt8 :=
  len32 storeSize ++ (i32 messageMagicCode ++ (u32 m.bodyCrc
    ++ (i32 m.queueId ++ (i32 m.flag ++ (i64 m.queueOffset
    ++ (i64 m.commitLogOffset ++ (i32 m.sysFlag ++ (i64 m.bornTimestamp
    ++ (bornAddr ++ (i64 m.storeTimestamp ++ (storeAddr ++ (i32 m.reconsumeTimes
    ++ i64 m.preparedTransactionOffset))))))))))))

theorem frameFields_eq (m : MessageExt) (storeSize : Nat) (bornAddr storeAddr body : List UInt8) :
    frameFields m storeSize bornAddr storeAddr body
      = frameHead m storeSize bornAddr storeAddr ++ ((len32 body.length ++ body)
        ++ ((u8 (UInt8.ofNat (strBytes m.topic).length) ++ strBytes m.topic)
        ++ (u16 (propertiesBytes m.properties).length
          ++ propertiesBytes m.properties))) := by
  simp only [frameFields, frameHead, append_assoc]

theorem length_frameHead (m : MessageExt) (storeSize : Nat) (bornAddr storeAddr : List UInt8) :
    (frameHead m storeSize bornAddr storeAddr).length
      = headerWithoutBodyLen + bornAddr.length + storeAddr.length := by
  simp only [frameHead, length_append, len32, i32, u32, i64,
    length_bigEndian, headerWithoutBodyLen]
  omega

theorem said_storeSize_iff {declared : Int32} {size : Nat} :
    said (len32 (storeSizeOf declared size))
      = ((size + (storeSizeOf declared size - size) : Nat) : Int) ↔ size < 2 ^ 31 := by
  rw [said_len32]
  constructor
  · have hle := (int32_bounds (Int32.ofNat (storeSizeOf declared size))).2
    omega
  · intro h
    have hint := Int32.toInt_ofNat_of_lt h
    have hdeclared := int32_bounds declared
    have hbounds : size ≤ storeSizeOf declared size ∧ storeSizeOf declared size < 2 ^ 31 := by
      unfold storeSizeOf
      split <;> omega
    rw [Int32.toInt_ofNat_of_lt hbounds.2]
    omega

section

variable {m : MessageExt} {bornAddr storeAddr body : List UInt8}

theorem length_frameFields (storeSize : Nat)
    (hborn : bornAddr.length = hostLength m.sysFlag bornhostV6Flag)
    (hstore : storeAddr.length = hostLength m.sysFlag storehostaddressV6Flag) :
    (frameFields m storeSize bornAddr storeAddr body).length
      = messageBytesSize m.topic body.length m.properties m.sysFlag := by
  rw [frameFields_eq]
  simp only [length_append, length_frameHead, length_len32, length_u16,
    u8, length_singleton, messageBytesSize]
  omega

theorem padded_eq (m : MessageExt) (bornAddr storeAddr body : List UInt8) :
    ∃ rest, padded m bornAddr storeAddr body
    = frameHead m (storeSizeOf m.storeSize
        (messageBytesSize m.topic body.length m.properties m.sysFlag)) bornAddr storeAddr
      ++ ((len32 body.length ++ body)
      ++ ((u8 (UInt8.ofNat (strBytes m.topic).length) ++ strBytes m.topic)
      ++ ((u16 (propertiesBytes m.properties).length
        ++ propertiesBytes m.properties) ++ rest))) := by
  rw [padded, frameFields_eq]
  simp only [append_assoc]
  exact ⟨_, rfl⟩

theorem totalSize_iff (hborn : bornAddr.length = hostLength m.sysFlag bornhostV6Flag)
    (hstore : storeAddr.length = hostLength m.sysFlag storehostaddressV6Flag) :
    said ((padded m bornAddr storeAddr body).take 4) = (padded m bornAddr storeAddr body).length ↔
      messageBytesSize m.topic body.length m.properties m.sysFlag < 2 ^ 31 := by
  have htake : (padded m bornAddr storeAddr body).take 4 = len32 (storeSizeOf m.storeSize
      (messageBytesSize m.topic body.length m.properties m.sysFlag)) := by
    obtain ⟨rest, hframe⟩ := padded_eq m bornAddr storeAddr body
    exact take_left' (length_len32 _)
  rw [padded, length_append, length_replicate, length_frameFields _ hborn hstore]
  exact said_storeSize_iff

/-- **The length fields of a store frame tell the truth exactly if the lengths fit them.** -/
theorem storeTells_iff (hborn : bornAddr.length = hostLength m.sysFlag bornhostV6Flag)
    (hstore : storeAddr.length = hostLength m.sysFlag storehostaddressV6Flag)
    (htopic : (strBytes m.topic).length ≤ 255) :
    StoreTells m body (padded m bornAddr storeAddr body) ↔ StoreFits m body := by
  have hsize := messageBytesSize_pos m.topic body.length m.properties m.sysFlag
  obtain ⟨rest, hframe⟩ := padded_eq m bornAddr storeAddr body
  have hhead := length_frameHead m (storeSizeOf m.storeSize
    (messageBytesSize m.topic body.length m.properties m.sysFlag)) bornAddr storeAddr
  rw [hborn, hstore] at hhead
  have hbody := (tells_iff hframe hhead (length_len32 _)).trans said_len32_iff
  rw [← append_assoc] at hframe
  have hbehind := length_behind body hhead
    (length_len32 body.length)
  have htop := (tells_iff hframe hbehind rfl).trans said_u8_iff
  rw [← append_assoc] at hframe
  have hprops := (tells_iff hframe (length_behind (strBytes m.topic) hbehind rfl)
    (length_u16 _)).trans said_u16_iff
  constructor
  · intro h
    exact ⟨(totalSize_iff hborn hstore).mp h.totalSize, hprops.mp h.propertiesLength⟩
  · intro h
    exact ⟨(totalSize_iff hborn hstore).mpr h.1, hbody.mpr (lt_trans hsize h.1),
      htop.mpr htopic, hprops.mpr h.2⟩

end

/-! ## 3. A message of a batch -/

/-- The size of a batch message. -/
def batchSize (m : Message) : Nat :=
  4 + 4 + 4 + 4 + 4 + (m.body.getD []).length + 2 + (propertiesBytes m.properties).length

/-- **Every length field of a batch message tells the truth.** -/
structure BatchTells (m : Message) (frame : List UInt8) : Prop where
  totalSize : said (frame.take 4) = frame.length
  bodyLength : Tells 4 (m.body.getD []) frame 16
  propertiesLength : Tells 2 (propertiesBytes m.properties) frame
    (16 + 4 + (m.body.getD []).length)

/-- The lengths fit their fields. -/
def BatchFits (m : Message) : Prop :=
  batchSize m < 2 ^ 31 ∧ (propertiesBytes m.properties).length ≤ 65535

theorem BatchFits.body {m : Message} (h : BatchFits m) : (m.body.getD []).length < 2 ^ 31 := by
  have hsize := h.1
  unfold batchSize at hsize
  omega

/-- **The length fields of a batch message tell the truth exactly if the lengths fit them.** -/
theorem batchTells_iff (m : Message) : BatchTells m (encodeMessage m) ↔ BatchFits m := by
  let head := len32 (batchSize m) ++ (i32 0 ++ (i32 0
    ++ i32 (Int32.ofInt m.flag)))
  have hhead : head.length = 16 := by
    simp only [head, length_append, len32, i32, length_bigEndian]
  have hframe : encodeMessage m = head ++ ((len32 (m.body.getD []).length ++ m.body.getD [])
      ++ ((u16 (propertiesBytes m.properties).length ++ propertiesBytes m.properties)
      ++ [])) := by
    simp only [encodeMessage, head, batchSize, append_assoc, append_nil]
  have htake : (encodeMessage m).take 4 = len32 (batchSize m) := by
    exact take_left' (length_len32 _)
  have hlen : (encodeMessage m).length = batchSize m := by
    rw [hframe]
    simp only [length_append, length_len32, length_u16, length_nil, batchSize]
    omega
  have hbody := (tells_iff hframe hhead (length_len32 _)).trans said_len32_iff
  have hbehind := length_behind (m.body.getD []) hhead
    (length_len32 (m.body.getD []).length)
  rw [← append_assoc] at hframe
  have hprops := (tells_iff hframe hbehind (length_u16 _)).trans said_u16_iff
  have htotal : said ((encodeMessage m).take 4) = (encodeMessage m).length ↔
      batchSize m < 2 ^ 31 := by
    rw [hlen]
    exact said_len32_iff
  constructor
  · intro h
    exact ⟨htotal.mp h.totalSize, hprops.mp h.propertiesLength⟩
  · intro h
    exact ⟨htotal.mpr h.1, hbody.mpr h.body, hprops.mpr h.2⟩

/-! ## 4. The binary header -/

/-- The length fields of the extension fields tell the truth, from `pos` on. -/
def PairsTell : List (String × String) → List UInt8 → Nat → Prop
  | [], _, _ => True
  | e :: es, frame, pos =>
    Tells 2 (strBytes e.1) frame pos ∧
    Tells 4 (strBytes e.2) frame (pos + 2 + (strBytes e.1).length) ∧
    PairsTell es frame (pos + 2 + (strBytes e.1).length + 4 + (strBytes e.2).length)

theorem pairBytes_eq (e : String × String) : pairBytes e =
    (u16 (strBytes e.1).length ++ strBytes e.1)
      ++ (len32 (strBytes e.2).length ++ strBytes e.2) := rfl

theorem pairsTell_iff {entries : List (String × String)}
    (hframe : frame = a ++ (entries.flatMap pairBytes ++ rest)) (hpos : a.length = pos) :
    PairsTell entries frame pos ↔ ∀ e ∈ entries, PairFits e := by
  induction entries generalizing a pos with
  | nil => exact iff_of_true trivial (by intro _ h; cases h)
  | cons e es ih =>
    rw [flatMap_cons, pairBytes_eq, append_assoc, append_assoc] at hframe
    have hkey := (tells_iff hframe hpos (length_u16 _)).trans said_u16_iff
    have hbehind := length_behind (strBytes e.1) hpos
      (length_u16 (strBytes e.1).length)
    rw [← append_assoc] at hframe
    have hvalue := (tells_iff hframe hbehind (length_len32 _)).trans said_len32_iff
    have hnext := length_behind (strBytes e.2) hbehind
      (length_len32 (strBytes e.2).length)
    rw [← append_assoc] at hframe
    rw [PairsTell, hkey, hvalue, ih hframe hnext, forall_mem_cons, ← and_assoc]
    exact and_congr_left fun _ => and_congr_right fun _ => Nat.lt_succ_iff

/-- The bytes of the remark. -/
def remarkBytes (c : RemotingCommand) : List UInt8 := strBytes (c.remark.getD "")

/-- **Every length field of a binary header tells the truth.** -/
structure HeaderTells (c : RemotingCommand) (frame : List UInt8) : Prop where
  remarkLength : Tells 4 (remarkBytes c) frame 13
  fieldsLength : Tells 4 (c.extFields.entries.flatMap pairBytes) frame
    (13 + 4 + (remarkBytes c).length)
  pairs : PairsTell c.extFields.entries frame (13 + 4 + (remarkBytes c).length + 4)

theorem lengthAndBytes_remark (c : RemotingCommand) :
    lengthAndBytes ((c.remark.filter fun r => r != "").map strBytes)
      = len32 (remarkBytes c).length ++ remarkBytes c := by
  unfold remarkBytes
  cases c.remark with
  | none => rfl
  | some s =>
    by_cases hs : s = ""
    · subst hs
      rfl
    · rw [Option.filter_some, if_pos (by simp [hs])]
      rfl

theorem lengthAndBytes_fields (c : RemotingCommand) :
    lengthAndBytes (mapSerialize c.extFields)
      = len32 (c.extFields.entries.flatMap pairBytes).length
        ++ c.extFields.entries.flatMap pairBytes := by
  rw [mapSerialize_eq]
  by_cases hnil : c.extFields.entries = []
  · rw [hnil]
    rfl
  · rw [if_neg hnil]
    rfl

/-- **The length fields of a binary header tell the truth exactly if the lengths fit them.** -/
theorem headerTells_iff (c : RemotingCommand) :
    HeaderTells c (rocketMqProtocolEncode c) ↔ HeaderFits c := by
  let head := i16 c.code ++ (u8 (UInt8.ofNat c.language.toBitVec.toNat)
    ++ (i16 c.version ++ (i32 c.requestId ++ i32 c.flag)))
  have hhead : head.length = 13 := by
    simp only [head, length_append, i16, u8, i32, length_bigEndian,
      length_singleton]
  have hframe : rocketMqProtocolEncode c
      = head ++ ((len32 (remarkBytes c).length ++ remarkBytes c)
      ++ (len32 (c.extFields.entries.flatMap pairBytes).length
        ++ c.extFields.entries.flatMap pairBytes)) := by
    rw [rocketMqProtocolEncode, lengthAndBytes_remark, lengthAndBytes_fields]
    simp only [head, append_assoc]
  have hremark := (tells_iff hframe hhead (length_len32 _)).trans said_len32_iff
  have hbehind := length_behind (remarkBytes c) hhead
    (length_len32 (remarkBytes c).length)
  rw [← append_assoc, ← append_nil (len32
    (c.extFields.entries.flatMap pairBytes).length ++ _)] at hframe
  have hfields := (tells_iff hframe hbehind (length_len32 _)).trans said_len32_iff
  rw [append_assoc (len32 _), ← append_assoc] at hframe
  have hpairs := pairsTell_iff hframe (by rw [length_append, hbehind])
  have hshort : (remarkBytes c).length < 2 ^ 31 ↔
      ∀ s ∈ c.remark, (strBytes s).length ≤ maxLen false := by
    unfold remarkBytes
    cases c.remark with
    | none => exact iff_of_true (by decide) (by intro _ h; cases h)
    | some s => exact ⟨fun h _ hs => Option.some.inj hs ▸ Nat.le_of_lt_succ h,
        fun h => Nat.lt_succ_of_le (h s rfl)⟩
  constructor
  · intro h
    exact ⟨hshort.mp (hremark.mp h.remarkLength), hpairs.mp h.pairs, hfields.mp h.fieldsLength⟩
  · intro h
    exact ⟨hremark.mpr (hshort.mpr h.remark), hfields.mpr h.fields, hpairs.mpr h.pairs⟩

/-! ## 5. What is written can be read -/

section

variable {lib : StoreLib}

theorem exists_host {ip : String} {port : UInt32} {v6 : Bool} {addr : List UInt8}
    (h : ipAndPortToBytes lib ip port v6 = .ok addr) :
    ∃ octets text, Printed lib v6 octets text ∧ octets ++ u32 port = addr := by
  obtain ⟨octets, hoctets, haddr⟩ := bind_eq_ok.mp h
  obtain ⟨text, hprinted⟩ := exists_printed hoctets
  exact ⟨octets, text, hprinted, Except.ok.inj haddr⟩

/-- A body that carries the flag and is not compressed on the way is one that decompresses. -/
def Packed (lib : StoreLib) (m : MessageExt) (needCompress : Bool) (body : List UInt8) : Prop :=
  needCompress = false → hasFlag m.sysFlag compressedFlag = true → body ≠ [] →
    ∃ plain, decompress lib body (getCompressionType m.sysFlag) = .ok plain

theorem exists_bodyBack_iff {m : MessageExt} {needCompress : Bool} {body : List UInt8}
    (hwritten : writtenBody lib m needCompress = .ok body) :
    (∃ back, bodyBack lib .default m body = .ok back) ↔ Packed lib m needCompress body := by
  unfold bodyBack Packed
  by_cases hnil : body = []
  · simp [hnil]
  · rw [if_neg hnil]
    unfold openBody
    by_cases hflag : hasFlag m.sysFlag compressedFlag = true
    · cases hplain : decompress lib body (getCompressionType m.sysFlag) with
      | ok plain =>
        simp [DecodeOptions.default, hflag, bind, Except.bind, pure, Except.pure]
      | error e =>
        have hneed : needCompress = false := by
          cases needCompress with
          | false => rfl
          | true => cases hplain.symm.trans (decompress_written hwritten hflag)
        simp [DecodeOptions.default, hflag, hneed, hnil, bind, Except.bind]
    · simp [DecodeOptions.default, hflag]

theorem reads_batchBody {body : List UInt8} (h : body.length < 2 ^ 31) :
    Reads batchBody (len32 body.length ++ body) body := by
  refine (reads_i32 (Int32.ofNat body.length)).bind ?_
  rw [Int32.toInt_ofNat_of_lt h, max_eq_left (Int.natCast_nonneg _)]
  exact reads_bytes rfl

/-- **A batch message is read back.** -/
theorem reads_batch {m : Message} (h : BatchFits m) :
    Reads (batchReader lib) (encodeMessage m)
      ⟨"", (Int32.ofInt m.flag).toInt,
        string2MessageProperties (messageProperties2String m.properties), some (m.body.getD [])⟩ := by
  refine (reads_i32 _).bind ((reads_i32 _).bind ((reads_i32 _).bind ((reads_i32 _).bind ?_)))
  exact (reads_batchBody h.body).bind ((reads_properties h.2).bind_nil (.pure _))

/-- **The length fields of the encoders tell the truth exactly if the lengths fit them**, and then
what was written is decoded; a stored message exactly if its body can be opened. -/
theorem lengths_true_iff (lib : StoreLib) (std : StdLib) :
    (∀ m needCompress body frame, writtenBody lib m needCompress = .ok body →
      encodeMessageExt lib m needCompress = .ok frame →
      (StoreTells m body frame ↔ StoreFits m body) ∧
      (StoreFits m body → ((∃ back, decodeMessage lib frame = .ok back) ↔
        Packed lib m needCompress body))) ∧
    (∀ m, (BatchTells m (encodeMessage m) ↔ BatchFits m) ∧
      (BatchFits m → ∃ back, decodeBatchMessage lib (encodeMessage m) = .ok back)) ∧
    ∀ c, (HeaderTells c (rocketMqProtocolEncode c) ↔ HeaderFits c) ∧
      (HeaderFits c → ∃ back,
        rocketMqProtocolDecode std (rocketMqProtocolEncode c) 0 = .ok back) := by
  refine ⟨fun m needCompress body frame hwritten hencode => ?_, fun m => ?_, fun c => ?_⟩
  · obtain ⟨body', bornAddr, storeAddr, hbody, htopic, hborn, hstore, rfl⟩ :=
      encodeMessageExt_eq_ok_iff.mp hencode
    obtain rfl : body = body' := Except.ok.inj (hwritten.symm.trans hbody)
    obtain ⟨bornOctets, bornHost, hbornPrinted, rfl⟩ := exists_host hborn
    obtain ⟨storeOctets, storeHost, hstorePrinted, rfl⟩ := exists_host hstore
    refine ⟨storeTells_iff ?_ ?_ htopic, fun hfits => ?_⟩
    · rw [hbornPrinted.length_host, hostLength_eq]
    · rw [hstorePrinted.length_host, hostLength_eq]
    · rw [← exists_bodyBack_iff hwritten]
      have hlen := Nat.lt_trans
        (messageBytesSize_pos m.topic body.length m.properties m.sysFlag) hfits.1
      cases hback : bodyBack lib .default m body with
      | ok back =>
        exact iff_of_true ⟨_, decodeMessageWith_padded hbornPrinted hstorePrinted hlen hback htopic
          hfits.2⟩ ⟨back, rfl⟩
      | error e =>
        obtain ⟨e', he⟩ := fails_storeFields hbornPrinted hstorePrinted hlen
          (storeSizeOf m.storeSize (messageBytesSize m.topic body.length m.properties m.sysFlag))
          hback [] _
        rw [decodeMessage, decodeMessageWith, padded]
        exact iff_of_false (by rintro ⟨_, h⟩; cases (congrArg _ he).symm.trans h)
          (by rintro ⟨_, h⟩; cases h)
  · refine ⟨batchTells_iff m, fun hfits => ?_⟩
    rw [decodeBatchMessage, (reads_batch hfits).whole]
    exact ⟨_, rfl⟩
  · refine ⟨headerTells_iff c, fun hfits => ?_⟩
    exact ⟨_, (reads_rocketMqHeader hfits).whole⟩

end

end RocketMQ.MessageDecoder

namespace RocketMQ.Script

/-- A message with one property of `n + 3` bytes. -/
def oneProperty (n : Nat) : Message :=
  ⟨"T", 0, ⟨[("k", String.ofList (List.replicate n 'a'))]⟩, none⟩

end RocketMQ.Script

namespace RocketMQ.MessageDecoder

open List Binary Writer

open Script

/-- A stored message and a message of a batch. -/
theorem lengths_true_iff_short :
    (∃ frame,
      encodeMessageExt plainLib (storedMessage (some [1, 2]) 200) true = .ok frame ∧
      StoreTells (storedMessage (some [1, 2]) 200) [120, 94, 99, 100, 2, 0, 0, 6, 0, 4]
        frame) ∧
    BatchTells (oneProperty 1) (encodeMessage (oneProperty 1)) := by
  have hstorable : Storable plainLib (storedMessage (some [1, 2]) 200) true
      [120, 94, 99, 100, 2, 0, 0, 6, 0, 4] [1, 2] :=
    storedMessage_storable rfl (by decide +kernel)
  have hlengths := lengths_true_iff plainLib noFloats
  constructor
  · cases hencode : encodeMessageExt plainLib
        (storedMessage (some [1, 2]) 200) true with
    | error e =>
      have hsome : (encodeMessageExt plainLib
          (storedMessage (some [1, 2]) 200) true).toOption.isSome = true := by
        decide +kernel
      rw [hencode] at hsome
      cases hsome
    | ok frame =>
      exact ⟨frame, rfl, (hlengths.1 _ _ _ _ hstorable.written hencode).1.mpr
        ⟨hstorable.size, hstorable.properties⟩⟩
  · exact (hlengths.2.1 _).1.mpr ⟨by decide +kernel, by decide +kernel⟩

theorem length_oneProperty (n : Nat) :
    (propertiesBytes (oneProperty n).properties).length = n + 3 := by
  rw [propertiesBytes, strBytes, messageProperties2String_toList, Utf8.length_encode_ascii]
  · simp [oneProperty, propertyText]
  · intro c hc
    have hmem : c = 'k' ∨ c = '\x01' ∨ (n ≠ 0 ∧ c = 'a') ∨ c = '\x02' := by
      simpa [oneProperty, propertyText] using hc
    rcases hmem with rfl | rfl | ⟨_, rfl⟩ | rfl <;> decide

theorem decodeBatchMessage_of_wrapped {lib : StoreLib} {m : Message} (hbody : m.body = none)
    (hlen : u16 (propertiesBytes m.properties).length = [0, 0]) :
    decodeBatchMessage lib (encodeMessage m)
      = .ok ⟨"", (Int32.ofInt m.flag).toInt, ⟨[]⟩, some []⟩ := by
  have hempty : Reads batchBody (len32 0) [] := by
    have hread := @reads_batchBody [] (by decide)
    rwa [append_nil] at hread
  have hnone : Reads (readProperties lib) [0, 0] ⟨[]⟩ := by
    have hread := @reads_properties lib ⟨[]⟩ (by decide)
    exact hread
  have hread : Reads (batchReader lib)
      (len32 (batchSize m) ++ (i32 0 ++ (i32 0
        ++ (i32 (Int32.ofInt m.flag) ++ (len32 0 ++ [0, 0])))))
      ⟨"", (Int32.ofInt m.flag).toInt, ⟨[]⟩, some []⟩ :=
    (reads_i32 _).bind ((reads_i32 _).bind ((reads_i32 _).bind ((reads_i32 _).bind
      (hempty.bind (hnone.bind_nil (.pure _))))))
  have hframe : encodeMessage m = (len32 (batchSize m) ++ (i32 0 ++ (i32 0
      ++ (i32 (Int32.ofInt m.flag) ++ (len32 0 ++ [0, 0])))))
        ++ propertiesBytes m.properties := by
    simp only [encodeMessage, batchSize, hbody, Option.getD_none, append_nil,
      length_nil, append_assoc]
    rw [hlen]
  rw [decodeBatchMessage, hframe, hread.run]
  rfl

/-- 65536 bytes of properties are announced as none, and none are decoded. -/
theorem long_properties_lost :
    ¬ BatchTells (oneProperty 65533) (encodeMessage (oneProperty 65533)) ∧
    decodeBatchMessage plainLib (encodeMessage (oneProperty 65533))
      = .ok ⟨"", 0, ⟨[]⟩, some []⟩ := by
  have hlen := length_oneProperty 65533
  refine ⟨fun h => ?_, decodeBatchMessage_of_wrapped rfl ?_⟩
  · have hfits := ((batchTells_iff _).mp h).2
    omega
  · rw [hlen]
    decide

end RocketMQ.MessageDecoder
