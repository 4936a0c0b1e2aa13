/-
  File:      RocketMQ/MessageDecoder/StoreFrame.lean
  Subject:   Messages in bytes: the store frame of seventeen fields, and the six fields of a batch.

  After `common/message_decoder.rs`, `common/compression.rs`, `common/sysflag.rs` and the checksum
  of `common/util_all.rs`. Lengths are narrowed as the source narrows them; only the length of the
  topic is checked before.

  * `crc32Raw_eq_bitwise`: the checksum by table against the one bit by bit;
  * `encodeMessageExt`, `decodeMessageWith`: the store frame;
  * `encodeMessage`, `decodeBatchMessage`: a message of a batch.
-/
import RocketMQ.Lib.Crc
import RocketMQ.MessageDecoder.Fields

namespace RocketMQ.MessageDecoder

open List Binary

/-! ## 1. Flags -/

def compressedFlag : Int32 := 0x1

def bornhostV6Flag : Int32 := 0x10

def storehostaddressV6Flag : Int32 := 0x20

/-- The flag has this bit. -/
def hasFlag (sysFlag flag : Int32) : Bool := sysFlag &&& flag != 0

def getCompressionType (sysFlag : Int32) : Int32 := (sysFlag &&& 0x700) >>> 8

def hostLength (sysFlag v6Flag : Int32) : Nat := if hasFlag sysFlag v6Flag then 20 else 8

/-! ## 2. Compression -/

section

variable (lib : StoreLib)

def normalizeCompressionType (compressionType : Int32) : Int32 :=
  if compressionType = 0 then 3 else compressionType

def unsupported (compressionType : Int32) : Error :=
  .decode ("unsupported compression type: " ++ toString compressionType.toInt)

/-- A crate's answer, its error behind what failed. -/
def orFailed (failed : String → Error) (what : String) (answer : Except String (List UInt8)) :
    Except Error (List UInt8) :=
  match answer with
  | .ok out => .ok out
  | .error e => .error (failed (what ++ " failed: " ++ e))

variable (data : List UInt8)

def zlibCompress (level : Int) : Except Error (List UInt8) :=
  if 0 ≤ level ∧ level ≤ 9 then orFailed .encode "zlib compress" (lib.compress .zlib level data)
  else .error (.encode ("invalid zlib level: " ++ toString level))

def lz4Compress : Except Error (List UInt8) :=
  orFailed .encode "lz4 compress" (lib.compress .lz4 0 data)

def zstdCompress (level : Int) : Except Error (List UInt8) :=
  orFailed .encode "zstd compress" (lib.compress .zstd level data)

def zlibDecompress : Except Error (List UInt8) :=
  orFailed .decode "zlib decompress" (lib.decompress .zlib data)

def lz4Decompress : Except Error (List UInt8) :=
  orFailed .decode "lz4 decompress" (lib.decompress .lz4 data)

def zstdDecompress : Except Error (List UInt8) :=
  orFailed .decode "zstd decompress" (lib.decompress .zstd data)

def defaultCompressLevel : Int := 5

def zstdDefaultLevel : Int := 3

/-- `compression::compress`. -/
def compress (compressionType : Int32) (level : Int) : Except Error (List UInt8) :=
  if normalizeCompressionType compressionType = 3 then zlibCompress lib data level
  else if normalizeCompressionType compressionType = 1 then lz4Compress lib data
  else if normalizeCompressionType compressionType = 2 then zstdCompress lib data zstdDefaultLevel
  else .error (unsupported compressionType)

/-- `compression::decompress`. -/
def decompress (compressionType : Int32) : Except Error (List UInt8) :=
  if normalizeCompressionType compressionType = 3 then zlibDecompress lib data
  else if normalizeCompressionType compressionType = 1 then lz4Decompress lib data
  else if normalizeCompressionType compressionType = 2 then zstdDecompress lib data
  else .error (unsupported compressionType)

end

/-! ## 3. The checksum -/

/-- One entry of `crc32_table`. -/
def crc32Entry (i : UInt32) : UInt32 :=
  (range 8).foldl (fun (c : UInt32) _ =>
    if c &&& 1 != 0 then (0xEDB88320 : UInt32) ^^^ (c >>> 1) else c >>> 1) i

def crc32Table : List UInt32 := (range 256).map fun i => crc32Entry (UInt32.ofNat i)

def crc32Raw (data : List UInt8) : UInt32 :=
  data.foldl (fun (crc : UInt32) b =>
    crc32Table.getD ((crc ^^^ b.toUInt32) &&& 0xFF).toNat 0 ^^^ (crc >>> 8)) 0xFFFFFFFF
    ^^^ 0xFFFFFFFF

def crc32 (data : List UInt8) : UInt32 := crc32Raw data &&& 0x7FFFFFFF

/-- The bit-by-bit checksum of the reflected polynomial `0xEDB88320`. -/
def crc32Bitwise (data : List UInt8) : UInt32 :=
  .ofBitVec ((data.flatMap fun b => Crc.bits b.toBitVec 8).foldl (Crc.feed 0xEDB88320#32)
    0xFFFFFFFF#32) ^^^ 0xFFFFFFFF

/-- The computation taken up behind data of checksum `crc`. -/
def crc32Resume (crc : UInt32) (data : List UInt8) : UInt32 :=
  data.foldl (fun (crc : UInt32) b =>
    crc32Table.getD ((crc ^^^ b.toUInt32) &&& 0xFF).toNat 0 ^^^ (crc >>> 8)) (crc ^^^ 0xFFFFFFFF)
    ^^^ 0xFFFFFFFF

theorem crc32Entry_turn (i : UInt32) :
    (crc32Entry i).toBitVec = Crc.turn 0xEDB88320#32 8 i.toBitVec := by
  refine (foldl_hom UInt32.toBitVec fun c _ => ?_).symm
  have hbit : (c &&& 1 != 0) = c.toBitVec.getLsbD 0 := by
    rw [Bool.eq_iff_iff, bne_iff_ne, ne_eq, ← UInt32.toBitVec_inj, UInt32.toBitVec_and]
    simp only [UInt32.toBitVec_one, BitVec.and_one_eq_setWidth_ofBool_getLsbD]
    cases c.toBitVec.getLsbD 0 <;> decide
  rw [hbit, Crc.feed, Bool.xor_false]
  split <;> simp

theorem crc32Table_getD (k : UInt32) :
    crc32Table.getD (k &&& 0xFF).toNat 0 = crc32Entry (k &&& 0xFF) := by
  have hlt : (k &&& 0xFF).toNat < 256 := by
    exact Nat.lt_succ_of_le Nat.and_le_right
  rw [crc32Table, getD_eq_getElem _ _ (by simpa using hlt), getElem_map,
    getElem_range, UInt32.ofNat_toNat]

/-- **One look into the table is eight bits of the message.** -/
theorem crc32Table_feed (crc : UInt32) (b : UInt8) :
    (crc32Table.getD ((crc ^^^ b.toUInt32) &&& 0xFF).toNat 0 ^^^ (crc >>> 8)).toBitVec =
      (Crc.bits b.toBitVec 8).foldl (Crc.feed 0xEDB88320#32) crc.toBitVec := by
  have hb : Crc.bits b.toBitVec 8 = Crc.bits b.toUInt32.toBitVec 8 := by
    refine map_congr_left fun i hi => ?_
    have := mem_range.mp hi
    simp
    omega
  have hhigh : b.toUInt32.toBitVec >>> 8 = 0#32 := by
    apply BitVec.eq_of_toNat_eq
    simpa [Nat.shiftRight_eq_div_pow] using b.toNat_lt
  have hlow : Crc.bits (crc ^^^ b.toUInt32).toBitVec 8 =
      Crc.bits ((crc ^^^ b.toUInt32) &&& 0xFF).toBitVec 8 := by
    have hmask : ∀ i < 8, (0xFF#32).getLsbD i = true := by decide
    refine map_congr_left fun i hi => ?_
    simp [hmask i (mem_range.mp hi)]
  have hlow0 : ((crc ^^^ b.toUInt32) &&& 0xFF).toBitVec >>> 8 = 0#32 := by
    rw [UInt32.toBitVec_and, BitVec.ushiftRight_and_distrib]
    exact BitVec.and_zero
  have hcrc : (crc >>> 8).toBitVec = crc.toBitVec >>> 8 := rfl
  -- the register and the octet are one word: its low octet is looked up, its high part shifts
  rw [hb, Crc.foldl_feed, hhigh, BitVec.xor_zero, ← UInt32.toBitVec_xor,
    Crc.turn_split _ hlow hlow0, crc32Table_getD, UInt32.toBitVec_xor, crc32Entry_turn,
    UInt32.toBitVec_xor crc, BitVec.ushiftRight_xor_distrib, hhigh, BitVec.xor_zero, hcrc]

/-- **The table computes the checksum of the polynomial**, and goes on behind what it has read. -/
theorem crc32Raw_eq_bitwise (a b : List UInt8) :
    crc32Raw a = crc32Bitwise a ∧ crc32Raw (a ++ b) = crc32Resume (crc32Raw a) b := by
  refine ⟨?_, ?_⟩
  · unfold crc32Raw crc32Bitwise
    rw [foldl_flatMap, UInt32.xor_left_inj, ← UInt32.toBitVec_inj]
    exact (foldl_hom UInt32.toBitVec fun crc b => (crc32Table_feed crc b).symm).symm
  · unfold crc32Raw crc32Resume
    rw [foldl_append, UInt32.xor_assoc _ _ 0xFFFFFFFF, UInt32.xor_self, UInt32.xor_zero]

example : crc32Bitwise [49, 50, 51, 52, 53, 54, 55, 56, 57] = 0xCBF43926 := by decide +kernel

/-! ## 4. The store frame, written -/

/-- `MessageExt`, with all its fields. -/
structure MessageExt where
  topic : String
  flag : Int32
  body : Option (List UInt8)
  properties : ExtFields
  transactionId : Option String
  queueId : Int32
  storeSize : Int32
  queueOffset : Int64
  sysFlag : Int32
  bornTimestamp : Int64
  bornHost : Option String
  bornHostPort : UInt32
  storeTimestamp : Int64
  storeHost : Option String
  storeHostPort : UInt32
  msgId : Option String
  commitLogOffset : Int64
  bodyCrc : UInt32
  reconsumeTimes : Int32
  preparedTransactionOffset : Int64
  brokerName : Option String
  offsetMsgId : Option String
  msgType : Option String
  deriving DecidableEq, Repr

def messageMagicCode : Int32 := -626843481

def messageMagicCodeV2 : Int32 := -626843477

def headerWithoutBodyLen : Nat := 4 + 4 + 4 + 4 + 4 + 8 + 8 + 4 + 8 + 8 + 4 + 8

/-- The bytes of the properties. -/
def propertiesBytes (properties : ExtFields) : List UInt8 :=
  strBytes (messageProperties2String properties)

def messageBytesSize (topic : String) (bodyLen : Nat) (properties : ExtFields) (sysFlag : Int32) :
    Nat :=
  headerWithoutBodyLen + hostLength sysFlag bornhostV6Flag
    + hostLength sysFlag storehostaddressV6Flag + 4 + bodyLen + 1 + (strBytes topic).length
    + (2 + (propertiesBytes properties).length)

section

variable (lib : StoreLib)

/-- The body as it is written: compressed, if that is asked for and the flag says so. -/
def writtenBody (m : MessageExt) (needCompress : Bool) : Except Error (List UInt8) :=
  if needCompress && hasFlag m.sysFlag compressedFlag then
    compress lib (m.body.getD []) (getCompressionType m.sysFlag) defaultCompressLevel
  else .ok (m.body.getD [])

/-- The size of the frame: the declared one, if the fields do not need more. -/
def storeSizeOf (declared : Int32) (computed : Nat) : Nat :=
  if 0 < declared then (max declared.toInt (Int32.ofNat computed).toInt).toNat else computed

/-- The seventeen fields. -/
def frameFields (m : MessageExt) (storeSize : Nat) (bornAddr storeAddr body : List UInt8) :
    List UInt8 :=
  Writer.len32 storeSize
    ++ (Writer.i32 messageMagicCode
    ++ (Writer.u32 m.bodyCrc
    ++ (Writer.i32 m.queueId
    ++ (Writer.i32 m.flag
    ++ (Writer.i64 m.queueOffset
    ++ (Writer.i64 m.commitLogOffset
    ++ (Writer.i32 m.sysFlag
    ++ (Writer.i64 m.bornTimestamp
    ++ (bornAddr
    ++ (Writer.i64 m.storeTimestamp
    ++ (storeAddr
    ++ (Writer.i32 m.reconsumeTimes
    ++ (Writer.i64 m.preparedTransactionOffset
    ++ ((Writer.len32 body.length ++ body)
    ++ ((Writer.u8 (UInt8.ofNat (strBytes m.topic).length) ++ strBytes m.topic)
    ++ (Writer.u16 (propertiesBytes m.properties).length
      ++ propertiesBytes m.properties))))))))))))))))

def encodeMessageExt (m : MessageExt) (needCompress : Bool) : Except Error (List UInt8) := do
  let body ← writtenBody lib m needCompress
  let topicLen := (strBytes m.topic).length
  if topicLen > 255 then
    throw (.encode ("topic length " ++ toString topicLen
      ++ " exceeds 1-byte field, needs magic code v2"))
  let storeSize := storeSizeOf m.storeSize
    (messageBytesSize m.topic body.length m.properties m.sysFlag)
  let bornAddr ← ipAndPortToBytes lib (m.bornHost.getD "127.0.0.1") m.bornHostPort
    (hasFlag m.sysFlag bornhostV6Flag)
  let storeAddr ← ipAndPortToBytes lib (m.storeHost.getD "127.0.0.1") m.storeHostPort
    (hasFlag m.sysFlag storehostaddressV6Flag)
  let fields := frameFields m storeSize bornAddr storeAddr body
  return fields ++ replicate (storeSize - fields.length) 0

/-! ## 5. The store frame, read -/

structure DecodeOptions where
  readBody : Bool
  decompressBody : Bool
  isClient : Bool
  checkCrc : Bool
  deriving DecidableEq, Repr

/-- `DecodeOptions::default`. -/
def DecodeOptions.default : DecodeOptions := ⟨true, true, true, false⟩

/-- The `?` behind a result. -/
def orFail {α : Type} (result : Except Error α) : Read Fault α :=
  match result with
  | .ok a => return a
  | .error e => Read.fail (.err e)

/-- The two magic codes; the second has a longer topic field. -/
def useV2 (magicCode : Int32) : Except Error Bool :=
  if magicCode = messageMagicCode then .ok false
  else if magicCode = messageMagicCodeV2 then .ok true
  else .error (.decode ("unknown magic code: " ++ toString magicCode.toInt))

/-- A host field. -/
def readHost (length : Nat) : Read Fault (String × UInt32) := do
  let addr ← Reader.bytes length
  orFail (bytesToIpAndPort lib addr)

variable (options : DecodeOptions)

/-- What becomes of the body and of the flag. -/
def openBody (sysFlag : Int32) (bodyCrc : UInt32) (body : List UInt8) :
    Except Error (Option (List UInt8) × Int32) :=
  if options.readBody then
    if options.checkCrc && crc32 body != bodyCrc then .error (.decode "Msg crc is error")
    else if options.decompressBody && hasFlag sysFlag compressedFlag then do
      let plain ← decompress lib body (getCompressionType sysFlag)
      return (some plain, sysFlag &&& ~~~compressedFlag)
    else .ok (some body, sysFlag)
  else .ok (none, sysFlag)

/-- The body behind its length. -/
def bodyOfLen (sysFlag : Int32) (bodyCrc : UInt32) (bodyLen : Int32) :
    Read Fault (Option (List UInt8) × Int32) :=
  if 0 < bodyLen then do
    let body ← Reader.bytes bodyLen.toInt.toNat
    orFail (openBody lib options sysFlag bodyCrc body)
  else return (none, sysFlag)

/-- Field 15. -/
def readBody (sysFlag : Int32) (bodyCrc : UInt32) :
    Read Fault (Option (List UInt8) × Int32) := do
  let bodyLen ← Reader.i32
  bodyOfLen lib options sysFlag bodyCrc bodyLen

/-- `String::from_utf8_lossy`. -/
def lossyText (bytes : List UInt8) : String :=
  match Utf8.decode bytes with
  | some cs => String.ofList cs
  | none => lib.lossy bytes

/-- The length of the topic. -/
def topicLen (v2 : Bool) : Read Fault Nat :=
  if v2 then Reader.u16
  else do
    let n ← Reader.u8
    return n.toNat

/-- Field 16. -/
def readTopic (v2 : Bool) : Read Fault String := do
  let n ← topicLen v2
  let bytes ← Reader.bytes n
  return lossyText lib bytes

/-- Field 17. -/
def readProperties : Read Fault ExtFields := do
  let n ← Reader.u16
  let bytes ← Reader.bytes n
  return string2MessageProperties (lossyText lib bytes)

/-- The reader of `decode_message_with`. -/
def storeReader : Read Fault MessageExt := do
  let storeSize ← Reader.i32
  let magicCode ← Reader.i32
  let v2 ← orFail (useV2 magicCode)
  let bodyCrc ← Reader.u32
  let queueId ← Reader.i32
  let flag ← Reader.i32
  let queueOffset ← Reader.i64
  let physicOffset ← Reader.i64
  let sysFlag ← Reader.i32
  let bornTimestamp ← Reader.i64
  let born ← readHost lib (hostLength sysFlag bornhostV6Flag)
  let storeTimestamp ← Reader.i64
  let store ← readHost lib (hostLength sysFlag storehostaddressV6Flag)
  let reconsumeTimes ← Reader.i32
  let preparedTransactionOffset ← Reader.i64
  let body ← readBody lib options sysFlag bodyCrc
  let topic ← readTopic lib v2
  let properties ← readProperties lib
  let addr ← orFail (ipAndPortToBytes lib store.1 store.2
    (hasFlag sysFlag storehostaddressV6Flag))
  let msgId := createMessageId addr physicOffset
  return {
    topic, flag, queueId, storeSize, queueOffset, bornTimestamp, storeTimestamp, bodyCrc
    reconsumeTimes, preparedTransactionOffset, properties
    body := body.1
    sysFlag := body.2
    bornHost := some born.1
    bornHostPort := born.2
    storeHost := some store.1
    storeHostPort := store.2
    commitLogOffset := physicOffset
    msgId := some msgId
    offsetMsgId := if options.isClient then some msgId else none
    transactionId := none
    brokerName := none
    msgType := none }

def decodeMessageWith (raw : List UInt8) (options : DecodeOptions) : Except Fault MessageExt :=
  (storeReader lib options raw 0).map Prod.fst

def decodeMessage (raw : List UInt8) : Except Fault MessageExt :=
  decodeMessageWith lib raw DecodeOptions.default

/-! ## 6. A message of a batch -/

def encodeMessage (m : Message) : List UInt8 :=
  let body := m.body.getD []
  let properties := propertiesBytes m.properties
  Writer.len32 (4 + 4 + 4 + 4 + 4 + body.length + 2 + properties.length)
    ++ (Writer.i32 0
    ++ (Writer.i32 0
    ++ (Writer.i32 (Int32.ofInt m.flag)
    ++ ((Writer.len32 body.length ++ body)
    ++ (Writer.u16 properties.length ++ properties)))))

/-- The body of a batch message: a negative length counts as 0. -/
def batchBody : Read Fault (List UInt8) := do
  let bodyLen ← Reader.i32
  Reader.bytes (max bodyLen.toInt 0).toNat

/-- The reader of `decode_batch_message`. -/
def batchReader : Read Fault Message := do
  let _storeSize ← Reader.i32
  let _magicCode ← Reader.i32
  let _bodyCrc ← Reader.i32
  let flag ← Reader.i32
  let body ← batchBody
  let properties ← readProperties lib
  return ⟨"", flag.toInt, properties, some body⟩

def decodeBatchMessage (raw : List UInt8) : Except Fault Message :=
  (batchReader lib raw 0).map Prod.fst

end

end RocketMQ.MessageDecoder
