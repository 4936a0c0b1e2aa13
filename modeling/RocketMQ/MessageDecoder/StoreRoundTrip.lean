/-
  File:      RocketMQ/MessageDecoder/StoreRoundTrip.lean
  Subject:   A store frame is decoded as the message that was encoded.

  * `reads_storeFields`: **the seventeen fields are read back**, whatever is in them, as long as
    the lengths fit their fields;
  * `decodeMessageWith_padded`: so is the padded frame that the encoder returns;
  * `store_frame_round_trip`: **the message comes back**, the declared size and the body apart.
-/
import RocketMQ.MessageDecoder.StoreFrame

namespace RocketMQ.MessageDecoder

open Binary Writer

variable {lib : StoreLib}

/-! ## 1. Field by field -/

variable {α β : Type} {options : DecodeOptions} {m : MessageExt}
  {body bornOctets storeOctets out : List UInt8} {back : Option (List UInt8) × Int32}
  {bornHost storeHost : String} {needCompress : Bool}

theorem bind_eq_ok {ε : Type} {x : Except ε α} {f : α → Except ε β} {b : β} :
    (x >>= f) = .ok b ↔ ∃ a, x = .ok a ∧ f a = .ok b := by
  cases x with
  | error e => exact ⟨fun h => (nomatch h), fun ⟨_, h, _⟩ => (nomatch h)⟩
  | ok a => exact ⟨fun h => ⟨a, rfl, h⟩, fun ⟨_, ha, h⟩ => Except.ok.inj ha ▸ h⟩

theorem bind_orFail {result : Except Error α} {a : α} {f : α → Read Fault β} {bs : List UInt8}
    {b : β} (h : result = .ok a) (hf : Reads (f a) bs b) : Reads (orFail result >>= f) bs b := by
  rw [h]
  exact hf

theorem reads_orFail {result : Except Error α} {a : α} (h : result = .ok a) :
    Reads (orFail result) [] a := by
  rw [h]
  exact .pure a

theorem hostLength_eq (sysFlag v6Flag : Int32) :
    hostLength sysFlag v6Flag = width (hasFlag sysFlag v6Flag) + 4 := by
  unfold hostLength width
  cases hasFlag sysFlag v6Flag <;> rfl

theorem reads_host {sysFlag v6Flag : Int32} {octets : List UInt8} {ip : String}
    (h : Printed lib (hasFlag sysFlag v6Flag) octets ip) (port : UInt32) :
    Reads (readHost lib (hostLength sysFlag v6Flag)) (octets ++ u32 port) (ip, port) := by
  have hlen := h.length_host port
  rw [← hostLength_eq] at hlen
  exact (reads_bytes hlen).bind_nil (reads_orFail (h.bytesToIpAndPort port))

/-- What the decoder makes of the body that was written. -/
def bodyBack (lib : StoreLib) (options : DecodeOptions) (m : MessageExt) (body : List UInt8) :
    Except Error (Option (List UInt8) × Int32) :=
  if body = [] then .ok (none, m.sysFlag) else openBody lib options m.sysFlag m.bodyCrc body

theorem reads_body (hlen : body.length < 2 ^ 31) (h : bodyBack lib options m body = .ok back) :
    Reads (readBody lib options m.sysFlag m.bodyCrc) (len32 body.length ++ body) back := by
  have hint := Int32.toInt_ofNat_of_lt hlen
  refine (reads_i32 (Int32.ofNat body.length)).bind ?_
  unfold bodyBack at h
  by_cases hnil : body = []
  · subst hnil
    cases h
    exact .pure _
  · rw [if_neg hnil] at h
    rw [bodyOfLen, if_pos, hint]
    · exact (reads_bytes rfl).bind_nil (reads_orFail h)
    · rw [Int32.lt_iff_toInt_lt, hint]
      exact Int.natCast_pos.mpr (List.length_pos_iff.mpr hnil)

theorem fails_body {e : Error} (hlen : body.length < 2 ^ 31)
    (h : bodyBack lib options m body = .error e) :
    Fails (readBody lib options m.sysFlag m.bodyCrc) (len32 body.length ++ body) := by
  have hint := Int32.toInt_ofNat_of_lt hlen
  refine (reads_i32 (Int32.ofNat body.length)).bind_fails ?_
  unfold bodyBack at h
  by_cases hnil : body = []
  · rw [if_pos hnil] at h
    cases h
  · rw [if_neg hnil] at h
    rw [bodyOfLen, if_pos, hint]
    · have hopen : Fails (orFail (openBody lib options m.sysFlag m.bodyCrc body)) [] := by
        rw [h]
        exact fun _ _ => ⟨_, rfl⟩
      have hfail := (@reads_bytes _ body rfl).bind_fails
        (f := fun b => orFail (openBody lib options m.sysFlag m.bodyCrc b)) hopen
      rwa [List.append_nil] at hfail
    · rw [Int32.lt_iff_toInt_lt, hint]
      exact Int.natCast_pos.mpr (List.length_pos_iff.mpr hnil)

theorem lossyText_strBytes (s : String) : lossyText lib (strBytes s) = s := by
  rw [lossyText, strBytes, Utf8.decode_eq_some.mpr rfl]
  dsimp only
  rw [String.ofList_toList]

theorem reads_topic {topic : String} (h : (strBytes topic).length ≤ 255) :
    Reads (readTopic lib false)
      (u8 (UInt8.ofNat (strBytes topic).length) ++ strBytes topic) topic := by
  have hbyte : (UInt8.ofNat (strBytes topic).length).toNat = (strBytes topic).length :=
    Utf8.toNat_ofNat_of_lt (Nat.lt_succ_of_le h)
  have hlen := (reads_u8 (UInt8.ofNat (strBytes topic).length)).map UInt8.toNat
  rw [hbyte] at hlen
  have htext := (@reads_bytes _ (strBytes topic) rfl).map (lossyText lib)
  rw [lossyText_strBytes] at htext
  exact hlen.bind htext

theorem reads_properties {properties : ExtFields}
    (h : (propertiesBytes properties).length ≤ 65535) :
    Reads (readProperties lib)
      (u16 (propertiesBytes properties).length ++ propertiesBytes properties)
      (string2MessageProperties (messageProperties2String properties)) := by
  have htext := (@reads_bytes _ (propertiesBytes properties) rfl).map fun bytes =>
    string2MessageProperties (lossyText lib bytes)
  rw [propertiesBytes, lossyText_strBytes] at htext
  exact (reads_u16 (Nat.lt_succ_of_le h)).bind htext

/-! ## 2. The whole frame -/

/-- The message that is read from the fields of `m`. -/
def readBack (m : MessageExt) (options : DecodeOptions) (storeSize : Nat)
    (bornHost storeHost : String) (storeAddr : List UInt8) (back : Option (List UInt8) × Int32) :
    MessageExt :=
  { m with
    storeSize := Int32.ofNat storeSize
    bornHost := some bornHost
    storeHost := some storeHost
    body := back.1
    sysFlag := back.2
    properties := string2MessageProperties (messageProperties2String m.properties)
    msgId := some (createMessageId storeAddr m.commitLogOffset)
    offsetMsgId :=
      if options.isClient then some (createMessageId storeAddr m.commitLogOffset) else none
    transactionId := none
    brokerName := none
    msgType := none }

/-- The frame of the fields, filled up to the size it declares. -/
def padded (m : MessageExt) (bornAddr storeAddr body : List UInt8) : List UInt8 :=
  let storeSize := storeSizeOf m.storeSize
    (messageBytesSize m.topic body.length m.properties m.sysFlag)
  let fields := frameFields m storeSize bornAddr storeAddr body
  fields ++ List.replicate (storeSize - fields.length) 0

/-- **When the encoder returns a frame**, and which. -/
theorem encodeMessageExt_eq_ok_iff {frame : List UInt8} :
    encodeMessageExt lib m needCompress = .ok frame ↔
      ∃ body bornAddr storeAddr,
        writtenBody lib m needCompress = .ok body ∧ (strBytes m.topic).length ≤ 255 ∧
        ipAndPortToBytes lib (m.bornHost.getD "127.0.0.1") m.bornHostPort
          (hasFlag m.sysFlag bornhostV6Flag) = .ok bornAddr ∧
        ipAndPortToBytes lib (m.storeHost.getD "127.0.0.1") m.storeHostPort
          (hasFlag m.sysFlag storehostaddressV6Flag) = .ok storeAddr ∧
        frame = padded m bornAddr storeAddr body := by
  unfold encodeMessageExt
  rw [bind_eq_ok]
  constructor
  · intro h
    obtain ⟨body, hbody, h⟩ := h
    by_cases htopic : (strBytes m.topic).length > 255
    · cases (if_pos htopic).symm.trans h
    · rw [if_neg htopic] at h
      obtain ⟨bornAddr, hborn, h⟩ := bind_eq_ok.mp h
      obtain ⟨storeAddr, hstore, h⟩ := bind_eq_ok.mp h
      exact ⟨body, bornAddr, storeAddr, hbody, Nat.le_of_not_lt htopic, hborn, hstore,
        (Except.ok.inj h).symm⟩
  · intro h
    obtain ⟨body, bornAddr, storeAddr, hbody, htopic, hborn, hstore, rfl⟩ := h
    refine ⟨body, hbody, ?_⟩
    rw [if_neg (not_lt.mpr htopic)]
    exact bind_eq_ok.mpr ⟨bornAddr, hborn, bind_eq_ok.mpr ⟨storeAddr, hstore, rfl⟩⟩

section

variable (hborn : Printed lib (hasFlag m.sysFlag bornhostV6Flag) bornOctets bornHost)
  (hstore : Printed lib (hasFlag m.sysFlag storehostaddressV6Flag) storeOctets storeHost)
  (hlen : body.length < 2 ^ 31)
include hborn hstore hlen

/-- A body that cannot be opened fails the frame. -/
theorem fails_storeFields {e : Error} (storeSize : Nat)
    (hbody : bodyBack lib options m body = .error e) :
    Fails (storeReader lib options)
      (frameFields m storeSize (bornOctets ++ u32 m.bornHostPort)
        (storeOctets ++ u32 m.storeHostPort) body) := by
  refine (reads_i32 _).bind_fails ((reads_i32 _).bind_fails ?_)
  show Fails (orFail (.ok false) >>= _) ([] ++ _)
  refine (reads_orFail rfl).bind_fails ((reads_u32 _).bind_fails ((reads_i32 _).bind_fails ?_))
  refine (reads_i32 _).bind_fails ((reads_i64 _).bind_fails ((reads_i64 _).bind_fails ?_))
  refine (reads_i32 _).bind_fails ((reads_i64 _).bind_fails ((reads_host hborn _).bind_fails ?_))
  refine (reads_i64 _).bind_fails ((reads_host hstore _).bind_fails ((reads_i32 _).bind_fails ?_))
  exact (reads_i64 _).bind_fails (fails_body hlen hbody).bind

variable (hbody : bodyBack lib options m body = .ok back) (htopic : (strBytes m.topic).length ≤ 255)
  (hproperties : (propertiesBytes m.properties).length ≤ 65535)
include hbody htopic hproperties

/-- **The seventeen fields are read back.** -/
theorem reads_storeFields (storeSize : Nat) :
    Reads (storeReader lib options)
      (frameFields m storeSize (bornOctets ++ u32 m.bornHostPort)
        (storeOctets ++ u32 m.storeHostPort) body)
      (readBack m options storeSize bornHost storeHost
        (storeOctets ++ u32 m.storeHostPort) back) := by
  refine (reads_i32 _).bind ((reads_i32 _).bind (bind_orFail (a := false) (by decide) ?_))
  refine (reads_u32 _).bind ((reads_i32 _).bind ((reads_i32 _).bind ?_))
  refine (reads_i64 _).bind ((reads_i64 _).bind ((reads_i32 _).bind ((reads_i64 _).bind ?_)))
  refine (reads_host hborn _).bind ((reads_i64 _).bind ((reads_host hstore _).bind ?_))
  refine (reads_i32 _).bind ((reads_i64 _).bind ?_)
  refine (reads_body hlen hbody).bind ((reads_topic htopic).bind ?_)
  exact (reads_properties hproperties).bind_nil
    (bind_orFail (hstore.ipAndPortToBytes _) (.pure _))

theorem decodeMessageWith_padded :
    decodeMessageWith lib
        (padded m (bornOctets ++ u32 m.bornHostPort)
          (storeOctets ++ u32 m.storeHostPort) body) options
      = .ok (readBack m options
          (storeSizeOf m.storeSize (messageBytesSize m.topic body.length m.properties m.sysFlag))
          bornHost storeHost (storeOctets ++ u32 m.storeHostPort) back) := by
  have hread := (reads_storeFields hborn hstore hlen hbody htopic hproperties
    (storeSizeOf m.storeSize (messageBytesSize m.topic body.length m.properties m.sysFlag))).run
  rw [decodeMessageWith, padded, hread]
  rfl

end

/-! ## 3. Round trips -/

/-- **The messages that a store frame holds**, with the body as it is written and as it is read:
one that carries the flag and is not to be compressed counts as compressed already. -/
structure Storable (lib : StoreLib) (m : MessageExt) (needCompress : Bool)
    (body plain : List UInt8) : Prop where
  topic : (strBytes m.topic).length ≤ 255
  clean : ∀ e ∈ m.properties.entries, CleanProperty e
  distinct : (m.properties.entries.map Prod.fst).Nodup
  properties : (propertiesBytes m.properties).length ≤ 65535
  bornHost : ∃ octets ip, m.bornHost = some ip ∧
    Printed lib (hasFlag m.sysFlag bornhostV6Flag) octets ip
  storeHost : ∃ octets ip, m.storeHost = some ip ∧
    Printed lib (hasFlag m.sysFlag storehostaddressV6Flag) octets ip
  written : writtenBody lib m needCompress = .ok body
  size : messageBytesSize m.topic body.length m.properties m.sysFlag < 2 ^ 31
  same : needCompress = true ∨ hasFlag m.sysFlag compressedFlag = false → plain = m.body.getD []
  /-- a body that is compressed already -/
  packed : needCompress = false → hasFlag m.sysFlag compressedFlag = true → body ≠ [] →
    decompress lib body (getCompressionType m.sysFlag) = .ok plain

/-- **The message that comes back**: it has the size of its frame and an id. -/
def stored (m : MessageExt) (body plain : List UInt8) (id : String) : MessageExt :=
  let size := messageBytesSize m.topic body.length m.properties m.sysFlag
  { m with
    storeSize := if m.storeSize.toInt < size then Int32.ofNat size else m.storeSize
    body := if body = [] then none else some plain
    sysFlag :=
      if body ≠ [] ∧ hasFlag m.sysFlag compressedFlag then m.sysFlag &&& ~~~compressedFlag
      else m.sysFlag
    msgId := some id
    offsetMsgId := some id
    transactionId := none
    brokerName := none
    msgType := none }

theorem orFailed_eq_ok {failed : String → Error} {what : String}
    {answer : Except String (List UInt8)} :
    orFailed failed what answer = .ok out ↔ answer = .ok out := by
  cases answer with
  | ok data => simp [orFailed]
  | error e => exact ⟨fun h => (nomatch h), fun h => (nomatch h)⟩

/-- **What was compressed is decompressed.** -/
theorem decompress_of_compress {data : List UInt8} {compressionType : Int32} {level : Int}
    (h : compress lib data compressionType level = .ok out) :
    decompress lib out compressionType = .ok data := by
  unfold compress at h
  unfold decompress
  split at h
  · rename_i htype
    unfold zlibCompress at h
    split at h
    · rw [if_pos htype]
      exact orFailed_eq_ok.mpr (lib.decompress_compress _ _ _ _ (orFailed_eq_ok.mp h))
    · cases h
  · rename_i hzlib
    rw [if_neg hzlib]
    split at h
    · rename_i htype
      rw [if_pos htype]
      exact orFailed_eq_ok.mpr (lib.decompress_compress _ _ _ _ (orFailed_eq_ok.mp h))
    · rename_i hlz4
      rw [if_neg hlz4]
      split at h
      · rename_i htype
        rw [if_pos htype]
        exact orFailed_eq_ok.mpr (lib.decompress_compress _ _ _ _ (orFailed_eq_ok.mp h))
      · cases h

theorem decompress_written (h : writtenBody lib m true = .ok body)
    (hflag : hasFlag m.sysFlag compressedFlag = true) :
    decompress lib body (getCompressionType m.sysFlag) = .ok (m.body.getD []) := by
  rw [writtenBody, hflag] at h
  exact decompress_of_compress h

theorem Storable.bodyBack {plain : List UInt8} (h : Storable lib m needCompress body plain) :
    bodyBack lib .default m body = .ok ((stored m body plain "").body,
      (stored m body plain "").sysFlag) := by
  unfold MessageDecoder.bodyBack stored
  by_cases hnil : body = []
  · simp [hnil]
  · rw [if_neg hnil, if_neg hnil]
    unfold openBody
    by_cases hflag : hasFlag m.sysFlag compressedFlag = true
    · have hopen : decompress lib body (getCompressionType m.sysFlag) = .ok plain := by
        cases hneed : needCompress with
        | false => exact h.packed hneed hflag hnil
        | true =>
          have hwritten := h.written
          rw [hneed] at hwritten
          rw [h.same (.inl hneed)]
          exact decompress_written hwritten hflag
      simp [DecodeOptions.default, hflag, hnil, hopen, bind, Except.bind, pure, Except.pure]
    · rw [Bool.not_eq_true] at hflag
      have hwritten := h.written
      rw [writtenBody, hflag, Bool.and_false] at hwritten
      have hbody : body = plain := by
        rw [h.same (.inr hflag)]
        exact (Except.ok.inj hwritten).symm
      simp [DecodeOptions.default, hflag, hbody]

theorem ofNat_storeSizeOf {declared : Int32} {computed : Nat} (hpos : 0 < computed)
    (h : computed < 2 ^ 31) :
    Int32.ofNat (storeSizeOf declared computed)
      = if declared.toInt < computed then Int32.ofNat computed else declared := by
  have hint := Int32.toInt_ofNat_of_lt h
  unfold storeSizeOf
  simp only [Int32.lt_iff_toInt_lt, Int32.toInt_zero, hint]
  by_cases hsize : declared.toInt < computed
  · split
    · rw [max_eq_right (Int.le_of_lt hsize), Int.toNat_natCast]
    · rfl
  · have hbits := toNat_toBitVec (v := declared) (by omega)
    rw [if_neg hsize, if_pos (by omega), max_eq_left (Int.not_lt.mp hsize), ← hbits,
      Int.toNat_natCast, ofNat_toBitVec]

theorem messageBytesSize_pos (topic : String) (bodyLen : Nat) (properties : ExtFields)
    (sysFlag : Int32) : bodyLen < messageBytesSize topic bodyLen properties sysFlag := by
  unfold messageBytesSize headerWithoutBodyLen
  omega

/-- **A store frame is decoded as the message that was encoded.** -/
theorem store_frame_round_trip {m : MessageExt} {needCompress : Bool} {body plain : List UInt8}
    (h : Storable lib m needCompress body plain) :
    ∃ frame id host, encodeMessageExt lib m needCompress = .ok frame ∧
      decodeMessage lib frame = .ok (stored m body plain id) ∧
      m.storeHost = some host ∧
      decodeMessageId lib id = .ok (host, m.storeHostPort, m.commitLogOffset) := by
  obtain ⟨bornOctets, bornHost, hborn, hbornPrinted⟩ := h.bornHost
  obtain ⟨storeOctets, storeHost, hstore, hstorePrinted⟩ := h.storeHost
  have hlen := messageBytesSize_pos m.topic body.length m.properties m.sysFlag
  have hsize := h.size
  have hbornAddr := hbornPrinted.ipAndPortToBytes m.bornHostPort
  have hstoreAddr := hstorePrinted.ipAndPortToBytes m.storeHostPort
  have hencode := encodeMessageExt_eq_ok_iff.mpr ⟨body, _, _, h.written, h.topic,
    (by rw [hborn]; exact hbornAddr), (by rw [hstore]; exact hstoreAddr), rfl⟩
  refine ⟨_, createMessageId (storeOctets ++ u32 m.storeHostPort) m.commitLogOffset,
    storeHost, hencode, ?_, hstore, hstorePrinted.decodeMessageId _ _⟩
  rw [decodeMessage, decodeMessageWith_padded hbornPrinted hstorePrinted (by omega) h.bodyBack
    h.topic h.properties, readBack, string2MessageProperties_of_clean h.clean h.distinct,
    ofNat_storeSizeOf (by omega) hsize]
  simp only [stored, hborn, hstore]
  rfl

end RocketMQ.MessageDecoder

namespace RocketMQ.Script

open List MessageDecoder

/-- One character for each octet. -/
def octetText (octets : List UInt8) : String :=
  String.ofList (octets.map fun b => Char.ofNat b.toNat)

def octetParse (text : String) : Option IpAddr :=
  let octets := text.toList.map fun c => UInt8.ofNat c.toNat
  if h : octets.length = 4 then some (.v4 ⟨octets, h⟩)
  else if h : octets.length = 16 then some (.v6 ⟨octets, h⟩)
  else if text = "10.0.0.1" then some (.v4 ⟨[10, 0, 0, 1], rfl⟩)
  else if text = "2001:db8::1" then
    some (.v6 ⟨[32, 1, 13, 184, 0, 0, 0, 0, 0, 0, 0, 0, 0, 0, 0, 1], rfl⟩)
  else none

theorem octets_back (octets : List UInt8) :
    (octetText octets).toList.map (fun c => UInt8.ofNat c.toNat) = octets := by
  rw [octetText, String.toList_ofList, map_map]
  have hback : ∀ b : UInt8, ((fun c : Char => UInt8.ofNat c.toNat) ∘ fun b : UInt8 =>
      Char.ofNat b.toNat) b = b := by
    decide +kernel
  rw [map_congr_left fun b _ => hback b, map_id']

/-- The zlib stream of a body at level 5, for two bodies. -/
def zlibStream (data : List UInt8) : Option (List UInt8) :=
  if data = [] then some [120, 94, 3, 0, 0, 0, 0, 1]
  else if data = [1, 2] then some [120, 94, 99, 100, 2, 0, 0, 6, 0, 4]
  else none

/-- A library that prints the two addresses and compresses the two bodies of the message below, and
keeps all other addresses as octets. -/
def plainLib : StoreLib where
  parseIp := octetParse
  printV4 o := if o.1 = [10, 0, 0, 1] then "10.0.0.1" else octetText o.1
  printV6 o :=
    if o.1 = [32, 1, 13, 184, 0, 0, 0, 0, 0, 0, 0, 0, 0, 0, 0, 1] then "2001:db8::1"
    else octetText o.1
  parse_printV4 o := by
    split
    · rename_i h
      obtain rfl : o = ⟨[10, 0, 0, 1], rfl⟩ := Subtype.ext h
      rfl
    · unfold octetParse
      simp only [octets_back]
      rw [dif_pos o.2]
  parse_printV6 o := by
    split
    · rename_i h
      obtain rfl : o = ⟨[32, 1, 13, 184, 0, 0, 0, 0, 0, 0, 0, 0, 0, 0, 0, 1], rfl⟩ := Subtype.ext h
      rfl
    · unfold octetParse
      simp only [octets_back]
      rw [dif_neg (by rw [o.2]; decide), dif_pos o.2]
  lossy _ := ""
  compress _ _ data := (zlibStream data).elim (.error "unknown") .ok
  decompress _ data :=
    if zlibStream [] = some data then .ok []
    else if zlibStream [1, 2] = some data then .ok [1, 2]
    else .error "unknown"
  decompress_compress := by
    intro _ _ data out h
    by_cases hnil : data = []
    · subst hnil
      cases h
      rfl
    · by_cases htwo : data = [1, 2]
      · subst htwo
        cases h
        rfl
      · rw [zlibStream, if_neg hnil, if_neg htwo] at h
        cases h

/-- A message to be compressed, born on an IPv4 host and stored on an IPv6 one. -/
def storedMessage (body : Option (List UInt8)) (storeSize : Int32) : MessageDecoder.MessageExt :=
  { topic := "T"
    flag := 7
    body
    properties := ⟨[("TAGS", "a"), ("KEYS", "k\x01")]⟩
    transactionId := none
    queueId := 3
    storeSize
    queueOffset := 11
    sysFlag := 0x321
    bornTimestamp := 1000
    bornHost := some "10.0.0.1"
    bornHostPort := 4000
    storeTimestamp := 1001
    storeHost := some "2001:db8::1"
    storeHostPort := 10911
    msgId := none
    commitLogOffset := 4096
    bodyCrc := 5
    reconsumeTimes := 0
    preparedTransactionOffset := 0
    brokerName := none
    offsetMsgId := none
    msgType := none }

theorem storedMessage_storable {body : Option (List UInt8)} {storeSize : Int32}
    {packed : List UInt8} (hpacked : zlibStream (body.getD []) = some packed)
    (h : messageBytesSize "T" packed.length (storedMessage body storeSize).properties 0x321
      < 2 ^ 31) :
    Storable plainLib (storedMessage body storeSize) true packed (body.getD []) where
  topic := by
    show (strBytes "T").length ≤ 255
    decide +kernel
  clean := by
    intro e he
    rcases mem_cons.mp he with rfl | he
    · exact ⟨by decide +kernel, by decide +kernel⟩
    · cases mem_singleton.mp he
      exact ⟨by decide +kernel, by decide +kernel⟩
  distinct := by
    show ["TAGS", "KEYS"].Nodup
    decide +kernel
  properties := by
    show (propertiesBytes ⟨[("TAGS", "a"), ("KEYS", "k\x01")]⟩).length ≤ 65535
    decide +kernel
  bornHost := by
    have hflag : hasFlag 0x321 bornhostV6Flag = false := by decide +kernel
    refine ⟨[10, 0, 0, 1], _, rfl, ?_⟩
    rw [show (storedMessage body storeSize).sysFlag = 0x321 from rfl]
    have hprinted : Printed plainLib false _ _ := .v4 ⟨[10, 0, 0, 1], rfl⟩
    exact hprinted
  storeHost := by
    have hflag : hasFlag 0x321 storehostaddressV6Flag = true := by decide +kernel
    refine ⟨[32, 1, 13, 184, 0, 0, 0, 0, 0, 0, 0, 0, 0, 0, 0, 1], _, rfl, ?_⟩
    rw [show (storedMessage body storeSize).sysFlag = 0x321 from rfl]
    have hprinted : Printed plainLib true _ _ :=
      .v6 ⟨[32, 1, 13, 184, 0, 0, 0, 0, 0, 0, 0, 0, 0, 0, 0, 1], rfl⟩
    exact hprinted
  written := by
    have hflag : hasFlag 0x321 compressedFlag = true := by decide +kernel
    have htype : getCompressionType 0x321 = 3 := by decide +kernel
    rw [writtenBody, show (storedMessage body storeSize).sysFlag = 0x321 from rfl, hflag, htype]
    show zlibCompress plainLib (body.getD []) defaultCompressLevel = .ok packed
    rw [zlibCompress, if_pos (by decide)]
    show orFailed _ _ ((zlibStream (body.getD [])).elim _ _) = _
    rw [hpacked]
    rfl
  size := h
  same _ := rfl
  packed hneed := by cases hneed

end RocketMQ.Script

namespace RocketMQ.MessageDecoder

open Script

/-- A compressed message, with more room declared than it needs. -/
theorem store_frame_round_trip_declared :
    ∃ frame id host,
      encodeMessageExt plainLib (storedMessage (some [1, 2]) 200) true = .ok frame ∧
      decodeMessage plainLib frame
        = .ok (stored (storedMessage (some [1, 2]) 200)
          [120, 94, 99, 100, 2, 0, 0, 6, 0, 4] [1, 2] id) ∧
      (storedMessage (some [1, 2]) 200).storeHost = some host ∧
      decodeMessageId plainLib id = .ok (host, 10911, 4096) :=
  store_frame_round_trip (storedMessage_storable rfl (by decide +kernel))

/-- Without a declared size the size of the frame comes back; a missing body that is compressed
comes back empty. -/
theorem undeclared_size_changes :
    Storable plainLib (storedMessage none 0) true [120, 94, 3, 0, 0, 0, 0, 1] [] ∧
    ((encodeMessageExt plainLib (storedMessage none 0) true).toOption.bind
      fun frame => (decodeMessage plainLib frame).toOption.map fun m =>
        (m.storeSize, m.body)) = some (127, some []) :=
  ⟨storedMessage_storable rfl (by decide +kernel), by decide +kernel⟩

end RocketMQ.MessageDecoder
