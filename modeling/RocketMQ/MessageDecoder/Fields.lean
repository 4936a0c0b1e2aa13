/-
  File:      RocketMQ/MessageDecoder/Fields.lean
  Subject:   The fields of a store frame that have a format of their own.

  After `common/message_decoder.rs` and the hexadecimal text of `common/util_all.rs`. A host is an
  address and a port, a message id is the hexadecimal text of the store host and an offset, the
  properties are one text with a separator behind every name and every value.

  * `Printed.bytesToIpAndPort`: **a host is read back**;
  * `Printed.decodeMessageId`: **a message id tells the host and the offset** it was made of;
  * `string2MessageProperties_of_clean`: **the properties are read back**, in their order;
  * `propertiesLoop_occurs`: **only what stands in the text is read**.
-/
import RocketMQ.Remoting.RoundTrip

namespace RocketMQ.MessageDecoder

open List Binary Writer

/-! ## 1. What is outside -/

/-- The octets of an address. -/
abbrev Octets (n : Nat) := {bs : List UInt8 // bs.length = n}

/-- `std::net::IpAddr`. -/
inductive IpAddr where
  | v4 (octets : Octets 4)
  | v6 (octets : Octets 16)

inductive Algorithm where
  | zlib
  | lz4
  | zstd
  deriving DecidableEq, Repr

/-- **The standard library and the compression crates**: an address that is printed is parsed as
itself, and what was compressed is decompressed. -/
structure StoreLib where
  parseIp : String → Option IpAddr
  printV4 : Octets 4 → String
  printV6 : Octets 16 → String
  parse_printV4 : ∀ o, parseIp (printV4 o) = some (.v4 o)
  parse_printV6 : ∀ o, parseIp (printV6 o) = some (.v6 o)
  /-- `from_utf8_lossy` of bytes that are not UTF-8 -/
  lossy : List UInt8 → String
  /-- with a level; an error is the text of it -/
  compress : Algorithm → Int → List UInt8 → Except String (List UInt8)
  decompress : Algorithm → List UInt8 → Except String (List UInt8)
  decompress_compress : ∀ a level data out,
    compress a level data = .ok out → decompress a out = .ok data

section

variable (lib : StoreLib)

/-! ## 2. Hosts -/

def toV6Compatible (o : Octets 4) : Octets 16 :=
  ⟨[0, 0, 0, 0, 0, 0, 0, 0, 0, 0, 255, 255] ++ o.1, by rw [List.length_append, o.2]; rfl⟩

/-- `Ipv6Addr::to_ipv4`: the address is compatible to one of four octets, or mapped from it. -/
def toIpv4 (o : Octets 16) : Option (Octets 4) :=
  if o.1.take 10 = List.replicate 10 0 ∧
      ((o.1.drop 10).take 2 = [0, 0] ∨ (o.1.drop 10).take 2 = [255, 255]) then
    some ⟨o.1.drop 12, by rw [List.length_drop, o.2]⟩
  else none

def ipToBytes (ip : String) (v6 : Bool) : Except Error (List UInt8) :=
  match lib.parseIp ip, v6 with
  | none, _ => .error (.decode ("illegal ip address: " ++ ip))
  | some (.v4 o), false => .ok o.1
  | some (.v6 o), true => .ok o.1
  | some (.v4 o), true => .ok (toV6Compatible o).1
  | some (.v6 o), false =>
    match toIpv4 o with
    | some o => .ok o.1
    | none => .error (.decode ("ipv6 address " ++ ip
        ++ " needs BORNHOST_V6_FLAG / STOREHOSTADDRESS_V6_FLAG"))

def ipAndPortToBytes (ip : String) (port : UInt32) (v6 : Bool) : Except Error (List UInt8) := do
  let out ← ipToBytes lib ip v6
  return out ++ u32 port

def bytesToIp (bytes : List UInt8) (v6 : Bool) : Except Error String :=
  if v6 then
    if h : bytes.length = 16 then .ok (lib.printV6 ⟨bytes, h⟩)
    else .error (.decode "illegal ipv6 address length")
  else
    if h : bytes.length = 4 then .ok (lib.printV4 ⟨bytes, h⟩)
    else .error (.decode "illegal ipv4 address length")

/-- The address of `ipLen` octets and the port behind it. -/
def splitHost (raw : List UInt8) (ipLen : Nat) (v6 : Bool) : Except Error (String × UInt32) := do
  let ip ← bytesToIp lib (raw.take ipLen) v6
  return (ip, UInt32.ofNat (number ((raw.drop ipLen).take 4)))

def bytesToIpAndPort (raw : List UInt8) : Except Error (String × UInt32) :=
  match raw.length with
  | 8 => splitHost lib raw 4 false
  | 20 => splitHost lib raw 16 true
  | other => .error (.decode ("illegal host bytes length: " ++ toString other))

/-! ## 3. Message ids -/

def hexArray : List UInt8 := strBytes "0123456789ABCDEF"

/-- The digit of four bits. -/
def hexChar (n : Nat) : Char := "0123456789ABCDEF".toList.getD n '0'

def bytes2String (bytes : List UInt8) : String :=
  String.ofList (bytes.flatMap fun b => [hexChar (b.toNat / 16), hexChar (b.toNat % 16)])

/-- `to_ascii_uppercase`, on the bytes. -/
def upperByte (b : UInt8) : UInt8 := if 97 ≤ b ∧ b ≤ 122 then b - 32 else b

/-- The bytes that pairs of digits stand for. -/
def hexPairs : List UInt8 → Option (List UInt8)
  | [] => some []
  | [_] => none
  | hi :: lo :: rest => do
      let hi ← hexArray.idxOf? hi
      let lo ← hexArray.idxOf? lo
      let out ← hexPairs rest
      return UInt8.ofNat (hi * 16 + lo) :: out

def string2Bytes (hex : String) : Option (List UInt8) :=
  if hex = "" then none else hexPairs ((strBytes hex).map upperByte)

def createMessageId (addr : List UInt8) (offset : Int64) : String :=
  bytes2String (addr ++ i64 offset)

/-- The address of `ipLen` octets, the port and the offset of an id. -/
def splitMessageId (raw : List UInt8) (ipLen : Nat) : Except Error (String × UInt32 × Int64) := do
  let host ← bytesToIpAndPort lib (raw.take (ipLen + 4))
  return (host.1, host.2, Int64.ofNat (number ((raw.drop (ipLen + 4)).take 8)))

def decodeMessageId (msgId : String) : Except Error (String × UInt32 × Int64) :=
  match string2Bytes msgId with
  | none => .error (.decode ("illegal msgId: " ++ msgId))
  | some raw =>
    match raw.length with
    | 16 => splitMessageId lib raw 4
    | 28 => splitMessageId lib raw 16
    | other => .error (.decode ("illegal msgId length: " ++ toString other))

end

/-! ## 4. Properties -/

/-- One property of the text `t`, which starts at it and goes up to its separator or to the end.
The separator of name and value is looked for in all of `t`. -/
def insertProperty (t : List Char) (result : ExtFields) : ExtFields :=
  let part := t.takeWhile (· != '\x02')
  if 3 ≤ part.length then
    match t.idxOf? '\x01' with
    | some sep =>
      if 0 < sep ∧ sep < part.length - 1 then
        result.insert (String.ofList (t.take sep)) (String.ofList (part.drop (sep + 1)))
      else result
    | none => result
  else result

/-- The loop of `string_2_message_properties`; every round takes one character at least. -/
def propertiesLoop : Nat → List Char → ExtFields → ExtFields
  | 0, _, result => result
  | n + 1, t, result =>
    if t = [] then result
    else propertiesLoop n (t.drop ((t.takeWhile (· != '\x02')).length + 1))
      (insertProperty t result)

def string2MessageProperties (text : String) : ExtFields :=
  propertiesLoop text.toList.length text.toList ⟨[]⟩

/-! ## 5. Hosts are read back -/

/-- How many octets the addresses of a family have. -/
def width (v6 : Bool) : Nat := if v6 then 16 else 4

/-- **The octets of an address and its canonical text**, the one that is printed for it. -/
inductive Printed (lib : StoreLib) : Bool → List UInt8 → String → Prop where
  | v4 (o : Octets 4) : Printed lib false o.1 (lib.printV4 o)
  | v6 (o : Octets 16) : Printed lib true o.1 (lib.printV6 o)

section

variable {lib : StoreLib} {v6 : Bool} {octets : List UInt8} {ip : String}

theorem Printed.length (h : Printed lib v6 octets ip) : octets.length = width v6 := by
  cases h with
  | v4 o => exact o.2
  | v6 o => exact o.2

theorem Printed.ipToBytes (h : Printed lib v6 octets ip) : ipToBytes lib ip v6 = .ok octets := by
  cases h with
  | v4 o =>
    unfold MessageDecoder.ipToBytes
    rw [lib.parse_printV4]
  | v6 o =>
    unfold MessageDecoder.ipToBytes
    rw [lib.parse_printV6]

theorem Printed.bytesToIp (h : Printed lib v6 octets ip) : bytesToIp lib octets v6 = .ok ip := by
  cases h with
  | v4 o => rw [MessageDecoder.bytesToIp, if_neg Bool.false_ne_true, dif_pos o.2]
  | v6 o => rw [MessageDecoder.bytesToIp, if_pos rfl, dif_pos o.2]

theorem exists_printed (h : ipToBytes lib ip v6 = .ok octets) :
    ∃ text, Printed lib v6 octets text := by
  unfold ipToBytes at h
  split at h
  · cases h
  · cases h
    exact ⟨_, .v4 _⟩
  · cases h
    exact ⟨_, .v6 _⟩
  · cases h
    exact ⟨_, .v6 _⟩
  · split at h
    · cases h
      exact ⟨_, .v4 _⟩
    · cases h

variable (h : Printed lib v6 octets ip) (port : UInt32)
include h

theorem Printed.ipAndPortToBytes :
    ipAndPortToBytes lib ip port v6 = .ok (octets ++ u32 port) := by
  rw [MessageDecoder.ipAndPortToBytes, h.ipToBytes]
  rfl

theorem Printed.splitHost :
    splitHost lib (octets ++ u32 port) (width v6) v6 = .ok (ip, port) := by
  have hport : UInt32.ofNat (number ((u32 port).take 4)) = port := by
    exact congrArg Prod.fst (Except.ok.inj (reads_u32 port).whole)
  rw [MessageDecoder.splitHost, take_left' h.length, drop_left' h.length, h.bytesToIp,
    hport]
  rfl

theorem Printed.length_host : (octets ++ u32 port).length = width v6 + 4 := by
  rw [length_append, h.length, u32, length_bigEndian]

/-- **A host is read back.** -/
theorem Printed.bytesToIpAndPort :
    bytesToIpAndPort lib (octets ++ u32 port) = .ok (ip, port) := by
  have hsplit := h.splitHost port
  rw [MessageDecoder.bytesToIpAndPort, h.length_host port]
  cases v6 with
  | true | false => exact hsplit

/-! ## 6. Message ids are read back -/

omit h

theorem hexDigit_back : ∀ n < 16, hexArray.idxOf? (upperByte (Utf8.byte (hexChar n))) = some n := by
  decide +kernel

theorem hexChar_ascii : ∀ n < 16, (hexChar n).toNat < 128 := by
  decide +kernel

theorem hexPairs_back (bytes : List UInt8) :
    hexPairs ((strBytes (bytes2String bytes)).map upperByte) = some bytes := by
  rw [strBytes, bytes2String, String.toList_ofList]
  induction bytes with
  | nil => rfl
  | cons b bs ih =>
    have hb : b.toNat < 256 := b.toNat_lt
    have hhi := Utf8.encodeChar_ascii (hexChar_ascii (b.toNat / 16) (by omega))
    have hlo := Utf8.encodeChar_ascii (hexChar_ascii (b.toNat % 16) (by omega))
    rw [Utf8.encode] at ih ⊢
    rw [flatMap_cons, cons_append, cons_append, nil_append,
      flatMap_cons, flatMap_cons, hhi, hlo]
    rw [singleton_append, singleton_append, map_cons, map_cons, hexPairs,
      hexDigit_back _ (by omega), hexDigit_back _ (by omega), ih]
    have hbyte : UInt8.ofNat (b.toNat / 16 * 16 + b.toNat % 16) = b := by
      rw [Nat.div_add_mod', UInt8.ofNat_toNat]
    show some (UInt8.ofNat (b.toNat / 16 * 16 + b.toNat % 16) :: bs) = _
    rw [hbyte]

theorem string2Bytes_back {bytes : List UInt8} (h : bytes ≠ []) :
    string2Bytes (bytes2String bytes) = some bytes := by
  have hne : bytes2String bytes ≠ "" := by
    intro hempty
    have hback := hexPairs_back bytes
    rw [hempty] at hback
    exact h (Option.some.inj hback).symm
  rw [string2Bytes, if_neg hne, hexPairs_back]

/-- **A message id tells the host and the offset** it was made of. -/
theorem Printed.decodeMessageId (h : Printed lib v6 octets ip) (port : UInt32) (offset : Int64) :
    decodeMessageId lib (createMessageId (octets ++ u32 port) offset)
      = .ok (ip, port, offset) := by
  have haddr := h.length_host port
  have hlen : ((octets ++ u32 port) ++ i64 offset).length = width v6 + 12 := by
    rw [length_append, haddr, i64, length_bigEndian]
  have hne : (octets ++ u32 port) ++ i64 offset ≠ [] := by
    intro hnil
    rw [hnil, length_nil] at hlen
    omega
  have hoffset : Int64.ofNat (number ((i64 offset).take 8)) = offset := by
    exact congrArg Prod.fst (Except.ok.inj (reads_i64 offset).whole)
  have hsplit : splitMessageId lib ((octets ++ u32 port) ++ i64 offset) (width v6)
      = .ok (ip, port, offset) := by
    rw [splitMessageId, take_left' haddr, drop_left' haddr, h.bytesToIpAndPort, hoffset]
    rfl
  rw [MessageDecoder.decodeMessageId, createMessageId, string2Bytes_back hne]
  dsimp only
  rw [hlen]
  cases v6 with
  | true | false => exact hsplit

end

/-! ## 7. Properties are read back -/

/-- The name and the value of a property can be told apart, and from what stands around them. -/
structure CleanProperty (e : String × String) : Prop where
  name : e.1 ≠ "" ∧ '\x01' ∉ e.1.toList ∧ '\x02' ∉ e.1.toList
  value : e.2 ≠ "" ∧ '\x02' ∉ e.2.toList

/-- The text of one property. -/
def propertyText (e : String × String) : List Char :=
  e.1.toList ++ '\x01' :: (e.2.toList ++ ['\x02'])

theorem messageProperties2String_toList (properties : ExtFields) :
    (messageProperties2String properties).toList = properties.entries.flatMap propertyText := by
  have hfold : ∀ (es : List (String × String)) text,
      (es.foldl (fun text e => text ++ e.1 ++ "\x01" ++ e.2 ++ "\x02") text).toList
        = text.toList ++ es.flatMap propertyText := by
    intro es
    induction es with
    | nil => simp
    | cons e es ih =>
      intro text
      rw [foldl_cons, ih]
      simp [propertyText]
  rw [messageProperties2String, hfold]
  rfl

variable {e : String × String}

theorem takeWhile_segment {a : List Char} (h : '\x02' ∉ a) (b : List Char) :
    (a ++ '\x02' :: b).takeWhile (· != '\x02') = a := by
  have ha : ∀ c ∈ a, (c != '\x02') = true := fun c hc => bne_iff_ne.mpr fun heq => h (heq ▸ hc)
  rw [takeWhile_append_of_pos ha, takeWhile_cons_of_neg (by decide), append_nil]

theorem takeWhile_property (h : CleanProperty e) (rest : List Char) :
    (propertyText e ++ rest).takeWhile (· != '\x02') = e.1.toList ++ '\x01' :: e.2.toList := by
  have hpart : '\x02' ∉ e.1.toList ++ '\x01' :: e.2.toList := by
    simp [h.name.2.2, h.value.2]
  rw [← takeWhile_segment hpart rest]
  simp [propertyText]

theorem idxOf_property (h : CleanProperty e) (rest : List Char) :
    (propertyText e ++ rest).idxOf? '\x01' = some e.1.toList.length := by
  have hsplit : propertyText e ++ rest = e.1.toList ++ '\x01' :: (e.2.toList ++ '\x02' :: rest) := by
    simp [propertyText]
  rw [hsplit, idxOf?_eq_some_iff]
  refine ⟨by simp, by simp, fun j hj heq => ?_⟩
  rw [getElem_append_left hj] at heq
  exact h.name.2.1 (heq ▸ getElem_mem hj)

theorem insertProperty_clean (h : CleanProperty e) (rest : List Char) (result : ExtFields) :
    insertProperty (propertyText e ++ rest) result = result.insert e.1 e.2 := by
  have hname : 0 < e.1.toList.length :=
    length_pos_iff.mpr (mt String.toList_eq_nil_iff.mp h.name.1)
  have hvalue : 0 < e.2.toList.length :=
    length_pos_iff.mpr (mt String.toList_eq_nil_iff.mp h.value.1)
  have hpart : (e.1.toList ++ '\x01' :: e.2.toList).length
      = e.1.toList.length + (e.2.toList.length + 1) := by
    rw [length_append, length_cons]
  have htake : (propertyText e ++ rest).take e.1.toList.length = e.1.toList := by
    rw [propertyText, append_assoc, take_left]
  have hdrop : (e.1.toList ++ '\x01' :: e.2.toList).drop (e.1.toList.length + 1) = e.2.toList := by
    rw [← drop_drop, drop_left, drop_one, tail_cons]
  rw [insertProperty, takeWhile_property h, idxOf_property h]
  dsimp only
  rw [if_pos (by omega), if_pos (by omega), htake, hdrop, String.ofList_toList,
    String.ofList_toList]

theorem drop_property (h : CleanProperty e) (rest : List Char) :
    (propertyText e ++ rest).drop
      (((propertyText e ++ rest).takeWhile (· != '\x02')).length + 1) = rest := by
  have hlen : (e.1.toList ++ '\x01' :: e.2.toList).length + 1 = (propertyText e).length := by
    simp only [propertyText, length_append, length_cons, length_nil]
    omega
  rw [takeWhile_property h, hlen, drop_left]

/-- **The loop reads one property after the other.** -/
theorem propertiesLoop_clean {es : List (String × String)} (h : ∀ e ∈ es, CleanProperty e)
    {n : Nat} (hn : (es.flatMap propertyText).length ≤ n) (result : ExtFields) :
    propertiesLoop n (es.flatMap propertyText) result
      = es.foldl (fun out e => out.insert e.1 e.2) result := by
  induction es generalizing n result with
  | nil => cases n <;> rfl
  | cons e es ih =>
    have hclean := h e mem_cons_self
    have hpos : 0 < (propertyText e).length := by simp [propertyText]
    rw [flatMap_cons] at hn ⊢
    rw [length_append] at hn
    obtain ⟨n, rfl⟩ := Nat.exists_eq_succ_of_ne_zero (show n ≠ 0 by omega)
    have hne : propertyText e ++ es.flatMap propertyText ≠ [] := by
      simp [propertyText]
    rw [propertiesLoop, if_neg hne, drop_property hclean, insertProperty_clean hclean]
    exact ih (fun e' he' => h e' (mem_cons_of_mem _ he')) (by omega) _

/-- **The properties are read back**, in their order. -/
theorem string2MessageProperties_of_clean {properties : ExtFields}
    (hclean : ∀ e ∈ properties.entries, CleanProperty e)
    (hdistinct : (properties.entries.map Prod.fst).Nodup) :
    string2MessageProperties (messageProperties2String properties) = properties := by
  rw [string2MessageProperties, messageProperties2String_toList,
    propertiesLoop_clean hclean (le_rfl), foldl_insert (a := ⟨[]⟩) hdistinct,
    nil_append]

/-! ## 8. Nothing else is read -/

/-- One of these segments is the name of the pair, the first separator and the value. -/
def Occurs (segments : List (List Char)) (e : String × String) : Prop :=
  e.1 ≠ "" ∧ '\x01' ∉ e.1.toList ∧ e.2 ≠ "" ∧ e.1.toList ++ '\x01' :: e.2.toList ∈ segments

theorem of_mem_insertEntry {key value : String} {es : List (String × String)}
    (h : e ∈ ExtFields.insertEntry key value es) : e = (key, value) ∨ e ∈ es := by
  induction es with
  | nil => exact .inl (mem_singleton.mp h)
  | cons e' es ih =>
    unfold ExtFields.insertEntry at h
    split at h
    · exact (mem_cons.mp h).imp_right (mem_cons_of_mem _)
    · rcases mem_cons.mp h with rfl | h
      · exact .inr mem_cons_self
      · exact (ih h).imp_right (mem_cons_of_mem _)

theorem insertProperty_occurs {t : List Char} {result : ExtFields} {segments : List (List Char)}
    (hpart : t.takeWhile (· != '\x02') ∈ segments) (hres : ∀ e ∈ result.entries, Occurs segments e) :
    ∀ e ∈ (insertProperty t result).entries, Occurs segments e := by
  intro e he
  unfold insertProperty at he
  dsimp only at he
  split at he
  · split at he
    · rename_i sep hsep
      split at he
      · rcases of_mem_insertEntry he with rfl | he
        · obtain ⟨hlt, hat, hfirst⟩ := idxOf?_eq_some_iff.mp hsep
          have hsame := t.takeWhile_prefix (· != '\x02')
          generalize t.takeWhile (· != '\x02') = part at *
          -- the separator that was found is one of the segment
          have hget := (hsame.getElem (by omega)).trans hat
          have htake : t.take sep = part.take sep := by
            rw [prefix_iff_eq_take.mp hsame, take_take, min_eq_left (by omega)]
          refine ⟨?_, ?_, ?_, ?_⟩
          · simp only [ne_eq, String.ofList_eq_empty_iff, take_eq_nil_iff]
            intro hz
            rcases hz with hz | rfl
            · omega
            · cases hlt
          · rw [String.toList_ofList]
            intro hmem
            obtain ⟨j, hj, heq⟩ := mem_take_iff_getElem.mp hmem
            exact hfirst j (by omega) heq
          · simp
            omega
          · rw [String.toList_ofList, String.toList_ofList, htake, ← hget,
              cons_getElem_drop_succ, take_append_drop]
            exact hpart
        · exact hres e he
      · exact hres e he
    · exact hres e he
  · exact hres e he

theorem propertiesLoop_occurs {segments : List (List Char)} {n : Nat} {t : List Char}
    {result : ExtFields} (ht : t ≠ [] → ∀ seg ∈ t.splitOn '\x02', seg ∈ segments)
    (hres : ∀ e ∈ result.entries, Occurs segments e) :
    ∀ e ∈ (propertiesLoop n t result).entries, Occurs segments e := by
  induction n generalizing t result with
  | zero => exact hres
  | succ n ih =>
    unfold propertiesLoop
    split
    · exact hres
    · rename_i hne
      by_cases hsep : '\x02' ∈ t
      · obtain ⟨a, b, rfl, hnot⟩ := eq_append_cons_of_mem hsep
        have hsegs := ht hne
        rw [splitOn_append_cons_self_of_not_mem hnot] at hsegs
        have hrest : (a ++ '\x02' :: b).drop (a.length + 1) = b := by
          rw [← drop_drop, drop_left, drop_one, tail_cons]
        rw [takeWhile_segment hnot, hrest]
        refine ih (fun _ seg hseg => hsegs seg (mem_cons_of_mem _ hseg))
          (insertProperty_occurs ?_ hres)
        rw [takeWhile_segment hnot]
        exact hsegs a mem_cons_self
      · have hpart : t.takeWhile (· != '\x02') = t :=
          takeWhile_eq_self_iff.mpr fun c hc => bne_iff_ne.mpr fun heq => hsep (heq ▸ hc)
        refine ih (absurd ?_) (insertProperty_occurs ?_ hres)
        · rw [hpart, drop_eq_nil_iff]
          omega
        · rw [hpart]
          exact ht hne t (by rw [splitOn_eq_singleton hsep]; exact mem_singleton_self _)

/-- **The property text, both ways**: clean properties are read back in their order, and from any
text only pairs are read that occur in it between two separators. -/
theorem property_text_codec :
    (∀ properties : ExtFields, (∀ e ∈ properties.entries, CleanProperty e) →
      (properties.entries.map Prod.fst).Nodup →
      string2MessageProperties (messageProperties2String properties) = properties) ∧
    ∀ text : String, ∀ e ∈ (string2MessageProperties text).entries,
      Occurs (text.toList.splitOn '\x02') e :=
  ⟨fun _ hclean hdistinct => string2MessageProperties_of_clean hclean hdistinct,
    fun _ => propertiesLoop_occurs (fun _ _ h => h) (by intro e he; cases he)⟩

/-- A value may contain the separator of name and value. -/
theorem property_text_codec_two :
    string2MessageProperties (messageProperties2String ⟨[("a", "x\x01y"), ("b", "z")]⟩)
      = ⟨[("a", "x\x01y"), ("b", "z")]⟩ :=
  property_text_codec.1 _ (by
    intro e he
    rcases mem_cons.mp he with rfl | he
    · exact ⟨by decide, by decide⟩
    · rw [mem_singleton.mp he]
      exact ⟨by decide, by decide⟩) (by decide)

end RocketMQ.MessageDecoder
