/-
  File:      RocketMQ/Remoting/Command.lean
  Subject:   Remoting commands and their two encodings.

  After `remoting_command.rs`, `ext_fields.rs` and the second half of `serialize.rs`. A frame is its
  total length, a word that holds the length of the header and its encoding, the header and the
  body. The header is JSON or the private binary format.

  * `RemotingCommand`, `makeCustomHeaderToNet`: the command and the fields it is sent with;
  * `decode`: the frame back, or an error; `subI32` is the one subtraction that can overflow.
-/
import RocketMQ.Producer.AsyncSend
import RocketMQ.Remoting.Buffer

namespace RocketMQ

open Binary Text

/-! ## 1. Commands -/

/-- The values of `serialize_type`. -/
def serializeJson : Int32 := 0

def serializeRocketMq : Int32 := 1

structure RemotingCommand where
  code : Int32
  language : Int32
  version : Int32
  /-- the number that matches a response to its request -/
  requestId : Int32
  flag : Int32
  remark : Option String
  serializeType : Int32
  body : Option (List UInt8)
  extFields : ExtFields
  /-- what the custom header writes into an empty table -/
  customHeader : Option ExtFields
  deriving DecidableEq, Repr

namespace RemotingCommand

def isResponseType (c : RemotingCommand) : Bool := c.flag &&& 1 != 0

def isOnewayRpc (c : RemotingCommand) : Bool := c.flag &&& 2 != 0

def makeCustomHeaderToNet (c : RemotingCommand) : RemotingCommand :=
  match c.customHeader with
  | some header =>
    { c with
      extFields := header.entries.foldl (fun ext e => ext.insert e.1 e.2) c.extFields }
  | none => c

end RemotingCommand

/-! ## 2. The JSON header -/

/-- `ExtFields::to_json`. -/
def ExtFields.toJson (ext : ExtFields) : Json :=
  .obj (ext.entries.foldl (fun map e => Json.insert map e.1 (.str e.2)) [])

variable (c : RemotingCommand)

def RemotingCommand.toJsonValue : Json :=
  let map := Json.insert [] "code" (.num (.int c.code.toInt))
  let map := Json.insert map "language" (.num (.int c.language.toInt))
  let map := Json.insert map "version" (.num (.int c.version.toInt))
  let map := Json.insert map "opaque" (.num (.int c.requestId.toInt))
  let map := Json.insert map "flag" (.num (.int c.flag.toInt))
  let map :=
    match c.remark with
    | some remark => Json.insert map "remark" (.str remark)
    | none => map
  let map :=
    if c.extFields.entries = [] then map
    else Json.insert map "extFields" c.extFields.toJson
  .obj map

section

variable (lib : StdLib)

/-- `ExtFields::from_json`. -/
def ExtFields.fromJson : Json → ExtFields
  | .obj map => map.foldl (fun out e =>
    match e.2 with
    | .str s => out.insert e.1 s
    | .null => out
    | other => out.insert e.1 (Json.toText lib other)) ⟨[]⟩
  | _ => ⟨[]⟩

/-- `language_code::name_to_code`. -/
def nameToCode (name : String) : Int32 :=
  match String.ofList (name.toList.map Char.toUpper) with
  | "JAVA" => 0
  | "CPP" => 1
  | "DOTNET" => 2
  | "PYTHON" => 3
  | "DELPHI" => 4
  | "ERLANG" => 5
  | "RUBY" => 6
  | "HTTP" => 8
  | "GO" => 9
  | "PHP" => 10
  | "OMS" => 11
  | "RUST" => 12
  | "NODEJS" => 13
  | "NODE_JS" => 13
  | _ => 7

/-- `language_code::RUST`. -/
def languageRust : Int32 := 12

/-- `number_as_i32`: a number beyond `i64` saturates on its way over `f64`. -/
def numberAsI32 : Json → Option Int32
  | .num (.int z) =>
    some (if z ≤ Decimal.i64Max then Int32.ofInt z else Int32.maxValue)
  | .num (.float raw) => some (Int32.ofInt (lib.toI32 raw))
  | .str s => (parseI32 (trim s)).map Int32.ofInt
  | _ => none

def jsonI32 (value : Json) (key : String) (default : Int32) : Int32 :=
  ((value.get key).bind (numberAsI32 lib)).getD default

/-- `Value::as_str`. -/
def Json.asStr : Json → Option String
  | .str s => some s
  | _ => none

/-! ## 3. The binary header -/

/-- `RocketMQSerializable::map_serialize`. -/
def mapSerialize (map : ExtFields) : Option (List UInt8) :=
  if map.entries = [] then none
  else some (map.entries.flatMap fun e =>
    Writer.string true (some e.1) ++ Writer.string false (some e.2))

/-- A part of the header behind its length, which may be missing. -/
def lengthAndBytes (part : Option (List UInt8)) : List UInt8 :=
  match part with
  | some b => Writer.len32 b.length ++ b
  | none => Writer.i32 0

/-- `RocketMQSerializable::rocket_mq_protocol_encode`. -/
def rocketMqProtocolEncode : List UInt8 :=
  Writer.i16 c.code
    ++ (Writer.u8 (UInt8.ofNat c.language.toBitVec.toNat)
    ++ (Writer.i16 c.version
    ++ (Writer.i32 c.requestId
    ++ (Writer.i32 c.flag
    ++ (lengthAndBytes ((c.remark.filter fun r => r != "").map strBytes)
    ++ lengthAndBytes (mapSerialize c.extFields))))))

/-- A pair whose key or value is empty is passed over. -/
def insertPair (map : ExtFields) (k v : Option String) : ExtFields :=
  match k, v with
  | some k, some v => map.insert k v
  | _, _ => map

/-- One round of `map_deserialize`. -/
def mapEntry (map : ExtFields) : Read Fault ExtFields := do
  let k ← Reader.string lib true
  let v ← Reader.string lib false
  return insertPair map k v

/-- The loop of `map_deserialize`. -/
def mapLoop : Nat → Nat → ExtFields → Read Fault ExtFields
  | 0, _, _ => Read.fail .fuel
  | n + 1, stop, map => do
      let pos ← Read.position
      if pos < stop then do
        let map ← mapEntry lib map
        mapLoop n stop map
      else return map

/-- `RocketMQSerializable::map_deserialize`. -/
def mapDeserialize (length : Nat) : Read Fault ExtFields := do
  let offset ← Read.position
  let size ← Read.size
  if offset + length > size then
    Read.fail (.err (.decode ("extFields length " ++ toString length ++ " overruns header buffer ("
      ++ toString size ++ " bytes)")))
  else mapLoop lib (length + 1) (offset + length) ⟨[]⟩

structure RocketMqHeader where
  code : Int32
  language : Int32
  version : Int32
  requestId : Int32
  flag : Int32
  remark : Option String
  extFields : ExtFields
  deriving DecidableEq, Repr

/-- The extension fields of the binary header. -/
def headerFields (length : Int32) : Read Fault ExtFields :=
  if length > 0 then mapDeserialize lib length.toInt.toNat else return ⟨[]⟩

/-- `RocketMQSerializable::rocket_mq_protocol_decode`. -/
def rocketMqProtocolDecode : Read Fault RocketMqHeader := do
  let code ← Reader.i16
  let language ← Reader.u8
  let version ← Reader.i16
  let requestId ← Reader.i32
  let flag ← Reader.i32
  let remark ← Reader.string lib false
  let length ← Reader.i32
  let extFields ← headerFields lib length
  return {
    code
    language := Int32.ofNat language.toNat
    version
    requestId
    flag
    remark
    extFields }

/-! ## 4. Frames -/

def markProtocolType (source stype : Int32) : Int32 :=
  ((stype &&& 0xFF) <<< 24) ||| (source &&& 0x00FFFFFF)

def protocolTypeOf (source : Int32) : Int32 := (source >>> 24) &&& 0xFF

def headerLengthOf (source : Int32) : Int32 := source &&& 0x00FFFFFF

namespace RemotingCommand

def headerEncode : List UInt8 :=
  let c := c.makeCustomHeaderToNet
  if c.serializeType = serializeRocketMq then rocketMqProtocolEncode c
  else Utf8.encode (Json.chars lib c.toJsonValue)

/-- The total length of the frame, which does not count its own field. -/
def totalLen : Nat :=
  4 + (c.headerEncode lib).length + (c.body.getD []).length

def encode : List UInt8 :=
  let header := c.headerEncode lib
  Writer.len32 (c.totalLen lib)
    ++ (Writer.i32 (markProtocolType (Int32.ofNat header.length) c.serializeType)
    ++ (header ++ c.body.getD []))

/-- The command that a JSON header stands for. -/
def ofJson (value : Json) (stype : Int32) (body : Option (List UInt8)) : RemotingCommand :=
  { code := jsonI32 lib value "code" 0
    language :=
      match value.get "language" with
      | some (.str s) => nameToCode s
      | some v => (numberAsI32 lib v).getD languageRust
      | none => languageRust
    version := jsonI32 lib value "version" 0
    requestId := jsonI32 lib value "opaque" (-1)
    flag := jsonI32 lib value "flag" 0
    remark := (value.get "remark").bind Json.asStr
    serializeType := stype
    body
    extFields :=
      match value.get "extFields" with
      | some ext => ExtFields.fromJson lib ext
      | none => ⟨[]⟩
    customHeader := none }

/-- The command that a binary header stands for. -/
def ofHeader (header : RocketMqHeader) (stype : Int32) (body : Option (List UInt8)) :
    RemotingCommand :=
  { code := header.code
    language := header.language
    version := header.version
    requestId := header.requestId
    flag := header.flag
    remark := header.remark
    serializeType := stype
    body
    extFields := header.extFields
    customHeader := none }

end RemotingCommand

/-- `RemotingSerializable::decode`. -/
def jsonDecode (data : List UInt8) : Except Fault Json :=
  if data = [] then .ok .null
  else
    match Utf8.decode data with
    | some cs => FastJson.fromStr lib (Utf8.encode cs)
    | none => .error (.err (.decode ("json header is not valid utf8: " ++ lib.utf8Error data)))

/-- `a - b` on `i32`: an overflow panics if the build checks for it, and wraps otherwise. -/
def subI32 (checked : Bool) (a b : Int32) : Except Fault Int32 :=
  if checked ∧ (a.toInt - b.toInt < -2147483648 ∨ 2147483647 < a.toInt - b.toInt) then
    .error .panic
  else .ok (a - b)

/-- The header of a frame as a command. -/
def headerDecode (stype : Int32) (header : List UInt8) (body : Option (List UInt8)) :
    Except Fault RemotingCommand :=
  if stype = serializeRocketMq then do
    let (h, _) ← rocketMqProtocolDecode lib header 0
    return RemotingCommand.ofHeader h stype body
  else do
    let value ← jsonDecode lib header
    return RemotingCommand.ofJson lib value stype body

/-- `decode`, behind the total length. -/
def decodeHeader (data : List UInt8) (pos : Nat) : Except Fault RemotingCommand := do
  let (oriHeaderLen, pos) ← Reader.i32 data pos
  let headerLength := headerLengthOf oriHeaderLen
  if headerLength > Int32.ofNat (data.length - pos) then
    .error (.err (.remotingCommand ("decode error, bad header length: "
      ++ toString headerLength.toInt)))
  else do
    let (header, pos) ← Reader.bytes headerLength.toInt.toNat data pos
    let rest := data.drop pos
    headerDecode lib (protocolTypeOf oriHeaderLen) header (if rest = [] then none else some rest)

def RemotingCommand.decode (checked : Bool) (data : List UInt8) : Except Fault RemotingCommand := do
  let (totalLength, pos) ← Reader.i32 data 0
  let rest ← subI32 checked (Int32.ofNat data.length) 4
  if totalLength > rest then
    .error (.err (.remotingCommand ("decode error, bad total length: "
      ++ toString totalLength.toInt)))
  else decodeHeader lib data pos

end

end RocketMQ
