/-
  File:      RocketMQ/Remoting/FastJson.lean
  Subject:   The tolerant JSON parser of the remoting headers.

  After `fastjson` in `remoting/protocol/serialize.rs`. The parser walks over the bytes of a text by
  position. Every index and every slice is one that can fail: outside its bounds the program
  panics, and so does a slice of the text that does not start and end between two characters.
  Nested values are read by `value` itself, one level of fuel for one level of nesting; the loops
  have fuel of their own.
-/
import RocketMQ.Lib.Utf8
import RocketMQ.Producer.Message
import RocketMQ.Remoting.Json

namespace RocketMQ

/-- How a computation can end without a value. -/
inductive Fault where
  /-- an error is returned -/
  | err (e : Error)
  /-- the program panics -/
  | panic
  /-- the fuel of the model does not suffice -/
  | fuel
  deriving DecidableEq, Repr

namespace FastJson

open Utf8 (byte isCont)

/-- `Err(Error::Decode(..))`. -/
def fail {α : Type} (message : String) : Except Fault α := .error (.err (.decode message))

/-! ## 1. Positions -/

/-- One of `WS`. -/
def isWs (b : UInt8) : Bool := b == byte ' ' || b == byte '\t' || b == byte '\r' || b == byte '\n'

section

variable (bytes : List UInt8)

def skipWs (pos : Nat) : Nat := pos + ((bytes.drop pos).takeWhile isWs).length

/-- `&self.bytes[start..stop]`. -/
def slice (start stop : Nat) : Except Fault (List UInt8) :=
  if start ≤ stop ∧ stop ≤ bytes.length then .ok ((bytes.drop start).take (stop - start))
  else .error .panic

/-- `str::is_char_boundary`. -/
def isCharBoundary (pos : Nat) : Bool :=
  pos == 0 || match bytes[pos]? with
    | some b => !isCont b
    | none => pos == bytes.length

/-- The text of bytes that are one. -/
def strOf (bs : List UInt8) : String := String.ofList ((Utf8.decode bs).getD [])

/-- `self.text[start..stop].to_string()`. -/
def textSlice (start stop : Nat) : Except Fault String :=
  if start ≤ stop ∧ isCharBoundary bytes start ∧ isCharBoundary bytes stop then
    .ok (strOf ((bytes.drop start).take (stop - start)))
  else .error .panic

/-! ## 2. Strings -/

/-- `u32::from_str_radix(.., 16)` of four bytes that are UTF-8. -/
def hexOf (digits : List UInt8) : Option Nat := (Utf8.decode digits).bind Scanner.fromHex

/-- A high surrogate. -/
def isHigh (code : Nat) : Bool := 0xD800 ≤ code && code < 0xDC00

/-- A low surrogate. -/
def isLow (code : Nat) : Bool := 0xDC00 ≤ code && code < 0xE000

/-- The end of a `\u` escape: the character, and the position behind it. -/
def unicodeChar (scalar pos : Nat) : Except Fault (Char × Nat) :=
  match Scanner.charFromU32 scalar with
  | some c => .ok (c, pos)
  | none => fail "bad \\u escape"

/-- The rest of a surrogate pair, `pos` at the `u` of its first half. -/
def unicodePair (code pos : Nat) : Except Fault (Char × Nat) := do
  let lowStr ← slice bytes (pos + 7) (pos + 11)
  match hexOf lowStr with
  | none => fail "bad \\u escape"
  | some low =>
    if isLow low then unicodeChar (0x10000 + (code - 0xD800) * 1024 + (low - 0xDC00)) (pos + 11)
    else unicodeChar code (pos + 5)

/-- A `\u` escape, `pos` at the `u`. -/
def unicode (pos : Nat) : Except Fault (Char × Nat) :=
  if pos + 4 ≥ bytes.length then fail "bad \\u escape"
  else do
    let digits ← slice bytes (pos + 1) (pos + 5)
    match hexOf digits with
    | none => fail "bad \\u escape"
    | some code =>
      if isHigh code ∧ bytes[pos + 5]? = some (byte '\\') ∧ bytes[pos + 6]? = some (byte 'u') then
        unicodePair bytes code pos
      else unicodeChar code (pos + 5)

/-- The other escapes of an ASCII character. -/
def unescape (e : UInt8) : Char :=
  if e = byte 'b' then '\x08'
  else if e = byte 'f' then '\x0c'
  else if e = byte 'n' then '\n'
  else if e = byte 'r' then '\r'
  else if e = byte 't' then '\t'
  else Char.ofNat e.toNat

def utf8Len (first : UInt8) : Nat :=
  if first < 0x80 then 1
  else if first ≥ 0xF0 then 4
  else if first ≥ 0xE0 then 3
  else if first ≥ 0xC0 then 2
  else 1

/-- The loop of `string`. -/
def stringLoop : Nat → List Char → Nat → Except Fault (String × Nat)
  | 0, _, _ => .error .fuel
  | n + 1, out, pos =>
    match bytes[pos]? with
    | none => fail "unterminated string"
    | some c =>
      if c = byte '"' then .ok (String.ofList out, pos + 1)
      else if c = byte '\\' then
        match bytes[pos + 1]? with
        | none => fail "unterminated escape"
        | some e =>
          if e = byte 'u' then do
            let (ch, pos) ← unicode bytes (pos + 1)
            stringLoop n (out ++ [ch]) pos
          else if e < 0x80 then stringLoop n (out ++ [unescape e]) (pos + 2)
          -- the backslash is doubled, and the character behind it is read as it is
          else stringLoop n (out ++ ['\\', '\\']) (pos + 1)
      else do
        let stop := min (pos + utf8Len c) bytes.length
        let part ← slice bytes pos stop
        stringLoop n (out ++ (Utf8.decode part).getD [Char.ofNat c.toNat]) stop

def string (pos : Nat) : Except Fault (String × Nat) :=
  stringLoop bytes (bytes.length + 1) [] (pos + 1)

end

/-! ## 3. Literals -/

def isTokenBoundary (b : UInt8) : Bool :=
  b == byte ',' || b == byte '\x7d' || b == byte ']' || isWs b

/-- The words that stand for a value. -/
def tokens : List (List UInt8 × Json) :=
  [(Utf8.encode "true".toList, .bool true), (Utf8.encode "false".toList, .bool false),
    (Utf8.encode "null".toList, .null), (Utf8.encode "-Infinity".toList, .null),
    (Utf8.encode "Infinity".toList, .null), (Utf8.encode "NaN".toList, .null)]

/-- What follows a token of `n` bytes does not belong to it. -/
def tokenEnds (bytes : List UInt8) (pos n : Nat) : Bool :=
  let tail :=
    if isCharBoundary bytes (pos + n) ∧ isCharBoundary bytes (pos + n + 1) then bytes[pos + n]?
    else none
  match tail with
  | some b => isTokenBoundary b
  | none => bytes.length - pos == n

/-- The text from `pos` on starts with the token, and the token ends there. -/
def tokenFits (bytes : List UInt8) (pos : Nat) (token : List UInt8) : Bool :=
  tokenEnds bytes pos token.length && token.isPrefixOf (bytes.drop pos)

def isDigit (b : UInt8) : Bool := byte '0' ≤ b && b ≤ byte '9'

def isSign (b : Option UInt8) : Bool := b == some (byte '-') || b == some (byte '+')

variable (b : List UInt8)

/-- The position behind the digits. -/
def digitsEnd (i : Nat) : Nat := i + ((b.drop i).takeWhile isDigit).length

/-- The fraction and then the exponent of `number_end`, each only with digits of its own. -/
def fractionEnd (i : Nat) : Nat :=
  if b[i]? = some (byte '.') ∧ digitsEnd b (i + 1) > i + 1 then digitsEnd b (i + 1) else i

def exponentEnd (i : Nat) : Nat :=
  if b[i]? = some (byte 'e') ∨ b[i]? = some (byte 'E') then
    let j := if isSign b[i + 1]? then i + 2 else i + 1
    if digitsEnd b j > j then digitsEnd b j else i
  else i

def numberEnd : Nat :=
  let start := if isSign b[0]? then 1 else 0
  let i := digitsEnd b start
  if i = start then 0 else exponentEnd b (fractionEnd b i)

/-- `parse::<u64>`. -/
def parseU64 (s : String) : Option Int :=
  if s.toList.head? = some '-' then none
  else (Decimal.parseSigned s.toList).filter fun z => decide (z < 2 ^ 64)

def floatValue (lib : StdLib) (raw : String) : Json :=
  if lib.finite raw then .num (.float raw) else .null

def numberValue (lib : StdLib) (raw : String) : Json :=
  if raw.toList.contains '.' || raw.toList.contains 'e' || raw.toList.contains 'E' then
    floatValue lib raw
  else
    match Decimal.parseI64 raw with
    | some v => .num (.int v)
    | none =>
      match parseU64 raw with
      | some v => .num (.int v)
      | none => floatValue lib raw

section

variable (lib : StdLib) (bytes : List UInt8)

def literal (pos : Nat) : Except Fault (Json × Nat) :=
  if isCharBoundary bytes pos = false then .error .panic
  else
    match tokens.find? fun t => tokenFits bytes pos t.1 with
    | some t => .ok (t.2, pos + t.1.length)
    | none =>
      let stop := numberEnd (bytes.drop pos)
      if stop = 0 then
        fail ("unexpected token at offset " ++ toString pos ++ ": "
          ++ (String.ofList ((strOf (bytes.drop pos)).toList.take 20)).quote)
      else do
        let raw ← textSlice bytes pos (pos + stop)
        .ok (numberValue lib raw, pos + stop)

/-! ## 4. Nested values -/

section

variable (value : Nat → Except Fault (Json × Nat))

/-- A key that is neither quoted nor nested: up to a colon or a blank. -/
def rawKey (pos : Nat) : Except Fault (String × Nat) := do
  let stop := pos + ((bytes.drop pos).takeWhile fun c => !(c == byte ':' || isWs c)).length
  let k ← textSlice bytes pos stop
  .ok (k, stop)

def key (pos : Nat) : Except Fault (String × Nat) :=
  let pos := skipWs bytes pos
  if bytes[pos]? = some (byte '"') then string bytes pos
  else if bytes[pos]? = some (byte '\x7b') ∨ bytes[pos]? = some (byte '[') then do
    let (_, stop) ← value pos
    let k ← textSlice bytes pos stop
    .ok (k, stop)
  else rawKey bytes pos

/-- The end of an object or array at once, or another element. -/
def closeOr (close : Char) (done : Json) (again : Nat → Except Fault (Json × Nat)) (pos : Nat) :
    Except Fault (Json × Nat) :=
  let pos := skipWs bytes pos
  if bytes[pos]? = some (byte close) then .ok (done, pos + 1) else again pos

/-- Behind an element: a comma, which may be the last one, or the end. -/
def more (close : Char) (done : Json) (again : Nat → Except Fault (Json × Nat)) (pos : Nat) :
    Except Fault (Json × Nat) :=
  let pos := skipWs bytes pos
  if bytes[pos]? = some (byte ',') then closeOr bytes close done again (pos + 1)
  else if bytes[pos]? = some (byte close) then .ok (done, pos + 1)
  else fail ("expected ',' or '" ++ String.singleton close ++ "' at offset " ++ toString pos)

/-- Behind a key of an object: a colon, the value, and the entries after it. -/
def member (again : List (String × Json) → Nat → Except Fault (Json × Nat))
    (result : List (String × Json)) (k : String) (pos : Nat) : Except Fault (Json × Nat) :=
  let pos := skipWs bytes pos
  if bytes[pos]? ≠ some (byte ':') then fail ("expected ':' at offset " ++ toString pos)
  else do
    let (v, pos) ← value (pos + 1)
    let result := Json.insert result k v
    more bytes '\x7d' (.obj result) (again result) pos

/-- The loop of `object`. -/
def objectLoop : Nat → List (String × Json) → Nat → Except Fault (Json × Nat)
  | 0, _, _ => .error .fuel
  | n + 1, result, pos => do
      let (k, pos) ← key bytes value pos
      member bytes value (objectLoop n) result k pos

def object (pos : Nat) : Except Fault (Json × Nat) :=
  closeOr bytes '\x7d' (.obj []) (objectLoop bytes value (bytes.length + 1) []) (pos + 1)

/-- The loop of `array`. -/
def arrayLoop : Nat → List Json → Nat → Except Fault (Json × Nat)
  | 0, _, _ => .error .fuel
  | n + 1, items, pos => do
      let (v, pos) ← value pos
      let items := items ++ [v]
      more bytes ']' (.arr items) (arrayLoop n items) pos

def array (pos : Nat) : Except Fault (Json × Nat) :=
  closeOr bytes ']' (.arr []) (arrayLoop bytes value (bytes.length + 1) []) (pos + 1)

/-- `value`, with the reader of nested values. -/
def valueWith (pos : Nat) : Except Fault (Json × Nat) :=
  let pos := skipWs bytes pos
  match bytes[pos]? with
  | none => fail ("unexpected end of input at offset " ++ toString pos)
  | some c =>
    if c = byte '\x7b' then object bytes value pos
    else if c = byte '[' then array bytes value pos
    else if c = byte '"' then do
      let (s, pos) ← string bytes pos
      .ok (.str s, pos)
    else literal lib bytes pos

end

def value : Nat → Nat → Except Fault (Json × Nat)
  | 0, _ => .error .fuel
  | n + 1, pos => valueWith lib bytes (value n) pos

/-- `fastjson::from_str`, on the bytes of the text. -/
def fromStr : Except Fault Json := do
  let (v, pos) ← value lib bytes (bytes.length + 1) 0
  let pos := skipWs bytes pos
  if pos < bytes.length then fail ("json trailing data at offset " ++ toString pos) else .ok v

end

end FastJson

end RocketMQ
