/-
  File:      RocketMQ/Remoting/Json.lean
  Subject:   JSON values and the text that serde_json writes for them.

  An object keeps its keys in the order in which they were inserted (`preserve_order`). A number is
  an integer or the text of a floating-point number; what the standard library and serde_json make
  of such a text is the parameter `StdLib`.

  * `Json.chars`: the compact text (`to_vec`, `to_string`).
-/
import RocketMQ.Lib.Decimal
import RocketMQ.LocalOffsets.Text

namespace RocketMQ

/-- What the standard library and serde_json make of a text. -/
structure StdLib where
  /-- `parse::<f64>` and `Number::from_f64`: the text denotes a finite number -/
  finite : String → Bool
  /-- `as_f64` of it, then `as i32` -/
  toI32 : String → Int
  /-- how serde_json writes it -/
  print : String → String
  /-- the text of the error for bytes that are not UTF-8 -/
  utf8Error : List UInt8 → String

/-- `serde_json::Number`. -/
inductive Num where
  | int (z : Int)
  | float (raw : String)
  deriving DecidableEq, Repr

/-- `serde_json::Value`. -/
inductive Json where
  | null
  | bool (b : Bool)
  | num (n : Num)
  | str (s : String)
  | arr (items : List Json)
  | obj (entries : List (String × Json))

namespace Json

/-! ## 1. Objects -/

/-- `Map::insert`. -/
def insert (entries : List (String × Json)) (key : String) (value : Json) : List (String × Json) :=
  match entries with
  | [] => [(key, value)]
  | e :: es => if e.1 = key then (key, value) :: es else e :: insert es key value

theorem insert_of_absent {entries : List (String × Json)} {key : String} (value : Json)
    (h : key ∉ entries.map Prod.fst) : insert entries key value = entries ++ [(key, value)] := by
  induction entries with
  | nil => rfl
  | cons e es ih =>
    rw [List.map_cons, List.mem_cons, not_or] at h
    rw [insert, if_neg (Ne.symm h.1), ih h.2]
    rfl

/-- `Value::get` with a key. -/
def get (v : Json) (key : String) : Option Json :=
  match v with
  | .obj entries => (entries.find? fun e => e.1 == key).map (·.2)
  | _ => none

/-! ## 2. The compact text -/

/-- A string between its quotes. -/
def quoted (s : String) : List Char := '"' :: s.toList.flatMap jsonEscape ++ ['"']

def numChars (lib : StdLib) : Num → List Char
  | .int z => (toString z).toList
  | .float raw => (lib.print raw).toList

mutual

/-- `serde_json::to_vec`, on characters. -/
def chars (lib : StdLib) : Json → List Char
  | .null => "null".toList
  | .bool true => "true".toList
  | .bool false => "false".toList
  | .num n => numChars lib n
  | .str s => quoted s
  | .arr [] => ['[', ']']
  | .arr (v :: vs) => '[' :: chars lib v ++ moreItems lib vs ++ [']']
  | .obj [] => ['\x7b', '\x7d']
  | .obj ((k, v) :: es) =>
    '\x7b' :: quoted k ++ ':' :: chars lib v ++ moreEntries lib es ++ ['\x7d']

/-- The items after the first one. -/
def moreItems (lib : StdLib) : List Json → List Char
  | [] => []
  | v :: vs => ',' :: chars lib v ++ moreItems lib vs

/-- The entries after the first one. -/
def moreEntries (lib : StdLib) : List (String × Json) → List Char
  | [] => []
  | (k, v) :: es => ',' :: quoted k ++ ':' :: chars lib v ++ moreEntries lib es

end

/-- `Value::to_string`. -/
def toText (lib : StdLib) (v : Json) : String := String.ofList (chars lib v)

end Json

end RocketMQ
