/-
  File:      RocketMQ/LocalOffsets/Text.lean
  Subject:   The text of the broadcasting offset file: how it is written and how it is scanned.

  After `build_local_offsets_json`, `parse_local_offsets_text`, `parse_local_offsets_with_queues`
  and `scan_offset_store_entries` in `consumer.rs`. A text holds a table in one of two formats: the
  flat one, which the JSON library reads (`flat`, a parameter), and the one that is written here,
  which no JSON library reads because its keys are objects.

  * `Scanner`: the hand-written scanner, on characters (it only ever stops at ASCII ones);
  * `scan_fuel`: the length of the text is fuel enough for its two loops;
  * `parseLocalOffsetsText_eq`: both readers find the same table.
-/
import Std.Data.ExtTreeMap
import RocketMQ.Lib.Decimal
import RocketMQ.Lib.Text
import RocketMQ.Message

namespace RocketMQ

open List

/-- A table of offsets, by the key of the queue. -/
abbrev OffsetTable := Std.ExtTreeMap String Int

/-- The queues behind the keys. -/
abbrev QueueTable := Std.ExtTreeMap String MessageQueue

/-! ## 1. Writing -/

/-- `serde_json::to_string` on one character of a string. -/
def jsonEscape (c : Char) : List Char :=
  if c = '"' then ['\\', '"']
  else if c = '\\' then ['\\', '\\']
  else if c = '\x08' then ['\\', 'b']
  else if c = '\x0c' then ['\\', 'f']
  else if c = '\n' then ['\\', 'n']
  else if c = '\r' then ['\\', 'r']
  else if c = '\t' then ['\\', 't']
  else if c.toNat < 32 then
    ['\\', 'u', '0', '0', Nat.digitChar (c.toNat / 16), Nat.digitChar (c.toNat % 16)]
  else [c]

def jstr (s : String) : String :=
  String.ofList ('"' :: s.toList.flatMap jsonEscape ++ ['"'])

/-- One entry of the written table. -/
def offsetEntryText (mq : MessageQueue) (off : Int) : String :=
  "\x7b\"brokerName\":" ++ jstr mq.brokerName ++ ",\"queueId\":" ++ toString mq.queueId
    ++ ",\"topic\":" ++ jstr mq.topic ++ "\x7d:" ++ toString off

/-- `build_local_offsets_json`: an offset whose queue is unknown is left out. -/
def buildLocalOffsetsJson (items : OffsetTable) (mqMap : QueueTable) : String :=
  let entries := items.toList.filterMap fun e =>
    (mqMap[e.1]?).map fun mq => offsetEntryText mq e.2
  "\x7b\"offsetTable\":\x7b" ++ ",".intercalate entries ++ "\x7d\x7d"

/-! ## 2. Scanning -/

namespace Scanner

/-- `u8::is_ascii_whitespace`. -/
def isAsciiWhite (c : Char) : Bool :=
  c == ' ' || c == '\t' || c == '\n' || c == '\x0c' || c == '\r'

def skipWs (cs : List Char) : List Char := cs.dropWhile isAsciiWhite

/-- The text after `c`, when `c` comes next. -/
def eat (c : Char) (cs : List Char) : Option (List Char) :=
  match skipWs cs with
  | d :: rest => if d = c then some rest else none
  | [] => none

def peek (cs : List Char) : Option Char := (skipWs cs).head?

def hexDigit (c : Char) : Option Nat :=
  if '0' ≤ c ∧ c ≤ '9' then some (c.toNat - 48)
  else if 'a' ≤ c ∧ c ≤ 'f' then some (c.toNat - 87)
  else if 'A' ≤ c ∧ c ≤ 'F' then some (c.toNat - 55)
  else none

def hexDigits (cs : List Char) : Option Nat :=
  cs.foldl (fun acc c => acc.bind fun n => (hexDigit c).map (n * 16 + ·)) (some 0)

/-- `u32::from_str_radix(_, 16)` on four characters; it takes a leading plus. -/
def fromHex : List Char → Option Nat
  | '+' :: cs => hexDigits cs
  | cs => hexDigits cs

/-- `char::from_u32`. -/
def charFromU32 (n : Nat) : Option Char := if n.isValidChar then some (Char.ofNat n) else none

/-- The escapes of one character. -/
def unescape (c : Char) : Option Char :=
  if c = '"' then some '"'
  else if c = '\\' then some '\\'
  else if c = '/' then some '/'
  else if c = 'b' then some '\x08'
  else if c = 'f' then some '\x0c'
  else if c = 'n' then some '\n'
  else if c = 'r' then some '\r'
  else if c = 't' then some '\t'
  else none

/-- The loop of `scan_string`, after the opening quote. -/
def stringBody : List Char → Option (List Char × List Char)
  | [] => none
  | '"' :: rest => some ([], rest)
  | '\\' :: 'u' :: a :: b :: c :: d :: rest =>
    match (fromHex [a, b, c, d]).bind charFromU32 with
    | some x => (stringBody rest).map fun p => (x :: p.1, p.2)
    | none => none
  | '\\' :: e :: rest =>
    match unescape e with
    | some x => (stringBody rest).map fun p => (x :: p.1, p.2)
    | none => none
  | '\\' :: [] => none
  | c :: rest => (stringBody rest).map fun p => (c :: p.1, p.2)

def scanString (cs : List Char) : Option (String × List Char) :=
  match skipWs cs with
  | '"' :: rest => (stringBody rest).map fun p => (String.ofList p.1, p.2)
  | _ => none

/-- The sign of a number and what follows. -/
def sign : List Char → List Char × List Char
  | '-' :: rest => (['-'], rest)
  | cs => ([], cs)

def scanInt (cs : List Char) : Option (Int × List Char) :=
  let (minus, rest) := sign (skipWs cs)
  let digits := rest.takeWhile Char.isDigit
  if digits = [] then none
  else
    (Decimal.parseI64 (String.ofList (minus ++ digits))).map fun z =>
      (z, rest.dropWhile Char.isDigit)

/-- The fields of a key, as far as they have been met. -/
structure KeyFields where
  topic : Option String
  brokerName : Option String
  queueId : Option Int
  deriving DecidableEq, Repr

/-- `i32::try_from`. -/
def InI32 (z : Int) : Prop := -2147483648 ≤ z ∧ z ≤ 2147483647

instance (z : Int) : Decidable (InI32 z) := inferInstanceAs (Decidable (_ ∧ _))

/-- The value of a field. Text under other names and numbers under other names are skipped. -/
def scanField (f : KeyFields) (key : String) (cs : List Char) : Option (KeyFields × List Char) :=
  if peek cs = some '"' then
    (scanString cs).map fun (v, cs) =>
      (if key = "topic" then { f with topic := some v }
        else if key = "brokerName" then { f with brokerName := some v } else f, cs)
  else
    (scanInt cs).bind fun (v, cs) =>
      if key = "queueId" then
        if InI32 v then some ({ f with queueId := some v }, cs) else none
      else some (f, cs)

/-- A field of a key: its name, a colon and its value. -/
def scanNamed (f : KeyFields) (cs : List Char) : Option (KeyFields × List Char) :=
  (scanString cs).bind fun (key, cs) => (eat ':' cs).bind fun cs => scanField f key cs

/-- The two loops: items with commas between them, up to the closing brace. -/
def scanItems {σ : Type} (item : σ → List Char → Option (σ × List Char)) :
    Nat → σ → List Char → Option (σ × List Char)
  | 0, _, _ => none
  | fuel + 1, s, cs =>
    match eat '\x7d' cs with
    | some rest => some (s, rest)
    | none =>
      (item s cs).bind fun (s, cs) =>
        match eat ',' cs with
        | some cs => scanItems item fuel s cs
        | none => (eat '\x7d' cs).map fun cs => (s, cs)

/-- An entry of the table. -/
structure Entry where
  topic : String
  brokerName : String
  queueId : Int
  offset : Int
  deriving DecidableEq, Repr

/-- One entry: its key, a colon and its offset. All three fields have to be there. -/
def scanEntry (cs : List Char) : Option (Entry × List Char) :=
  (eat '\x7b' cs).bind fun cs => (scanItems scanNamed (cs.length + 1) ⟨none, none, none⟩ cs).bind
    fun (f, cs) => (eat ':' cs).bind fun cs => (scanInt cs).bind fun (off, cs) =>
      match f with
      | ⟨some topic, some brokerName, some queueId⟩ => some (⟨topic, brokerName, queueId, off⟩, cs)
      | _ => none

/-- An entry, after those that have been met. -/
def pushEntry (out : List Entry) (cs : List Char) : Option (List Entry × List Char) :=
  (scanEntry cs).map fun (e, cs) => (out ++ [e], cs)

/-! Every loop of the scanner moves forward, so its fuel does not run out. -/

theorem skipWs_length (cs : List Char) : (skipWs cs).length ≤ cs.length :=
  (dropWhile_sublist _).length_le

variable {cs : List Char} {p : KeyFields × List Char} {f : KeyFields} {fuel : Nat}

theorem eat_length {c : Char} {rest : List Char} (h : eat c cs = some rest) :
    rest.length < cs.length := by
  have hws := skipWs_length cs
  unfold eat at h
  split at h
  · rename_i d rest' heq
    split at h
    · cases h
      rw [heq, length_cons] at hws
      omega
    · cases h
  · cases h

theorem stringBody_length {p : List Char × List Char} (h : stringBody cs = some p) :
    p.2.length < cs.length := by
  fun_induction stringBody cs generalizing p with
  | case1 => cases h
  | case2 rest =>
    cases h
    exact Nat.lt_succ_self _
  | case3 a b c d rest x hx ih =>
    obtain ⟨q, hq, rfl⟩ := Option.map_eq_some_iff.mp h
    have := ih hq
    simp only [length_cons]
    omega
  | case4 => cases h
  | case5 e rest hu x hx ih =>
    obtain ⟨q, hq, rfl⟩ := Option.map_eq_some_iff.mp h
    have := ih hq
    simp only [length_cons]
    omega
  | case6 => cases h
  | case7 => cases h
  | case8 c rest _ _ _ _ ih =>
    obtain ⟨q, hq, rfl⟩ := Option.map_eq_some_iff.mp h
    have := ih hq
    simp only [length_cons]
    omega

theorem scanString_length {p : String × List Char} (h : scanString cs = some p) :
    p.2.length < cs.length := by
  have hws := skipWs_length cs
  unfold scanString at h
  split at h
  · rename_i rest heq
    obtain ⟨q, hq, rfl⟩ := Option.map_eq_some_iff.mp h
    have := stringBody_length hq
    rw [heq, length_cons] at hws
    show q.2.length < cs.length
    omega
  · cases h

theorem sign_length (cs : List Char) : (sign cs).2.length ≤ cs.length := by
  unfold sign
  split
  · exact Nat.le_succ _
  · exact le_rfl

theorem scanInt_length {p : Int × List Char} (h : scanInt cs = some p) :
    p.2.length ≤ cs.length := by
  have hws := skipWs_length cs
  have hsign := sign_length (skipWs cs)
  simp only [scanInt] at h
  split at h
  · cases h
  · obtain ⟨z, _, rfl⟩ := Option.map_eq_some_iff.mp h
    have hdrop := (dropWhile_sublist (l := (sign (skipWs cs)).2) Char.isDigit).length_le
    show ((sign (skipWs cs)).2.dropWhile Char.isDigit).length ≤ cs.length
    omega

theorem scanField_length {key : String} (h : scanField f key cs = some p) :
    p.2.length ≤ cs.length := by
  unfold scanField at h
  split at h
  · obtain ⟨q, hq, rfl⟩ := Option.map_eq_some_iff.mp h
    exact le_of_lt (scanString_length hq)
  · obtain ⟨q, hq, hrest⟩ := Option.bind_eq_some_iff.mp h
    have hlen := scanInt_length hq
    dsimp only at hrest
    split at hrest
    · split at hrest
      · cases hrest
        exact hlen
      · cases hrest
    · cases hrest
      exact hlen

theorem scanNamed_length (h : scanNamed f cs = some p) : p.2.length < cs.length := by
  obtain ⟨a, ha, h⟩ := Option.bind_eq_some_iff.mp h
  obtain ⟨cs₁, h₁, h⟩ := Option.bind_eq_some_iff.mp h
  have hkey := scanString_length ha
  have hcolon := eat_length h₁
  have hvalue := scanField_length h
  omega

section Items

variable {σ : Type} {item : σ → List Char → Option (σ × List Char)}
  (hitem : ∀ {s cs p}, item s cs = some p → p.2.length < cs.length)
include hitem

/-- **One more unit of fuel changes nothing** once there is more of it than text. -/
theorem scanItems_fuel (h : cs.length < fuel) (s : σ) :
    scanItems item (fuel + 1) s cs = scanItems item fuel s cs := by
  induction fuel generalizing cs s with
  | zero => omega
  | succ fuel ih =>
    rw [scanItems]
    conv_rhs => rw [scanItems]
    cases eat '\x7d' cs with
    | some rest => rfl
    | none =>
      refine Option.bind_congr fun p hp => ?_
      have hlen := hitem hp
      dsimp only
      cases h₁ : eat ',' p.2 with
      | none => rfl
      | some cs₁ =>
        have hcomma := eat_length h₁
        exact ih (by omega) p.1

theorem scanItems_length {s : σ} {p : σ × List Char} (h : scanItems item fuel s cs = some p) :
    p.2.length < cs.length := by
  induction fuel generalizing s cs with
  | zero => cases h
  | succ fuel ih =>
    rw [scanItems] at h
    split at h
    · rename_i rest heat
      cases h
      exact eat_length heat
    · obtain ⟨q, hq, h⟩ := Option.bind_eq_some_iff.mp h
      have hlen := hitem hq
      dsimp only at h
      split at h
      · have hcomma := eat_length ‹_›
        have := ih h
        omega
      · obtain ⟨cs₂, h₂, rfl⟩ := Option.map_eq_some_iff.mp h
        have hbrace := eat_length h₂
        show cs₂.length < cs.length
        omega

end Items

theorem scanEntry_length {p : Entry × List Char} (h : scanEntry cs = some p) :
    p.2.length < cs.length := by
  obtain ⟨cs₁, h₁, h⟩ := Option.bind_eq_some_iff.mp h
  obtain ⟨f, hf, h⟩ := Option.bind_eq_some_iff.mp h
  obtain ⟨cs₂, h₂, h⟩ := Option.bind_eq_some_iff.mp h
  obtain ⟨z, hz, h⟩ := Option.bind_eq_some_iff.mp h
  have hopen := eat_length h₁
  have hkey := scanItems_length scanNamed_length hf
  have hcolon := eat_length h₂
  have hoff := scanInt_length hz
  dsimp only at h
  split at h
  · cases h
    show z.2.length < cs.length
    omega
  · cases h

theorem pushEntry_length {out : List Entry} {p : List Entry × List Char}
    (h : pushEntry out cs = some p) : p.2.length < cs.length := by
  obtain ⟨q, hq, rfl⟩ := Option.map_eq_some_iff.mp h
  exact scanEntry_length hq

theorem scan_fuel (h : cs.length < fuel) :
    (∀ f, scanItems scanNamed (fuel + 1) f cs = scanItems scanNamed fuel f cs) ∧
      ∀ out, scanItems pushEntry (fuel + 1) out cs = scanItems pushEntry fuel out cs :=
  ⟨scanItems_fuel scanNamed_length h, scanItems_fuel pushEntry_length h⟩

end Scanner

def scanOffsetStoreEntries (text : String) : Option (List Scanner.Entry) :=
  (Scanner.eat '\x7b' text.toList).bind fun cs => (Scanner.scanString cs).bind fun (name, cs) =>
    if name ≠ "offsetTable" then none
    else
      (Scanner.eat ':' cs).bind fun cs => (Scanner.eat '\x7b' cs).bind fun cs =>
        (Scanner.scanItems Scanner.pushEntry (cs.length + 1) [] cs).bind fun (out, cs) =>
          (Scanner.eat '\x7d' cs).bind fun cs => if Scanner.skipWs cs = [] then some out else none

def Scanner.Entry.queue (e : Scanner.Entry) : MessageQueue := ⟨e.topic, e.brokerName, e.queueId⟩

/-! ## 3. Reading a table -/

section Parse

variable (flat : String → Option OffsetTable)

def parseLocalOffsetsText (text : String) : Option OffsetTable :=
  let trimmed := Text.trim text
  if trimmed.isEmpty then none
  else
    match flat trimmed with
    | some table => some table
    | none => (scanOffsetStoreEntries trimmed).map fun entries =>
      entries.foldl (fun items e => items.insert (mqKey e.queue) e.offset) ∅

/-- `parse_local_offsets_with_queues`: a flat table has no queues. -/
def parseLocalOffsetsWithQueues (text : String) : Option (OffsetTable × QueueTable) :=
  let trimmed := Text.trim text
  if trimmed.isEmpty then none
  else
    match flat trimmed with
    | some table => some (table, ∅)
    | none => (scanOffsetStoreEntries trimmed).map fun entries =>
      entries.foldl (fun (items, mqMap) e =>
        (items.insert (mqKey e.queue) e.offset, mqMap.insert (mqKey e.queue) e.queue)) (∅, ∅)

theorem foldl_insert_fst (entries : List Scanner.Entry) (items : OffsetTable) (mqMap : QueueTable) :
    (entries.foldl (fun (t : OffsetTable × QueueTable) e =>
      (t.1.insert (mqKey e.queue) e.offset, t.2.insert (mqKey e.queue) e.queue))
        (items, mqMap)).1
      = entries.foldl (fun items e => items.insert (mqKey e.queue) e.offset) items := by
  induction entries generalizing items mqMap with
  | nil => rfl
  | cons e entries ih => exact ih _ _

/-- **Both readers find the same table.** -/
theorem parseLocalOffsetsText_eq (text : String) :
    parseLocalOffsetsText flat text = (parseLocalOffsetsWithQueues flat text).map (·.1) := by
  unfold parseLocalOffsetsText parseLocalOffsetsWithQueues
  dsimp only
  split
  · rfl
  · cases flat (Text.trim text) with
    | some table => rfl
    | none =>
      cases scanOffsetStoreEntries (Text.trim text) with
      | none => rfl
      | some entries => exact congrArg some (foldl_insert_fst entries ∅ ∅).symm

end Parse

end RocketMQ
