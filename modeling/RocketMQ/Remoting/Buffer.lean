/-
  File:      RocketMQ/Remoting/Buffer.lean
  Subject:   The big-endian buffers of every wire format.

  After `common/buffer.rs`. A writer appends bytes; a narrowing cast keeps the low bytes of what it
  is given, whatever that is. A reader never goes past the end: it returns an error.

  * `Writer`, `Reader`: the fields of fixed width, and strings behind their length;
  * `reads_i32` and its companions: **each field is read back**.
-/
import RocketMQ.Lib.Binary
import RocketMQ.Remoting.FastJson

namespace RocketMQ

open Binary

/-- `str::as_bytes`. -/
def strBytes (s : String) : List UInt8 := Utf8.encode s.toList

theorem strBytes_ne_nil {s : String} (h : s ≠ "") : strBytes s ≠ [] := by
  intro hnil
  have hlen := Utf8.length_le_encode s.toList
  rw [strBytes] at hnil
  rw [hnil, List.length_nil, Nat.le_zero, List.length_eq_zero_iff] at hlen
  exact h (String.toList_eq_nil_iff.mp hlen)

/-! ## 1. Writing -/

namespace Writer

def u8 (v : UInt8) : List UInt8 := [v]

/-- `(v as i16) as u16`. -/
def i16 (v : Int32) : List UInt8 := bigEndian 2 v.toBitVec.toNat

/-- `v as u16`. -/
def u16 (v : Nat) : List UInt8 := bigEndian 2 v

def i32 (v : Int32) : List UInt8 := bigEndian 4 v.toBitVec.toNat

def u32 (v : UInt32) : List UInt8 := bigEndian 4 v.toNat

def i64 (v : Int64) : List UInt8 := bigEndian 8 v.toBitVec.toNat

/-- `len as i32`. -/
def len32 (n : Nat) : List UInt8 := i32 (Int32.ofNat n)

/-- `Writer::string`. -/
def string (shortLength : Bool) (s : Option String) : List UInt8 :=
  let bytes := (s.map strBytes).getD []
  (if shortLength then u16 bytes.length else len32 bytes.length) ++ bytes

end Writer

/-! ## 2. Reading -/

namespace Reader

variable (lib : StdLib)

/-- The error of `slice`. -/
def underflow (need size : Nat) : Fault :=
  .err (.decode ("buffer underflow: need " ++ toString need ++ " bytes, have " ++ toString size))

/-- `take`, `bytes`. -/
def bytes (n : Nat) : Read Fault (List UInt8) := Read.take underflow n

def u8 : Read Fault UInt8 := do
  let b ← bytes 1
  return b.headD 0

def u16 : Read Fault Nat := do
  let b ← bytes 2
  return number b

/-- `u16()? as i32`. -/
def i16 : Read Fault Int32 := do
  let n ← u16
  return Int32.ofNat n

def i32 : Read Fault Int32 := do
  let b ← bytes 4
  return Int32.ofNat (number b)

def u32 : Read Fault UInt32 := do
  let b ← bytes 4
  return UInt32.ofNat (number b)

def i64 : Read Fault Int64 := do
  let b ← bytes 8
  return Int64.ofNat (number b)

/-- A length of four bytes. -/
def positiveLen (raw : Int32) : Read Fault Nat :=
  if raw < 0 then Read.fail (.err (.decode ("negative string length " ++ toString raw.toInt)))
  else return raw.toInt.toNat

/-- The length of a string. -/
def stringLen (shortLength : Bool) : Read Fault Nat :=
  if shortLength then u16
  else do
    let raw ← i32
    positiveLen raw

/-- `String::from_utf8`. -/
def utf8 (b : List UInt8) : Read Fault (Option String) :=
  match Utf8.decode b with
  | some cs => return some (String.ofList cs)
  | none => Read.fail (.err (.decode ("invalid utf8: " ++ lib.utf8Error b)))

/-- The string behind its length. -/
def stringOf (n : Nat) : Read Fault (Option String) :=
  if n = 0 then return none
  else do
    let b ← bytes n
    utf8 lib b

/-- `Reader::string`: a length of 0 yields `None`. -/
def string (shortLength : Bool) : Read Fault (Option String) := do
  let n ← stringLen shortLength
  stringOf lib n

end Reader

/-! ## 3. Reading back what was written -/

theorem reads_bytes {n : Nat} {bs : List UInt8} (h : bs.length = n) : Reads (Reader.bytes n) bs bs :=
  Reads.take _ h

theorem reads_u8 (v : UInt8) : Reads Reader.u8 (Writer.u8 v) v :=
  (reads_bytes rfl).map (a := [v]) fun b => b.headD 0

theorem reads_u16 {n : Nat} (h : n < 65536) : Reads Reader.u16 (Writer.u16 n) n := by
  have hread := (reads_bytes (length_bigEndian 2 n)).map number
  rwa [number_bigEndian, show 256 ^ 2 = 65536 from rfl, Nat.mod_eq_of_lt h] at hread

theorem ofNat_toBitVec (v : Int32) : Int32.ofNat v.toBitVec.toNat = v := by
  simp

theorem toNat_toBitVec {v : Int32} (h : 0 ≤ v.toInt) : (v.toBitVec.toNat : Int) = v.toInt := by
  rw [← Int32.toInt_toBitVec, BitVec.toInt_eq_toNat_cond] at h ⊢
  split at h
  · rename_i hsmall
    rw [if_pos hsmall]
  · omega

/-- The low 16 bits of a word, without a sign. -/
def low16 (v : Int32) : Int32 := Int32.ofNat (v.toBitVec.toNat % 65536)

theorem low16_of_lt {v : Int32} (h0 : 0 ≤ v.toInt) (h : v.toInt < 65536) : low16 v = v := by
  have hbits := toNat_toBitVec h0
  rw [low16, Nat.mod_eq_of_lt (by omega), ofNat_toBitVec]

theorem reads_i16 (v : Int32) : Reads Reader.i16 (Writer.i16 v) (low16 v) := by
  have hread := ((reads_bytes (length_bigEndian 2 v.toBitVec.toNat)).map number).map Int32.ofNat
  rwa [number_bigEndian] at hread

theorem reads_i32 (v : Int32) : Reads Reader.i32 (Writer.i32 v) v := by
  have hread := (reads_bytes (length_bigEndian 4 v.toBitVec.toNat)).map fun b =>
    Int32.ofNat (number b)
  rw [number_bigEndian, show 256 ^ 4 = 2 ^ 32 from rfl, Nat.mod_eq_of_lt v.toBitVec.isLt,
    ofNat_toBitVec] at hread
  exact hread

theorem reads_u32 (v : UInt32) : Reads Reader.u32 (Writer.u32 v) v := by
  have hread := (reads_bytes (length_bigEndian 4 v.toNat)).map fun b => UInt32.ofNat (number b)
  rw [number_bigEndian, show 256 ^ 4 = 2 ^ 32 from rfl, Nat.mod_eq_of_lt v.toNat_lt,
    UInt32.ofNat_toNat] at hread
  exact hread

theorem reads_i64 (v : Int64) : Reads Reader.i64 (Writer.i64 v) v := by
  have hread := (reads_bytes (length_bigEndian 8 v.toBitVec.toNat)).map fun b =>
    Int64.ofNat (number b)
  have hv : Int64.ofNat v.toBitVec.toNat = v := by
    simp
  rw [number_bigEndian, show 256 ^ 8 = 2 ^ 64 from rfl, Nat.mod_eq_of_lt v.toBitVec.isLt,
    hv] at hread
  exact hread

/-- The count of bytes that the length field of a string can hold. -/
def maxLen (shortLength : Bool) : Nat := if shortLength then 65535 else 2147483647

theorem reads_stringLen {shortLength : Bool} {n : Nat} (h : n ≤ maxLen shortLength) :
    Reads (Reader.stringLen shortLength)
      (if shortLength then Writer.u16 n else Writer.len32 n) n := by
  cases shortLength with
  | true => exact reads_u16 (Nat.lt_succ_of_le h)
  | false =>
    have hint := Int32.toInt_ofNat_of_lt (Nat.lt_succ_of_le h)
    have hlen : Reader.positiveLen (Int32.ofNat n) = Pure.pure n := by
      rw [Reader.positiveLen, if_neg, hint, Int.toNat_natCast]
      rw [Int32.lt_iff_toInt_lt, hint]
      exact Int.not_lt.mpr (Int.natCast_nonneg n)
    refine (reads_i32 (Int32.ofNat n)).bind_nil ?_
    rw [hlen]
    exact .pure n

section

variable {lib : StdLib}

theorem reads_utf8 (s : String) : Reads (Reader.utf8 lib (strBytes s)) [] (some s) := by
  rw [Reader.utf8, strBytes, Utf8.decode_eq_some.mpr rfl]
  dsimp only
  rw [String.ofList_toList]
  exact .pure _

/-- The string that a text is read as: none for the empty one. -/
def nonEmpty (s : String) : Option String := if s = "" then none else some s

theorem reads_stringOf (s : String) :
    Reads (Reader.stringOf lib (strBytes s).length) (strBytes s) (nonEmpty s) := by
  unfold Reader.stringOf nonEmpty
  by_cases hs : s = ""
  · subst hs
    exact .pure none
  · rw [if_neg (mt List.length_eq_zero_iff.mp (strBytes_ne_nil hs)), if_neg hs]
    exact (reads_bytes rfl).bind_nil (reads_utf8 s)

/-- **A string is read back**, an empty one as none. -/
theorem reads_string {shortLength : Bool} {s : String}
    (h : (strBytes s).length ≤ maxLen shortLength) :
    Reads (Reader.string lib shortLength) (Writer.string shortLength (some s)) (nonEmpty s) :=
  (reads_stringLen h).bind (reads_stringOf s)

end

/-! ## 4. Readers return -/

/-- The reader returns a value or an error: it neither panics nor runs out of fuel. -/
def Returns {α : Type} (p : Read Fault α) : Prop := Read.Only (fun e => ∃ err, e = .err err) p

theorem returns_bytes (n : Nat) : Returns (Reader.bytes n) := Read.Only.take (fun _ _ => ⟨_, rfl⟩) n

theorem returns_u8 : Returns Reader.u8 := (returns_bytes 1).bind fun _ => .pure _

theorem returns_u16 : Returns Reader.u16 := (returns_bytes 2).bind fun _ => .pure _

theorem returns_i16 : Returns Reader.i16 := returns_u16.bind fun _ => .pure _

theorem returns_i32 : Returns Reader.i32 := (returns_bytes 4).bind fun _ => .pure _

theorem returns_stringLen (shortLength : Bool) : Returns (Reader.stringLen shortLength) := by
  unfold Reader.stringLen
  split
  · exact returns_u16
  · refine returns_i32.bind fun raw => ?_
    unfold Reader.positiveLen
    split
    · exact .fail ⟨_, rfl⟩
    · exact .pure _

theorem returns_stringOf (lib : StdLib) (n : Nat) : Returns (Reader.stringOf lib n) := by
  unfold Reader.stringOf
  split
  · exact .pure _
  · refine (returns_bytes n).bind fun b => ?_
    unfold Reader.utf8
    split
    · exact .pure _
    · exact .fail ⟨_, rfl⟩

theorem returns_string (lib : StdLib) (shortLength : Bool) :
    Returns (Reader.string lib shortLength) :=
  (returns_stringLen shortLength).bind (returns_stringOf lib)

theorem advances_bytes (n : Nat) : Read.Advances n (Reader.bytes n) := Read.Advances.take _ n

theorem advances_stringLen (shortLength : Bool) :
    Read.Advances 2 (Reader.stringLen shortLength) := by
  unfold Reader.stringLen
  split
  · exact (advances_bytes 2).bind fun _ => .pure _
  · have h32 : Read.Advances 4 Reader.i32 := (advances_bytes 4).bind fun _ => .pure _
    refine (h32.bind fun raw => ?_).mono (by decide : 2 ≤ 4 + 0)
    unfold Reader.positiveLen
    split
    · exact .fail 0 _
    · exact .pure _

theorem advances_string (lib : StdLib) (shortLength : Bool) :
    Read.Advances 2 (Reader.string lib shortLength) := by
  refine (advances_stringLen shortLength).bind (k := 0) fun n => ?_
  unfold Reader.stringOf
  split
  · exact .pure _
  · refine ((advances_bytes n).bind (k := 0) fun b => ?_).mono (Nat.zero_le _)
    unfold Reader.utf8
    split
    · exact .pure _
    · exact .fail 0 _

end RocketMQ
