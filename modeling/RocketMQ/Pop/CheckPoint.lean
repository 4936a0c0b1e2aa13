/-
  File:      RocketMQ/Pop/CheckPoint.lean
  Subject:   The check-point text (`POP_CK`) of a popped message, after `extra_info.rs`.

  Eight segments with a space between them: start offset, pop time, invisible time, revive queue,
  retry flag, broker name, queue id, message offset.

  * `split_text`: what splitting a check-point gives. The broker name is the only segment that can
    fall apart;
  * `text_readBack`, `getBrokerName_text_ne`: it does so exactly when it has a space in it.
-/
import RocketMQ.Lib.Decimal
import RocketMQ.Lib.Text
import RocketMQ.Naming

namespace RocketMQ

open List

namespace ExtraInfo

/-! ## 1. Splitting and getters -/

/-- The errors of the getters, with what was being read. -/
inductive CkError where
  /-- there are only that many segments -/
  | tooShort (what : String) (length : Nat)
  /-- the segment at that index is not a number -/
  | notNumber (what : String) (index : Nat) (raw : String)
  deriving DecidableEq, Repr

def splitDropTrailing (value : String) (sep : Char) : List String :=
  ((Text.split sep value).reverse.dropWhile String.isEmpty).reverse

def split (extraInfo : String) : List String := splitDropTrailing extraInfo ' '

/-- A segment as it stands. -/
def segment (segments : List String) (index : Nat) (what : String) : Except CkError String :=
  match segments[index]? with
  | some raw => .ok raw
  | none => .error (.tooShort what segments.length)

/-- `segment_as`: a segment read as a number. -/
def segmentAs (segments : List String) (index : Nat) (what : String) : Except CkError Int :=
  match segments[index]? with
  | some raw =>
    match Decimal.parseI64 (Text.trim raw) with
    | some z => .ok z
    | none => .error (.notNumber what index raw)
  | none => .error (.tooShort what segments.length)

/-- The conversion `as i32`. -/
def asI32 (z : Int) : Int := z.bmod (2 ^ 32)

/-- The range of `i32`. -/
def InI32 (z : Int) : Prop := -2147483648 ≤ z ∧ z ≤ 2147483647

instance (z : Int) : Decidable (InI32 z) := inferInstanceAs (Decidable (_ ∧ _))

variable {z o : Int}

theorem InI32.inI64 (h : InI32 z) : Decimal.InI64 z := by
  unfold InI32 at h
  unfold Decimal.InI64 Decimal.i64Min Decimal.i64Max
  omega

theorem asI32_of_inI32 (h : InI32 z) : asI32 z = z := by
  unfold InI32 at h
  unfold asI32
  rw [Int.bmod_eq_of_le] <;> omega

def getCkQueueOffset (segments : List String) : Except CkError Int :=
  segmentAs segments 0 "getCkQueueOffset"

def getPopTime (segments : List String) : Except CkError Int := segmentAs segments 1 "getPopTime"

def getInvisibleTime (segments : List String) : Except CkError Int :=
  segmentAs segments 2 "getInvisibleTime"

def getReviveQid (segments : List String) : Except CkError Int :=
  (segmentAs segments 3 "getReviveQid").map asI32

def getRetry (segments : List String) : Except CkError String := segment segments 4 "getRetry"

def getBrokerName (segments : List String) : Except CkError String :=
  segment segments 5 "getBrokerName"

def getQueueId (segments : List String) : Except CkError Int :=
  (segmentAs segments 6 "getQueueId").map asI32

def getQueueOffset (segments : List String) : Except CkError Int :=
  segmentAs segments 7 "getQueueOffset"

/-! ## 2. Assembly -/

/-- The segments of a check-point. -/
structure CheckPoint where
  ckQueueOffset : Int
  popTime : Int
  invisibleTime : Int
  reviveQid : Int
  retry : String
  brokerName : String
  queueId : Int
  msgQueueOffset : Option Int
  deriving DecidableEq, Repr

variable (ck : CheckPoint)

/-- The text of a check-point. -/
def CheckPoint.text : String :=
  Text.join ' ' ([toString ck.ckQueueOffset, toString ck.popTime, toString ck.invisibleTime,
    toString ck.reviveQid, ck.retry, ck.brokerName, toString ck.queueId]
      ++ (ck.msgQueueOffset.map toString).toList)

/-- `build_extra_info`: the retry flag is read off the topic. -/
def buildExtraInfo (ckQueueOffset popTime invisibleTime reviveQid : Int)
    (topic brokerName : String) (queueId : Int) (msgQueueOffset : Option Int) : String :=
  CheckPoint.text ⟨ckQueueOffset, popTime, invisibleTime, reviveQid, retryOfTopic topic, brokerName,
    queueId, msgQueueOffset⟩

/-! ## 3. Reading back -/

theorem decimal_no_space (z : Int) : Text.containsChar (toString z) ' ' = false := by
  unfold Text.containsChar
  rw [← Bool.not_eq_true, contains_iff_mem]
  intro hmem
  rcases Decimal.mem_toString_int hmem with h | h
  · cases h
  · cases h

theorem decimal_trim (z : Int) : Text.trim (toString z) = toString z := by
  apply Text.trim_eq
  intro c hc
  rcases Decimal.mem_toString_int hc with rfl | hd
  · rfl
  · unfold Char.isDigit at hd
    rw [Bool.and_eq_true, decide_eq_true_iff, decide_eq_true_iff] at hd
    have hlo : 48 ≤ c.toNat := UInt32.le_iff_toNat_le.mp hd.1
    have hhi : c.toNat ≤ 57 := UInt32.le_iff_toNat_le.mp hd.2
    unfold Text.isWhite
    simp only [Bool.or_eq_false_iff, Bool.and_eq_false_iff, decide_eq_false_iff_not,
      beq_eq_false_iff_ne]
    omega

theorem decimal_not_empty (z : Int) : (toString z).isEmpty = false := by
  rw [String.isEmpty_eq_false_iff]
  intro hnil
  have hlist : (toString z).toList = [] := by rw [hnil]; rfl
  rw [Decimal.toList_toString_int] at hlist
  split at hlist
  · cases hlist
  · exact Nat.toDigits_ne_nil hlist

theorem split_decimal (z : Int) : Text.split ' ' (toString z) = [toString z] :=
  Text.split_whole (decimal_no_space z)

theorem dropTrailing_keep (l : List String) {x : String} (hx : x.isEmpty = false) :
    ((l ++ [x]).reverse.dropWhile String.isEmpty).reverse = l ++ [x] := by
  rw [reverse_append]
  show ((x :: l.reverse).dropWhile String.isEmpty).reverse = l ++ [x]
  rw [dropWhile_cons, hx]
  simp

/-- The segments before the broker name. -/
abbrev CheckPoint.front : List String :=
  [toString ck.ckQueueOffset, toString ck.popTime, toString ck.invisibleTime,
    toString ck.reviveQid, ck.retry]

theorem segmentAs_decimal {segments : List String} {index : Nat} (what : String)
    (h : segments[index]? = some (toString z)) (hz : Decimal.InI64 z) :
    segmentAs segments index what = .ok z := by
  unfold segmentAs
  rw [h]
  show (match Decimal.parseI64 (Text.trim (toString z)) with
    | some z => Except.ok z
    | none => .error (CkError.notNumber what index (toString z))) = .ok z
  rw [decimal_trim, Decimal.parseI64_toString hz]

variable (ho : ck.msgQueueOffset = some o) (hretry : Text.containsChar ck.retry ' ' = false)
include ho hretry

/-- **Splitting a check-point** with a message offset. -/
theorem split_text :
    split ck.text = ck.front ++ Text.split ' ' ck.brokerName ++ [toString ck.queueId, toString o] := by
  have hparts : Text.split ' ' ck.text
      = ck.front ++ Text.split ' ' ck.brokerName ++ [toString ck.queueId, toString o] := by
    rw [CheckPoint.text, ho, cons_append, Text.split_join]
    simp only [Option.map_some, Option.toList_some, flatMap_cons, flatMap_nil, split_decimal,
      Text.split_whole hretry, cons_append, nil_append]
  unfold split splitDropTrailing
  rw [hparts]
  have hlast := dropTrailing_keep (ck.front ++ Text.split ' ' ck.brokerName
    ++ [toString ck.queueId]) (decimal_not_empty o)
  rwa [append_assoc _ [toString ck.queueId]] at hlast

/-- **A check-point reads back**, when its broker name has no space. -/
theorem text_readBack (hbroker : Text.containsChar ck.brokerName ' ' = false)
    (hq : InI32 ck.queueId) (hoff : Decimal.InI64 o) :
    getRetry (split ck.text) = .ok ck.retry ∧ getBrokerName (split ck.text) = .ok ck.brokerName ∧
      getQueueId (split ck.text) = .ok ck.queueId ∧ getQueueOffset (split ck.text) = .ok o := by
  rw [split_text ck ho hretry, Text.split_whole hbroker]
  refine ⟨rfl, rfl, ?_, segmentAs_decimal _ rfl hoff⟩
  unfold getQueueId
  rw [segmentAs_decimal _ rfl hq.inI64]
  exact congrArg Except.ok (asI32_of_inI32 hq)

/-- **A broker name with a space is not read back.** -/
theorem getBrokerName_text_ne (hbroker : Text.containsChar ck.brokerName ' ' = true) :
    getBrokerName (split ck.text) ≠ .ok ck.brokerName := by
  obtain ⟨p, ps, hsplit, hne⟩ := Text.split_head_ne hbroker
  rw [split_text ck ho hretry, hsplit]
  exact fun h => hne (Except.ok.inj h)

theorem text_not_empty : ck.text.isEmpty = false := by
  rw [String.isEmpty_eq_false_iff]
  intro hnil
  have hsplit := split_text ck ho hretry
  rw [hnil] at hsplit
  exact cons_ne_nil _ _ hsplit.symm

omit ho hretry

theorem segmentAs_i32 {segments : List String} {index : Nat} (what : String)
    (h : segments[index]? = some (toString z)) (hz : InI32 z) :
    (segmentAs segments index what).map asI32 = .ok z := by
  rw [segmentAs_decimal what h hz.inI64]
  exact congrArg Except.ok (asI32_of_inI32 hz)

/-- **A built check-point is read back exactly when its broker name has no space.** -/
theorem buildExtraInfo_readBack_iff {a b c r q o : Int} (ha : Decimal.InI64 a)
    (hb : Decimal.InI64 b) (hc : Decimal.InI64 c) (hr : InI32 r) (hq : InI32 q)
    (ho : Decimal.InI64 o) (topic brokerName : String) {segments : List String}
    (hs : segments = split (buildExtraInfo a b c r topic brokerName q (some o))) :
    (getCkQueueOffset segments = .ok a ∧ getPopTime segments = .ok b ∧
      getInvisibleTime segments = .ok c ∧ getReviveQid segments = .ok r ∧
      getRetry segments = .ok (retryOfTopic topic) ∧ getBrokerName segments = .ok brokerName ∧
      getQueueId segments = .ok q ∧ getQueueOffset segments = .ok o) ↔
    Text.containsChar brokerName ' ' = false := by
  have hretry : Text.containsChar (retryOfTopic topic) ' ' = false := by
    rw [PopKind.retryOfTopic_eq]
    cases PopKind.ofTopic topic <;> rfl
  have hsplit := hs.trans (split_text ⟨a, b, c, r, _, brokerName, q, some o⟩ rfl hretry)
  constructor
  · intro h
    by_contra hspace
    obtain ⟨p, ps, hparts, hne⟩ := Text.split_head_ne (Bool.not_eq_false _ ▸ hspace)
    rw [hsplit, hparts] at h
    exact hne (Except.ok.inj h.2.2.2.2.2.1)
  · intro hbroker
    rw [hsplit, Text.split_whole hbroker]
    exact ⟨segmentAs_decimal _ rfl ha, segmentAs_decimal _ rfl hb, segmentAs_decimal _ rfl hc,
      segmentAs_i32 _ rfl hr, rfl, rfl, segmentAs_i32 _ rfl hq, segmentAs_decimal _ rfl ho⟩

/-- A check-point of a second-version retry topic. -/
theorem buildExtraInfo_readBack_retry :
    getRetry (split (buildExtraInfo 90 1000 60000 0 "%RETRY%G+T" "b" 3 (some 99))) = .ok "2" :=
  ((buildExtraInfo_readBack_iff (by decide) (by decide) (by decide) (by decide) (by decide)
    (by decide) "%RETRY%G+T" "b" rfl).mpr (by decide)).2.2.2.2.1

end ExtraInfo

end RocketMQ
