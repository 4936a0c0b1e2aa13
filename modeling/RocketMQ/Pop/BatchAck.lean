/-
  File:      RocketMQ/Pop/BatchAck.lean
  Subject:   The body of a batch acknowledgement, after `BatchAck` in `body.rs`.

  Tickets of one retry flag, queue, start offset and pop time form a group; a group sends its
  offsets as the bits `offset - start offset`, cut to 32 bits.

  * `mem_received`: the bits of a group survive the way through bytes and base64;
  * `batch_covers_iff`: **a body acknowledges exactly its tickets exactly if no ticket lies 2^32 or
    more above its start offset**.
-/
import RocketMQ.Lib.Pool
import RocketMQ.Pop.CheckPoint

namespace RocketMQ.Pop

open List ExtraInfo

/-! ## 1. Bits in bytes -/

/-- `BASE64_STANDARD`, of which it matters that it can be inverted. -/
structure Base64 where
  encode : List UInt8 → String
  decode : String → Option (List UInt8)
  inverse : ∀ bytes, decode (encode bytes) = some bytes
  nil : encode [] = ""

/-- `1_u8 << position`. -/
def bitMask (position : Nat) : UInt8 := UInt8.ofNat (2 ^ position)

def setBit (bytes : List UInt8) (bit : Nat) : List UInt8 :=
  bytes.modify (bit / 8) (· ||| bitMask (bit % 8))

/-- The little-endian packing. -/
def packBits (size : Nat) (bits : List Nat) : List UInt8 :=
  bits.foldl setBit (List.replicate size 0)

def unpackBits (bytes : List UInt8) : List Nat :=
  bytes.zipIdx.flatMap fun e => (List.range 8).filterMap fun position =>
    if e.1 &&& bitMask position ≠ 0 then some ((e.2 * 8 + position) % 2 ^ 32) else none

def ackBitSetToBase64 (b64 : Base64) (bits : List Nat) : String :=
  match bits.max? with
  | none => ""
  | some highest => b64.encode (packBits (highest / 8 + 1) bits)

/-- `ack_bit_set_from_base64`, of a text. -/
def ackBitSetFromBase64 (b64 : Base64) (text : String) : Option (List Nat) :=
  if text.isEmpty then some [] else (b64.decode text).map unpackBits

/-- Whether the bit is set. -/
def hasBit (bytes : List UInt8) (n : Nat) : Bool := (bytes[n / 8]?.getD 0).toNat.testBit (n % 8)

variable {k : Nat} {bytes : List UInt8} {bits : List Nat} {consumerGroup topic : String}
  {segments infos : List String} {ε α : Type}

theorem toNat_bitMask (h : k < 8) : (bitMask k).toNat = 2 ^ k := by
  have : 2 ^ k < 2 ^ 8 := Nat.pow_lt_pow_right (by decide) h
  rw [bitMask, UInt8.toNat_ofNat', Nat.mod_eq_of_lt this]

theorem hasBit_setBit {bit : Nat} (h : bit / 8 < bytes.length) (n : Nat) :
    hasBit (setBit bytes bit) n = true ↔ hasBit bytes n = true ∨ bit = n := by
  have hk : bit % 8 < 8 := Nat.mod_lt _ (by decide)
  unfold hasBit setBit
  rw [getElem?_modify]
  by_cases hbyte : bit / 8 = n / 8
  · rw [← hbyte, getElem?_eq_getElem h]
    simp only [if_true, Option.map_eq_map, Option.map_some, Option.getD_some, UInt8.toNat_or,
      toNat_bitMask hk, Nat.testBit_or, Nat.testBit_two_pow, Bool.or_eq_true, decide_eq_true_iff]
    exact or_congr_right (by omega)
  · have hne : bit ≠ n := fun heq => hbyte (by rw [heq])
    simp [hbyte, hne]

theorem length_foldl_setBit (bits : List Nat) (bytes : List UInt8) :
    (bits.foldl setBit bytes).length = bytes.length := by
  induction bits generalizing bytes with
  | nil => rfl
  | cons bit bits ih => rw [foldl_cons, ih, setBit, length_modify]

theorem hasBit_foldl (h : ∀ bit ∈ bits, bit / 8 < bytes.length) (n : Nat) :
    hasBit (bits.foldl setBit bytes) n = true ↔ hasBit bytes n = true ∨ n ∈ bits := by
  induction bits generalizing bytes with
  | nil => simp
  | cons bit bits ih =>
    have hlen : (setBit bytes bit).length = bytes.length := length_modify ..
    rw [foldl_cons, ih (fun b hb => by rw [hlen]; exact h b (mem_cons_of_mem bit hb)),
      hasBit_setBit (h bit mem_cons_self), mem_cons, or_assoc, @eq_comm _ n bit]

theorem and_bitMask_ne_zero {byte : UInt8} (h : k < 8) :
    byte &&& bitMask k ≠ 0 ↔ byte.toNat.testBit k = true := by
  rw [Ne, ← UInt8.toNat_inj, UInt8.toNat_and, toNat_bitMask h, Nat.and_two_pow]
  cases byte.toNat.testBit k with
  | false | true => simp

theorem mem_unpackBits (hlen : 8 * bytes.length ≤ 2 ^ 32) (n : Nat) :
    n ∈ unpackBits bytes ↔ hasBit bytes n = true := by
  unfold unpackBits hasBit
  simp only [mem_flatMap, mem_filterMap, mem_range, Option.ite_none_right_eq_some,
    Option.some.injEq]
  constructor
  · rintro ⟨⟨byte, i⟩, hmem, k, hk, hset, rfl⟩
    have hget := mem_zipIdx_iff_getElem?.mp hmem
    obtain ⟨hi, _⟩ := List.getElem?_eq_some_iff.mp hget
    have hn : (i * 8 + k) % 2 ^ 32 = i * 8 + k := Nat.mod_eq_of_lt (by omega)
    rw [hn, show (i * 8 + k) / 8 = i by omega, show (i * 8 + k) % 8 = k by omega, hget]
    exact (and_bitMask_ne_zero hk).mp hset
  · intro hbit
    cases hget : bytes[n / 8]? with
    | none => simp [hget] at hbit
    | some byte =>
      rw [hget] at hbit
      obtain ⟨hi, _⟩ := List.getElem?_eq_some_iff.mp hget
      have hk : n % 8 < 8 := Nat.mod_lt _ (by decide)
      refine ⟨(byte, n / 8), mem_zipIdx_iff_getElem?.mpr hget, n % 8, hk,
        (and_bitMask_ne_zero hk).mpr hbit, ?_⟩
      omega

/-- **The bits that arrive are the bits that were sent.** -/
theorem mem_received (b64 : Base64) (h : ∀ bit ∈ bits, bit < 2 ^ 32) :
    ∃ received, ackBitSetFromBase64 b64 (ackBitSetToBase64 b64 bits) = some received ∧
      ∀ n, n ∈ received ↔ n ∈ bits := by
  unfold ackBitSetToBase64
  cases hmax : bits.max? with
  | none =>
    rw [max?_eq_none_iff.mp hmax]
    exact ⟨[], rfl, fun _ => Iff.rfl⟩
  | some highest =>
    obtain ⟨hmem, hle⟩ := max?_eq_some_iff.mp hmax
    have hhigh := h highest hmem
    have hlength : (packBits (highest / 8 + 1) bits).length = highest / 8 + 1 := by
      rw [packBits, length_foldl_setBit, length_replicate]
    have htext : (b64.encode (packBits (highest / 8 + 1) bits)).isEmpty = false := by
      rw [String.isEmpty_eq_false_iff]
      intro hnil
      have hback := b64.inverse (packBits (highest / 8 + 1) bits)
      rw [hnil, ← b64.nil, b64.inverse] at hback
      rw [← Option.some.inj hback] at hlength
      cases hlength
    refine ⟨unpackBits (packBits (highest / 8 + 1) bits), ?_, fun n => ?_⟩
    · rw [ackBitSetFromBase64, htext, b64.inverse]
      rfl
    · have hzero : hasBit (List.replicate (highest / 8 + 1) 0) n = false := by
        unfold hasBit
        rw [getElem?_replicate]
        split <;> simp
      rw [mem_unpackBits (by omega), packBits, hasBit_foldl, hzero]
      · simp
      · intro bit hbit
        have := hle bit hbit
        rw [length_replicate]
        omega

/-! ## 2. Groups -/

/-- What decides the group of a ticket. -/
structure AckGroup where
  retry : String
  queueId : Int
  startOffset : Int
  popTime : Int
  deriving DecidableEq

/-- `BatchAck`; the bits are ascending. -/
structure BatchAck extends AckGroup where
  consumerGroup : String
  topic : String
  reviveQueueId : Int
  invisibleTime : Int
  bitSet : List Nat

inductive AckError where
  | ck (e : CkError)
  | deltaOverflows
  | belowStart (queueOffset startOffset : Int)

/-- The grouping key `retry@queueId@ckQueueOffset@popTime`. -/
def AckGroup.key (g : AckGroup) : String :=
  Text.join '@' [g.retry, toString g.queueId, toString g.startOffset, toString g.popTime]

/-- `bit as u32`. -/
def ackBit (g : AckGroup) (queueOffset : Int) : Nat := ((queueOffset - g.startOffset) % 2 ^ 32).toNat

def BatchAck.setOffsetBit (a : BatchAck) (queueOffset : Int) : Except AckError BatchAck :=
  let bit := queueOffset - a.startOffset
  if ¬ Decimal.InI64 bit then .error .deltaOverflows
  else if bit < 0 then .error (.belowStart queueOffset a.startOffset)
  else
    let bit := ackBit a.toAckGroup queueOffset
    if bit ∈ a.bitSet then .ok a
    else .ok { a with bitSet := (a.bitSet ++ [bit]).mergeSort (· ≤ ·) }

/-- The group and the offset of a ticket, in the order in which they are read. -/
def readTicket (segments : List String) : Except CkError (AckGroup × Int) := do
  let retry ← getRetry segments
  let queueId ← getQueueId segments
  let startOffset ← getCkQueueOffset segments
  let popTime ← getPopTime segments
  let queueOffset ← getQueueOffset segments
  return (⟨retry, queueId, startOffset, popTime⟩, queueOffset)

/-- The loop of `from_extra_info_list`: the broker name, the groups and their entries. -/
structure Collected where
  brokerName : Option String
  groups : List (String × Nat)
  acks : List BatchAck

/-- The entry of a group, made where there is none. -/
def Collected.entry (st : Collected) (consumerGroup topic : String) (segments : List String)
    (g : AckGroup) : Except CkError (Collected × Nat) :=
  match st.groups.find? (·.1 == g.key) with
  | some found => .ok (st, found.2)
  | none => do
    let reviveQueueId ← getReviveQid segments
    let invisibleTime ← getInvisibleTime segments
    return ({ st with
      acks := st.acks ++ [⟨g, consumerGroup, topic, reviveQueueId, invisibleTime, []⟩]
      groups := st.groups ++ [(g.key, st.acks.length)] }, st.acks.length)

def Collected.broker (st : Collected) (segments : List String) : Except CkError Collected :=
  match st.brokerName with
  | some _ => .ok st
  | none => (getBrokerName segments).map fun name => { st with brokerName := some name }

/-- One ticket. An index is in range, since the groups number the entries. -/
def Collected.add (consumerGroup topic : String) (st : Collected) (info : String) :
    Except AckError Collected := do
  let segments := split info
  let st ← (st.broker segments).mapError .ck
  let (g, queueOffset) ← (readTicket segments).mapError .ck
  let (st, index) ← (st.entry consumerGroup topic segments g).mapError .ck
  match st.acks[index]? with
  | none => return st
  | some ack =>
    let ack ← ack.setOffsetBit queueOffset
    return { st with acks := st.acks.set index ack }

def fromExtraInfoList (consumerGroup topic : String) (infos : List String) :
    Except AckError Collected :=
  infos.foldlM (Collected.add consumerGroup topic) ⟨none, [], []⟩

variable {g : AckGroup}

theorem AckGroup.key_injective {g' : AckGroup} (h : g.key = g'.key) : g = g' := by
  have hno : ∀ z : Int, Text.containsChar (toString z) '@' = false := by
    intro z
    unfold Text.containsChar
    rw [← Bool.not_eq_true, contains_iff_mem]
    intro hmem
    rcases Decimal.mem_toString_int hmem with h | h <;> cases h
  have hint : ∀ {z z' : Int}, toString z = toString z' → z = z' := by
    intro z z' heq
    have hz := Decimal.parseSigned_toString z
    rw [heq, Decimal.parseSigned_toString] at hz
    exact (Option.some.inj hz).symm
  have hsplit := congrArg (Text.split '@') h
  simp only [AckGroup.key, Text.split_join, flatMap_cons, flatMap_nil,
    Text.split_whole (hno _)] at hsplit
  have htail := (append_inj' hsplit rfl).2
  simp only [singleton_append, List.cons.injEq, and_true] at htail
  obtain ⟨hq, hs, hp⟩ := htail
  simp only [AckGroup.key, Text.join_cons, hq, hs, hp] at h
  have hretry := (String.append_left_inj _).mp ((String.append_left_inj _).mp h)
  cases g
  cases g'
  simp only [AckGroup.mk.injEq]
  exact ⟨hretry, hint hq, hint hs, hint hp⟩

/-! ## 3. What a body acknowledges -/

/-- A ticket of the list, by its group and offset. -/
def Ticket (infos : List String) (g : AckGroup) (queueOffset : Int) : Prop :=
  ∃ info ∈ infos, readTicket (split info) = .ok (g, queueOffset)

/-- The entries of the tickets so far. -/
structure Collected.Of (infos : List String) (st : Collected) : Prop where
  groups : ∀ e ∈ st.groups, ∃ a, st.acks[e.2]? = some a ∧ a.key = e.1
  bits : ∀ g bit, (∃ a ∈ st.acks, a.toAckGroup = g ∧ bit ∈ a.bitSet) ↔
    ∃ o, Ticket infos g o ∧ bit = ackBit g o
  above : ∀ g o, Ticket infos g o → g.startOffset ≤ o

theorem setOffsetBit_ok {a a' : BatchAck} {o : Int} (h : a.setOffsetBit o = .ok a') :
    a.startOffset ≤ o ∧ a'.toAckGroup = a.toAckGroup ∧
      ∀ bit, bit ∈ a'.bitSet ↔ bit ∈ a.bitSet ∨ bit = ackBit a.toAckGroup o := by
  unfold BatchAck.setOffsetBit at h
  dsimp only at h
  split at h
  · cases h
  · split at h
    · cases h
    · refine ⟨by omega, ?_⟩
      split at h
      · rename_i hmem
        cases h
        refine ⟨rfl, fun bit => ⟨.inl, ?_⟩⟩
        rintro (hbit | rfl)
        · exact hbit
        · exact hmem
      · cases h
        exact ⟨rfl, fun bit => by simp⟩

variable {st st' : Collected}

theorem entry_ok {index : Nat} (hst : st.Of infos)
    (h : st.entry consumerGroup topic segments g = .ok (st', index)) :
    st'.Of infos ∧ ∃ a, st'.acks[index]? = some a ∧ a.toAckGroup = g := by
  unfold Collected.entry at h
  split at h
  · rename_i found hfound
    cases h
    obtain ⟨a, ha, hkey⟩ := hst.groups found (mem_of_find?_eq_some hfound)
    have hfor := find?_some hfound
    exact ⟨hst, a, ha, AckGroup.key_injective (hkey.trans (beq_iff_eq.mp hfor))⟩
  · cases hr : getReviveQid segments with
    | error e => rw [hr] at h; cases h
    | ok revive =>
      cases hi : getInvisibleTime segments with
      | error e => rw [hr, hi] at h; cases h
      | ok invisible =>
        rw [hr, hi] at h
        cases h
        refine ⟨⟨fun e he => ?_, fun g' bit => ?_, hst.above⟩, _, getElem?_concat_length, rfl⟩
        · rcases mem_append.mp he with he | he
          · obtain ⟨a, ha, hkey⟩ := hst.groups e he
            obtain ⟨hlt, _⟩ := List.getElem?_eq_some_iff.mp ha
            exact ⟨a, by rw [getElem?_append_left hlt]; exact ha, hkey⟩
          · rw [mem_singleton.mp he]
            exact ⟨_, getElem?_concat_length, rfl⟩
        · rw [← hst.bits]
          simp [or_and_right, exists_or]

theorem bind_ok {β : Type} {x : Except ε α} {f : α → Except ε β} {b : β} (h : x >>= f = .ok b) :
    ∃ a, x = .ok a ∧ f a = .ok b := by
  cases x with
  | error e => cases h
  | ok a => exact ⟨a, rfl, h⟩

theorem mapError_ok {ε' : Type} {x : Except ε α} {f : ε → ε'} {a : α} (h : x.mapError f = .ok a) :
    x = .ok a := by
  cases x with
  | error e => cases h
  | ok a' => exact congrArg Except.ok (Except.ok.inj h)

theorem broker_ok (hst : st.Of infos) (h : st.broker segments = .ok st') : st'.Of infos := by
  unfold Collected.broker at h
  split at h
  · cases h
    exact hst
  · cases hb : getBrokerName segments with
    | error e => rw [hb] at h; cases h
    | ok name =>
      rw [hb] at h
      cases h
      exact ⟨hst.groups, hst.bits, hst.above⟩

/-- **One ticket more.** -/
theorem add_ok {info : String} (hst : st.Of infos) (h : st.add consumerGroup topic info = .ok st') :
    st'.Of (infos ++ [info]) := by
  obtain ⟨st₁, hbroker, h⟩ := bind_ok h
  obtain ⟨⟨g, o⟩, hread, h⟩ := bind_ok h
  obtain ⟨⟨st₂, index⟩, hentry, hrest⟩ := bind_ok h
  obtain ⟨hof, a, ha, hg⟩ := entry_ok (broker_ok hst (mapError_ok hbroker)) (mapError_ok hentry)
  dsimp only at hrest
  rw [ha] at hrest
  obtain ⟨a', hset, hdone⟩ := bind_ok hrest
  cases hdone
  obtain ⟨habove, hgroup, hbits⟩ := setOffsetBit_ok hset
  obtain ⟨hindex, hat⟩ := List.getElem?_eq_some_iff.mp ha
  have hticket : ∀ g' o', Ticket (infos ++ [info]) g' o' ↔
      Ticket infos g' o' ∨ (a.toAckGroup = g' ∧ o = o') := by
    intro g' o'
    rw [hg]
    simp only [Ticket, mem_append, mem_singleton, or_and_right, exists_or,
      exists_eq_left, mapError_ok hread, Except.ok.injEq, Prod.mk.injEq]
  refine ⟨fun e he => ?_, fun g' bit => ?_, fun g' o' ht => ?_⟩
  · obtain ⟨b, hb, hkey⟩ := hof.groups e he
    by_cases hsame : index = e.2
    · rw [← hsame, ha] at hb
      cases hb
      exact ⟨a', by rw [← hsame]; exact getElem?_set_self hindex, hgroup ▸ hkey⟩
    · exact ⟨b, by rw [getElem?_set_ne hsame]; exact hb, hkey⟩
  · have hnew : a'.toAckGroup = g' ∧ bit ∈ a'.bitSet ↔ (a.toAckGroup = g' ∧ bit ∈ a.bitSet) ∨
        (a.toAckGroup = g' ∧ bit = ackBit a.toAckGroup o) := by
      rw [hgroup, hbits, and_or_left]
    rw [Pool.exists_set_iff ha hnew, hof.bits]
    simp only [hticket, or_and_right, exists_or]
    refine or_congr_right ⟨?_, ?_⟩
    · rintro ⟨rfl, hbit⟩
      exact ⟨o, ⟨rfl, rfl⟩, hbit⟩
    · rintro ⟨_, ⟨rfl, rfl⟩, hbit⟩
      exact ⟨rfl, hbit⟩
  · rcases (hticket g' o').mp ht with ht | ⟨rfl, rfl⟩
    · exact hof.above g' o' ht
    · exact habove

theorem collected_of {body : Collected} (h : fromExtraInfoList consumerGroup topic infos = .ok body) :
    body.Of infos := by
  suffices hgen : ∀ rest done st, st.Of done →
      rest.foldlM (Collected.add consumerGroup topic) st = .ok body → body.Of (done ++ rest) from
    hgen infos [] ⟨none, [], []⟩ ⟨by simp, by simp [Ticket], by simp [Ticket]⟩ h
  intro rest
  induction rest with
  | nil =>
    intro done st hst heq
    cases heq
    rwa [append_nil]
  | cons info rest ih =>
    intro done st hst heq
    obtain ⟨st₁, hadd, hrest⟩ := bind_ok heq
    have := ih (done ++ [info]) st₁ (add_ok hst hadd) hrest
    rwa [append_assoc] at this

/-- The offsets of a group that the receiver reads out of the body. -/
def acknowledged (b64 : Base64) (body : Collected) (g : AckGroup) : Set Int :=
  {o | ∃ a ∈ body.acks, a.toAckGroup = g ∧ ∃ bits,
    ackBitSetFromBase64 b64 (ackBitSetToBase64 b64 a.bitSet) = some bits ∧
    ∃ bit ∈ bits, o = g.startOffset + (bit : Nat)}

/-- **A batch acknowledges exactly its tickets exactly if every ticket lies less than 2^32 above its
start offset**, for every list of tickets that is accepted. -/
theorem batch_covers_iff (b64 : Base64) {consumerGroup topic : String} {infos : List String}
    {body : Collected} (h : fromExtraInfoList consumerGroup topic infos = .ok body) :
    (∀ g, acknowledged b64 body g = {o | Ticket infos g o}) ↔
      ∀ g o, Ticket infos g o → o - g.startOffset < 2 ^ 32 := by
  have hof := collected_of h
  have hbit : ∀ g o, ackBit g o < 2 ^ 32 := by
    intro g o
    unfold ackBit
    omega
  have hsmall : ∀ a ∈ body.acks, ∀ b ∈ a.bitSet, b < 2 ^ 32 := by
    intro a ha b hb
    obtain ⟨o, _, rfl⟩ := (hof.bits _ b).mp ⟨a, ha, rfl, hb⟩
    exact hbit _ _
  have hread : ∀ g o, o ∈ acknowledged b64 body g ↔
      ∃ o', Ticket infos g o' ∧ o = g.startOffset + (ackBit g o' : Nat) := by
    intro g o
    constructor
    · rintro ⟨a, ha, hg, bits, hbits, bit, hmem, rfl⟩
      obtain ⟨received, hrec, hall⟩ := mem_received b64 (hsmall a ha)
      cases hbits.symm.trans hrec
      obtain ⟨o', ht, rfl⟩ := (hof.bits g bit).mp ⟨a, ha, hg, (hall bit).mp hmem⟩
      exact ⟨o', ht, rfl⟩
    · rintro ⟨o', ht, rfl⟩
      obtain ⟨a, ha, hg, hmem⟩ := (hof.bits g _).mpr ⟨o', ht, rfl⟩
      obtain ⟨received, hrec, hall⟩ := mem_received b64 (hsmall a ha)
      exact ⟨a, ha, hg, received, hrec, _, (hall _).mpr hmem, rfl⟩
  constructor
  · intro hcovers g o ht
    obtain ⟨o', _, rfl⟩ := (hread g o).mp (by rw [hcovers]; exact ht)
    have := hbit g o'
    omega
  · intro hnear g
    have hexact : ∀ o, Ticket infos g o → g.startOffset + (ackBit g o : Nat) = o := by
      intro o ht
      have := hof.above g o ht
      have := hnear g o ht
      unfold ackBit
      omega
    ext o
    rw [hread]
    constructor
    · rintro ⟨o', ht, rfl⟩
      rw [hexact o' ht]
      exact ht
    · exact fun ht => ⟨o, ht, (hexact o ht).symm⟩

/-- The base64 of no bytes and of the byte 32; other bytes are kept as characters that base64 does
not use. -/
def Script.base64 : Base64 where
  encode bytes :=
    if bytes = [32] then "IA==" else String.ofList (bytes.map fun b => Char.ofNat (b.toNat + 256))
  decode text :=
    some (if text = "IA==" then [32] else text.toList.map fun c => UInt8.ofNat c.toNat)
  inverse bytes := by
    split
    · rename_i h
      rw [if_pos rfl, h]
    · have hback : ∀ b : UInt8, UInt8.ofNat (Char.ofNat (b.toNat + 256)).toNat = b := by
        decide +kernel
      have hother : ∀ b : UInt8, Char.ofNat (b.toNat + 256) ≠ 'I' := by decide +kernel
      rw [if_neg]
      · simp [Function.comp_def, hback]
      · intro heq
        have hlist := String.toList_ofList.symm.trans (congrArg String.toList heq)
        cases bytes with
        | nil => cases hlist
        | cons b bs => exact hother b (cons.inj hlist).1
  nil := rfl

/-- A ticket at offset 5. -/
theorem batch_covers_near :
    ∃ body, fromExtraInfoList "G" "T" ["0 1000 60000 0 0 b 3 5"] = .ok body ∧
      ∀ g, acknowledged Script.base64 body g = {o | Ticket ["0 1000 60000 0 0 b 3 5"] g o} := by
  cases h : fromExtraInfoList "G" "T" ["0 1000 60000 0 0 b 3 5"] with
  | error e =>
    have hok : (fromExtraInfoList "G" "T" ["0 1000 60000 0 0 b 3 5"]).toBool = true := by
      decide +kernel
    rw [h] at hok
    cases hok
  | ok body =>
    refine ⟨body, rfl, (batch_covers_iff _ h).mpr ?_⟩
    rintro g o ⟨info, hinfo, hread⟩
    rw [mem_singleton.mp hinfo, show readTicket (split "0 1000 60000 0 0 b 3 5")
      = .ok (⟨"0", 3, 0, 1000⟩, 5) by decide +kernel] at hread
    cases hread
    decide

/-- **Somebody else's message is acknowledged**: the ticket at offset 2^32 + 5 sets the bit 5. -/
theorem batch_acknowledges_other :
    readTicket (split "0 1000 60000 0 0 b 3 4294967301") = .ok (⟨"0", 3, 0, 1000⟩, 4294967301) ∧
    (fromExtraInfoList "G" "T" ["0 1000 60000 0 0 b 3 4294967301"]).toOption.map
      (fun body => body.acks.map fun a => (a.startOffset, a.bitSet)) = some [(0, [5])] := by
  decide +kernel

end RocketMQ.Pop
