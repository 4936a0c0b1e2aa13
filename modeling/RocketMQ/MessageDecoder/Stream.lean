/-
  File:      RocketMQ/MessageDecoder/Stream.lean
  Subject:   Many messages behind each other: what a pull answer holds, and the body of a batch.

  After `common/message_decoder.rs`. The two loops take one frame after the other by the size that
  it declares, and stop without an error at the first bytes that are no frame.

  * `decodeMessagesWith`, `decodeBatchMessages`, `encodeMessages`: as in the source;
  * `framesLoop_frames`: **every frame is decoded from its own bytes**, whatever comes behind it;
  * `message_stream`: **the messages come back in their order**, and a bad tail costs none of them.
-/
import RocketMQ.MessageDecoder.Lengths

namespace RocketMQ.MessageDecoder

open List Binary Reader

/-! ## 1. The loop -/

/-- The loop of `decode_messages_with` and of `decode_batch_messages`; every round takes one byte
at least. -/
def framesLoop {α : Type} (decode : List UInt8 → Except Fault α) (raw : List UInt8) :
    Nat → Nat → List α → Except Fault (List α)
  | 0, _, _ => .error .fuel
  | n + 1, pos, result =>
    if raw.length ≤ pos then .ok result
    else if raw.length - pos < 4 then .ok result
    else
      let storeSize := said ((raw.drop pos).take 4)
      if storeSize ≤ 0 ∨ ((raw.length - pos : Nat) : Int) < storeSize then .ok result
      else
        match decode ((raw.drop pos).take storeSize.toNat) with
        | .ok msg => framesLoop decode raw n (pos + storeSize.toNat) (result ++ [msg])
        -- an error that is returned ends the loop, a panic would go through
        | .error (.err _) => .ok result
        | .error fault => .error fault

section

variable (lib : StoreLib)

def decodeMessagesWith (raw : List UInt8) (options : DecodeOptions) :
    Except Fault (List MessageExt) :=
  framesLoop (fun frame => decodeMessageWith lib frame options) raw (raw.length + 1) 0 []

def decodeMessages (raw : List UInt8) : Except Fault (List MessageExt) :=
  decodeMessagesWith lib raw DecodeOptions.default

def encodeMessages (messages : List Message) : List UInt8 :=
  messages.foldl (fun out msg => out ++ encodeMessage msg) []

def decodeBatchMessages (raw : List UInt8) : Except Fault (List Message) :=
  framesLoop (decodeBatchMessage lib) raw (raw.length + 1) 0 []

end

/-! ## 2. Frames and what ends them -/

section

variable {α : Type} (decode : List UInt8 → Except Fault α)

/-- **A frame and its message**: the frame declares its own length and is decoded. -/
structure Framed (frame : List UInt8) (msg : α) : Prop where
  declared : said (frame.take 4) = frame.length
  decoded : decode frame = .ok msg

/-- **What ends the frames.** -/
inductive BadTail : List UInt8 → Prop
  | empty : BadTail []
  | short {tail : List UInt8} (h : tail.length < 4) : BadTail tail
  | notPositive {tail : List UInt8} (h : said (tail.take 4) ≤ 0) : BadTail tail
  | overlong {tail : List UInt8} (h : (tail.length : Int) < said (tail.take 4)) : BadTail tail
  | undecodable {tail : List UInt8}
      (h : ∀ msg, decode (tail.take (said (tail.take 4)).toNat) ≠ .ok msg) : BadTail tail

/-- What the loop needs of a decoder: it returns, and it reads the size at least. -/
structure Decoder : Prop where
  returns : ∀ raw fault, decode raw = .error fault → ∃ e, fault = .err e
  size : ∀ raw msg, decode raw = .ok msg → 4 ≤ raw.length

variable {decode}

theorem framesLoop_tail (hd : Decoder decode) {u tail : List UInt8} (h : BadTail decode tail)
    (n : Nat) (result : List α) :
    framesLoop decode (u ++ tail) (n + 1) u.length result = .ok result := by
  have hrest : (u ++ tail).length - u.length = tail.length := by
    rw [length_append, Nat.add_sub_cancel_left]
  unfold framesLoop
  rw [hrest, drop_left]
  dsimp only
  split
  · rfl
  · have hpos : 0 < tail.length := by
      omega
    split
    · rfl
    · rename_i hfour
      split
      · rfl
      · rename_i hsize
        cases h with
        | empty => exact absurd hpos (lt_irrefl 0)
        | short h => exact absurd h hfour
        | notPositive | overlong => omega
        | undecodable h =>
          cases hres : decode (tail.take (said (tail.take 4)).toNat) with
          | ok msg => exact absurd hres (h msg)
          | error fault =>
            obtain ⟨e, rfl⟩ := hd.returns _ _ hres
            rfl

/-- **A frame is decoded from its own bytes.** -/
theorem framesLoop_frame (hd : Decoder decode) {u frame : List UInt8} {msg : α}
    (h : Framed decode frame msg) (r : List UInt8) (n : Nat) (result : List α) :
    framesLoop decode (u ++ (frame ++ r)) (n + 1) u.length result
      = framesLoop decode (u ++ (frame ++ r)) n (u.length + frame.length) (result ++ [msg]) := by
  have hfour := hd.size _ _ h.decoded
  have hlen : (u ++ (frame ++ r)).length = u.length + (frame.length + r.length) := by
    rw [length_append, length_append]
  have hsize : said (((u ++ (frame ++ r)).drop u.length).take 4) = frame.length := by
    rw [drop_left, take_append_of_le_length hfour, h.declared]
  have hslice : ((u ++ (frame ++ r)).drop u.length).take (frame.length : Int).toNat = frame := by
    rw [drop_left, Int.toNat_natCast, take_left]
  rw [framesLoop, if_neg (by omega), if_neg (by omega), hsize]
  rw [if_neg (by omega), hslice, h.decoded, Int.toNat_natCast]

/-- **All frames, and nothing of the tail.** -/
theorem framesLoop_frames (hd : Decoder decode) {frames : List (List UInt8 × α)}
    (h : ∀ f ∈ frames, Framed decode f.1 f.2) {tail : List UInt8} (htail : BadTail decode tail)
    (u : List UInt8) {n : Nat} (hn : (frames.flatMap Prod.fst).length < n) (result : List α) :
    framesLoop decode (u ++ (frames.flatMap Prod.fst ++ tail)) n u.length result
      = .ok (result ++ frames.map Prod.snd) := by
  induction frames generalizing u n result with
  | nil =>
    obtain ⟨n, rfl⟩ := Nat.exists_eq_succ_of_ne_zero (ne_of_gt hn)
    rw [flatMap_nil, map_nil, append_nil]
    exact framesLoop_tail hd htail n result
  | cons f frames ih =>
    obtain ⟨n, rfl⟩ := Nat.exists_eq_succ_of_ne_zero (show n ≠ 0 by omega)
    have hf := h f mem_cons_self
    have hfour := hd.size _ _ hf.decoded
    rw [flatMap_cons, length_append] at hn
    -- the frame moves in front of the cursor
    have hrest := ih (fun f' hf' => h f' (mem_cons_of_mem _ hf')) (u ++ f.1)
      (show _ < n by omega) (result ++ [f.2])
    rw [append_assoc, length_append, append_assoc] at hrest
    rw [flatMap_cons, append_assoc, framesLoop_frame hd hf, hrest, map_cons,
      singleton_append]

end

/-! ## 3. The two decoders -/

section

variable {lib : StoreLib}

theorem four_of_i32 {α : Type} {f : Int32 → Read Fault α} {raw : List UInt8} {x : α × Nat}
    (h : (i32 >>= f) raw 0 = .ok x) : 4 ≤ raw.length := by
  by_contra hshort
  have htake : i32 raw 0 = .error (underflow (0 + 4) raw.length) := by
    show (bytes 4 >>= fun b => pure (Int32.ofNat (number b))) raw 0 = _
    rw [Read.bind_eq, bytes, Read.take, if_neg (by omega)]
  rw [Read.bind_eq, htake] at h
  cases h

theorem returns_u32 : Returns u32 := (returns_bytes 4).bind fun _ => .pure _

theorem returns_i64 : Returns i64 := (returns_bytes 8).bind fun _ => .pure _

theorem returns_orFail {α : Type} (result : Except Error α) : Returns (orFail result) := by
  cases result with
  | ok a => exact .pure a
  | error e => exact .fail ⟨e, rfl⟩

theorem returns_readHost (length : Nat) : Returns (readHost lib length) :=
  (returns_bytes length).bind fun _ => returns_orFail _

variable (options : DecodeOptions)

theorem returns_readBody (sysFlag : Int32) (bodyCrc : UInt32) :
    Returns (readBody lib options sysFlag bodyCrc) := by
  refine returns_i32.bind fun bodyLen => ?_
  unfold bodyOfLen
  split
  · exact (returns_bytes _).bind fun _ => returns_orFail _
  · exact .pure _

theorem returns_readTopic (v2 : Bool) : Returns (readTopic lib v2) := by
  refine Read.Only.bind ?_ fun n => (returns_bytes n).bind fun _ => .pure _
  unfold topicLen
  split
  · exact returns_u16
  · exact returns_u8.bind fun _ => .pure _

theorem returns_readProperties : Returns (readProperties lib) :=
  returns_u16.bind fun n => (returns_bytes n).bind fun _ => .pure _

/-- **`decode_message_with` returns.** -/
theorem returns_storeReader : Returns (storeReader lib options) := by
  refine returns_i32.bind fun _ => returns_i32.bind fun _ => (returns_orFail _).bind fun _ =>
    returns_u32.bind fun _ => returns_i32.bind fun _ => returns_i32.bind fun _ =>
    returns_i64.bind fun _ => returns_i64.bind fun _ => returns_i32.bind fun _ =>
    returns_i64.bind fun _ => (returns_readHost _).bind fun _ => returns_i64.bind fun _ =>
    (returns_readHost _).bind fun _ => returns_i32.bind fun _ => returns_i64.bind fun _ =>
    (returns_readBody _ _ _).bind fun _ => (returns_readTopic _).bind fun _ =>
    returns_readProperties.bind fun _ => (returns_orFail _).bind fun _ => .pure _

/-- **`decode_batch_message` returns.** -/
theorem returns_batchReader : Returns (batchReader lib) := by
  refine returns_i32.bind fun _ => returns_i32.bind fun _ => returns_i32.bind fun _ =>
    returns_i32.bind fun _ => Read.Only.bind ?_ fun _ => returns_readProperties.bind fun _ => .pure _
  exact returns_i32.bind fun _ => returns_bytes _

theorem decoder_of_reader {α : Type} {f : Int32 → Read Fault α} (h : Returns (i32 >>= f)) :
    Decoder fun raw => ((i32 >>= f) raw 0).map Prod.fst where
  returns raw fault heq := by
    cases hres : (i32 >>= f) raw 0 with
    | ok x =>
      rw [hres] at heq
      cases heq
    | error e =>
      rw [hres] at heq
      cases heq
      exact h raw 0 _ hres
  size raw msg heq := by
    cases hres : (i32 >>= f) raw 0 with
    | ok x => exact four_of_i32 hres
    | error e =>
      rw [hres] at heq
      cases heq

theorem decoder_store : Decoder fun frame => decodeMessageWith lib frame options :=
  decoder_of_reader (returns_storeReader options)

theorem decoder_batch : Decoder (decodeBatchMessage lib) := decoder_of_reader returns_batchReader

/-! ## 4. The messages come back -/

/-- **The messages that a batch holds.** -/
structure Batchable (m : Message) : Prop where
  flag : -2 ^ 31 ≤ m.flag ∧ m.flag < 2 ^ 31
  lengths : BatchFits m
  clean : ∀ e ∈ m.properties.entries, CleanProperty e
  distinct : (m.properties.entries.map Prod.fst).Nodup

/-- What is left of a message in a batch: the flag, the properties and the bytes of the body. -/
def unbatched (m : Message) : Message := ⟨"", m.flag, m.properties, some (m.body.getD [])⟩

theorem Batchable.framed {m : Message} (h : Batchable m) :
    Framed (decodeBatchMessage lib) (encodeMessage m) (unbatched m) where
  declared := ((batchTells_iff m).mpr h.lengths).totalSize
  decoded := by
    have hflag : (Int32.ofInt m.flag).toInt = m.flag := Int32.toInt_ofInt_of_le h.flag.1 h.flag.2
    rw [decodeBatchMessage, (reads_batch h.lengths).whole, hflag,
      string2MessageProperties_of_clean h.clean h.distinct]
    rfl

/-- **The messages of a stream come back in their order.** -/
theorem message_stream (lib : StoreLib) :
    (∀ (options : DecodeOptions) (frames : List (List UInt8 × MessageExt)) (tail : List UInt8),
      (∀ f ∈ frames, Framed (fun frame => decodeMessageWith lib frame options) f.1 f.2) →
      BadTail (fun frame => decodeMessageWith lib frame options) tail →
      decodeMessagesWith lib (frames.flatMap Prod.fst ++ tail) options
        = .ok (frames.map Prod.snd)) ∧
    ∀ ms : List Message, (∀ m ∈ ms, Batchable m) →
      decodeBatchMessages lib (encodeMessages ms) = .ok (ms.map unbatched) := by
  constructor
  · intro options frames tail hframes htail
    have hrun := framesLoop_frames (decoder_store options) hframes htail []
      (n := (frames.flatMap Prod.fst ++ tail).length + 1)
      (by rw [length_append]; omega) []
    exact hrun
  · intro ms hms
    have hframes : ∀ f ∈ ms.map fun m => (encodeMessage m, unbatched m),
        Framed (decodeBatchMessage lib) f.1 f.2 := by
      intro f hf
      obtain ⟨m, hm, rfl⟩ := mem_map.mp hf
      exact (hms m hm).framed
    have hbytes : (ms.map fun m => (encodeMessage m, unbatched m)).flatMap Prod.fst
        = encodeMessages ms := by
      rw [encodeMessages, foldl_append_eq_append, nil_append, flatMap_map,
        flatMap_def]
    have hrun := framesLoop_frames decoder_batch hframes .empty []
      (n := (encodeMessages ms).length + 1) (by rw [hbytes]; omega) []
    rwa [hbytes, append_nil, map_map] at hrun

end

end RocketMQ.MessageDecoder

namespace RocketMQ.Script

open MessageDecoder

/-- The frame of a stored message. -/
def storedFrame : List UInt8 :=
  (encodeMessageExt plainLib (storedMessage (some [1, 2]) 200) true).toOption.getD []

theorem storedFrame_framed : ∃ msg,
    Framed (fun frame => decodeMessageWith plainLib frame DecodeOptions.default) storedFrame msg := by
  have hsome : (decodeMessageWith plainLib storedFrame DecodeOptions.default).toOption.isSome
      = true := by
    decide +kernel
  cases hdecode : decodeMessageWith plainLib storedFrame DecodeOptions.default with
  | ok msg => exact ⟨msg, by decide +kernel, hdecode⟩
  | error e =>
    rw [hdecode] at hsome
    cases hsome

theorem oneProperty_batchable {n : Nat} (hpos : 0 < n) (hn : n ≤ 65532) :
    Batchable (oneProperty n) where
  flag := ⟨by simp [oneProperty], by simp [oneProperty]⟩
  lengths := by
    have hlen := length_oneProperty n
    have hbody : ((oneProperty n).body.getD []).length = 0 := rfl
    refine ⟨?_, by omega⟩
    unfold batchSize
    omega
  clean := by
    intro e he
    obtain rfl := List.mem_singleton.mp he
    refine ⟨by simp, fun hempty => ?_, ?_⟩
    · have hnil := congrArg String.toList hempty
      rw [String.toList_ofList, String.toList_empty, List.replicate_eq_nil_iff] at hnil
      omega
    · simp
  distinct := List.nodup_singleton _

end RocketMQ.Script

namespace RocketMQ.MessageDecoder

open Script

/-- Two frames before a size of 0, and a batch of two messages. -/
theorem message_stream_two :
    (∃ msg, decodeMessagesWith plainLib
      (storedFrame ++ storedFrame ++ [0, 0, 0, 0, 7]) DecodeOptions.default
        = .ok [msg, msg]) ∧
    decodeBatchMessages plainLib
      (encodeMessages [oneProperty 1, oneProperty 2])
        = .ok [unbatched (oneProperty 1), unbatched (oneProperty 2)] := by
  have hstream := message_stream plainLib
  constructor
  · obtain ⟨msg, hframed⟩ := storedFrame_framed
    refine ⟨msg, ?_⟩
    have hrun := hstream.1 DecodeOptions.default
      [(storedFrame, msg), (storedFrame, msg)] [0, 0, 0, 0, 7]
      (by simpa using hframed) (.notPositive (by decide))
    simpa using hrun
  · refine hstream.2 [oneProperty 1, oneProperty 2] fun m hm => ?_
    have hcases : m = oneProperty 1 ∨ m = oneProperty 2 := by simpa using hm
    rcases hcases with rfl | rfl
    · exact oneProperty_batchable (by decide) (by decide)
    · exact oneProperty_batchable (by decide) (by decide)

end RocketMQ.MessageDecoder
