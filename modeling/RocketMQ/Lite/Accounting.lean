/-
  File:      RocketMQ/Lite/Accounting.lean
  Subject:   The accumulators of the lite pull buffer against the messages in its deque.

  `Ledger` runs the buffer beside a log that has the pull round of every buffered message.

  * `buffer_accounts`: **the accumulators never drift from the deque**;
  * `pending_rounds_when`: **as long as a seek drops the oldest messages of its queue, the pending
    rounds are the rounds in the buffer**.
-/
import RocketMQ.Lite.Fence

namespace RocketMQ

open List LiteBuffer

/-! ## 1. One accumulator -/

/-- A buffered message and its pull round. -/
abbrev Booked := MessageExt × Nat

def bodyTotal (msgs : List MessageExt) : Nat := (msgs.map fun m => m.getBody.length).sum

theorem bodyTotal_append (as bs : List MessageExt) :
    bodyTotal (as ++ bs) = bodyTotal as + bodyTotal bs := by
  simp [bodyTotal]

/-- How many messages sit at an offset; no entry stands for none. -/
def tally (offsets : List Int) (o : Int) : Option Nat :=
  if offsets.count o = 0 then none else some (offsets.count o)

/-- The rounds one after the other, with as many messages as are left of each. -/
def RoundSizes (sizes rounds : List Nat) : Prop :=
  ∃ blocks : List (Nat × Nat), sizes = blocks.map (·.2) ∧
    rounds = blocks.flatMap (fun b => List.replicate b.2 b.1) ∧ (blocks.map (·.1)).Pairwise (· < ·)

/-- The part of an accumulator that does not know of rounds. -/
structure Tallies (fits : Prop) (c : LiteQueueCache) (msgs : List MessageExt) : Prop where
  count : c.count = msgs.length
  bytes : fits → c.bytes = bodyTotal msgs ∧ c.bytes ≤ Decimal.i64Max
  offsets : ∀ o, c.offsets[o]? = tally (msgs.map (·.queueOffset)) o

/-- **The accumulator of these messages.** -/
structure Share (fits ordered : Prop) (c : LiteQueueCache) (mine : List Booked) : Prop extends
    Tallies fits c (mine.map (·.1)) where
  sum : c.rounds.sum = mine.length
  positive : ∀ n ∈ c.rounds, 0 < n
  grouped : ordered → RoundSizes c.rounds (mine.map (·.2))

/-- No accumulator stands for no messages. -/
def Splits (fits ordered : Prop) (q : Option LiteQueueCache) (mine : List Booked) : Prop :=
  (q = none ∧ mine = []) ∨ ∃ c, q = some c ∧ mine ≠ [] ∧ Share fits ordered c mine

section Share

variable {fits ordered : Prop} {c : LiteQueueCache} {mine rest : List Booked} {e : Booked}

theorem saturateI64_eq {z : Int} (h : 0 ≤ z) (hmax : z ≤ Decimal.i64Max) : saturateI64 z = z := by
  have hmin : Decimal.i64Min ≤ 0 := by decide
  unfold saturateI64
  omega

theorem share_empty : Share fits ordered .empty [] :=
  ⟨⟨rfl, fun _ => ⟨rfl, by decide⟩, fun _ => Std.ExtTreeMap.getElem?_empty⟩, rfl,
    (by intro n h; cases h), fun _ => ⟨[], rfl, rfl, List.Pairwise.nil⟩⟩

theorem Splits.share {q : Option LiteQueueCache} (h : Splits fits ordered q mine) :
    Share fits ordered (q.getD .empty) mine := by
  rcases h with ⟨rfl, rfl⟩ | ⟨c, rfl, _, hc⟩
  · exact share_empty
  · exact hc

/-- An accumulator whose count is 0 is taken out. -/
def keepCounted (c : LiteQueueCache) : Option LiteQueueCache := if c.count = 0 then none else some c

theorem shares_of_share (h : Share fits ordered c mine) :
    Splits fits ordered (keepCounted c) mine := by
  rw [keepCounted, h.count, length_map]
  split
  · rename_i hzero
    exact .inl ⟨rfl, length_eq_zero_iff.mp hzero⟩
  · rename_i hne
    exact .inr ⟨c, rfl, fun hnil => hne (by rw [hnil]; rfl), h⟩

variable {sizes : List Nat} {msgs : List MessageExt}

theorem takeFromFront_sum (hpos : ∀ n ∈ sizes, 0 < n) (hne : sizes ≠ []) :
    (LiteQueueCache.takeFromFront sizes).sum + 1 = sizes.sum ∧
      ∀ n ∈ LiteQueueCache.takeFromFront sizes, 0 < n := by
  cases sizes with
  | nil => exact absurd rfl hne
  | cons n sizes =>
    have hn := hpos n mem_cons_self
    have hrest := fun k hk => hpos k (mem_cons_of_mem n hk)
    rw [LiteQueueCache.takeFromFront, sum_cons]
    split
    · exact ⟨by omega, hrest⟩
    · refine ⟨by rw [sum_cons]; omega, fun k hk => ?_⟩
      rcases mem_cons.mp hk with rfl | hk
      · omega
      · exact hrest k hk

theorem RoundSizes.tail {rounds : List Nat} {r : Nat} (hpos : ∀ n ∈ sizes, 0 < n)
    (h : RoundSizes sizes (r :: rounds)) :
    RoundSizes (LiteQueueCache.takeFromFront sizes) rounds := by
  obtain ⟨blocks, rfl, hrounds, hasc⟩ := h
  cases blocks with
  | nil => cases hrounds
  | cons b blocks =>
    obtain ⟨t, n⟩ := b
    obtain ⟨n, rfl⟩ : ∃ k, n = k + 1 := ⟨n - 1, by have := hpos n mem_cons_self; omega⟩
    obtain ⟨_, rfl⟩ := List.cons.inj hrounds
    rw [map_cons, LiteQueueCache.takeFromFront, Nat.add_sub_cancel]
    split
    · rename_i hzero
      exact ⟨blocks, rfl, by rw [hzero]; rfl, hasc.of_cons⟩
    · exact ⟨(t, n) :: blocks, rfl, rfl, hasc⟩

theorem takeOffset_tally {offsets : Std.ExtTreeMap Int Nat} {o : Int} {l : List Int}
    (h : ∀ p, offsets[p]? = tally (o :: l) p) (p : Int) :
    (LiteQueueCache.takeOffset offsets o)[p]? = tally l p := by
  have ho : offsets[o]? = some (l.count o + 1) := by
    rw [h, tally, count_cons_self, if_neg (by omega)]
  unfold LiteQueueCache.takeOffset
  rw [ho]
  dsimp only
  by_cases hp : o = p
  · subst hp
    unfold tally
    split
    · exact Std.ExtTreeMap.getElem?_erase_self
    · exact Std.ExtTreeMap.getElem?_insert_self
  · have hother : offsets[p]? = tally l p := by rw [h, tally, tally, count_cons_of_ne hp]
    split
    · rw [Table.get_erase_ne (Ne.symm hp), hother]
    · rw [Table.get_insert_ne (Ne.symm hp), hother]

theorem Share.perm (h : Share fits ordered c mine) (hperm : mine.Perm rest)
    (hsame : ordered → mine = rest) : Share fits ordered c rest := by
  have hmsgs := hperm.map (·.1)
  refine ⟨⟨h.count.trans hmsgs.length_eq, fun hf => ?_, fun o => ?_⟩,
    h.sum.trans hperm.length_eq, h.positive, fun hord => ?_⟩
  · have htotal : bodyTotal (mine.map (·.1)) = bodyTotal (rest.map (·.1)) :=
      List.Perm.sum_eq (hmsgs.map _)
    rw [← htotal]
    exact h.bytes hf
  · rw [tally, ← (hmsgs.map (·.queueOffset)).count_eq]
    exact h.offsets o
  · rw [← hsame hord]
    exact h.grouped hord

theorem Tallies.remove {m : MessageExt} (h : Tallies fits c (m :: msgs)) :
    Tallies fits (c.remove m) msgs := by
  have hcount := h.count
  rw [length_cons] at hcount
  refine ⟨?_, fun hfits => ?_, takeOffset_tally h.offsets⟩
  · show c.count - 1 = _
    omega
  · obtain ⟨hbytes, hmax⟩ := h.bytes hfits
    have htotal : bodyTotal (m :: msgs) = m.getBody.length + bodyTotal msgs := sum_cons
    have hsmall : bodyLenI64 m = m.getBody.length := saturateI64_eq (by omega) (by omega)
    have hleft : saturateI64 (c.bytes - bodyLenI64 m) = bodyTotal msgs := by
      rw [saturateI64_eq (by omega) (by omega)]
      omega
    refine ⟨hleft, hleft.trans_le ?_⟩
    omega

/-- **A message leaves.** -/
theorem Share.remove (h : Share fits ordered c (e :: rest)) :
    Share fits ordered (c.remove e.1) rest := by
  have hsum := h.sum
  rw [length_cons] at hsum
  have hne : c.rounds ≠ [] := fun hnil => by
    rw [hnil, sum_nil] at hsum
    omega
  obtain ⟨hfront, hpos⟩ := takeFromFront_sum h.positive hne
  refine ⟨h.toTallies.remove, ?_, hpos, fun hord => (h.grouped hord).tail h.positive⟩
  show (LiteQueueCache.takeFromFront c.rounds).sum = _
  omega

theorem Share.removeAll {gone : List Booked} (h : Share fits ordered c (gone ++ rest)) :
    Share fits ordered ((gone.map (·.1)).foldl LiteQueueCache.remove c) rest := by
  induction gone generalizing c with
  | nil => exact h
  | cons e gone ih => exact ih h.remove

theorem Tallies.add (h : Tallies fits c msgs) (m : MessageExt)
    (hfits : fits → (bodyTotal (msgs ++ [m]) : Int) ≤ Decimal.i64Max) :
    Tallies fits (c.add m) (msgs ++ [m]) := by
  refine ⟨?_, fun hf => ?_, fun o => ?_⟩
  · rw [length_append, ← h.count]
    rfl
  · have htotal : bodyTotal (msgs ++ [m]) = bodyTotal msgs + m.getBody.length :=
      bodyTotal_append msgs [m]
    have hmax := hfits hf
    have hbytes := (h.bytes hf).1
    have hsmall : bodyLenI64 m = m.getBody.length := saturateI64_eq (by omega) (by omega)
    have hnow : saturateI64 (c.bytes + bodyLenI64 m) = bodyTotal (msgs ++ [m]) := by
      rw [saturateI64_eq (by omega) (by omega)]
      omega
    exact ⟨hnow, hnow.trans_le hmax⟩
  · have hcount : c.offsets[m.queueOffset]?.getD 0 =
        (msgs.map (·.queueOffset)).count m.queueOffset := by
      rw [h.offsets, tally]
      split
      · rename_i hzero
        rw [hzero]
        rfl
      · rfl
    show (c.offsets.insert _ _)[o]? = _
    rw [hcount, Std.ExtTreeMap.getElem?_insert, h.offsets, map_append, tally, tally,
      count_append]
    by_cases ho : m.queueOffset = o
    · simp [ho]
    · simp [ho]

theorem Tallies.addAll {old : List MessageExt} (h : Tallies fits c old)
    (hfits : fits → (bodyTotal (old ++ msgs) : Int) ≤ Decimal.i64Max) :
    Tallies fits (msgs.foldl LiteQueueCache.add c) (old ++ msgs) := by
  induction msgs generalizing c old with
  | nil => rwa [append_nil]
  | cons m msgs ih =>
    rw [← singleton_append, ← append_assoc] at hfits ⊢
    refine ih (h.add m fun hf => le_trans ?_ (hfits hf)) hfits
    rw [bodyTotal_append (old ++ [m])]
    omega

/-- The accumulator after a round. -/
def afterRound (c : LiteQueueCache) (msgs : List MessageExt) (sizes : List Nat) : LiteQueueCache :=
  { msgs.foldl LiteQueueCache.add c with rounds := c.rounds ++ sizes }

/-- **A round arrives.** -/
theorem Share.afterRound {n : Nat} (h : Share fits ordered c mine) (hne : msgs ≠ [])
    (hnew : ∀ e ∈ mine, e.2 < n)
    (hfits : fits → (bodyTotal (mine.map (·.1) ++ msgs) : Int) ≤ Decimal.i64Max) :
    Share fits ordered (afterRound c msgs [msgs.length]) (mine ++ msgs.map (·, n)) := by
  have hmsgs : (mine ++ msgs.map (·, n)).map (·.1) = mine.map (·.1) ++ msgs := by
    simp [Function.comp_def]
  have hall := h.toTallies.addAll hfits
  refine ⟨?_, ?_, fun k hk => ?_, fun hord => ?_⟩
  · rw [hmsgs]
    exact ⟨hall.count, hall.bytes, hall.offsets⟩
  · show (c.rounds ++ [msgs.length]).sum = _
    rw [sum_append, h.sum, length_append, length_map, sum_singleton]
  · rcases mem_append.mp hk with hk | hk
    · exact h.positive k hk
    · rw [mem_singleton.mp hk]
      exact length_pos_of_ne_nil hne
  · obtain ⟨blocks, hsizes, hrounds, hasc⟩ := h.grouped hord
    refine ⟨blocks ++ [(n, msgs.length)], ?_, ?_, ?_⟩
    · rw [map_append, ← hsizes]
      rfl
    · rw [flatMap_append, ← hrounds]
      simp [Function.comp_def]
    · rw [map_append, pairwise_append]
      refine ⟨hasc, pairwise_singleton _ _, fun t ht u hu => ?_⟩
      rw [mem_singleton.mp hu]
      obtain ⟨b, hb, rfl⟩ := mem_map.mp ht
      have hsize := h.positive b.2 (by rw [hsizes]; exact mem_map_of_mem hb)
      have hmem : b.1 ∈ mine.map (·.2) := by
        rw [hrounds]
        exact mem_flatMap.mpr ⟨b, hb, mem_replicate.mpr ⟨by omega, rfl⟩⟩
      obtain ⟨e, he, heq⟩ := mem_map.mp hmem
      rw [← heq]
      exact hnew e he

end Share

/-! ## 2. The accumulators of a buffer -/

/-- The messages with a key. -/
def ofKey (key : String) (log : List Booked) : List Booked :=
  log.filter fun e => cacheKeyOfMessage e.1 == key

section Operations

variable {fits ordered : Prop} {key : String}

theorem roundSizes_get (msgs : List MessageExt) (key : String) :
    (roundSizes msgs)[key]? = if msgs.countP (cacheKeyOfMessage · == key) = 0 then none
      else some (msgs.countP (cacheKeyOfMessage · == key)) := by
  induction msgs using List.reverseRecOn with
  | nil => exact Std.ExtTreeMap.getElem?_empty
  | append_singleton msgs m ih =>
    have hfold : roundSizes (msgs ++ [m]) = (roundSizes msgs).insert (cacheKeyOfMessage m)
        ((roundSizes msgs)[cacheKeyOfMessage m]?.getD 0 + 1) := foldl_concat ..
    rw [hfold, Std.ExtTreeMap.getElem?_insert]
    by_cases hkey : cacheKeyOfMessage m = key
    · subst hkey
      rw [if_pos (by simp), ih]
      split <;> simp_all
    · rw [ih]
      simp [hkey]

theorem foldl_add_rounds (c : LiteQueueCache) (msgs : List MessageExt) (sizes : List Nat) :
    msgs.foldl LiteQueueCache.add { c with rounds := sizes }
      = { msgs.foldl LiteQueueCache.add c with rounds := sizes } := by
  induction msgs generalizing c with
  | nil => rfl
  | cons m msgs ih => exact ih (c.add m)

theorem extendOne_eq (b : LiteBuffer) (sizes : Std.ExtTreeMap String Nat) (m : MessageExt) :
    extendOne (b, sizes) m =
      (LiteBuffer.mk (b.messages ++ [m]) (b.queues.insert (cacheKeyOfMessage m)
        (afterRound (b.queueCache (cacheKeyOfMessage m)) [m]
          (sizes[cacheKeyOfMessage m]?.toList.filter (0 < ·)))),
        sizes.erase (cacheKeyOfMessage m)) := by
  unfold extendOne
  cases hsize : sizes[cacheKeyOfMessage m]? with
  | none => simp [hsize, afterRound, LiteQueueCache.add]
  | some count =>
    by_cases hcount : 0 < count <;>
      simp [hsize, afterRound, LiteQueueCache.add, LiteQueueCache.beginRound, hcount]

theorem extendOne_get (b : LiteBuffer) (sizes : Std.ExtTreeMap String Nat) (msgs : List MessageExt) :
    (msgs.foldl extendOne (b, sizes)).1.queues[key]? =
      if msgs.filter (cacheKeyOfMessage · == key) = [] then b.queues[key]?
      else some (afterRound (b.queueCache key) (msgs.filter (cacheKeyOfMessage · == key))
        (sizes[key]?.toList.filter (0 < ·))) := by
  induction msgs generalizing b sizes with
  | nil => rfl
  | cons m msgs ih =>
    rw [foldl_cons, extendOne_eq, ih, filter_cons]
    by_cases hkey : cacheKeyOfMessage m = key
    · subst hkey
      rw [if_pos (beq_self_eq_true _), if_neg (cons_ne_nil _ _)]
      simp only [LiteBuffer.queueCache, Std.ExtTreeMap.getElem?_insert_self]
      split
      · rename_i hnil
        rw [hnil]
      · simp [afterRound, foldl_add_rounds]
    · have hother : (cacheKeyOfMessage m == key) = false := by simpa using hkey
      simp only [LiteBuffer.queueCache, Std.ExtTreeMap.getElem?_insert,
        Std.ExtTreeMap.getElem?_erase]
      simp [hkey]

variable {b : LiteBuffer} {log : List Booked} {mq : MessageQueue} {offset : Int}

/-- **A round is booked under each of its keys.** -/
theorem shares_extend {n : Nat} (msgs : List MessageExt)
    (h : Splits fits ordered b.queues[key]? (ofKey key log)) (hnew : ∀ e ∈ log, e.2 < n)
    (hfits : fits → (bodyTotal (log.map (·.1) ++ msgs) : Int) ≤ Decimal.i64Max) :
    Splits fits ordered (b.extend msgs).queues[key]? (ofKey key (log ++ msgs.map (·, n))) := by
  have hmine : ofKey key (log ++ msgs.map (·, n))
      = ofKey key log ++ (msgs.filter (cacheKeyOfMessage · == key)).map (·, n) := by
    rw [ofKey, filter_append, filter_map]
    rfl
  rw [hmine, extend, extendOne_get]
  split
  · rename_i hnil
    rw [hnil, map_nil, append_nil]
    exact h
  · rename_i hne
    have hsize : (roundSizes msgs)[key]?.toList.filter (0 < ·)
        = [(msgs.filter (cacheKeyOfMessage · == key)).length] := by
      have hpos := length_pos_of_ne_nil hne
      rw [roundSizes_get, countP_eq_length_filter, if_neg (by omega)]
      simp [hpos]
    rw [hsize]
    refine .inr ⟨_, rfl, by simp [hne], h.share.afterRound hne ?_ fun hf => le_trans ?_ (hfits hf)⟩
    · exact fun e he => hnew e (mem_filter.mp he).1
    · have hsub : ∀ {as bs : List MessageExt}, as.Sublist bs → bodyTotal as ≤ bodyTotal bs :=
        fun hs => (hs.map _).sum_le_sum fun _ _ => Nat.zero_le _
      have hle := hsub (((filter_sublist (p := fun e : Booked =>
        cacheKeyOfMessage e.1 == key) (l := log)).map (·.1)).append
          (filter_sublist (p := (cacheKeyOfMessage · == key)) (l := msgs)))
      exact_mod_cast hle

theorem dropOne_get (queues : Std.ExtTreeMap String LiteQueueCache) (m : MessageExt) :
    (dropOne queues m)[key]? = if cacheKeyOfMessage m = key then
        queues[key]?.bind fun c : LiteQueueCache => keepCounted (c.remove m)
      else queues[key]? := by
  unfold dropOne keepCounted
  split
  · rename_i hc
    split
    · rename_i hkey
      rw [← hkey, hc]
      rfl
    · rfl
  · rename_i c hc
    by_cases hkey : cacheKeyOfMessage m = key
    · rw [if_pos hkey, ← hkey, hc, Option.bind_some]
      split
      · exact Std.ExtTreeMap.getElem?_erase_self
      · exact Std.ExtTreeMap.getElem?_insert_self
    · split <;> simp [Std.ExtTreeMap.getElem?_erase, Std.ExtTreeMap.getElem?_insert, hkey]

theorem shares_drop {queues : Std.ExtTreeMap String LiteQueueCache} {out rest : List Booked}
    (h : Splits fits ordered queues[key]? (ofKey key (out ++ rest))) :
    Splits fits ordered ((out.map (·.1)).foldl dropOne queues)[key]? (ofKey key rest) := by
  induction out generalizing queues with
  | nil => exact h
  | cons e out ih =>
    refine ih ?_
    rw [dropOne_get]
    rw [ofKey, cons_append, filter_cons] at h
    by_cases hkey : cacheKeyOfMessage e.1 = key
    · rw [if_pos (by simpa using hkey)] at h
      obtain ⟨_, hnil⟩ | ⟨c, hc, _, hshare⟩ := h
      · cases hnil
      · rw [if_pos hkey, hc]
        exact shares_of_share hshare.remove
    · rw [if_neg (by simpa using hkey)] at h
      rw [if_neg hkey]
      exact h

theorem pruneBefore_get (b : LiteBuffer) (mq : MessageQueue) (offset : Int) :
    (b.pruneBefore mq offset).queues[key]? = if mqKey mq = key then
        b.queues[key]?.bind fun c =>
          keepCounted ((b.messages.filter (prunes mq offset)).foldl LiteQueueCache.remove c)
      else b.queues[key]? := by
  unfold pruneBefore keepCounted
  dsimp only
  split
  · rename_i hc
    rw [hc, Option.any_none, if_neg Bool.false_ne_true]
    split
    · rename_i hkey
      rw [← hkey, hc]
      rfl
    · rfl
  · rename_i c hc
    simp only [Std.ExtTreeMap.getElem?_insert_self, Option.any_some, beq_iff_eq]
    by_cases hkey : mqKey mq = key
    · rw [if_pos hkey, ← hkey, hc, Option.bind_some]
      split
      · exact Std.ExtTreeMap.getElem?_erase_self
      · exact Std.ExtTreeMap.getElem?_insert_self
    · split <;> simp [Std.ExtTreeMap.getElem?_erase, Std.ExtTreeMap.getElem?_insert, hkey]

theorem key_of_prunes {m : MessageExt} (h : prunes mq offset m = true) :
    cacheKeyOfMessage m = mqKey mq := by
  simp only [prunes, MessageQueue.holds, Bool.and_eq_true, beq_iff_eq] at h
  rw [cacheKeyOfMessage, h.1.1.1, h.1.1.2, h.1.2]
  rfl

/-- What a prune drops of a key, and what it keeps. -/
def pruned (mq : MessageQueue) (offset : Int) (key : String) (log : List Booked) : List Booked :=
  (ofKey key log).filter (prunes mq offset ·.1)

def kept (mq : MessageQueue) (offset : Int) (key : String) (log : List Booked) : List Booked :=
  (ofKey key log).filter (!prunes mq offset ·.1)

theorem shares_prune (hlog : b.messages = log.map (·.1))
    (h : Splits fits ordered b.queues[key]? (ofKey key log)) (hfront : ordered →
      ofKey (mqKey mq) log = pruned mq offset (mqKey mq) log ++ kept mq offset (mqKey mq) log) :
    Splits fits ordered (b.pruneBefore mq offset).queues[key]?
      (ofKey key (log.filter (!prunes mq offset ·.1))) := by
  have hkept : ofKey key (log.filter (!prunes mq offset ·.1)) = kept mq offset key log := by
    rw [ofKey, kept, ofKey, filter_comm]
  have hgone : b.messages.filter (prunes mq offset) = (pruned mq offset (mqKey mq) log).map (·.1) := by
    rw [hlog, filter_map, pruned, ofKey, filter_filter]
    congr 1
    refine filter_congr fun e _ => ?_
    by_cases hp : prunes mq offset e.1 = true
    · simp [key_of_prunes hp]
    · simp [hp]
  rw [hkept, pruneBefore_get, hgone]
  split
  · rename_i hkey
    subst hkey
    rcases h with ⟨hnone, hnil⟩ | ⟨c, hc, _, hshare⟩
    · rw [hnone]
      exact .inl ⟨rfl, by rw [kept, hnil]; rfl⟩
    · rw [hc]
      exact shares_of_share (hshare.perm (filter_append_perm _ _).symm hfront).removeAll
  · rename_i hkey
    have hsame : kept mq offset key log = ofKey key log := by
      refine filter_eq_self.mpr fun e he => ?_
      have hkeyOf : cacheKeyOfMessage e.1 = key := by simpa using (mem_filter.mp he).2
      cases hp : prunes mq offset e.1 with
      | false => rfl
      | true => exact absurd ((key_of_prunes hp).symm.trans hkeyOf) hkey
    rw [hsame]
    exact h

theorem shares_revoke (gone : String) (h : Splits fits ordered b.queues[key]? (ofKey key log)) :
    Splits fits ordered (b.revokeQueue gone).queues[key]?
      (ofKey key (log.filter (cacheKeyOfMessage ·.1 != gone))) := by
  show Splits fits ordered (b.queues.erase gone)[key]? _
  rw [Std.ExtTreeMap.getElem?_erase, ofKey, filter_filter]
  by_cases hkey : gone = key
  · rw [if_pos (by simpa using hkey)]
    refine .inl ⟨rfl, filter_eq_nil_iff.mpr fun e _ => ?_⟩
    simp [hkey]
  · rw [if_neg (by simpa using hkey)]
    have hsame : log.filter (fun e => cacheKeyOfMessage e.1 == key && cacheKeyOfMessage e.1 != gone)
        = ofKey key log := by
      refine filter_congr fun e _ => ?_
      by_cases he : cacheKeyOfMessage e.1 = key
      · simp [he, Ne.symm hkey]
      · simp [he]
    rw [hsame]
    exact h

end Operations

/-! ## 3. Runs -/

/-- The buffer, the pull round of every message in it, and the number of the next round. -/
structure Ledger where
  buffer : LiteBuffer
  log : List Booked
  round : Nat

/-- What happens to the buffer: a pull round, a poll, a seek, the loss of a queue. -/
inductive BufferOp where
  | extend (msgs : List MessageExt)
  | drain (take : Nat)
  | prune (mq : MessageQueue) (offset : Int)
  | revoke (key : String)

namespace Ledger

def init : Ledger := ⟨.empty, [], 0⟩

def step (s : Ledger) : BufferOp → Option Ledger
  | .extend msgs =>
    some ⟨s.buffer.extend msgs, s.log ++ msgs.map (·, s.round), s.round + 1⟩
  | .drain take => some ⟨(s.buffer.drainPrefix take).2, s.log.drop take, s.round⟩
  | .prune mq offset =>
    some ⟨s.buffer.pruneBefore mq offset, s.log.filter (!prunes mq offset ·.1), s.round⟩
  | .revoke key =>
    some ⟨s.buffer.revokeQueue key, s.log.filter (cacheKeyOfMessage ·.1 != key), s.round⟩

/-- The bodies in the buffer stay below 2^63 bytes. -/
def SmallBodies (s : Ledger) : BufferOp → Prop
  | .extend msgs => bodyTotal (s.buffer.messages ++ msgs) < 2 ^ 63
  | _ => True

/-- A seek drops the oldest messages of its queue: what it drops of the key stands in front of what
it keeps. -/
def DropsOldest (s : Ledger) : BufferOp → Prop
  | .prune mq offset => ofKey (mqKey mq) s.log =
      pruned mq offset (mqKey mq) s.log ++ kept mq offset (mqKey mq) s.log
  | _ => True

structure Kept (fits ordered : Prop) (s : Ledger) : Prop where
  messages : s.buffer.messages = s.log.map (·.1)
  fresh : ∀ e ∈ s.log, e.2 < s.round
  shares : ∀ key, Splits fits ordered s.buffer.queues[key]? (ofKey key s.log)

variable {fits ordered : Prop} {s t : Ledger}

theorem Kept.step (h : Kept fits ordered s) {a : BufferOp} (hfits : fits → s.SmallBodies a)
    (hordered : ordered → s.DropsOldest a) (hs : s.step a = some t) : Kept fits ordered t := by
  have hsub : ∀ {log : List Booked}, log.Sublist s.log → ∀ e ∈ log, e.2 < s.round :=
    fun hlog e he => h.fresh e (hlog.subset he)
  cases a with
  | extend msgs =>
    cases hs
    refine ⟨?_, fun e he => ?_, fun key => shares_extend msgs (h.shares key) h.fresh fun hf => ?_⟩
    · simp [h.messages, Function.comp_def]
    · rcases mem_append.mp he with he | he
      · exact (h.fresh e he).trans (Nat.lt_succ_self _)
      · obtain ⟨m, _, rfl⟩ := mem_map.mp he
        exact Nat.lt_succ_self _
    · have hsmall : bodyTotal (s.buffer.messages ++ msgs) < 2 ^ 63 := hfits hf
      rw [← h.messages, Decimal.i64Max]
      omega
  | drain take =>
    cases hs
    have hout : s.buffer.messages.take take = (s.log.take take).map (·.1) := by
      rw [h.messages, map_take]
    refine ⟨?_, hsub (drop_sublist _ _), fun key => ?_⟩
    · have hall := s.buffer.drainPrefix_append take
      rw [drainPrefix_fst, h.messages, ← take_append_drop take (s.log.map (·.1)),
        take_append_drop] at hall
      rw [map_drop]
      exact append_cancel_left (hall.trans (take_append_drop take _).symm)
    · show Splits fits ordered ((s.buffer.messages.take take).foldl dropOne _)[key]? _
      rw [hout]
      refine shares_drop ?_
      rw [take_append_drop]
      exact h.shares key
  | prune mq offset =>
    cases hs
    refine ⟨?_, hsub filter_sublist, fun key => ?_⟩
    · rw [pruneBefore_messages, h.messages, filter_map]
      rfl
    · exact shares_prune h.messages (h.shares key) hordered
  | revoke key =>
    cases hs
    refine ⟨?_, hsub filter_sublist, fun key' => shares_revoke key (h.shares key')⟩
    rw [revokeQueue_messages, h.messages, filter_map]
    rfl

theorem kept_init : Kept fits ordered init :=
  ⟨rfl, (by intro e he; cases he), fun _ => .inl ⟨Std.ExtTreeMap.getElem?_empty, rfl⟩⟩

/-- **The accumulators never drift from the deque**: in every state that pull rounds, polls, seeks
and revocations lead to, with bodies below 2^63 bytes in all, a key has an accumulator exactly if it
has messages, and the accumulator is what these messages give. -/
theorem buffer_accounts (h : Machine.Reach step SmallBodies init s) (key : String) :
    (s.buffer.queues[key]? = none ∧
      s.buffer.messages.filter (cacheKeyOfMessage · == key) = []) ∨
    ∃ c mine, s.buffer.queues[key]? = some c ∧
      s.buffer.messages.filter (cacheKeyOfMessage · == key) = mine ∧ mine ≠ [] ∧
      c.count = mine.length ∧ c.bytes = bodyTotal mine ∧
      (∀ o, c.offsets[o]? = tally (mine.map (·.queueOffset)) o) ∧ c.rounds.sum = c.count := by
  have hkept : Kept True False s :=
    h.invariant kept_init fun t a t' ht hG hs => ht.step (fun _ => hG) False.elim hs
  have hmine : s.buffer.messages.filter (cacheKeyOfMessage · == key)
      = (ofKey key s.log).map (·.1) := by
    rw [hkept.messages, filter_map]
    rfl
  rcases hkept.shares key with ⟨hnone, hnil⟩ | ⟨c, hc, hne, hshare⟩
  · exact .inl ⟨hnone, by rw [hmine, hnil]; rfl⟩
  · refine .inr ⟨c, _, hc, hmine, by simpa using hne, hshare.count, (hshare.bytes trivial).1,
      hshare.offsets, ?_⟩
    rw [hshare.sum, hshare.count, length_map]

open Script

/-- A row that carries its broker. -/
def brokerRow (offset : Int) : MessageExt :=
  { liteRow offset with brokerName := some "b" }

/-- Two rows arrive and one is polled. -/
theorem buffer_accounts_polled :
    ∃ s c, Machine.Reach step SmallBodies init s ∧ s.buffer.queues["Tb0"]? = some c ∧
      c.rounds.sum = c.count := by
  have hreach : Machine.Reach step SmallBodies init (Machine.after step init
      [.extend [brokerRow 1, brokerRow 2], .drain 1]) :=
    .next (a := .drain 1) (.next (a := .extend [brokerRow 1, brokerRow 2]) .start
      (by unfold SmallBodies; decide +kernel) rfl) trivial rfl
  rcases buffer_accounts hreach "Tb0" with ⟨hnone, _⟩ | ⟨c, _, hc, _, _, _, _, _, hsum⟩
  · exact absurd hnone (by decide +kernel)
  · exact ⟨_, c, hreach, hc, hsum⟩

theorem RoundSizes.card {sizes rounds : List Nat} (hpos : ∀ n ∈ sizes, 0 < n)
    (h : RoundSizes sizes rounds) : rounds.toFinset.card = sizes.length := by
  obtain ⟨blocks, rfl, rfl, hasc⟩ := h
  have hset : (blocks.flatMap fun b => List.replicate b.2 b.1).toFinset
      = (blocks.map (·.1)).toFinset := by
    ext r
    simp only [mem_toFinset, mem_flatMap, mem_replicate, mem_map]
    constructor
    · rintro ⟨b, hb, _, rfl⟩
      exact ⟨b, hb, rfl⟩
    · rintro ⟨b, hb, rfl⟩
      have := hpos b.2 (mem_map_of_mem hb)
      exact ⟨b, hb, by omega, rfl⟩
  rw [hset, toFinset_card_of_nodup (hasc.imp fun h => ne_of_lt h), length_map,
    length_map]

/-- **The pending rounds of a queue are the rounds with messages of it in the buffer**, in every state
that is reached while every seek drops the oldest messages of its queue. -/
theorem pending_rounds_when (h : Machine.Reach step DropsOldest init s) (key : String) :
    (s.buffer.queueCache key).pendingRounds = ((ofKey key s.log).map (·.2)).toFinset.card := by
  have hkept : Kept False True s :=
    h.invariant kept_init fun t a t' ht hG hs => ht.step False.elim (fun _ => hG) hs
  have hshare := (hkept.shares key).share
  exact (RoundSizes.card hshare.positive (hshare.grouped trivial)).symm

/-- A round of two rows; a seek drops the first. -/
theorem pending_rounds_when_forward :
    (((init.step (.extend [brokerRow 1, brokerRow 2])).bind
      (·.step (.prune liteQueue 2))).map fun s => (s.buffer.queueCache "Tb0").pendingRounds)
      = some 1 := by
  have hreach : Machine.Reach step DropsOldest init (Machine.after step init
      [.extend [brokerRow 1, brokerRow 2], .prune liteQueue 2]) :=
    .next (a := .prune liteQueue 2) (.next
      (a := .extend [brokerRow 1, brokerRow 2]) .start trivial rfl)
      (by unfold DropsOldest; decide +kernel) rfl
  exact congrArg some ((pending_rounds_when hreach "Tb0").trans (by decide +kernel))

/-- **A round too many**: 10, 11 and 12 are buffered, a seek back to 5 brings 5 and 6, and a seek to 8
drops these two. The buffer has messages of one round, and two rounds are pending. -/
theorem pending_rounds_too_many :
    (Machine.exec step init [.extend ([10, 11, 12].map brokerRow), .prune liteQueue 5,
        .extend ([5, 6].map brokerRow), .prune liteQueue 8]).map
      (fun s => (offsets s.buffer.messages, (s.buffer.queueCache "Tb0").pendingRounds,
        ((ofKey "Tb0" s.log).map (·.2)).toFinset.card))
      = some ([10, 11, 12], 2, 1) := by
  decide +kernel

end Ledger

end RocketMQ
