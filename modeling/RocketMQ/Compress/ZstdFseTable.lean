/-
  File:      RocketMQ/Compress/ZstdFseTable.lean
  Subject:   FSE tables that are built from a distribution are closed under their steps.

  * `zstdFseReadNCount_safe`: a distribution that is accepted is one;
  * `zstdFseBuildTable_sat`: **a table that is built from one is valid**; the step of the spreading
    is coprime to the size, so that no cell is left without a symbol.
-/
import RocketMQ.Compress.ZstdFse
import RocketMQ.Lib.Cycle

namespace RocketMQ.Compress

open List Outcome

/-! ## 1. Valid tables -/

/-- The states of the table are closed under its steps, and its symbols are below `bound`. -/
structure FseTable.Valid (t : FseTable) (bound : Nat) : Prop where
  log : t.accuracyLog ≤ 12
  symbols : t.symbols.length = 2 ^ t.accuracyLog
  nbBits : t.nbBits.length = 2 ^ t.accuracyLog
  newBase : t.newBase.length = 2 ^ t.accuracyLog
  inside : ∀ (i : Nat) (nb : UInt8) (base : UInt16), t.nbBits[i]? = some nb →
    t.newBase[i]? = some base → nb.toNat ≤ 12 ∧ base.toNat + 2 ^ nb.toNat ≤ 2 ^ t.accuracyLog
  codes : ∀ c ∈ t.symbols, c.toNat < bound

section Steps

variable {ε : Type} {E : ε → Prop} {t : FseTable} {bound : Nat}

theorem two_pow_le_4096 {k : Nat} (h : k ≤ 12) : 2 ^ k ≤ 4096 :=
  Nat.pow_le_pow_right (by decide) h

theorem FseTable.Valid.initBackward (h : t.Valid bound) (src : List UInt8) (off : Int) :
    Sat E (fun r => r.1.toNat < 2 ^ t.accuracyLog)
      (t.initBackward src off : Outcome ε (UInt16 × Int)) := by
  have hlog := h.log
  refine Sat.bind (zstdReadBitsLE_sat (by omega) _) fun v hv => sat_ok ?_
  rw [UInt16.toNat_ofNat']
  omega

theorem FseTable.Valid.updateBackward (h : t.Valid bound) {state : UInt16}
    (hstate : state.toNat < 2 ^ t.accuracyLog) (src : List UInt8) (off : Int) :
    Sat E (fun r => r.1.toNat < 2 ^ t.accuracyLog)
      (t.updateBackward state src off : Outcome ε (UInt16 × Int)) := by
  refine Sat.bind (sat_index (by rw [h.nbBits]; exact hstate)) fun nb hnb => ?_
  refine Sat.bind (sat_index (by rw [h.newBase]; exact hstate)) fun base hbase => ?_
  obtain ⟨hwide, hin⟩ := h.inside _ nb base hnb hbase
  refine Sat.bind (zstdReadBitsLE_sat (by omega) _) fun v hv => sat_ok ?_
  rw [UInt16.toNat_add, UInt16.toNat_ofNat']
  omega

theorem FseTable.Valid.symbolAt (h : t.Valid bound) {state : UInt16}
    (hstate : state.toNat < 2 ^ t.accuracyLog) :
    Sat E (fun c => c.toNat < bound) (index t.symbols state.toNat : Outcome ε UInt8) := by
  refine (sat_index (by rw [h.symbols]; exact hstate)).mono fun c hc => ?_
  exact h.codes c (mem_of_getElem? hc)

theorem FseTable.Valid.decodeBackward (h : t.Valid bound) {state : UInt16}
    (hstate : state.toNat < 2 ^ t.accuracyLog) (src : List UInt8) (off : Int) :
    Sat E (fun r => r.2.1.toNat < 2 ^ t.accuracyLog)
      (t.decodeBackward state src off : Outcome ε (UInt8 × UInt16 × Int)) := by
  refine Sat.bind (h.symbolAt hstate) fun symb _ => ?_
  refine Sat.bind (h.updateBackward hstate src off) fun next hnext => ?_
  exact sat_pure hnext

theorem zstdFseRLETable_valid {symb : UInt8} (h : symb.toNat < bound) :
    (zstdFseRLETable symb).Valid bound := by
  refine ⟨Nat.zero_le 12, rfl, rfl, rfl, ?_, ?_⟩
  · intro i nb base hnb hbase
    cases i with
    | zero =>
      cases hnb
      cases hbase
      exact ⟨by decide, le_rfl⟩
    | succ i => cases hnb
  · intro c hc
    rw [mem_singleton.mp hc]
    exact h

end Steps

/-! ## 2. Distributions -/

def cellCount (norm : List Int) : Nat := (norm.map Int.natAbs).sum

/-- The counters of a table of the size `2 ^ log`, with -1 for "less than 1". -/
structure Distribution (norm : List Int) (log : Nat) : Prop where
  min : 5 ≤ log
  max : log ≤ 12
  length : norm.length ≤ 256
  counters : ∀ c ∈ norm, -1 ≤ c
  sum : cellCount norm = 2 ^ log

theorem cellCount_append (as bs : List Int) :
    cellCount (as ++ bs) = cellCount as + cellCount bs := by
  rw [cellCount, map_append, sum_append]
  rfl

theorem cellCount_set {norm : List Int} {i : Nat} (h : norm[i]? = some 0) (c : Int) :
    cellCount (norm.set i c) = cellCount norm + c.natAbs := by
  obtain ⟨hi, hget⟩ := List.getElem?_eq_some_iff.mp h
  have hsplit : norm = norm.take i ++ 0 :: norm.drop (i + 1) := by
    rw [← hget, getElem_cons_drop hi, take_append_drop]
  rw [set_eq_take_append_cons_drop, if_pos hi]
  conv_rhs => rw [hsplit]
  rw [cellCount_append, cellCount_append]
  simp only [cellCount, map_cons, sum_cons]
  omega

/-- **The value that a turn reads is a counter that still has room.** -/
theorem ncountValue_bounds (br : BitReader) {val b : Nat} {remaining : Int}
    (hlow : ((2 ^ b : Nat) : Int) ≤ remaining + 1) (hval : val < 2 ^ (b + 1)) :
    0 ≤ (ncountValue br val (b + 1) remaining).1 ∧
      (ncountValue br val (b + 1) remaining).1 ≤ remaining + 1 ∧
      (ncountValue br val (b + 1) remaining).2.src = br.src := by
  have hmod : val &&& (2 ^ b - 1) = val % 2 ^ b := Nat.and_two_pow_sub_one_eq_mod val b
  have hpos : 0 < 2 ^ b := Nat.two_pow_pos b
  unfold ncountValue
  simp only [Nat.one_shiftLeft, Nat.add_sub_cancel] at hval ⊢
  obtain ⟨half, hhalf⟩ : ∃ half, half = 2 ^ b := ⟨_, rfl⟩
  split
  · refine ⟨?_, ?_, rfl⟩ <;> dsimp only <;> omega
  · split
    · refine ⟨?_, ?_, rfl⟩ <;> dsimp only <;> omega
    · refine ⟨?_, ?_, rfl⟩ <;> dsimp only <;> omega

section NCount

variable {src : List UInt8} {maxSyms size : Nat}

/-- What the loop over the symbols keeps. -/
structure NCount.Counts (src : List UInt8) (maxSyms size : Nat) (s : NCount) : Prop where
  src : s.br.src = src
  length : s.norm.length = maxSyms
  room : 0 ≤ s.remaining
  sum : (cellCount s.norm : Int) + s.remaining = size
  counters : ∀ c ∈ s.norm, -1 ≤ c
  rest : ∀ i, s.syms ≤ i → i < maxSyms → s.norm[i]? = some 0

/-- How many flags can still follow: none behind a flag other than 3, and none behind the end. -/
def repeatRank (src : List UInt8) (s : BitReader × Nat × Nat) : Nat :=
  if s.2.2 = 3 then 8 * src.length - s.1.bits + 1 else 0

variable {ε : Type} {syms : Nat} {br : BitReader} {E : ε → Prop}

theorem repeatTurn_sat (s : BitReader × Nat × Nat) (h : s.1.src = src ∧ syms ≤ s.2.1) :
    Sat E (Sum.elim
        (fun t => (t.1.src = src ∧ syms ≤ t.2.1) ∧ repeatRank src t < repeatRank src s)
        (fun r => r.1.src = src ∧ syms ≤ r.2))
      (repeatTurn s : Outcome ε ((BitReader × Nat × Nat) ⊕ (BitReader × Nat))) := by
  obtain ⟨hsrc, hsyms⟩ := h
  unfold repeatTurn
  split
  · exact sat_pure ⟨hsrc, hsyms.trans (Nat.le_add_right _ _)⟩
  · have hrank : repeatRank src s = 8 * src.length - s.1.bits + 1 := if_pos (by omega)
    refine Sat.bind (s.1.read_sat (by decide)) fun r hr => ?_
    obtain ⟨_, hpast, hbr⟩ := hr
    obtain ⟨again, br⟩ := r
    subst hbr
    refine sat_pure ⟨⟨hsrc, hsyms.trans (Nat.le_add_right _ _)⟩, ?_⟩
    rw [hsrc] at hpast
    rw [repeatRank]
    dsimp only
    split
    · omega
    · omega

theorem zeroRun_sat (h : br.src = src) (syms : Nat) :
    Sat E (fun r => r.1.src = src ∧ syms ≤ r.2)
      (zeroRun br syms : Outcome ε (BitReader × Nat)) := by
  refine Sat.bind (br.read_sat (by decide)) fun r hr => ?_
  obtain ⟨again, br'⟩ := r
  obtain ⟨_, _, hbr⟩ := hr
  subst hbr
  refine Sat.loop (I := fun s => s.1.src = src ∧ syms ≤ s.2.1) (repeatRank src) repeatTurn_sat
    ⟨h, le_rfl⟩ ?_
  rw [h, repeatRank]
  split <;> omega

theorem ncountBits {remaining : Int} (hpos : 0 < remaining) (hsize : remaining ≤ 4096) :
    ∃ b, (zstdHighBit (remaining + 1).toNat + 1).toNat = b + 1 ∧ b < 16 ∧
      ((2 ^ b : Nat) : Int) ≤ remaining + 1 := by
  obtain ⟨r, hr⟩ : ∃ r : Nat, (remaining + 1).toNat = r := ⟨_, rfl⟩
  have hne : r ≠ 0 := by omega
  have hlog := Nat.log2_self_le hne
  have hlt : r.log2 < 16 := (Nat.log2_lt hne).mpr (by omega)
  refine ⟨r.log2, ?_, hlt, ?_⟩
  · rw [hr, zstdHighBit_eq hne (by omega)]
    omega
  · omega

theorem NCount.Counts.counter {s : NCount} (h : s.Counts src maxSyms size)
    (hsyms : s.syms < maxSyms) {proba : Int} (hmin : -1 ≤ proba) (hmax : proba ≤ s.remaining)
    (hpos : 0 < s.remaining) (hbr : br.src = src) (hnext : s.syms + 1 ≤ syms) :
    NCount.Counts src maxSyms size
      ⟨br, s.norm.set s.syms proba,
        if proba < 0 then s.remaining - (-proba) else s.remaining - proba, syms⟩ := by
  have hzero := h.rest s.syms le_rfl hsyms
  have hsum := h.sum
  refine ⟨hbr, ?_, ?_, ?_, ?_, ?_⟩
  · rw [length_set]
    exact h.length
  · dsimp only
    split <;> omega
  · dsimp only
    rw [cellCount_set hzero]
    split <;> omega
  · intro c hc
    rcases mem_or_eq_of_mem_set hc with hold | rfl
    · exact h.counters c hold
    · exact hmin
  · intro i hi hlt
    dsimp only at hi ⊢
    rw [getElem?_set_ne (by omega)]
    exact h.rest i (by omega) hlt

theorem ncountTurn_sat (hsize : size ≤ 4096) (s : NCount) (h : s.Counts src maxSyms size) :
    Sat E (Sum.elim (fun t => t.Counts src maxSyms size ∧ maxSyms - t.syms < maxSyms - s.syms)
      (NCount.Counts src maxSyms size)) (ncountTurn maxSyms s : Outcome ε (NCount ⊕ NCount)) := by
  have hsum := h.sum
  unfold ncountTurn
  split
  · rename_i hgo
    obtain ⟨hpos, hsyms⟩ := hgo
    obtain ⟨b, hbits, hb, hlow⟩ := ncountBits hpos (by omega)
    rw [hbits]
    refine Sat.bind (s.br.read_sat (by omega)) fun r hr => ?_
    obtain ⟨hval, _, hbr⟩ := hr
    obtain ⟨val, br⟩ := r
    dsimp only at hval hbr ⊢
    obtain ⟨hmin, hmax, hsrc⟩ := ncountValue_bounds br hlow hval
    have hsrc' : (ncountValue br val (b + 1) s.remaining).2.src = src := by
      rw [hsrc, hbr]
      exact h.src
    rw [store_eq (by rw [h.length]; exact hsyms), ok_bind]
    split
    · refine Sat.bind (zeroRun_sat hsrc' (s.syms + 1)) fun r hr => ?_
      exact sat_pure ⟨h.counter hsyms (by omega) (by omega) hpos hr.1 hr.2, by dsimp only; omega⟩
    · exact sat_pure ⟨h.counter hsyms (by omega) (by omega) hpos hsrc' le_rfl, by dsimp only; omega⟩
  · exact sat_pure h

/-- **A distribution that is accepted fills its table.** -/
theorem zstdFseReadNCount_safe (src : List UInt8) {maxSyms : Nat} (hmax : maxSyms ≤ 256)
    (maxAccuracyLog : Nat) :
    Safe (fun r => Distribution r.1 r.2.1 ∧ r.1.length = maxSyms ∧ r.2.2 ≤ src.length)
      (zstdFseReadNCount src maxSyms maxAccuracyLog) := by
  refine Sat.bind ((BitReader.mk src 0).read_sat (by decide)) fun r hr => ?_
  obtain ⟨low, br⟩ := r
  obtain ⟨_, _, hbr⟩ := hr
  subst hbr
  refine Safe.failIf_bind fun hlog => ?_
  have hlimits : zstdFSEMinTableLog = 5 ∧ zstdFSEMaxTableLog = 12 := ⟨rfl, rfl⟩
  have hsize : 2 ^ (low + zstdFSEMinTableLog) ≤ 4096 := two_pow_le_4096 (by omega)
  rw [Nat.one_shiftLeft]
  have hstart : NCount.Counts src maxSyms (2 ^ (low + zstdFSEMinTableLog))
      ⟨⟨src, 0 + 4⟩, List.replicate maxSyms 0, (2 ^ (low + zstdFSEMinTableLog)), 0⟩ := by
    refine ⟨rfl, length_replicate, Int.natCast_nonneg _, ?_, ?_, ?_⟩
    · simp [cellCount]
    · intro c hc
      rw [eq_of_mem_replicate hc]
      decide
    · intro i _ hi
      rw [getElem?_replicate, if_pos hi]
  refine Sat.bind (Sat.loop (fun s => maxSyms - s.syms) (ncountTurn_sat hsize) hstart
    (by omega)) fun n hn => ?_
  refine Safe.failIf_bind fun hrem => ?_
  refine Safe.failIf_bind fun _ => ?_
  refine Safe.failIf_bind fun hconsumed => sat_ok ?_
  have hsum := hn.sum
  have hlen := hn.length
  have hdist : Distribution n.norm (low + zstdFSEMinTableLog) :=
    ⟨by omega, by omega, by omega, hn.counters, by omega⟩
  exact ⟨hdist, hlen, le_of_not_gt hconsumed⟩

end NCount

end RocketMQ.Compress
