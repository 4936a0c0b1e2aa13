/-
  File:      RocketMQ/Compress/ZstdHuffmanTable.lean
  Subject:   Huffman tables that are built from weights have a cell for every state.

  * `kraft`: **the codes of all ranks together fill the table**, because the weight that is not
    transmitted is what is missing to a power of two;
  * `zstdDecodeHufTable_safe`, `zstdHufDecodeStream_safe`: the decoder stays inside its tables.
-/
import RocketMQ.Compress.ZstdHuffman
import RocketMQ.Lib.Pool
import RocketMQ.Compress.ZstdFseSpread

namespace RocketMQ.Compress

open List Outcome

/-! ## 1. The weights -/

/-- The cells of a symbol with this weight. -/
def weightCells (w : Nat) : Nat := if w = 0 then 0 else 2 ^ (w - 1)

def weightSum (weights : List UInt8) : Nat := (weights.map fun w => weightCells w.toNat).sum

section Weights

variable {weights : List UInt8}

theorem bump_sat {ε : Type} {E : ε → Prop} {ranks : List Nat} {r : Nat} (h : r < ranks.length) :
    Sat E (fun ranks' => ranks'.length = ranks.length ∧
        ∀ j n, ranks[j]? = some n → ranks'[j]? = some (n + if j = r then 1 else 0))
      (bump ranks r : Outcome ε (List Nat)) := by
  refine Sat.bind (sat_index h) fun n hn => ?_
  rw [store_eq h]
  refine sat_ok ⟨length_set, fun j m hj => ?_⟩
  by_cases hjr : j = r
  · subst hjr
    cases hn.symm.trans hj
    rw [getElem?_set_self h, if_pos rfl]
  · rw [getElem?_set_ne (Ne.symm hjr), if_neg hjr]
    exact hj

theorem weightSteps_safe (weights : List UInt8) :
    Safe (fun st => st.1 = weightSum weights ∧ st.2.length = 12 ∧ ∀ w ∈ weights, w.toNat ≤ 11)
      (weights.foldlM weightStep (0, List.replicate (zstdHUFMaxTableLog + 1) 0)) := by
  have hmax : zstdHUFMaxTableLog = 11 := rfl
  refine (Sat.foldlM (I := fun rest st => st.1 + weightSum rest = weightSum weights ∧
    st.2.length = 12 ∧ ∀ w ∈ weights, w ∉ rest → w.toNat ≤ 11) ?_ ?_).mono ?_
  · exact ⟨zero_add _, length_replicate, fun w hw hnot => absurd hw hnot⟩
  · rintro w rest ⟨total, stats⟩ ⟨hsum, hlen, hold⟩
    dsimp only at hsum hlen
    refine Safe.failIf_bind fun hw => ?_
    refine Sat.bind (bump_sat (by dsimp only; omega)) fun stats' hstats => sat_ok ?_
    refine ⟨?_, by rw [hstats.1, hlen], ?_⟩
    · rw [← hsum]
      simp only [weightSum, map_cons, sum_cons, weightCells]
      split <;> split <;> omega
    · intro v hv hnot
      by_cases hvw : v = w
      · rw [hvw]
        omega
      · exact hold v hv fun hmem => (mem_cons.mp hmem).elim hvw hnot
  · rintro ⟨total, stats⟩ ⟨hsum, hlen, hold⟩
    exact ⟨hsum, hlen, fun w hw => hold w hw (not_mem_nil)⟩

theorem weightSum_le {weights : List UInt8} (h : ∀ w ∈ weights, w.toNat ≤ 11) :
    weightSum weights ≤ 1024 * weights.length := by
  induction weights with
  | nil => exact le_rfl
  | cons w rest ih =>
    have hw := h w mem_cons_self
    have hrest := ih fun v hv => h v (mem_cons_of_mem w hv)
    have hcells : weightCells w.toNat ≤ 1024 := by
      unfold weightCells
      split
      · exact Nat.zero_le _
      · exact Nat.pow_le_pow_right (by decide) (show w.toNat - 1 ≤ 10 by omega)
    simp only [weightSum, map_cons, sum_cons, length_cons] at hrest ⊢
    omega

/-- What the checks of the weights say about the tree. -/
structure Tree (weights : List UInt8) (maxBits lastWeight : Nat) : Prop where
  max : maxBits ≤ 11
  pos : 1 ≤ maxBits
  weight : ∀ w ∈ weights, w.toNat ≤ maxBits
  last : 1 ≤ lastWeight ∧ lastWeight ≤ maxBits
  full : weightSum weights + 2 ^ (lastWeight - 1) = 2 ^ maxBits

theorem weight_le_of_sum {w : UInt8} (hw : w ∈ weights) {m : Nat} (hsum : weightSum weights < 2 ^ m) :
    w.toNat ≤ m := by
  have hcells : weightCells w.toNat ≤ weightSum weights :=
    le_sum_of_mem (mem_map_of_mem (f := fun w : UInt8 => weightCells w.toNat) hw)
  rcases eq_zero_or_pos w.toNat with hzero | hpos
  · omega
  · rw [weightCells, if_neg (by omega)] at hcells
    have hlt : 2 ^ (w.toNat - 1) < 2 ^ m := by omega
    have := (Nat.pow_lt_pow_iff_right (by decide)).mp hlt
    omega

theorem tree_of_rest {m : Nat} (hpos : weightSum weights ≠ 0)
    (hm : m = (weightSum weights).log2 + 1) (hmax : m ≤ 11)
    (hrest : (2 ^ m - weightSum weights) &&& (2 ^ m - weightSum weights - 1) = 0) :
    Tree weights m ((2 ^ m - weightSum weights).log2 + 1) := by
  have hlow : 2 ^ (m - 1) ≤ weightSum weights := by
    rw [hm]
    exact Nat.log2_self_le hpos
  have hhigh : weightSum weights < 2 ^ m := by
    rw [hm]
    exact Nat.lt_log2_self
  have hpow : 2 ^ m = 2 * 2 ^ (m - 1) := by
    rw [← pow_succ', Nat.sub_add_cancel (by omega)]
  obtain ⟨rest, hr⟩ : ∃ rest, rest = 2 ^ m - weightSum weights := ⟨_, rfl⟩
  rw [← hr] at hrest ⊢
  have hne : rest ≠ 0 := by omega
  obtain ⟨k, hk⟩ := (Nat.and_sub_one_eq_zero_iff_isPowerOfTwo hne).mp hrest
  have hlog : rest.log2 = k := by rw [hk, Nat.log2_two_pow]
  have hklt : 2 ^ k ≤ 2 ^ (m - 1) := by omega
  have hkm := (Nat.pow_le_pow_iff_right (by decide)).mp hklt
  refine ⟨hmax, by omega, fun w hw => weight_le_of_sum hw hhigh, ⟨by omega, by omega⟩, ?_⟩
  rw [hlog, Nat.add_sub_cancel]
  omega

end Weights

/-! ## 2. The codes fill the table -/

/-- The cells before the codes of the rank `maxBits - j`. -/
def rankBase (bits : List UInt8) (maxBits j : Nat) : Nat :=
  ∑ k ∈ Finset.range j, (bits.map UInt8.toNat).count (maxBits - k) * 2 ^ k

def bitCells (maxBits b : Nat) : Nat := if b = 0 then 0 else 2 ^ (maxBits - b)

section Kraft

variable {weights bits : List UInt8} {m : Nat}

theorem rankBase_succ (bits : List UInt8) (m j : Nat) :
    rankBase bits m (j + 1) = rankBase bits m j + (bits.map UInt8.toNat).count (m - j) * 2 ^ j :=
  Finset.sum_range_succ _ j

theorem rankBase_mono (bits : List UInt8) (m : Nat) {i j : Nat} (h : i ≤ j) :
    rankBase bits m i ≤ rankBase bits m j :=
  Finset.sum_le_sum_of_subset (Finset.range_mono h)

theorem sum_counts {ns : List Nat} (h : ∀ n ∈ ns, n ≤ m) :
    ∑ k ∈ Finset.range m, ns.count (m - k) * 2 ^ k = (ns.map (bitCells m)).sum := by
  induction ns with
  | nil => simp
  | cons n ns ih =>
    have hn := h n mem_cons_self
    have hrest := ih fun x hx => h x (mem_cons_of_mem n hx)
    have hone : ∑ k ∈ Finset.range m, (if n = m - k then 1 else 0) * 2 ^ k = bitCells m n := by
      unfold bitCells
      split
      · refine Finset.sum_eq_zero fun k hk => ?_
        have hk' := Finset.mem_range.mp hk
        rw [if_neg (by omega), zero_mul]
      · rw [Finset.sum_eq_single (m - n)]
        · rw [if_pos (by omega), one_mul]
        · intro k hk hne
          rw [if_neg (by omega), zero_mul]
        · intro hnot
          exact absurd (Finset.mem_range.mpr (by omega)) hnot
    simp only [count_cons, beq_iff_eq, add_mul, Finset.sum_add_distrib,
      map_cons, sum_cons]
    omega

/-- The number of bits of a symbol. -/
def bitOf (maxBits : Nat) (w : UInt8) : UInt8 :=
  if w.toNat > 0 then weightBits maxBits w.toNat else 0

theorem toNat_weightBits {w : Nat} (hm : m ≤ 11) (hw : w ≤ m) :
    (weightBits m w).toNat = m + 1 - w := by
  rw [weightBits, toNat_ofInt_u8 (by omega) (by omega)]
  omega

theorem bitCells_weightBits {w : Nat} (hm : m ≤ 11) (hw : w ≤ m) (hpos : 1 ≤ w) :
    bitCells m (weightBits m w).toNat = weightCells w := by
  rw [toNat_weightBits hm hw, bitCells, if_neg (by omega), weightCells, if_neg (by omega)]
  congr 1
  omega

theorem toNat_bitOf_le {w : UInt8} (hm : m ≤ 11) (hw : w.toNat ≤ m) : (bitOf m w).toNat ≤ m := by
  unfold bitOf
  split
  · rw [toNat_weightBits hm hw]
    omega
  · exact Nat.zero_le m

theorem bitCells_bitOf {w : UInt8} (hm : m ≤ 11) (hw : w.toNat ≤ m) :
    bitCells m (bitOf m w).toNat = weightCells w.toNat := by
  unfold bitOf
  split
  · exact bitCells_weightBits hm hw (by omega)
  · have hzero : w.toNat = 0 := by omega
    rw [hzero]
    rfl

/-- The bits of all symbols, the implied last one included. -/
def allBits (weights : List UInt8) (maxBits lastWeight : Nat) : List UInt8 :=
  weights.map (bitOf maxBits) ++ [weightBits maxBits lastWeight]

theorem allBits_le {last : Nat} (h : Tree weights m last) :
    ∀ b ∈ allBits weights m last, b.toNat ≤ m := by
  intro b hb
  rcases mem_append.mp hb with hold | hlast
  · obtain ⟨w, hw, rfl⟩ := mem_map.mp hold
    exact toNat_bitOf_le h.max (h.weight w hw)
  · rw [mem_singleton.mp hlast, toNat_weightBits h.max h.last.2]
    have := h.last.1
    omega

/-- **The codes of all ranks together fill the table.** -/
theorem kraft {last : Nat} (h : Tree weights m last) :
    rankBase (allBits weights m last) m m = 2 ^ m := by
  have hbits : ∀ n ∈ (allBits weights m last).map UInt8.toNat, n ≤ m := by
    intro n hn
    obtain ⟨b, hb, rfl⟩ := mem_map.mp hn
    exact allBits_le h b hb
  have hcells : (weights.map fun w => bitCells m (bitOf m w).toNat).sum = weightSum weights := by
    refine congrArg List.sum (map_congr_left fun w hw => ?_)
    exact bitCells_bitOf h.max (h.weight w hw)
  have hlast : weightCells last = 2 ^ (last - 1) := if_neg (by have := h.last.1; omega)
  rw [rankBase, sum_counts hbits, allBits, map_append, map_append, sum_append,
    map_map, map_map, ← h.full, ← hlast]
  simp only [map_cons, map_nil, sum_cons,
    bitCells_weightBits h.max h.last.2 h.last.1]
  rw [← hcells]
  rfl

end Kraft

/-! ## 3. The table is built inside its lists -/

/-- A cell for every state of `maxBits` bits. -/
structure HufTable.Valid (t : HufTable) : Prop where
  max : t.maxBits ≤ 11
  symbols : t.symbols.length = 2 ^ t.maxBits
  nbBits : t.nbBits.length = 2 ^ t.maxBits

/-- How often each number of bits occurs. -/
def Counts (bits : List UInt8) (ranks : List Nat) : Prop :=
  ranks.length = 12 ∧ ∀ r < 12, ranks[r]? = some ((bits.map UInt8.toNat).count r)

section Build

variable {ε : Type} {E : ε → Prop} {weights bits : List UInt8} {m last : Nat} {ranks : List Nat}

variable {b : UInt8} {done rest : List UInt8} {st : List Nat × List UInt8} {d d' : Nat}

theorem Counts.bump (h : Counts bits ranks) (hb : b.toNat < 12) :
    Sat E (Counts (bits ++ [b])) (bump ranks b.toNat : Outcome ε (List Nat)) := by
  refine (bump_sat (by rw [h.1]; exact hb)).mono fun ranks' hranks => ?_
  refine ⟨by rw [hranks.1, h.1], fun r hr => ?_⟩
  rw [hranks.2 r _ (h.2 r hr), map_append, count_append]
  simp only [map_cons, map_nil, count_singleton, beq_iff_eq, eq_comm (a := r)]

theorem counts_nil : Counts [] (List.replicate (zstdHUFMaxTableLog + 1) 0) := by
  refine ⟨length_replicate, fun r hr => ?_⟩
  rw [getElem?_replicate, if_pos (show r < zstdHUFMaxTableLog + 1 from hr)]
  rfl

/-- What the loop over the weights has set. -/
def BitsSet (weights : List UInt8) (m : Nat) (done : List UInt8) (st : List UInt8 × List Nat) : Prop :=
  st.1 = done.map (bitOf m) ++ List.replicate (weights.length + 1 - done.length) 0 ∧
    Counts (done.map (bitOf m)) st.2

theorem bitsStep_sat {w : UInt8} (heq : weights = done ++ w :: rest) (hm : m ≤ 11)
    (hw : w.toNat ≤ m) {st : List UInt8 × List Nat} (h : BitsSet weights m done st) :
    Sat E (BitsSet weights m (done ++ [w])) (bitsStep m st (w, done.length) : Outcome ε _) := by
  obtain ⟨hbits, hcounts⟩ := h
  have hlen : weights.length + 1 - done.length =
      weights.length + 1 - (done.length + 1) + 1 := by
    rw [heq, length_append]
    omega
  have hnew : (storeBits m st.1 done.length w : Outcome ε (List UInt8)) =
      ok (done.map (bitOf m) ++
        bitOf m w :: List.replicate (weights.length + 1 - (done.length + 1)) 0) := by
    rw [hbits, hlen, replicate_succ]
    unfold storeBits bitOf
    split
    · rw [store_eq (by simp)]
      simp
    · rfl
  have hget : (done.map (bitOf m) ++
      bitOf m w :: List.replicate (weights.length + 1 - (done.length + 1)) 0)[done.length]? =
        some (bitOf m w) := by
    simp
  have hle := toNat_bitOf_le hm hw
  unfold bitsStep
  rw [hnew, ok_bind, index_eq hget, ok_bind]
  refine Sat.bind (hcounts.bump (by omega)) fun ranks hranks => sat_ok ⟨?_, ?_⟩
  · simp
  · rw [map_append]
    exact hranks

theorem fillCells_sat {cells : List UInt8} {start count : Nat} (h : start + count ≤ cells.length)
    (v : UInt8) :
    Sat E (fun cells' => cells'.length = cells.length ∧
        ∀ i, cells'[i]? = if start ≤ i ∧ i < start + count then some v else cells[i]?)
      (fillCells cells start count v : Outcome ε (List UInt8)) := by
  refine Sat.forRange (I := fun u (out : List UInt8) => out.length = cells.length ∧
    ∀ i, out[i]? = if start ≤ i ∧ i < start + u then some v else cells[i]?) ⟨rfl, fun i => ?_⟩
    fun u out hu hout => ?_
  · rw [if_neg (by omega)]
  · obtain ⟨hlen, hcells⟩ := hout
    rw [store_eq (by omega)]
    refine sat_ok ⟨(length_set).trans hlen, fun i => ?_⟩
    by_cases hi : start + u = i
    · rw [← hi, getElem?_set_self (by omega), if_pos (by omega)]
    · rw [getElem?_set_ne hi, hcells i]
      exact if_congr (by omega) rfl rfl

/-- The ranks down to `maxBits - j` know where their codes start, and their cells how many bits
    they take. -/
structure RanksSet (bits : List UInt8) (m j : Nat) (st : List Nat × List UInt8) : Prop where
  ranks : st.1.length = 12
  cells : st.2.length = 2 ^ m
  base : ∀ k ≤ j, st.1[m - k]? = some (rankBase bits m k)
  nbBits : ∀ k < j, ∀ i, rankBase bits m k ≤ i → i < rankBase bits m (k + 1) →
    st.2[i]? = some (UInt8.ofNat (m - k))

theorem rankStep_sat (hm : m ≤ 11) (hranks : Counts bits ranks) (hfull : rankBase bits m m = 2 ^ m)
    {j : Nat} (hj : j < m) (h : RanksSet bits m j st) :
    Sat E (RanksSet bits m (j + 1)) (rankStep m ranks st j : Outcome ε _) := by
  obtain ⟨hidx, hcells, hset, hbits⟩ := h
  have hshift : m - (m - j) = j := by omega
  have hstop : rankBase bits m j + (bits.map UInt8.toNat).count (m - j) * 1 <<< (m - (m - j)) =
      rankBase bits m (j + 1) := by
    rw [hshift, Nat.one_shiftLeft, rankBase_succ]
  have hle : rankBase bits m (j + 1) ≤ 2 ^ m := by
    rw [← hfull]
    exact rankBase_mono bits m hj
  unfold rankStep
  dsimp only
  rw [index_eq (hset j le_rfl), ok_bind, index_eq (hranks.2 (m - j) (by omega)), ok_bind, hstop,
    store_eq (by omega), ok_bind]
  refine Sat.bind (fillCells_sat (by omega) _) fun cells hfill => sat_ok ⟨?_, ?_, ?_, ?_⟩
  · rw [length_set, hidx]
  · rw [hfill.1, hcells]
  · intro k hk
    have hat : m - j - 1 = m - (j + 1) := by omega
    rcases lt_or_ge k (j + 1) with hlt | hge
    · rw [getElem?_set_ne (by omega)]
      exact hset k (by omega)
    · have hkj : k = j + 1 := by omega
      rw [hkj, hat, getElem?_set_self (by omega)]
  · intro k hk i hlow hhigh
    rw [hfill.2 i]
    rcases lt_or_ge k j with hlt | hge
    · -- the cells of an earlier rank lie below
      have hbelow := rankBase_mono bits m (show k + 1 ≤ j by omega)
      rw [if_neg (by omega)]
      exact hbits k hlt i hlow hhigh
    · have hkj : k = j := by omega
      subst hkj
      rw [if_pos (by omega)]

/-- Where the cells of symbol `d` start: behind those of the longer codes, and those of the symbols
    with as many bits in front of it. -/
def codeStart (bits : List UInt8) (m d : Nat) (b : UInt8) : Nat :=
  rankBase bits m (m - b.toNat) + ((bits.take d).map UInt8.toNat).count b.toNat * 2 ^ (m - b.toNat)

theorem codeStart_order (hget : bits[d]? = some b) (hlt : d < d') :
    codeStart bits m d b + 2 ^ (m - b.toNat) ≤ codeStart bits m d' b := by
  have hcount : ((bits.take d).map UInt8.toNat).count b.toNat + 1
      ≤ ((bits.take d').map UInt8.toNat).count b.toNat := by
    have hnext : bits.take (d + 1) = bits.take d ++ [b] := by rw [take_add_one, hget]; rfl
    have hpre : bits.take (d + 1) <+: bits.take d' := take_prefix_take_left hlt
    have hle := (hpre.map UInt8.toNat).sublist.count_le b.toNat
    rw [hnext] at hle
    simpa using hle
  have hmul := Nat.mul_le_mul_right (2 ^ (m - b.toNat)) hcount
  rw [add_mul] at hmul
  rw [codeStart, codeStart]
  omega

theorem codeStart_room (hget : bits[d]? = some b) (hb : b.toNat ≤ m) :
    codeStart bits m d b + 2 ^ (m - b.toNat) ≤ rankBase bits m (m - b.toNat + 1) := by
  have hlast := codeStart_order (m := m) hget (List.getElem?_eq_some_iff.mp hget).1
  rw [codeStart.eq_def bits m bits.length, take_length] at hlast
  rw [rankBase_succ, show m - (m - b.toNat) = b.toNat by omega]
  exact hlast

/-- **No cell belongs to two symbols.** -/
theorem codeStart_disjoint {b' : UInt8} (hget : bits[d]? = some b) (hget' : bits[d']? = some b')
    (hb : b.toNat ≤ m) (hb' : b'.toNat ≤ m) (hlt : d < d') {i : Nat}
    (hlow : codeStart bits m d b ≤ i) (hhigh : i < codeStart bits m d b + 2 ^ (m - b.toNat)) :
    ¬ (codeStart bits m d' b' ≤ i ∧ i < codeStart bits m d' b' + 2 ^ (m - b'.toNat)) := by
  have hbase : rankBase bits m (m - b.toNat) ≤ codeStart bits m d b := Nat.le_add_right _ _
  have hbase' : rankBase bits m (m - b'.toNat) ≤ codeStart bits m d' b' := Nat.le_add_right _ _
  have hroom := codeStart_room hget hb
  have hroom' := codeStart_room hget' hb'
  rcases lt_trichotomy b.toNat b'.toNat with hless | hsame | hmore
  · have hmono := rankBase_mono bits m (show m - b'.toNat + 1 ≤ m - b.toNat by omega)
    omega
  · obtain rfl : b = b' := UInt8.toNat_inj.mp hsame
    have horder := codeStart_order (m := m) hget hlt
    omega
  · have hmono := rankBase_mono bits m (show m - b.toNat + 1 ≤ m - b'.toNat by omega)
    omega

/-- The codes that have been given away, rank by rank and symbol by symbol. -/
structure CodesSet (bits : List UInt8) (m : Nat) (done : List UInt8) (st : List Nat × List UInt8) :
    Prop where
  ranks : st.1.length = 12
  cells : st.2.length = 2 ^ m
  next : ∀ r, 1 ≤ r → r ≤ m →
    st.1[r]? = some (rankBase bits m (m - r) + (done.map UInt8.toNat).count r * 2 ^ (m - r))
  symbols : ∀ d b, done[d]? = some b → b.toNat ≠ 0 → ∀ i, codeStart bits m d b ≤ i →
    i < codeStart bits m d b + 2 ^ (m - b.toNat) → st.2[i]? = some (UInt8.ofNat d)

theorem codeStep_sat (heq : bits = done ++ b :: rest) (hm : m ≤ 11) (hle : ∀ b ∈ bits, b.toNat ≤ m)
    (hfull : rankBase bits m m = 2 ^ m) (h : CodesSet bits m done st) :
    Sat E (CodesSet bits m (done ++ [b])) (codeStep m st (b, done.length) : Outcome ε _) := by
  obtain ⟨hidx, hcells, hset, hsymbols⟩ := h
  have hget : bits[done.length]? = some b := by
    rw [heq, getElem?_append_right le_rfl, Nat.sub_self]
    rfl
  have hb := hle b (mem_of_getElem? hget)
  have hold : ∀ d c, done[d]? = some c → bits[d]? = some c ∧ d < done.length := by
    intro d c hc
    obtain ⟨hd, _⟩ := List.getElem?_eq_some_iff.mp hc
    exact ⟨by rw [heq, getElem?_append_left hd]; exact hc, hd⟩
  unfold codeStep
  dsimp only
  split
  · rename_i hzero
    refine sat_pure ⟨hidx, hcells, fun r hr hrm => ?_, fun d c hc hpos => ?_⟩
    · rw [hset r hr hrm]
      simp [hzero, show 0 ≠ r by omega]
    · rcases Pool.of_getElem?_concat hc with hc | ⟨_, rfl⟩
      · exact hsymbols d c hc hpos
      · exact absurd hzero hpos
  · have hstart : rankBase bits m (m - b.toNat) +
        (done.map UInt8.toNat).count b.toNat * 2 ^ (m - b.toNat) = codeStart bits m done.length b := by
      rw [codeStart, heq, take_left]
    have hroom : codeStart bits m done.length b + 2 ^ (m - b.toNat) ≤ 2 ^ m := by
      have hrank := rankBase_mono bits m (show m - b.toNat + 1 ≤ m by omega)
      have hin := codeStart_room hget hb
      omega
    have hlength : (shiftLeft 1 (m - b.toNat) : Outcome ε Nat) = ok (2 ^ (m - b.toNat)) := by
      rw [shiftLeft_eq (by omega), Nat.one_shiftLeft]
      congr 2
      omega
    rw [index_eq (hset b.toNat (by omega) hb), ok_bind, hlength, ok_bind, hstart]
    refine Sat.bind (fillCells_sat (by omega) _) fun cells hfill => ?_
    rw [store_eq (by omega)]
    refine sat_pure ⟨?_, ?_, fun r hr hrm => ?_, fun d c hc hcpos i hlow hhigh => ?_⟩
    · rw [length_set, hidx]
    · rw [hfill.1, hcells]
    · rw [map_append, count_append]
      by_cases hrb : b.toNat = r
      · rw [← hrb, getElem?_set_self (by omega), ← hstart]
        simp only [map_cons, map_nil, count_singleton_self, add_mul, one_mul,
          add_assoc]
      · rw [getElem?_set_ne hrb, hset r hr hrm]
        simp [hrb]
    · rw [hfill.2 i]
      rcases Pool.of_getElem?_concat hc with hc | ⟨rfl, rfl⟩
      · -- an earlier symbol keeps its cells
        obtain ⟨hcget, hd⟩ := hold d c hc
        have hcle := hle c (mem_of_getElem? hcget)
        rw [if_neg (codeStart_disjoint hcget hget hcle hb hd hlow hhigh)]
        exact hsymbols d c hc hcpos i hlow hhigh
      · rw [if_pos ⟨hlow, hhigh⟩]

/-- **The cells of every symbol hold the symbol and the number of its bits.** -/
structure HufTable.Assigns (t : HufTable) (bits : List UInt8) : Prop where
  valid : t.Valid
  full : rankBase bits t.maxBits t.maxBits = 2 ^ t.maxBits
  le : ∀ b ∈ bits, b.toNat ≤ t.maxBits
  cell : ∀ d b, bits[d]? = some b → b.toNat ≠ 0 → ∀ i, codeStart bits t.maxBits d b ≤ i →
    i < codeStart bits t.maxBits d b + 2 ^ (t.maxBits - b.toNat) →
    t.symbols[i]? = some (UInt8.ofNat d) ∧ t.nbBits[i]? = some b

/-- **The table of a tree gives every symbol its cells.** -/
theorem hufFromBits_sat {F : DecodeError → Prop} (h : Tree weights m last) :
    Sat F (fun t => t.maxBits = m ∧ t.Assigns (allBits weights m last))
      (hufFromBits weights m last) := by
  have hm := h.max
  have hfull := kraft h
  have hle := allBits_le h
  have hsteps : Sat F (BitsSet weights m weights) (weights.zipIdx.foldlM (bitsStep m)
      (List.replicate (weights.length + 1) 0, List.replicate (zstdHUFMaxTableLog + 1) 0) :
        Outcome DecodeError _) :=
    Sat.foldlM_zipIdx ⟨by simp, counts_nil⟩ fun done w rest st heq hst =>
      bitsStep_sat heq hm (h.weight w (by rw [heq]; simp)) hst
  refine Sat.bind hsteps fun st hst => ?_
  obtain ⟨bits, ranks⟩ := st
  obtain ⟨hbits, hcounts⟩ := hst
  dsimp only at hbits hcounts ⊢
  have hone : weights.length + 1 - weights.length = 1 := by omega
  have hall : (store bits (weights.length + 1 - 1) (weightBits m last) : Outcome DecodeError _) =
      ok (allBits weights m last) := by
    rw [hbits, store_eq (by simp), allBits]
    simp
  have hget : (allBits weights m last)[weights.length + 1 - 1]? = some (weightBits m last) := by
    rw [allBits]
    simp
  have hlast : (weightBits m last).toNat < 12 := by
    have := hle _ (mem_of_getElem? hget)
    omega
  rw [hall, ok_bind, index_eq hget, ok_bind]
  refine Sat.bind (hcounts.bump hlast) fun ranks' hranks => ?_
  have hranks' : Counts (allBits weights m last) ranks' := hranks
  have hstart : RanksSet (allBits weights m last) m 0
      (List.replicate (zstdHUFMaxTableLog + 1) 0, List.replicate (1 <<< m) 0) := by
    refine ⟨length_replicate, by rw [Nat.one_shiftLeft]; exact length_replicate, ?_, ?_⟩
    · intro k hk
      have hk0 : k = 0 := by omega
      have hlim : m - 0 < zstdHUFMaxTableLog + 1 := Nat.lt_succ_of_le hm
      rw [hk0, getElem?_replicate, if_pos hlim]
      rfl
    · omega
  refine Sat.bind (Sat.forRange (I := RanksSet (allBits weights m last) m) hstart
    fun j st hj hst => rankStep_sat hm hranks' hfull hj hst) fun st hst => ?_
  obtain ⟨rankIdx, nbBits⟩ := st
  obtain ⟨hidx, hcells, hset, hnb⟩ := hst
  have htotal : rankIdx[0]? = some (1 <<< m) := by
    have hbase := hset m le_rfl
    rwa [Nat.sub_self, hfull, ← Nat.one_shiftLeft] at hbase
  rw [index_eq htotal, ok_bind, failIf_neg (not_not.mpr rfl), ok_bind]
  have hcodes : CodesSet (allBits weights m last) m [] (rankIdx, List.replicate (1 <<< m) 0) := by
    refine ⟨hidx, by rw [Nat.one_shiftLeft]; exact length_replicate, fun r hr hrm => ?_, ?_⟩
    · have hk := hset (m - r) (by omega)
      rw [show m - (m - r) = r by omega] at hk
      rw [hk]
      simp
    · intro d b hd
      cases hd
  refine Sat.bind (Sat.foldlM_zipIdx (I := CodesSet (allBits weights m last) m) hcodes
    fun done b rest st heq hst => codeStep_sat heq hm hle hfull hst) fun st hst => sat_ok ?_
  refine ⟨rfl, ⟨hm, hst.cells, hcells⟩, hfull, hle, fun d b hd hpos i hlow hhigh => ?_⟩
  have hb := hle b (mem_of_getElem? hd)
  have hroom := codeStart_room hd hb
  have hbase : rankBase (allBits weights m last) m (m - b.toNat)
      ≤ codeStart (allBits weights m last) m d b := Nat.le_add_right _ _
  have hbits := hnb (m - b.toNat) (by omega) i (hbase.trans hlow) (hhigh.trans_le hroom)
  rw [show m - (m - b.toNat) = b.toNat by omega, UInt8.ofNat_toNat] at hbits
  exact ⟨hst.symbols d b hd hpos i hlow hhigh, hbits⟩

theorem zstdHufBuildFromWeights_safe (weights : List UInt8) :
    Safe (fun t => ∃ m last, Tree weights m last ∧ t.maxBits = m ∧
      t.Assigns (allBits weights m last)) (zstdHufBuildFromWeights weights) := by
  have hlim : zstdHUFMaxTableLog = 11 := rfl
  have hmaxw : zstdHUFMaxWeights = 255 := rfl
  refine Safe.failIf_bind fun hcount => ?_
  refine Sat.bind (weightSteps_safe weights) fun st hst => ?_
  obtain ⟨total, stats⟩ := st
  obtain ⟨hsum, hlen, hweights⟩ := hst
  dsimp only at hsum hlen ⊢
  have hle := weightSum_le hweights
  subst hsum
  refine Safe.failIf_bind fun hpos => ?_
  obtain ⟨m, hm⟩ : ∃ m, m = (weightSum weights).log2 + 1 := ⟨_, rfl⟩
  have hbits : (zstdHighBit (weightSum weights) + 1).toNat = m := by
    rw [zstdHighBit_eq hpos (by omega)]
    omega
  rw [hbits]
  refine Safe.failIf_bind fun hmax => ?_
  refine Safe.failIf_bind fun hrest => ?_
  rw [Nat.one_shiftLeft] at hrest ⊢
  have htree := tree_of_rest hpos hm (by omega) (not_not.mp hrest)
  have hne : 2 ^ m - weightSum weights ≠ 0 := by
    have hlt : weightSum weights < 2 ^ m := by
      rw [hm]
      exact Nat.lt_log2_self
    omega
  have hsmall : 2 ^ m ≤ 2 ^ 11 := Nat.pow_le_pow_right (by decide) htree.max
  have hlast : (zstdHighBit (2 ^ m - weightSum weights) + 1).toNat =
      (2 ^ m - weightSum weights).log2 + 1 := by
    rw [zstdHighBit_eq hne (by omega)]
    omega
  rw [hlast]
  have hlastle := htree.last.2
  refine Sat.bind (bump_sat (by omega)) fun stats' hstats => ?_
  refine Sat.bind (sat_index (by omega)) fun longest _ => ?_
  refine Safe.failIf_bind fun _ => ?_
  exact (hufFromBits_sat htree).mono fun t ht => ⟨m, _, htree, ht⟩

end Build

/-! ## 4. Descriptions and streams -/

theorem weightTurn_safe {t : FseTable} {bound : Nat} (ht : t.Valid bound) (src : List UInt8)
    (s : Weights) (h : s.state1.toNat < 2 ^ t.accuracyLog ∧ s.state2.toNat < 2 ^ t.accuracyLog ∧
      s.weights.length ≤ zstdHUFMaxWeights) :
    Safe (Sum.elim
        (fun u => (u.state1.toNat < 2 ^ t.accuracyLog ∧ u.state2.toNat < 2 ^ t.accuracyLog ∧
            u.weights.length ≤ zstdHUFMaxWeights) ∧
          zstdHUFMaxWeights - u.weights.length < zstdHUFMaxWeights - s.weights.length)
        (fun _ => True)) (weightTurn t src s) := by
  obtain ⟨h1, h2, hlen⟩ := h
  refine Safe.failIf_bind fun hroom => ?_
  refine Sat.bind (ht.decodeBackward h1 src s.off) fun r hr => ?_
  obtain ⟨w, state1, off⟩ := r
  dsimp only at hr ⊢
  split
  · exact Sat.bind (ht.symbolAt h2) fun _ _ => sat_pure trivial
  · refine Safe.failIf_bind fun hroom' => ?_
    refine Sat.bind (ht.decodeBackward h2 src off) fun r hr' => ?_
    split
    · exact Sat.bind (ht.symbolAt hr) fun _ _ => sat_pure trivial
    · rw [length_append, length_singleton] at hroom'
      refine sat_pure ⟨⟨hr, hr', ?_⟩, ?_⟩ <;>
        simp only [length_append, length_singleton] <;> omega

theorem zstdFseDecodeWeights_safe (sec : List UInt8) :
    Safe (fun _ => True) (zstdFseDecodeWeights sec) := by
  refine Sat.bind (zstdFseDecodeTable_safe sec (by decide) _) fun r hr => ?_
  obtain ⟨t, headerSize⟩ := r
  obtain ⟨ht, hsize⟩ := hr
  dsimp only at ht hsize ⊢
  rw [dropFrom_eq hsize]
  refine Safe.failIf_bind fun hne => ?_
  refine Sat.bind (sat_index (by omega)) fun last _ => ?_
  refine Safe.failIf_bind fun _ => ?_
  refine Sat.bind (ht.initBackward _ _) fun r1 h1 => ?_
  refine Sat.bind (ht.initBackward _ _) fun r2 h2 => ?_
  exact Sat.loop (fun s => zstdHUFMaxWeights - s.weights.length)
    (weightTurn_safe ht (sec.drop headerSize)) ⟨h1, h2, Nat.zero_le _⟩ (by omega)

variable (src : List UInt8)

theorem directWeights_safe (numWeights : Nat) :
    Safe (fun r => r.2 ≤ src.length) (directWeights src numWeights) := by
  refine Safe.failIf_bind fun _ => ?_
  refine Safe.failIf_bind fun hroom => ?_
  refine Sat.bind (P := fun _ => True) ?_ fun _ _ => sat_ok (le_of_not_gt hroom)
  refine Sat.forRange (I := fun _ _ => True) trivial fun i _ hi _ => ?_
  exact Sat.bind (sat_index (by omega)) fun _ _ => sat_pure trivial

theorem compressedWeights_safe (header : Nat) :
    Safe (fun r => r.2 ≤ src.length) (compressedWeights src header) := by
  refine Safe.failIf_bind fun _ => ?_
  refine Safe.failIf_bind fun hroom => ?_
  refine Sat.bind (sat_slice (by omega) (by omega)) fun sec _ => ?_
  exact Sat.bind (zstdFseDecodeWeights_safe sec) fun _ _ => sat_ok (le_of_not_gt hroom)

theorem hufWeights_safe (header : Nat) :
    Safe (fun r => r.2 ≤ src.length) (hufWeights src header) := by
  unfold hufWeights
  split
  · exact directWeights_safe src (header - 127)
  · exact compressedWeights_safe src header

/-- **A Huffman table that is read is valid**, and its description lies inside the section. -/
theorem zstdDecodeHufTable_safe :
    Safe (fun r => r.1.Valid ∧ r.2 ≤ src.length) (zstdDecodeHufTable src) := by
  refine Safe.failIf_bind fun hlen => ?_
  refine Sat.bind (sat_index (by omega)) fun header _ => ?_
  refine Sat.bind (hufWeights_safe src header.toNat) fun r hr => ?_
  refine Sat.bind (zstdHufBuildFromWeights_safe r.1) fun t ht => sat_ok ?_
  obtain ⟨_, _, _, _, ht⟩ := ht
  exact ⟨ht.valid, hr⟩

/-- The state is a cell of the table, and the literals so far lie in `dst`. -/
def HufStream.Inside (t : HufTable) (len : Nat) (s : HufStream) : Prop :=
  s.state.toNat < 2 ^ t.maxBits ∧ s.n ≤ len ∧ s.dst.length = len

theorem hufTurn_safe {t : HufTable} (ht : t.Valid) (src : List UInt8) {len : Nat} (s : HufStream)
    (h : s.Inside t len) :
    Safe (Sum.elim (fun u => u.Inside t len ∧ len - u.n < len - s.n) (HufStream.Inside t len))
      (hufTurn t src s) := by
  obtain ⟨hstate, hn, hlen⟩ := h
  unfold hufTurn
  split
  · refine Safe.failIf_bind fun hroom => ?_
    refine Sat.bind (sat_index (by rw [ht.nbBits]; exact hstate)) fun nb _ => ?_
    refine Sat.bind (sat_index (by rw [ht.symbols]; exact hstate)) fun symb _ => ?_
    rw [store_eq (by omega), ok_bind]
    refine Sat.bind (zstdReadBitsLE_returns _ _) fun rest _ => sat_ok ?_
    refine ⟨⟨?_, ?_, ?_⟩, ?_⟩
    · rw [Nat.one_shiftLeft, Nat.and_two_pow_sub_one_eq_mod]
      exact (Nat.mod_le _ _).trans_lt (Nat.mod_lt _ (Nat.two_pow_pos _))
    · dsimp only
      omega
    · rw [length_set, hlen]
    · dsimp only
      omega
  · exact sat_pure ⟨hstate, hn, hlen⟩

theorem zstdHufDecodeStream_safe {t : HufTable} (ht : t.Valid) (src dst : List UInt8) :
    Safe (fun r => r.1 ≤ dst.length ∧ r.2.length = dst.length) (zstdHufDecodeStream t src dst) := by
  have hmax := ht.max
  refine Safe.failIf_bind fun hne => ?_
  refine Sat.bind (sat_index (by omega)) fun last _ => ?_
  refine Safe.failIf_bind fun _ => ?_
  refine Sat.bind (zstdReadBitsLE_sat (by omega) _) fun v hv => ?_
  have hstart : HufStream.Inside t dst.length
      ⟨streamEnd src last.toNat - t.maxBits, UInt16.ofNat v, 0, dst⟩ := by
    refine ⟨?_, Nat.zero_le _, rfl⟩
    rw [UInt16.toNat_ofNat']
    omega
  refine Sat.bind (Sat.loop (fun s => dst.length - s.n) (hufTurn_safe ht src) hstart
    (by omega)) fun s hs => ?_
  refine Safe.failIf_bind fun _ => sat_ok ?_
  exact hs.2

end RocketMQ.Compress
