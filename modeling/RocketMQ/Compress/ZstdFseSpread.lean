/-
  File:      RocketMQ/Compress/ZstdFseSpread.lean
  Subject:   How the three passes of `zstdFseBuildTable` fill a table.

  * `LowCells.After`: the first pass gives a cell at the end to every counter "less than 1";
  * `zstdFseBuildTable_sat`: **a table that is built from a distribution is valid**; the step of the
    walk is coprime to the size, so that no cell is left without a symbol.
-/
import RocketMQ.Compress.ZstdFseTable
import RocketMQ.Lib.Cycle

namespace RocketMQ.Compress

open List Outcome Cycle

/-! ## 1. The first pass -/

/-- The number of counters "less than 1". -/
def lowCount (norm : List Int) : Nat := norm.count (-1)

/-- The number of cells that the second pass gives away. -/
def highCount (norm : List Int) : Nat := (norm.map Int.toNat).sum

variable {norm : List Int} {log step pos : Nat} {symbols : List UInt8} {x : Int}

theorem cellCount_eq (h : ∀ c ∈ norm, -1 ≤ c) :
    cellCount norm = lowCount norm + highCount norm := by
  induction norm with
  | nil => rfl
  | cons c rest ih =>
    have hc := h c mem_cons_self
    have hrest := ih fun d hd => h d (mem_cons_of_mem c hd)
    simp only [cellCount, lowCount, highCount, map_cons, sum_cons, count_cons,
      beq_iff_eq] at hrest ⊢
    split <;> omega

/-- The counter that the states of a symbol start from. -/
def startState (c : Int) : Int := if c = -1 then 1 else c

structure LowCells.After (norm : List Int) (size : Nat) (done : List Int) (st : LowCells) : Prop where
  length : st.symbols.length = size
  threshold : st.highThreshold = (size : Int) - lowCount done
  states : st.stateNext = done.map startState ++ List.replicate (norm.length - done.length) 0
  marked : ∀ u : Nat, st.highThreshold ≤ u → u < size →
    ∃ s, norm[s]? = some (-1) ∧ st.symbols[u]? = some (UInt8.ofNat s)

section LowCells

variable {ε : Type} {E : ε → Prop} {norm done rest : List Int} {c : Int} {size : Nat} {st : LowCells}

theorem LowCells.After.store_state (h : st.After norm size done) (heq : norm = done ++ c :: rest)
    (v : Int) :
    (store st.stateNext done.length v : Outcome ε (List Int)) =
      ok (done.map startState ++ (v :: List.replicate (norm.length - (done.length + 1)) 0)) := by
  have hlen : norm.length - done.length = norm.length - (done.length + 1) + 1 := by
    rw [heq, length_append, length_cons]
    omega
  rw [h.states, hlen, replicate_succ, store_eq (by simp)]
  simp

theorem lowCell_sat (heq : norm = done ++ c :: rest) (hroom : lowCount norm ≤ size)
    (h : st.After norm size done) :
    Sat E (LowCells.After norm size (done ++ [c])) (lowCell st (c, done.length) : Outcome ε _) := by
  have hget : norm[done.length]? = some c := by
    rw [heq]
    simp
  have hcount : lowCount (done ++ [c]) = lowCount done + if c = -1 then 1 else 0 := by
    simp [lowCount, count_singleton]
  have hmax : lowCount (done ++ [c]) ≤ lowCount norm := by
    have hsplit : norm = (done ++ [c]) ++ rest := by rw [heq, append_assoc]; rfl
    rw [hsplit]
    exact (sublist_append_left (done ++ [c]) rest).count_le _
  have hthreshold := h.threshold
  unfold lowCell
  dsimp only
  split
  · rename_i hc
    rw [if_pos hc] at hcount
    have hpos : ¬ st.highThreshold - 1 < 0 := by omega
    have hat : (st.highThreshold - 1).toNat < st.symbols.length := by
      rw [h.length]
      omega
    rw [storeInt, if_neg hpos, store_eq hat, h.store_state heq]
    refine sat_pure ⟨?_, ?_, ?_, ?_⟩
    · rw [length_set]
      exact h.length
    · dsimp only
      omega
    · simp [startState, hc]
    · intro u hu hlt
      dsimp only at hu ⊢
      by_cases hnew : (st.highThreshold - 1).toNat = u
      · refine ⟨done.length, by rw [hget, hc], ?_⟩
        rw [← hnew, getElem?_set_self hat]
      · rw [getElem?_set_ne hnew]
        exact h.marked u (by omega) hlt
  · rename_i hc
    rw [if_neg hc] at hcount
    rw [h.store_state heq]
    refine sat_pure ⟨h.length, ?_, ?_, h.marked⟩
    · dsimp only
      omega
    · simp [startState, hc]

theorem lowCells_sat (hroom : lowCount norm ≤ size) :
    Sat E (LowCells.After norm size norm) (norm.zipIdx.foldlM lowCell
      ⟨List.replicate size 0, List.replicate norm.length 0, size⟩ : Outcome ε _) := by
  refine Sat.foldlM_zipIdx ?_
    fun done c rest st heq h => lowCell_sat heq hroom h
  refine ⟨length_replicate, by simp [lowCount], by simp, ?_⟩
  intro u hu hlt
  dsimp only at hu
  omega

end LowCells

/-! ## 2. The second pass -/

/-- The symbols in the order in which the second pass gives cells to them. -/
def cellSymbols (norm : List Int) : List UInt8 :=
  norm.zipIdx.flatMap fun e => List.replicate e.1.toNat (UInt8.ofNat e.2)

theorem cellSymbols_append (done : List Int) (c : Int) :
    cellSymbols (done ++ [c]) =
      cellSymbols done ++ List.replicate c.toNat (UInt8.ofNat done.length) := by
  simp [cellSymbols, zipIdx_append]

theorem length_cellSymbols (norm : List Int) : (cellSymbols norm).length = highCount norm := by
  induction norm using List.reverseRecOn with
  | nil => rfl
  | append_singleton done c ih =>
    rw [cellSymbols_append, length_append, ih, highCount, highCount,
      map_append]
    simp

theorem mem_cellSymbols {symb : UInt8} (h : symb ∈ cellSymbols norm) :
    ∃ s c, norm[s]? = some c ∧ 0 < c ∧ symb = UInt8.ofNat s := by
  obtain ⟨⟨c, s⟩, hmem, hsymb⟩ := mem_flatMap.mp h
  obtain ⟨hne, heq⟩ := mem_replicate.mp hsymb
  exact ⟨s, c, mem_zipIdx_iff_getElem?.mp hmem, by omega, heq⟩

/-- The walk stands on `st.2`; the cells below the threshold that it stood on before hold `symbs`,
and from the threshold on nothing has changed. -/
structure Spreads (size step high : Nat) (before symbs : List UInt8) (st : List UInt8 × Nat) :
    Prop where
  length : st.1.length = size
  low : 0 < high → st.2 < high
  start : symbs = [] → st.2 = 0
  walk : ∃ k ≤ size, st.2 = cell size step k ∧ (lows size step high k).length = symbs.length ∧
    ∀ (i u : Nat), (lows size step high k)[i]? = some u → st.1[u]? = symbs[i]?
  above : ∀ u : Nat, high ≤ u → st.1[u]? = before[u]?

section Spread

variable {ε : Type} {E : ε → Prop} {log step high : Nat} {before symbs : List UInt8}
  {st : List UInt8 × Nat}

/-- **The search comes to the next cell below the threshold**, at the latest to cell 0. -/
theorem nextCell_finds (step : Nat) (hhigh : 0 < high) (fuel : Nat) {k : Nat} (hk : k < 2 ^ log)
    (hfuel : 2 ^ log - k < fuel) :
    ∃ m, k < m ∧ m ≤ 2 ^ log ∧ cell (2 ^ log) step m < high ∧
      (∀ i, k < i → i < m → ¬ cell (2 ^ log) step i < high) ∧
      loop (nextCell step (2 ^ log - 1) high) fuel (cell (2 ^ log) step k) =
        (ok (cell (2 ^ log) step m) : Outcome ε Nat) := by
  induction fuel generalizing k with
  | zero => omega
  | succ fuel ih =>
    have hnext : (cell (2 ^ log) step k + step) &&& (2 ^ log - 1) = cell (2 ^ log) step (k + 1) := by
      rw [Nat.and_two_pow_sub_one_eq_mod, cell_succ]
    by_cases hlow : cell (2 ^ log) step (k + 1) < high
    · refine ⟨k + 1, Nat.lt_succ_self k, hk, hlow, by omega, ?_⟩
      refine loop_done ?_
      rw [nextCell, hnext, if_pos (by omega)]
      rfl
    · have hlast : k + 1 ≠ 2 ^ log := by
        intro heq
        rw [heq, cell, Nat.mul_mod_right] at hlow
        exact hlow hhigh
      obtain ⟨m, hkm, hm, hmlow, hskip, hloop⟩ := ih (k := k + 1) (by omega) (by omega)
      refine ⟨m, by omega, hm, hmlow, ?_, ?_⟩
      · intro i hki him
        rcases lt_or_ge (k + 1) i with hlt | hge
        · exact hskip i hlt him
        · have hi : i = k + 1 := by omega
          rw [hi]
          exact hlow
      · have hturn : (nextCell step (2 ^ log - 1) high (cell (2 ^ log) step k) :
            Outcome ε (Nat ⊕ Nat)) = ok (.inl (cell (2 ^ log) step (k + 1))) := by
          rw [nextCell, hnext, if_neg (by omega)]
          rfl
        rw [loop_next hturn, hloop]

theorem spreadOne_sat (hc : Nat.Coprime (2 ^ log) step) (hhigh : high ≤ 2 ^ log) (s i : Nat)
    (h : Spreads (2 ^ log) step high before symbs st) (hroom : symbs.length < high) :
    Sat E (Spreads (2 ^ log) step high before (symbs ++ [UInt8.ofNat s]))
      (spreadOne (2 ^ log) step (2 ^ log - 1) high s st i : Outcome ε _) := by
  obtain ⟨k, hk, hpos, hcount, hheld⟩ := h.walk
  have hlow : st.2 < high := h.low (by omega)
  have hklt : k < 2 ^ log := lt_of_length_lt hc hhigh hk (by omega)
  obtain ⟨m, hkm, hm, hmlow, hskip, hloop⟩ :=
    nextCell_finds step (show 0 < high by omega) (2 ^ log + 1) hklt (by omega)
  have hlows : lows (2 ^ log) step high m = lows (2 ^ log) step high k ++ [st.2] := by
    rw [lows_skip hkm fun i hi him => hskip i hi him, lows_succ, if_pos (by rw [← hpos]; exact hlow),
      ← hpos]
  have hfresh : st.2 ∉ lows (2 ^ log) step high k := by
    intro hmem
    obtain ⟨_, j, hj, heq⟩ := mem_lows.mp hmem
    have hjk := cell_injective hc (by omega) hklt (heq.trans hpos)
    omega
  have hat : st.2 < st.1.length := by
    rw [h.length]
    omega
  unfold spreadOne
  rw [store_eq hat, hpos, hloop, ← hpos]
  refine sat_pure ⟨?_, fun _ => hmlow, fun hnil => ?_, ⟨m, hm, rfl, ?_, ?_⟩, ?_⟩
  · rw [length_set]
    exact h.length
  · exact absurd hnil (append_ne_nil_of_right_ne_nil _ (cons_ne_nil _ _))
  · rw [hlows, length_append, length_append, hcount]
    rfl
  · intro i u hget
    rw [hlows] at hget
    rcases lt_or_ge i (lows (2 ^ log) step high k).length with hi | hi
    · rw [getElem?_append_left hi] at hget
      have hne : st.2 ≠ u := fun heq => hfresh (heq ▸ mem_of_getElem? hget)
      rw [getElem?_set_ne hne, getElem?_append_left (by omega)]
      exact hheld i u hget
    · rw [getElem?_append_right hi] at hget
      obtain ⟨hi', hu⟩ := List.getElem?_eq_some_iff.mp hget
      have hlast : i = symbs.length := by
        rw [length_singleton] at hi'
        omega
      have hcell : st.2 = u := by
        rw [← hu]
        simp
      rw [← hcell, getElem?_set_self hat, hlast]
      simp
  · intro u hu
    rw [getElem?_set_ne (by omega)]
    exact h.above u hu

theorem spreadSymbol_sat (hc : Nat.Coprime (2 ^ log) step) (hhigh : high ≤ 2 ^ log) (c : Int)
    (s : Nat) (h : Spreads (2 ^ log) step high before symbs st)
    (hroom : symbs.length + c.toNat ≤ high) :
    Sat E (Spreads (2 ^ log) step high before
        (symbs ++ List.replicate c.toNat (UInt8.ofNat s)))
      (spreadSymbol (2 ^ log) step (2 ^ log - 1) high st (c, s) : Outcome ε _) := by
  unfold spreadSymbol
  split
  · have hzero : c.toNat = 0 := by omega
    rw [hzero, replicate_zero, append_nil]
    exact sat_pure h
  · refine Sat.forRange (I := fun i => Spreads (2 ^ log) step high before
      (symbs ++ List.replicate i (UInt8.ofNat s))) ?_ fun i st hi hst => ?_
    · rw [replicate_zero, append_nil]
      exact h
    · rw [replicate_succ', ← append_assoc]
      exact spreadOne_sat hc hhigh s i hst (by simp; omega)

/-- **After the second pass the cells below the threshold hold the symbols, in the order of the
walk.** -/
theorem spreadSymbols_sat (hc : Nat.Coprime (2 ^ log) step) {norm : List Int}
    (hhigh : highCount norm ≤ 2 ^ log) (hbefore : before.length = 2 ^ log) :
    Sat E (Spreads (2 ^ log) step (highCount norm) before (cellSymbols norm))
      (norm.zipIdx.foldlM (spreadSymbol (2 ^ log) step (2 ^ log - 1) (highCount norm : Nat))
        (before, 0) : Outcome ε _) := by
  refine Sat.foldlM_zipIdx
    (I := fun done => Spreads (2 ^ log) step (highCount norm) before (cellSymbols done)) ?_ ?_
  · refine ⟨hbefore, id, fun _ => rfl, ⟨0, Nat.zero_le _, ?_, rfl, ?_⟩, fun _ _ => rfl⟩
    · simp [cell]
    · intro i u hget
      cases hget
  · intro done c rest st heq h
    rw [cellSymbols_append]
    refine spreadSymbol_sat hc hhigh c done.length h ?_
    rw [length_cellSymbols, heq]
    simp [highCount]

end Spread

/-- Every cell holds a symbol whose counter is not 0. -/
def Covered (norm : List Int) (symbols : List UInt8) : Prop :=
  ∀ u < symbols.length, ∃ s c, norm[s]? = some c ∧ c ≠ 0 ∧ symbols[u]? = some (UInt8.ofNat s)

/-- **No cell is left without a symbol.** -/
theorem covered_of_passes {low : LowCells} (hd : Distribution norm log)
    (hc : Nat.Coprime (2 ^ log) step) (hlow : low.After norm (2 ^ log) norm)
    (h : Spreads (2 ^ log) step (highCount norm) low.symbols (cellSymbols norm) (symbols, pos)) :
    Covered norm symbols := by
  have hcount := cellCount_eq hd.counters
  rw [hd.sum] at hcount
  intro u hu
  rw [h.length] at hu
  rcases lt_or_ge u (highCount norm) with hbelow | habove
  · obtain ⟨k, hk, _, hlen, hheld⟩ := h.walk
    rw [length_cellSymbols] at hlen
    obtain ⟨i, hi⟩ := getElem?_of_mem (mem_lows_of_length hc (by omega) hk hlen hbelow)
    have hilt : i < (cellSymbols norm).length := by
      obtain ⟨hi', _⟩ := List.getElem?_eq_some_iff.mp hi
      rw [length_cellSymbols]
      omega
    obtain ⟨s, c, hget, hpos, hsymb⟩ := mem_cellSymbols (getElem_mem hilt)
    refine ⟨s, c, hget, by omega, ?_⟩
    rw [hheld i u hi, getElem?_eq_getElem hilt, hsymb]
  · obtain ⟨s, hget, hsymb⟩ := hlow.marked u (by rw [hlow.threshold]; omega) hu
    exact ⟨s, -1, hget, by decide, by rw [h.above u habove]; exact hsymb⟩

/-- **The walk ends where it began.** -/
theorem pos_of_spreads {before : List UInt8} (hc : Nat.Coprime (2 ^ log) step)
    (hhigh : highCount norm ≤ 2 ^ log)
    (h : Spreads (2 ^ log) step (highCount norm) before (cellSymbols norm) (symbols, pos)) :
    pos = 0 := by
  have hlen := length_cellSymbols norm
  rcases eq_zero_or_pos (highCount norm) with hzero | hpos
  · exact h.start (length_eq_zero_iff.mp (hlen.trans hzero))
  · obtain ⟨k, hk, hcell, hcount, _⟩ := h.walk
    have hlow := h.low hpos
    dsimp only at hcell hlow
    rw [hcell] at hlow ⊢
    exact cell_eq_zero hc hhigh hk (hcount.trans hlen) hlow

/-! ## 3. The third pass -/

theorem toNat_ofInt_u8 (h : 0 ≤ x) (hlt : x < 256) : (UInt8.ofInt x).toNat = x.toNat := by
  rw [UInt8.ofInt, UInt8.toNat_ofNat']
  omega

theorem toNat_ofInt_u16 (h : 0 ≤ x) (hlt : x < 65536) : (UInt16.ofInt x).toNat = x.toNat := by
  rw [UInt16.ofInt, UInt16.toNat_ofNat']
  omega

theorem state_range {v : Nat} (hpos : v ≠ 0) (hlt : v < 2 ^ (log + 1)) :
    v.log2 ≤ log ∧ 2 ^ log ≤ v * 2 ^ (log - v.log2) ∧
      v * 2 ^ (log - v.log2) + 2 ^ (log - v.log2) ≤ 2 ^ (log + 1) := by
  have hlog : v.log2 ≤ log := Nat.lt_succ_iff.mp ((Nat.log2_lt hpos).mpr hlt)
  have hlow : 2 ^ v.log2 ≤ v := Nat.log2_self_le hpos
  have hhigh : v + 1 ≤ 2 ^ (v.log2 + 1) := Nat.lt_log2_self
  refine ⟨hlog, ?_, ?_⟩
  · calc 2 ^ log = 2 ^ v.log2 * 2 ^ (log - v.log2) := by rw [← pow_add, Nat.add_sub_cancel' hlog]
      _ ≤ v * 2 ^ (log - v.log2) := Nat.mul_le_mul_right _ hlow
  · calc v * 2 ^ (log - v.log2) + 2 ^ (log - v.log2) = (v + 1) * 2 ^ (log - v.log2) := by ring
      _ ≤ 2 ^ (v.log2 + 1) * 2 ^ (log - v.log2) := Nat.mul_le_mul_right _ hhigh
      _ = 2 ^ (log + 1) := by
          rw [← pow_add]
          congr 1
          omega

/-- The entries of the first `u` states are in order, and the counters have gone up by `u` at most. -/
structure FseStates.Filled (norm : List Int) (log u : Nat) (st : FseStates) : Prop where
  nbBits : st.nbBits.length = 2 ^ log
  newBase : st.newBase.length = 2 ^ log
  counters : ∀ (s : Nat) (c : Int), norm[s]? = some c →
    ∃ v, st.stateNext[s]? = some v ∧ startState c ≤ v ∧ v ≤ startState c + u
  inside : ∀ (i : Nat) (nb : UInt8) (base : UInt16), i < u → st.nbBits[i]? = some nb →
    st.newBase[i]? = some base → nb.toNat ≤ 12 ∧ base.toNat + 2 ^ nb.toNat ≤ 2 ^ log

section Fill

variable {ε : Type} {E : ε → Prop} {norm : List Int} {log : Nat} {symbols : List UInt8}

theorem startState_bounds (hd : Distribution norm log) {s : Nat} {c : Int} (hget : norm[s]? = some c)
    (hne : c ≠ 0) : 1 ≤ startState c ∧ startState c ≤ 2 ^ log := by
  have hmem := mem_of_getElem? hget
  have hmin := hd.counters c hmem
  have hmax : c.natAbs ≤ cellCount norm := le_sum_of_mem (mem_map_of_mem hmem)
  rw [hd.sum] at hmax
  have hcast : ((2 ^ log : Nat) : Int) = 2 ^ log := by push_cast; rfl
  unfold startState
  split <;> omega

theorem fillState_sat (hd : Distribution norm log) (hcov : Covered norm symbols)
    (hlen : symbols.length = 2 ^ log) {u : Nat} (hu : u < 2 ^ log) (st : FseStates)
    (h : st.Filled norm log u) :
    Sat E (FseStates.Filled norm log (u + 1))
      (fillState symbols log (2 ^ log) st u : Outcome ε FseStates) := by
  obtain ⟨s, c, hget, hne, hsymb⟩ := hcov u (by rw [hlen]; exact hu)
  obtain ⟨hstart, hsize⟩ := startState_bounds hd hget hne
  obtain ⟨v, hv, hvlow, hvhigh⟩ := h.counters s c hget
  obtain ⟨hsl, _⟩ := List.getElem?_eq_some_iff.mp hget
  have hs : (UInt8.ofNat s).toNat = s := by
    have hmax := hd.length
    rw [UInt8.toNat_ofNat']
    omega
  obtain ⟨n, rfl⟩ : ∃ n : Nat, v = n := ⟨v.toNat, by omega⟩
  have hmax : 2 ^ log ≤ 4096 := two_pow_le_4096 hd.max
  have hcast : ((2 ^ log : Nat) : Int) = 2 ^ log := by push_cast; rfl
  have hnlt : n < 2 ^ (log + 1) := by
    omega
  have hnpos : n ≠ 0 := by omega
  obtain ⟨hlog, hrange, hend⟩ := state_range hnpos hnlt
  have hdmax := hd.max
  have hbits : 0 < 2 ^ (log - n.log2) := Nat.two_pow_pos _
  have hnb : (UInt8.ofInt (log - zstdHighBit n)).toNat = log - n.log2 := by
    rw [zstdHighBit_eq hnpos (by omega), toNat_ofInt_u8 (by omega) (by omega)]
    omega
  have hbase : (UInt16.ofInt ((n <<< (log - n.log2)) - (2 ^ log : Nat))).toNat =
      n * 2 ^ (log - n.log2) - 2 ^ log := by
    rw [toNat_ofInt_u16 (by omega) (by omega)]
    omega
  obtain ⟨hstate, _⟩ := List.getElem?_eq_some_iff.mp hv
  unfold fillState
  rw [index_eq hsymb, ok_bind, hs, index_eq hv, ok_bind, store_eq hstate]
  dsimp only
  rw [Int.toNat_natCast, store_eq (by rw [h.nbBits]; exact hu),
    store_eq (by rw [h.newBase]; exact hu)]
  refine sat_pure ⟨?_, ?_, ?_, ?_⟩
  · rw [length_set]
    exact h.nbBits
  · rw [length_set]
    exact h.newBase
  · intro s' c' hget'
    by_cases hsame : s = s'
    · subst hsame
      cases hget.symm.trans hget'
      exact ⟨n + 1, getElem?_set_self hstate, by omega, by omega⟩
    · obtain ⟨v', hv', hlow', hhigh'⟩ := h.counters s' c' hget'
      exact ⟨v', by rw [getElem?_set_ne hsame]; exact hv', hlow', by omega⟩
  · intro i nb base hi hnbi hbasei
    by_cases hiu : u = i
    · subst hiu
      rw [getElem?_set_self (by rw [h.nbBits]; exact hu)] at hnbi
      rw [getElem?_set_self (by rw [h.newBase]; exact hu)] at hbasei
      cases hnbi
      cases hbasei
      rw [hnb]
      omega
    · rw [getElem?_set_ne hiu] at hnbi hbasei
      exact h.inside i nb base (by omega) hnbi hbasei

theorem startState_get {done : List Int} {s : Nat} {c : Int} (hget : done[s]? = some c) :
    (done.map startState)[s]? = some (startState c) := by
  rw [getElem?_map, hget]
  rfl

theorem step_coprime {log : Nat} (h : 5 ≤ log) :
    Nat.Coprime (2 ^ log) ((2 ^ log) >>> 1 + (2 ^ log) >>> 3 + 3) := by
  obtain ⟨k, rfl⟩ : ∃ k, log = k + 5 := ⟨log - 5, by omega⟩
  refine Nat.Coprime.pow_left _ (Nat.coprime_two_left.mpr ?_)
  rw [Nat.shiftRight_eq_div_pow, Nat.odd_iff, pow_add]
  omega

/-- **Every distribution gets a table, and the table is valid.** -/
theorem zstdFseBuildTable_sat {F : DecodeError → Prop} (hd : Distribution norm log) :
    Sat F (fun t => t.accuracyLog = log ∧ t.Valid norm.length) (zstdFseBuildTable norm log) := by
  have hcount := cellCount_eq hd.counters
  rw [hd.sum] at hcount
  unfold zstdFseBuildTable
  dsimp only
  rw [Nat.one_shiftLeft]
  refine Sat.bind (lowCells_sat (by omega)) fun low hlow => ?_
  have hthreshold : low.highThreshold = (highCount norm) := by
    rw [hlow.threshold]
    omega
  rw [hthreshold]
  refine Sat.bind (spreadSymbols_sat (step_coprime hd.min) (by omega) hlow.length)
    fun r hspread => ?_
  obtain ⟨symbols, pos⟩ := r
  have hcov := covered_of_passes hd (step_coprime hd.min) hlow hspread
  have hlen : symbols.length = 2 ^ log := hspread.length
  have hpos := pos_of_spreads (step_coprime hd.min) (by omega) hspread
  rw [failIf_neg (not_not.mpr hpos), ok_bind]
  have hstart : FseStates.Filled norm log 0
      ⟨low.stateNext, List.replicate (2 ^ log) 0, List.replicate (2 ^ log) 0⟩ := by
    refine ⟨length_replicate, length_replicate, ?_, by omega⟩
    intro s c hget
    refine ⟨startState c, ?_, le_rfl, by omega⟩
    rw [hlow.states, Nat.sub_self, replicate_zero, append_nil]
    exact startState_get hget
  refine Sat.bind (Sat.forRange (I := FseStates.Filled norm log) hstart
    fun u st hu hst => fillState_sat hd hcov hlen hu st hst) fun states hstates => sat_ok ?_
  refine ⟨rfl, hd.max, hlen, hstates.nbBits, hstates.newBase, ?_, ?_⟩
  · intro i nb base hnb hbase
    obtain ⟨hi, _⟩ := List.getElem?_eq_some_iff.mp hnb
    refine hstates.inside i nb base ?_ hnb hbase
    rw [← hstates.nbBits]
    exact hi
  · intro symb hmem
    obtain ⟨u, hu⟩ := getElem?_of_mem hmem
    obtain ⟨hul, _⟩ := List.getElem?_eq_some_iff.mp hu
    obtain ⟨s, c, hget, _, hsymb⟩ := hcov u hul
    obtain ⟨hs, _⟩ := List.getElem?_eq_some_iff.mp hget
    cases hu.symm.trans hsymb
    rw [UInt8.toNat_ofNat']
    omega

end Fill

/-- **A table that is read is valid**, and its header lies inside the section. -/
theorem zstdFseDecodeTable_safe (src : List UInt8) {maxSyms : Nat} (hmax : maxSyms ≤ 256)
    (maxAccuracyLog : Nat) :
    Safe (fun r => r.1.Valid maxSyms ∧ r.2 ≤ src.length)
      (zstdFseDecodeTable src maxSyms maxAccuracyLog) := by
  refine Sat.bind (zstdFseReadNCount_safe src hmax maxAccuracyLog) fun r hr => ?_
  obtain ⟨hd, hlen, hconsumed⟩ := hr
  refine Sat.bind (zstdFseBuildTable_sat hd) fun t ht => sat_ok ?_
  refine ⟨?_, hconsumed⟩
  rw [← hlen]
  exact ht.2

end RocketMQ.Compress
