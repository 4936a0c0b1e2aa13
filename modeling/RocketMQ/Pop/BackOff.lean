/-
  File:      RocketMQ/Pop/BackOff.lean
  Subject:   The back-off of a row whose retries are exhausted.

  `check_need_ack_or_delay` looks for the highest level that the age of the row reaches and asks for
  the level above it. Where the age reaches none, its level is -1, which `change_pop_invisible_time`
  turns into a large index: the row gets the last delay of the table.

  * `backOff_grows_iff`: **the back-off grows with the age exactly if the younger row has reached
    the first level**, or the table has one delay only.
-/
import RocketMQ.Pop.Answer

namespace RocketMQ

open List

variable {table : List Int} {last : Int}

theorem delayLevelOf_cases (table : List Int) (age : Int) (n : Nat) :
    (delayLevelOf table age n = -1 ∧ ∀ j < n, age < table.getD j 0 * 1000) ∨
    ∃ i < n, delayLevelOf table age n = (i : Int) + 1 ∧ table.getD i 0 * 1000 ≤ age ∧
      ∀ j < n, i < j → age < table.getD j 0 * 1000 := by
  induction n with
  | zero => exact .inl ⟨rfl, by omega⟩
  | succ n ih =>
    unfold delayLevelOf
    by_cases hn : age ≥ table.getD n 0 * 1000
    · rw [if_pos hn]
      exact .inr ⟨n, by omega, rfl, hn, by omega⟩
    · rw [if_neg hn]
      rcases ih with ⟨hlevel, hnone⟩ | ⟨i, hi, hlevel, hreached, hnone⟩
      · refine .inl ⟨hlevel, fun j hj => ?_⟩
        rcases Nat.lt_succ_iff_lt_or_eq.mp hj with hlt | rfl
        · exact hnone j hlt
        · omega
      · refine .inr ⟨i, by omega, hlevel, hreached, fun j hj hij => ?_⟩
        rcases Nat.lt_succ_iff_lt_or_eq.mp hj with hlt | rfl
        · exact hnone j hlt hij
        · omega

/-- The back-off of an age, in seconds. -/
def backOff (table : List Int) (last age : Int) : Int :=
  delaySecond table last (delayLevelOf table age table.length)

theorem checkNeedAckOrDelay_invisible {cfg : PopConfig} {now t : Int} {m : MessageExt}
    (hlast : cfg.popDelayLevel.getLast? = some last)
    (h : (checkNeedAckOrDelay cfg now m).map (·.code) = some (.changeInvisibleTime t)) :
    t = backOff cfg.popDelayLevel last (now - m.bornTimestamp) * 1000 := by
  unfold checkNeedAckOrDelay at h
  rw [hlast] at h
  dsimp only at h
  split at h
  · unfold ackPopMsg at h
    rw [Option.map_map, Option.map_eq_some_iff] at h
    obtain ⟨_, _, hcode⟩ := h
    cases hcode
  · have hlevel : delayLevelOf cfg.popDelayLevel (now - m.bornTimestamp) cfg.popDelayLevel.length
        ≠ 0 := by
      rcases delayLevelOf_cases cfg.popDelayLevel (now - m.bornTimestamp) cfg.popDelayLevel.length
        with ⟨heq, _⟩ | ⟨i, _, heq, _⟩ <;> omega
    unfold changePopInvisibleTime at h
    rw [hlast, if_neg hlevel] at h
    cases htarget : popCkTarget cfg.consumerGroup m with
    | none =>
      rw [htarget] at h
      cases h
    | some target =>
      rw [htarget] at h
      cases h
      rfl

/-! ## Ascending tables -/

theorem getD_mono (hasc : table.Pairwise (· ≤ ·)) (hlast : table.getLast? = some last) {i j : Nat}
    (hij : i ≤ j) : table.getD i last ≤ table.getD j last := by
  have hmax : ∀ k, table.getD k last ≤ last := by
    intro k
    obtain ⟨front, hfront⟩ := getLast?_eq_some_iff.mp hlast
    rw [hfront] at hasc ⊢
    rw [getD_eq_getElem?_getD]
    cases hk : (front ++ [last])[k]? with
    | none => exact le_rfl
    | some x =>
      rcases mem_append.mp (mem_of_getElem? hk) with hx | hx
      · exact (pairwise_append.mp hasc).2.2 x hx last (mem_singleton.mpr rfl)
      · exact le_of_eq (mem_singleton.mp hx)
  rcases lt_or_ge j table.length with hj | hj
  · rw [getD_eq_getElem _ _ (hij.trans_lt hj), getD_eq_getElem _ _ hj]
    rcases eq_or_lt_of_le hij with heq | hlt
    · simp only [heq, le_refl]
    · exact pairwise_iff_getElem.mp hasc i j (hij.trans_lt hj) hj hlt
  · rw [getD_eq_default _ _ hj]
    exact hmax i

variable {first : Int} {rest : List Int}

theorem backOff_young (hlast : (first :: rest).getLast? = some last)
    (hasc : (first :: rest).Pairwise (· ≤ ·)) {age : Int} (h : age < first * 1000) :
    backOff (first :: rest) last age = last := by
  unfold backOff
  rcases delayLevelOf_cases (first :: rest) age (first :: rest).length
    with ⟨heq, _⟩ | ⟨i, hi, _, hreached, _⟩
  · rw [heq, delaySecond, if_pos (.inl (by decide))]
  · have hmin : first ≤ (first :: rest).getD i last := getD_mono hasc hlast (Nat.zero_le i)
    rw [getD_eq_getElem _ _ hi] at hmin hreached
    omega

theorem backOff_reached (last : Int) {age : Int} (h : first * 1000 ≤ age) :
    ∃ i < (first :: rest).length,
      backOff (first :: rest) last age = (first :: rest).getD (i + 1) last ∧
      (first :: rest).getD i 0 * 1000 ≤ age ∧
      ∀ j < (first :: rest).length, i < j → age < (first :: rest).getD j 0 * 1000 := by
  unfold backOff
  rcases delayLevelOf_cases (first :: rest) age (first :: rest).length
    with ⟨_, hnone⟩ | ⟨i, hi, heq, hreached, hnone⟩
  · have := hnone 0 (Nat.zero_lt_succ _)
    rw [getD_cons_zero] at this
    omega
  · refine ⟨i, hi, ?_, hreached, hnone⟩
    rw [heq, delaySecond]
    by_cases hend : (first :: rest).length ≤ i + 1
    · rw [if_pos (.inr (by omega)), getD_eq_default _ _ hend]
    · rw [if_neg (by omega)]
      rfl

theorem backOff_mono (hlast : (first :: rest).getLast? = some last)
    (hasc : (first :: rest).Pairwise (· ≤ ·)) {a b : Int} (hfirst : first * 1000 ≤ a) (hab : a ≤ b) :
    backOff (first :: rest) last a ≤ backOff (first :: rest) last b := by
  obtain ⟨i, hi, heq, hreached, _⟩ := backOff_reached last hfirst
  obtain ⟨j, _, heq', _, hnone⟩ := backOff_reached last (hfirst.trans hab)
  have hij : i ≤ j := by
    by_contra hlt
    have := hnone i hi (by omega)
    omega
  rw [heq, heq']
  exact getD_mono hasc hlast (Nat.succ_le_succ hij)

/-- **The back-off grows with the age, and starts at the first delay, exactly if the younger row has
reached the first level** or all delays are the same: for every ascending table and any two rows that
are returned. -/
theorem backOff_grows_iff {cfg : PopConfig} (htable : cfg.popDelayLevel = first :: rest)
    (hlast : (first :: rest).getLast? = some last) (hasc : (first :: rest).Pairwise (· ≤ ·))
    {younger older : MessageExt} {now now' t t' : Int}
    (hage : now - younger.bornTimestamp ≤ now' - older.bornTimestamp)
    (h : (checkNeedAckOrDelay cfg now younger).map (·.code) = some (.changeInvisibleTime t))
    (h' : (checkNeedAckOrDelay cfg now' older).map (·.code) = some (.changeInvisibleTime t')) :
    (t ≤ t' ∧ (now - younger.bornTimestamp < first * 1000 → t = first * 1000) ∧
        (now' - older.bornTimestamp < first * 1000 → t' = first * 1000)) ↔
      (first * 1000 ≤ now - younger.bornTimestamp ∨ first = last) := by
  rw [← htable] at hlast
  have ht := checkNeedAckOrDelay_invisible hlast h
  have ht' := checkNeedAckOrDelay_invisible hlast h'
  rw [htable] at ht ht' hlast
  constructor
  · rintro ⟨_, hyoung, _⟩
    rcases Int.lt_or_le (now - younger.bornTimestamp) (first * 1000) with hlt | hge
    · rw [backOff_young hlast hasc hlt] at ht
      have := hyoung hlt
      exact .inr (by omega)
    · exact .inl hge
  · rintro (hreached | rfl)
    · have hmono := backOff_mono hlast hasc hreached hage
      exact ⟨by omega, by omega, by omega⟩
    · -- one delay only
      have hall : ∀ age, backOff (first :: rest) first age = first := by
        intro age
        rcases Int.lt_or_le age (first * 1000) with hlt | hge
        · exact backOff_young hlast hasc hlt
        · obtain ⟨i, _, heq, _⟩ : ∃ i < (first :: rest).length, _ := backOff_reached first hge
          have hmin : first ≤ (first :: rest).getD (i + 1) first :=
            getD_mono hasc hlast (Nat.zero_le _)
          have hmax := getD_mono hasc hlast (Nat.le_max_left (i + 1) (first :: rest).length)
          rw [getD_eq_default _ _ (Nat.le_max_right _ _)] at hmax
          omega
      rw [hall] at ht ht'
      exact ⟨by omega, fun _ => ht, fun _ => ht'⟩

open Script

/-- Rows of 15 and of 40 seconds wait for 30 and for 60. -/
theorem backOff_grows_reached :
    (checkNeedAckOrDelay popConfig 15000 (popRow "T" "T")).map (·.code)
        = some (.changeInvisibleTime 30000) ∧
    (checkNeedAckOrDelay popConfig 40000 (popRow "T" "T")).map (·.code)
        = some (.changeInvisibleTime 60000) ∧
    (30000 : Int) ≤ 60000 := by
  have hyounger : (checkNeedAckOrDelay popConfig 15000 (popRow "T" "T")).map (·.code)
      = some (.changeInvisibleTime 30000) := by decide
  have holder : (checkNeedAckOrDelay popConfig 40000 (popRow "T" "T")).map (·.code)
      = some (.changeInvisibleTime 60000) := by decide
  exact ⟨hyounger, holder, ((backOff_grows_iff rfl rfl (by decide) (by decide) hyounger holder).mpr
    (.inl (by decide))).1⟩

/-- **The youngest row waits longest**: with its retries exhausted, at 5 seconds for 60 seconds, at 15
seconds for 30. -/
theorem backOff_of_youngest :
    (processPopConsumeResult { popConfig with maxReconsumeTimes := 0 } (fun _ => 5000)
        .reconsumeLater 0 0 [popRow "T" "T"]).map (Option.map (·.code))
      = [some (.changeInvisibleTime 60000)] ∧
    (processPopConsumeResult { popConfig with maxReconsumeTimes := 0 } (fun _ => 15000)
        .reconsumeLater 0 0 [popRow "T" "T"]).map (Option.map (·.code))
      = [some (.changeInvisibleTime 30000)] := by
  decide

end RocketMQ
