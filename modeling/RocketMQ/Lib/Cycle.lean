/-
  File:      RocketMQ/Lib/Cycle.lean
  Subject:   A walk round a cycle that passes over the cells from a threshold on.

  * `cell n step k`: where a walk by `step` round `n` cells stands after `k` steps; with a step that is
    coprime to `n` it comes to every cell once;
  * `lows n step h k`: the cells below `h` that the first `k` steps stood on, in their order;
  * `mem_lows_of_length`: **once as many of them have been visited as there are, all have been**.
-/
import Mathlib

namespace Cycle

variable {n step h : Nat}

def cell (n step k : Nat) : Nat := k * step % n

theorem cell_lt (hn : 0 < n) (k : Nat) : cell n step k < n := Nat.mod_lt _ hn

theorem cell_succ (k : Nat) : cell n step (k + 1) = (cell n step k + step) % n := by
  rw [cell, cell, Nat.succ_mul, Nat.mod_add_mod]

theorem cell_injective (hc : Nat.Coprime n step) {i j : Nat} (hi : i < n) (hj : j < n)
    (heq : cell n step i = cell n step j) : i = j :=
  (Nat.ModEq.cancel_right_of_coprime hc heq).eq_of_lt_of_lt hi hj

variable {u k m : Nat}

theorem exists_cell (hc : Nat.Coprime n step) (hu : u < n) : ∃ k < n, cell n step k = u := by
  have hn : 0 < n := by omega
  have hinj : Function.Injective fun k : Fin n => (⟨cell n step k, cell_lt hn k⟩ : Fin n) := by
    intro i j hij
    exact Fin.ext (cell_injective hc i.2 j.2 (congrArg Fin.val hij))
  obtain ⟨k, hk⟩ := Finite.injective_iff_surjective.mp hinj ⟨u, hu⟩
  exact ⟨k.1, k.2, congrArg Fin.val hk⟩

/-- The cells below `h` that the walk stood on in its first `k` steps. -/
def lows (n step h k : Nat) : List Nat := ((List.range k).map (cell n step)).filter (· < h)

theorem lows_succ (k : Nat) :
    lows n step h (k + 1) =
      lows n step h k ++ (if cell n step k < h then [cell n step k] else []) := by
  unfold lows
  rw [List.range_succ, List.map_append, List.filter_append]
  by_cases hlow : cell n step k < h <;> simp [hlow]

theorem lows_skip (hkm : k ≤ m) (hskip : ∀ i, k ≤ i → i < m → ¬ cell n step i < h) :
    lows n step h m = lows n step h k := by
  induction m, hkm using Nat.le_induction with
  | base => rfl
  | succ m hkm ih =>
    rw [lows_succ, if_neg (hskip m hkm (Nat.lt_succ_self m)), List.append_nil]
    exact ih fun i hki him => hskip i hki (Nat.lt_succ_of_lt him)

theorem mem_lows : u ∈ lows n step h k ↔ u < h ∧ ∃ i < k, cell n step i = u := by
  simp only [lows, List.mem_filter, List.mem_map, List.mem_range, decide_eq_true_eq]
  exact And.comm

theorem nodup_lows (hc : Nat.Coprime n step) (hk : k ≤ n) : (lows n step h k).Nodup := by
  refine List.Nodup.filter _ (List.Nodup.map_on ?_ List.nodup_range)
  intro i hi j hj heq
  exact cell_injective hc ((List.mem_range.mp hi).trans_le hk) ((List.mem_range.mp hj).trans_le hk) heq

theorem lows_perm (hc : Nat.Coprime n step) (hh : h ≤ n) :
    (lows n step h n).Perm (List.range h) := by
  refine (List.perm_ext_iff_of_nodup (nodup_lows hc le_rfl) List.nodup_range).mpr fun u => ?_
  rw [mem_lows, List.mem_range]
  constructor
  · exact fun hu => hu.1
  · exact fun hu => ⟨hu, exists_cell hc (hu.trans_le hh)⟩

theorem lows_append (hkm : k ≤ m) : ∃ rest, lows n step h m = lows n step h k ++ rest := by
  induction m, hkm using Nat.le_induction with
  | base => exact ⟨[], (List.append_nil _).symm⟩
  | succ m _ ih =>
    obtain ⟨rest, hrest⟩ := ih
    exact ⟨_, by rw [lows_succ, hrest, List.append_assoc]⟩

variable (hc : Nat.Coprime n step) (hh : h ≤ n) (hk : k ≤ n)
include hc hh hk

theorem lt_of_length_lt (hlen : (lows n step h k).length < h) : k < n := by
  rcases lt_or_ge k n with hlt | hge
  · exact hlt
  · have hall := (lows_perm hc hh).length_eq
    rw [List.length_range] at hall
    rw [le_antisymm hk hge] at hlen
    omega

/-- **A walk that has visited them all finds no further one.** -/
theorem lows_eq_of_length (hlen : (lows n step h k).length = h) :
    lows n step h n = lows n step h k := by
  obtain ⟨rest, hrest⟩ : ∃ rest, lows n step h n = lows n step h k ++ rest := lows_append hk
  have hall := (lows_perm hc hh).length_eq
  rw [hrest, List.length_append, List.length_range] at hall
  have hnil : rest = [] := List.length_eq_zero_iff.mp (by omega)
  rw [hrest, hnil, List.append_nil]

theorem mem_lows_of_length
    (hlen : (lows n step h k).length = h) (hu : u < h) : u ∈ lows n step h k := by
  rw [← lows_eq_of_length hc hh hk hlen]
  exact (lows_perm hc hh).mem_iff.mpr (List.mem_range.mpr hu)

/-- **A walk that has visited them all and stands below `h` again has come round.** -/
theorem cell_eq_zero
    (hlen : (lows n step h k).length = h) (hlow : cell n step k < h) : cell n step k = 0 := by
  obtain ⟨_, j, hj, heq⟩ := mem_lows.mp (mem_lows_of_length hc hh hk hlen hlow)
  rcases lt_or_ge k n with hlt | hge
  · have hjk := cell_injective hc (hj.trans hlt) hlt heq
    omega
  · rw [le_antisymm hk hge, cell, Nat.mul_mod_right]

end Cycle
