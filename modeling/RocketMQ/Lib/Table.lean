/-
  File:      RocketMQ/Lib/Table.lean
  Subject:   Tables that store each element under a key of its own.

  `fill f l m` puts the elements of `l` into `m`, each under `f`, so that the last one of a key
  stays.

  * `get_fill`: what is found comes from the list, or was there before;
  * `get_fill_iff`: where the key tells the elements apart, exactly the list is found;
  * `keys_nodup`: going through a keyed table meets every key once;
  * `eraseAll`: several keys taken out at once.
-/
import Std.Data.ExtTreeMap
import Mathlib

namespace Table

open List Std

variable {α κ : Type} [Ord κ] [Std.TransOrd κ] [Std.LawfulEqOrd κ]

/-- Put the elements into the table, one after the other. -/
def fill (f : α → κ) (l : List α) (m : ExtTreeMap κ α) : ExtTreeMap κ α :=
  l.foldl (fun m a => m.insert (f a) a) m

/-- Every element stands under its own key. -/
def Keyed (f : α → κ) (m : ExtTreeMap κ α) : Prop := ∀ k a, m[k]? = some a → f a = k

variable {f : α → κ}

section Get

variable {β : Type} {m : ExtTreeMap κ β} {k x : κ} {v b : β}

theorem get_insert_ne (h : k ≠ x) : (m.insert x v)[k]? = m[k]? := by
  rw [ExtTreeMap.getElem?_insert, if_neg (by simpa using Ne.symm h)]

theorem get_erase_ne (h : k ≠ x) : (m.erase x)[k]? = m[k]? := by
  rw [ExtTreeMap.getElem?_erase, if_neg (by simpa using Ne.symm h)]

theorem of_get_insert (h : (m.insert x v)[k]? = some b) :
    (k = x ∧ b = v) ∨ (k ≠ x ∧ m[k]? = some b) := by
  by_cases hk : k = x
  · rw [hk, ExtTreeMap.getElem?_insert_self] at h
    exact .inl ⟨hk, (Option.some.inj h).symm⟩
  · exact .inr ⟨hk, get_insert_ne hk ▸ h⟩

theorem of_get_erase (h : (m.erase x)[k]? = some b) : k ≠ x ∧ m[k]? = some b := by
  by_cases hk : k = x
  · rw [hk, ExtTreeMap.getElem?_erase_self] at h
    cases h
  · exact ⟨hk, get_erase_ne hk ▸ h⟩

/-- **The pairs of a table** that was filled from pairs with distinct keys. -/
theorem mem_toList_ofList [BEq κ] [LawfulBEq κ] {l : List (κ × β)} {e : κ × β}
    (h : l.Pairwise fun a b => a.1 ≠ b.1) : e ∈ (ExtTreeMap.ofList l).toList ↔ e ∈ l := by
  have hget : ∀ x ∈ l, (ExtTreeMap.ofList l)[x.1]? = some x.2 := fun x hx =>
    ExtTreeMap.getElem?_ofList_of_mem Std.ReflOrd.compare_self
      (h.imp fun {a b} hne heq => hne (Std.LawfulEqOrd.eq_of_compare heq)) hx
  rw [ExtTreeMap.mem_toList_iff_getElem?_eq_some]
  refine ⟨fun he => ?_, hget e⟩
  have hmem : e.1 ∈ ExtTreeMap.ofList l := by
    rw [ExtTreeMap.mem_iff_isSome_getElem?, he]
    rfl
  rw [ExtTreeMap.mem_ofList, contains_iff_mem] at hmem
  obtain ⟨x, hx, hk⟩ := mem_map.mp hmem
  have hv := hget x hx
  rw [hk, he] at hv
  rwa [← Prod.ext hk (Option.some.inj hv).symm]

end Get

variable {a : α}

theorem get_fill {k : κ} (l : List α) (m : ExtTreeMap κ α)
    (h : (fill f l m)[k]? = some a) : (a ∈ l ∧ f a = k) ∨ m[k]? = some a := by
  induction l generalizing m with
  | nil => exact .inr h
  | cons x l ih =>
    rcases ih _ h with ⟨hmem, hk⟩ | h
    · exact .inl ⟨mem_cons_of_mem _ hmem, hk⟩
    · rcases of_get_insert h with ⟨rfl, rfl⟩ | ⟨_, h⟩
      · exact .inl ⟨mem_cons_self .., rfl⟩
      · exact .inr h

theorem isSome_fill {k : κ} (l : List α) (m : ExtTreeMap κ α)
    (h : m[k]?.isSome = true ∨ ∃ x ∈ l, f x = k) : (fill f l m)[k]?.isSome = true := by
  induction l generalizing m with
  | nil =>
    rcases h with h | ⟨x, hx, _⟩
    · exact h
    · cases hx
  | cons x l ih =>
    apply ih
    by_cases hx : f x = k
    · exact .inl (by simp [hx])
    · rcases h with h | ⟨y, hy, hk⟩
      · exact .inl (by simpa [hx] using h)
      · rcases mem_cons.mp hy with rfl | hy
        · exact absurd hk hx
        · exact .inr ⟨y, hy, hk⟩

theorem fill_keyed (l : List α) : Keyed f (fill f l ∅) := by
  intro k a h
  rcases get_fill l ∅ h with ⟨_, hk⟩ | h
  · exact hk
  · simp at h

/-- **A table of distinguishable elements holds exactly the list.** -/
theorem get_fill_iff {l : List α} (hinj : ∀ a ∈ l, ∀ b ∈ l, f a = f b → a = b) {k : κ} :
    (fill f l ∅)[k]? = some a ↔ a ∈ l ∧ f a = k := by
  have hback : ∀ a, (fill f l ∅)[k]? = some a → a ∈ l ∧ f a = k := by
    intro a h
    rcases get_fill l ∅ h with h | h
    · exact h
    · simp at h
  refine ⟨hback a, fun ⟨hmem, hk⟩ => ?_⟩
  obtain ⟨b, hget⟩ := Option.isSome_iff_exists.mp (isSome_fill l ∅ (.inr ⟨a, hmem, hk⟩))
  obtain ⟨hb, hkb⟩ := hback b hget
  rw [hget, hinj b hb a hmem (hkb.trans hk.symm)]

variable {m : ExtTreeMap κ α}

theorem mem_values : a ∈ m.toList.map (·.2) ↔ ∃ k : κ, m[k]? = some a := by
  rw [mem_map]
  constructor
  · rintro ⟨⟨k, b⟩, hmem, rfl⟩
    exact ⟨k, ExtTreeMap.mem_toList_iff_getElem?_eq_some.mp hmem⟩
  · rintro ⟨k, hget⟩
    exact ⟨(k, a), ExtTreeMap.mem_toList_iff_getElem?_eq_some.mpr hget, rfl⟩

theorem mem_values_keyed (hm : Keyed f m) : a ∈ m.toList.map (·.2) ↔ m[f a]? = some a := by
  rw [mem_values]
  constructor
  · rintro ⟨k, hget⟩
    rw [hm k a hget]
    exact hget
  · exact fun hget => ⟨f a, hget⟩

/-- **No key comes twice** when the values of a keyed table are gone through. -/
theorem keys_nodup (hm : Keyed f m) : ((m.toList.map (·.2)).map f).Nodup := by
  have hkeys : (m.toList.map (·.2)).map f = m.keys := by
    rw [map_map, ← ExtTreeMap.map_fst_toList_eq_keys]
    refine map_congr_left fun e he => ?_
    exact hm e.1 e.2 (ExtTreeMap.mem_toList_iff_getElem?_eq_some.mp he)
  rw [hkeys]
  exact ExtTreeMap.nodup_keys

theorem get_of_keys {m m' : ExtTreeMap κ α}
    (hsub : (m.keys.filter fun k => !m'.contains k) = []) {k : κ} (hget : m[k]? = some a)
    (hinj : ∀ b, m'[k]? = some b → b = a) : m'[k]? = some a := by
  have hmem : k ∈ m.keys := by
    rw [ExtTreeMap.mem_keys, ExtTreeMap.mem_iff_isSome_getElem?, hget]
    rfl
  have hcontains : m'.contains k = true := by
    have hnot := filter_eq_nil_iff.mp hsub k hmem
    simpa using hnot
  rw [ExtTreeMap.contains_eq_isSome_getElem?] at hcontains
  obtain ⟨b, hb⟩ := Option.isSome_iff_exists.mp hcontains
  rw [hb, hinj b hb]

/-! Several keys at once -/

variable {β : Type}

/-- Take these keys out of the table. -/
def eraseAll (m : ExtTreeMap κ β) (ks : List κ) : ExtTreeMap κ β :=
  ks.foldl (fun m k => m.erase k) m

theorem get_eraseAll [DecidableEq κ] (m : ExtTreeMap κ β) (ks : List κ) (k : κ) :
    (eraseAll m ks)[k]? = if k ∈ ks then none else m[k]? := by
  induction ks generalizing m with
  | nil => simp [eraseAll]
  | cons x ks ih =>
    refine (ih _).trans ?_
    rw [ExtTreeMap.getElem?_erase]
    by_cases hx : x = k <;> simp [hx, Ne.symm]

end Table
