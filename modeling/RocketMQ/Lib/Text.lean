/-
  File:      RocketMQ/Lib/Text.lean
  Subject:   Prefixes, separators and white space of strings, on their characters.

  `startsWith`, `stripPrefix`, `cutAt`, `split` and `trim` are defined on the character list, so
  that they evaluate in the kernel and their specifications are facts about list append.

  * `stripPrefix_eq_some`: stripping succeeds exactly on strings that carry the text in front;
  * `cutAt_eq_some`: cutting at the first separator returns what stands around it;
  * `split_join`: splitting joined parts splits each of them.
-/
import Mathlib

namespace Text

open List

/-! ## 1. Prefixes -/

/-- The text starts with `p`. -/
def startsWith (s p : String) : Bool := p.toList.isPrefixOf s.toList

/-- What follows `p` in `s`, when `s` starts with `p`. -/
def stripPrefix (s p : String) : Option String :=
  if startsWith s p then some (String.ofList (s.toList.drop p.toList.length)) else none

/-- The text contains the character. -/
def containsChar (s : String) (c : Char) : Bool := s.toList.contains c

/-- The text before and after the first `c`. -/
def cutAt (c : Char) (s : String) : Option (String × String) :=
  if containsChar s c then
    some (String.ofList (s.toList.takeWhile (· != c)),
      String.ofList ((s.toList.dropWhile (· != c)).drop 1))
  else none

variable {a b s p : String} {c : Char}

/-- **Two ways to put one text together**: the longer first part takes over what the other second
part starts with. -/
theorem append_eq_append_iff {c d : String} :
    a ++ b = c ++ d ↔ ∃ u, (c = a ++ u ∧ b = u ++ d) ∨ (a = c ++ u ∧ d = u ++ b) := by
  constructor
  · intro h
    have hl : a.toList ++ b.toList = c.toList ++ d.toList := by
      rw [← String.toList_append, h, String.toList_append]
    rcases List.append_eq_append_iff.mp hl with ⟨u, hc, hb⟩ | ⟨u, ha, hd⟩
    · refine ⟨String.ofList u, .inl ⟨String.ext ?_, String.ext ?_⟩⟩
      · simpa using hc
      · simpa using hb
    · refine ⟨String.ofList u, .inr ⟨String.ext ?_, String.ext ?_⟩⟩
      · simpa using ha
      · simpa using hd
  · rintro ⟨u, ⟨rfl, rfl⟩ | ⟨rfl, rfl⟩⟩
    · exact String.append_assoc.symm
    · exact String.append_assoc ..

theorem startsWith_iff : startsWith s p = true ↔ ∃ r, s = p ++ r := by
  unfold startsWith
  rw [ isPrefixOf_iff_prefix]
  constructor
  · rintro ⟨r, hr⟩
    refine ⟨String.ofList r, String.ext ?_⟩
    simp [hr]
  · rintro ⟨r, rfl⟩
    exact ⟨r.toList, by simp⟩

@[simp] theorem startsWith_append (p r : String) : startsWith (p ++ r) p = true :=
  startsWith_iff.mpr ⟨r, rfl⟩

@[simp] theorem stripPrefix_append (p r : String) : stripPrefix (p ++ r) p = some r := by
  unfold stripPrefix
  simp

/-- **Stripping is the inverse of putting in front.** -/
theorem stripPrefix_eq_some {r : String} : stripPrefix s p = some r ↔ s = p ++ r := by
  constructor
  · intro h
    by_cases hs : startsWith s p = true
    · obtain ⟨r', rfl⟩ := startsWith_iff.mp hs
      rw [stripPrefix_append] at h
      rw [Option.some.inj h]
    · simp [stripPrefix, hs] at h
  · rintro rfl
    exact stripPrefix_append p r

theorem stripPrefix_eq_none (h : startsWith s p = false) : stripPrefix s p = none := by
  simp [stripPrefix, h]

theorem containsChar_append (s t : String) (c : Char) :
    containsChar (s ++ t) c = (containsChar s c || containsChar t c) := by
  simp [containsChar]

/-- **Cutting at the first separator**: a text without the separator stays whole in front. -/
theorem cutAt_append (b : String) (ha : containsChar a c = false) :
    cutAt c (a ++ String.singleton c ++ b) = some (a, b) := by
  have hne : ∀ x ∈ a.toList, (x != c) = true := by
    intro x hx
    simp only [bne_iff_ne]
    rintro rfl
    simp [containsChar, hx] at ha
  have hc : containsChar (a ++ String.singleton c ++ b) c = true := by
    simp [containsChar]
  unfold cutAt
  rw [if_pos hc]
  have htl : (a ++ String.singleton c ++ b).toList = a.toList ++ c :: b.toList := by
    simp
  rw [htl, takeWhile_append_of_pos hne, dropWhile_append_of_pos hne]
  simp

/-- **Cutting is the inverse of putting a separator behind a text without it.** -/
theorem cutAt_eq_some :
    cutAt c s = some (a, b) ↔ s = a ++ String.singleton c ++ b ∧ containsChar a c = false := by
  constructor
  · intro h
    by_cases hc : containsChar s c = true
    · have hmem : c ∈ s.toList := by simpa [containsChar] using hc
      obtain ⟨front, back, hs, hnot⟩ := eq_append_cons_of_mem hmem
      have hfront : containsChar (String.ofList front) c = false := by
        simpa [containsChar] using hnot
      have hs' : s = String.ofList front ++ String.singleton c ++ String.ofList back := by
        apply String.ext
        simp [hs]
      rw [hs', cutAt_append _ hfront] at h
      obtain ⟨rfl, rfl⟩ := Prod.mk.inj (Option.some.inj h)
      exact ⟨hs', hfront⟩
    · simp [cutAt, hc] at h
  · rintro ⟨rfl, ha⟩
    exact cutAt_append b ha

theorem cutAt_of_contains (h : containsChar s c = true) : ∃ a b, cutAt c s = some (a, b) := by
  unfold cutAt
  rw [if_pos h]
  exact ⟨_, _, rfl⟩

theorem startsWith_singleton_append {x : String} (y : String) (hx : x ≠ "") :
    startsWith (x ++ y) (String.singleton c) = startsWith x (String.singleton c) := by
  unfold startsWith
  rw [String.toList_append]
  cases hl : x.toList with
  | nil => exact absurd (String.ext hl) hx
  | cons d ds => simp [List.isPrefixOf]

theorem cutAt_front_empty (h : cutAt c s = some (a, b)) :
    a.isEmpty = true ↔ startsWith s (String.singleton c) = true := by
  obtain ⟨rfl, ha⟩ := cutAt_eq_some.mp h
  rw [String.append_assoc]
  by_cases hnil : a = ""
  · rw [hnil, String.empty_append, startsWith_append]
    exact ⟨fun _ => rfl, fun _ => rfl⟩
  · rw [startsWith_singleton_append _ hnil, String.isEmpty_iff]
    refine ⟨fun h => absurd h hnil, fun h => ?_⟩
    obtain ⟨r, rfl⟩ := startsWith_iff.mp h
    simp [containsChar] at ha

/-! ## 2. Separators -/

/-- The parts between the separators. -/
def split (c : Char) (s : String) : List String := (s.toList.splitOn c).map String.ofList

/-- The parts with a separator between any two. -/
def join (c : Char) (parts : List String) : String :=
  String.ofList ([c].intercalate (parts.map String.toList))

theorem split_append (c : Char) (a b : String) :
    split c (a ++ String.singleton c ++ b) = split c a ++ split c b := by
  have htl : (a ++ String.singleton c ++ b).toList = a.toList ++ c :: b.toList := by
    simp
  unfold split
  rw [htl, splitOn_append_cons_self, map_append]

theorem split_whole (h : containsChar s c = false) : split c s = [s] := by
  have hnot : c ∉ s.toList := by simpa [containsChar] using h
  unfold split
  rw [splitOn_eq_singleton hnot]
  simp

theorem split_head_ne (h : containsChar s c = true) : ∃ p ps, split c s = p :: ps ∧ p ≠ s := by
  have hmem : c ∈ s.toList := by simpa [containsChar] using h
  obtain ⟨a, b, hs, hnot⟩ := eq_append_cons_of_mem hmem
  have hsplit : split c s = String.ofList a :: (b.splitOn c).map String.ofList := by
    unfold split
    rw [hs, splitOn_append_cons_self_of_not_mem hnot]
    rfl
  refine ⟨String.ofList a, _, hsplit, fun heq => ?_⟩
  have hlen := congrArg (fun t => t.toList.length) heq
  simp [hs] at hlen

@[simp] theorem join_singleton (c : Char) (p : String) : join c [p] = p := by
  simp [join]

theorem join_cons (c : Char) (p q : String) (ps : List String) :
    join c (p :: q :: ps) = p ++ String.singleton c ++ join c (q :: ps) := by
  apply String.ext
  simp [join]

/-- **Splitting what was joined** splits every part. -/
theorem split_join (c : Char) (p : String) (ps : List String) :
    split c (join c (p :: ps)) = (p :: ps).flatMap (split c) := by
  induction ps generalizing p with
  | nil => simp
  | cons q ps ih =>
    rw [join_cons, split_append, ih]
    rfl

/-! ## 3. White space -/

/-- The characters `str::trim` removes (Unicode `White_Space`). -/
def isWhite (c : Char) : Bool :=
  let n := c.toNat
  (9 ≤ n && n ≤ 13) || n == 32 || n == 133 || n == 160 || n == 5760 || (8192 ≤ n && n ≤ 8202)
    || n == 8232 || n == 8233 || n == 8239 || n == 8287 || n == 12288

/-- The text without white space at both ends. -/
def trim (s : String) : String :=
  String.ofList (((s.toList.dropWhile isWhite).reverse.dropWhile isWhite).reverse)

theorem trim_isEmpty_iff : (trim s).isEmpty = true ↔ ∀ c ∈ s.toList, isWhite c = true := by
  have hempty : (trim s).isEmpty = true ↔ (trim s).toList = [] := by
    rw [String.isEmpty_iff, ← String.toList_eq_nil_iff]
  rw [hempty]
  unfold trim
  rw [String.toList_ofList, reverse_eq_nil_iff, dropWhile_eq_nil_iff]
  refine ⟨fun h => dropWhile_eq_nil_iff.mp ?_, fun h c hc => ?_⟩
  · -- a character in front of the rest would have to be white, and it is not
    cases hl : s.toList.dropWhile isWhite with
    | nil => rfl
    | cons x l =>
      have hx : isWhite x = true := h x (mem_reverse.mpr (hl ▸ mem_cons_self ..))
      have hnot := head?_dropWhile_not isWhite s.toList
      rw [hl] at hnot
      have hfalse : isWhite x = false := hnot
      cases hx.symm.trans hfalse
  · exact h c ((dropWhile_sublist _).mem (mem_reverse.mp hc))

theorem trim_eq (h : ∀ c ∈ s.toList, isWhite c = false) : trim s = s := by
  have hdrop : ∀ l : List Char, (∀ c ∈ l, isWhite c = false) → l.dropWhile isWhite = l := by
    intro l hl
    cases l with
    | nil => rfl
    | cons x l => rw [dropWhile_cons, hl x mem_cons_self]; rfl
  unfold trim
  rw [hdrop _ h, hdrop _ fun c hc => h c (mem_reverse.mp hc)]
  simp

end Text
