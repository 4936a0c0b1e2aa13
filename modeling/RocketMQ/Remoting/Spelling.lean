/-
  File:      RocketMQ/Remoting/Spelling.lean
  Subject:   The texts of a JSON value, and that the parser reads them back.

  A value without floating-point numbers has the compact text that serde_json writes, and beside it
  every text that differs in blanks between its tokens and in commas behind the last element of an
  array or object.

  * `Spelled`: the texts of a value; `spelled_chars`: the compact text is one of them;
  * `spelled_fromStr`: **every text of a value is read as that value**.
-/
import RocketMQ.Remoting.Dialect

namespace RocketMQ

open List

/-- A value without floating-point numbers, with integers of `i64` or `u64` and distinct keys. -/
inductive Json.Plain : Json → Prop where
  | null : Plain .null
  | bool (b : Bool) : Plain (.bool b)
  | int {z} (hz : -2 ^ 63 ≤ z ∧ z < 2 ^ 64) : Plain (.num (.int z))
  | str (s : String) : Plain (.str s)
  | arr {vs} (h : ∀ v ∈ vs, Plain v) : Plain (.arr vs)
  | obj {es} (hk : (es.map Prod.fst).Nodup) (h : ∀ e ∈ es, Plain e.2) : Plain (.obj es)

namespace FastJson

open Utf8 (byte encode)

variable {lib : StdLib}

/-! ## 1. Texts -/

/-- Nothing but blanks. -/
def Blank (w : List Char) : Prop := ∀ c ∈ w, white c = true

mutual

/-- **A text of the value**, from its first token to its last. -/
inductive Spelled : Json → List Char → Prop where
  | null : Spelled .null "null".toList
  | true : Spelled (.bool true) "true".toList
  | false : Spelled (.bool false) "false".toList
  | int (z : Int) : Spelled (.num (.int z)) (toString z).toList
  | str (s : String) : Spelled (.str s) (Json.quoted s)
  | arr {vs t} (h : SpelledItems vs t) : Spelled (.arr vs) ('[' :: t)
  | obj {es t} (h : SpelledEntries es t) : Spelled (.obj es) ('\x7b' :: t)

/-- The items of an array and its closing bracket. -/
inductive SpelledItems : List Json → List Char → Prop where
  | nil {a} (ha : Blank a) : SpelledItems [] (a ++ [']'])
  | cons {v vs a t b u} (ha : Blank a) (ht : Spelled v t) (hb : Blank b) (hu : SpelledMore vs u) :
      SpelledItems (v :: vs) (a ++ (t ++ (b ++ u)))

/-- What stands behind an item: the bracket, perhaps behind a comma, or more items. -/
inductive SpelledMore : List Json → List Char → Prop where
  | close : SpelledMore [] [']']
  | trailing {a} (ha : Blank a) : SpelledMore [] (',' :: (a ++ [']']))
  | cons {v vs a t b u} (ha : Blank a) (ht : Spelled v t) (hb : Blank b) (hu : SpelledMore vs u) :
      SpelledMore (v :: vs) (',' :: (a ++ (t ++ (b ++ u))))

/-- The entries of an object and its closing brace. -/
inductive SpelledEntries : List (String × Json) → List Char → Prop where
  | nil {a} (ha : Blank a) : SpelledEntries [] (a ++ ['\x7d'])
  | cons {k v es a b c t d u} (ha : Blank a) (hb : Blank b) (hc : Blank c) (ht : Spelled v t)
      (hd : Blank d) (hu : SpelledMoreEntries es u) :
      SpelledEntries ((k, v) :: es) (a ++ (Json.quoted k ++ (b ++ ':' :: (c ++ (t ++ (d ++ u))))))

/-- What stands behind an entry. -/
inductive SpelledMoreEntries : List (String × Json) → List Char → Prop where
  | close : SpelledMoreEntries [] ['\x7d']
  | trailing {a} (ha : Blank a) : SpelledMoreEntries [] (',' :: (a ++ ['\x7d']))
  | cons {k v es a b c t d u} (ha : Blank a) (hb : Blank b) (hc : Blank c) (ht : Spelled v t)
      (hd : Blank d) (hu : SpelledMoreEntries es u) :
      SpelledMoreEntries ((k, v) :: es)
        (',' :: (a ++ (Json.quoted k ++ (b ++ ':' :: (c ++ (t ++ (d ++ u)))))))

end

/-! ## 2. Strings -/

theorem fromHex_control {n : Nat} (h : n < 32) :
    Scanner.fromHex ['0', '0', Nat.digitChar (n / 16), Nat.digitChar (n % 16)] = some n := by
  revert n
  decide

theorem charFromU32_toNat (c : Char) : Scanner.charFromU32 c.toNat = some c := by
  unfold Scanner.charFromU32
  rw [if_pos (show c.toNat.isValidChar from c.valid), Char.ofNat_toNat]

/-- **One written character is one piece.** -/
theorem lexeme_jsonEscape (c : Char) (t : List Char) :
    lexeme (jsonEscape c ++ t) = .piece [c] t := by
  unfold jsonEscape
  iterate 7
    split
    · rename_i h
      subst h
      rfl
  split
  · rename_i hctl
    have hhex : hex4 ('0' :: '0' :: Nat.digitChar (c.toNat / 16) ::
        Nat.digitChar (c.toNat % 16) :: t) = some (c.toNat, t) :=
      hex4_eq_some.mpr ⟨_, rfl, rfl, fromHex_control hctl⟩
    have hhigh : isHigh c.toNat = false := by
      simp only [isHigh, Bool.and_eq_false_iff, decide_eq_false_iff_not]
      omega
    show unicodeLexeme ('0' :: '0' :: Nat.digitChar (c.toNat / 16) ::
      Nat.digitChar (c.toNat % 16) :: t) = _
    rw [unicodeLexeme_of_not_high hhex hhigh, scalarLexeme, charFromU32_toNat]
  · rename_i hquote hback _ _ _ _ _ _
    show lexeme (c :: t) = _
    rw [lexeme, if_neg hquote, if_neg hback]

theorem body_escaped (s r : List Char) : Body (s.flatMap jsonEscape ++ '"' :: r) s r := by
  induction s with
  | nil => exact .close rfl
  | cons c s ih =>
    rw [flatMap_cons, append_assoc]
    exact .step (lexeme_jsonEscape c _) ih

theorem body_quoted (s : String) (r : List Char) :
    ∃ t, Json.quoted s ++ r = '"' :: t ∧ Body t s.toList r := by
  refine ⟨s.toList.flatMap jsonEscape ++ '"' :: r, ?_, body_escaped s.toList r⟩
  simp [Json.quoted]

/-! ## 3. Numbers -/

variable {c : Char} {b : List UInt8} {i : Nat} {r a t u : List Char} {z : Int} {v : Json}
  {es : List (String × Json)}

theorem isDigit_byte (hc : c.toNat < 128) : isDigit (byte c) = c.isDigit := by
  unfold isDigit Char.isDigit
  rw [Bool.eq_iff_iff]
  simp only [Bool.and_eq_true, UInt8.le_iff_toNat_le, Utf8.toNat_byte hc]
  exact Iff.rfl

theorem digit_ascii (h : c.isDigit = true) : c.toNat < 128 := by
  simp only [Char.isDigit, Bool.and_eq_true, decide_eq_true_eq] at h
  exact lt_of_le_of_lt h.2 (by decide)

theorem At.digitsEnd {ds : List Char} (h : At b i (ds ++ r)) (hd : ∀ c ∈ ds, c.isDigit = true)
    (hr : ∀ c ∈ r.head?, c.isDigit = false) : FastJson.digitsEnd b i = i + (encode ds).length := by
  have htake : r.takeWhile Char.isDigit = [] := by
    cases r with
    | nil => rfl
    | cons c r => rw [takeWhile_cons, if_neg (by simp [hr c rfl])]
  unfold FastJson.digitsEnd
  rw [h.drop,
    Utf8.takeWhile_ascii (fun _ => isDigit_lt) (fun _ => isDigit_byte) fun _ => digit_ascii,
    takeWhile_append_of_pos hd, htake, append_nil]

theorem ends_head (h : ends r = true) :
    (∀ c ∈ r.head?, c.isDigit = false) ∧ r.head? ≠ some '.' ∧ r.head? ≠ some 'e' ∧
      r.head? ≠ some 'E' := by
  cases r with
  | nil => simp
  | cons c r =>
    simp only [ends, white, Bool.or_eq_true, beq_iff_eq] at h
    simp only [head?_cons, Option.mem_def, Option.some.injEq, forall_eq']
    rcases h with ((rfl | rfl) | rfl) | ((rfl | rfl) | rfl) | rfl <;> decide

theorem At.numberTail (h : At b i r) (hr : ends r = true) :
    exponentEnd b (fractionEnd b i) = i := by
  obtain ⟨_, hdot, he, hE⟩ := ends_head hr
  have hfraction : fractionEnd b i = i := by
    unfold fractionEnd
    rw [if_neg fun hc => hdot ((h.peek_iff (by decide)).mp hc.1)]
  rw [hfraction, exponentEnd, if_neg]
  intro hc
  rcases hc with hc | hc
  · exact he ((h.peek_iff (by decide)).mp hc)
  · exact hE ((h.peek_iff (by decide)).mp hc)

theorem numberEnd_int (z : Int) (hr : ends r = true) :
    numberEnd (encode ((toString z).toList ++ r)) = (encode (toString z).toList).length := by
  have hdigits : ∀ c ∈ Nat.toDigits 10 z.natAbs, c.isDigit = true := fun c hc =>
    Nat.isDigit_of_mem_toDigits (by decide) (by decide) hc
  have hne : Nat.toDigits 10 z.natAbs ≠ [] := Nat.toDigits_ne_nil
  have hpos : 0 < (encode (Nat.toDigits 10 z.natAbs)).length :=
    lt_of_lt_of_le (length_pos_iff.mpr hne) (Utf8.length_le_encode _)
  rw [Decimal.toList_toString_int]
  generalize Nat.toDigits 10 z.natAbs = ds at hdigits hne hpos
  unfold numberEnd
  dsimp only
  split
  · have hstart := At.start ('-' :: ds ++ r)
    have hsign : isSign (encode ('-' :: ds ++ r))[0]? = true := by
      rfl
    have hnext : At (encode ('-' :: ds ++ r)) 1 (ds ++ r) := hstart.next (by decide)
    rw [if_pos hsign, hnext.digitsEnd hdigits (ends_head hr).1, if_neg (by omega),
      hnext.after.numberTail hr, Utf8.encode_cons,
      length_append]
    rfl
  · have hstart := At.start (ds ++ r)
    have hsign : ¬ isSign (encode (ds ++ r))[0]? = true := by
      obtain ⟨d, ds, rfl⟩ := exists_cons_of_ne_nil hne
      have hd := hdigits d mem_cons_self
      have hnot {x : Char} (hx : x.toNat < 128) (hx' : x.isDigit = false) :
          (encode (d :: ds ++ r))[0]? ≠ some (byte x) := by
        intro hc
        cases (hstart.peek_iff hx).mp hc
        cases hd.symm.trans hx'
      simp only [isSign, Bool.or_eq_true, beq_iff_eq]
      exact not_or.mpr ⟨hnot (by decide) (by decide), hnot (by decide) (by decide)⟩
    rw [if_neg hsign, hstart.digitsEnd hdigits (ends_head hr).1, if_neg (by omega),
      hstart.after.numberTail hr, zero_add]

theorem contains_toString (hc : c ≠ '-') (hd : c.isDigit = false) :
    (toString z).toList.contains c = false := by
  rw [contains_eq_mem, decide_eq_false_iff_not]
  intro hmem
  rcases Decimal.mem_toString_int hmem with h | h
  · exact hc h
  · cases hd.symm.trans h

theorem numberValue_int (hz : -2 ^ 63 ≤ z ∧ z < 2 ^ 64) :
    numberValue lib (toString z) = .num (.int z) := by
  unfold numberValue
  rw [contains_toString (by decide) (by decide), contains_toString (by decide) (by decide),
    contains_toString (by decide) (by decide), if_neg (by decide)]
  by_cases h64 : Decimal.InI64 z
  · rw [Decimal.parseI64_toString h64]
  · rw [Decimal.parseI64_of_not h64]
    have hneg : ¬ z < 0 := by
      intro hneg
      apply h64
      unfold Decimal.InI64 Decimal.i64Min Decimal.i64Max
      omega
    have hu64 : parseU64 (toString z) = some z := by
      unfold parseU64
      rw [if_neg, Decimal.parseSigned_toString]
      · exact Option.filter_eq_some_iff.mpr ⟨rfl, decide_eq_true hz.2⟩
      · intro hhead
        rw [Decimal.toList_toString_int, if_neg hneg] at hhead
        obtain ⟨ds, hds⟩ := head?_eq_some_iff.mp hhead
        have hmem : '-' ∈ Nat.toDigits 10 z.natAbs := by
          rw [hds]
          exact mem_cons_self
        exact absurd (Nat.isDigit_of_mem_toDigits (by decide) (by decide) hmem) (by decide)
    rw [hu64]

theorem literal_int (hz : -2 ^ 63 ≤ z ∧ z < 2 ^ 64) (hr : ends r = true) :
    Literal lib ((toString z).toList ++ r) (.num (.int z)) r := by
  have hne : (toString z).toList ≠ [] := by
    intro hnil
    have hsigned := Decimal.parseSigned_toString z
    rw [hnil] at hsigned
    cases hsigned
  have hnumber : Literal lib ((toString z).toList ++ r) _ r := .number hne (numberEnd_int z hr)
  rwa [String.ofList_toList, numberValue_int hz] at hnumber

/-! ## 4. Values -/

theorem dropWs_blank (ha : Blank a) (t : List Char) : dropWs (a ++ t) = dropWs t :=
  dropWhile_append_of_pos ha

theorem dropWs_of_head (hc : white c = false) (t : List Char) : dropWs (c :: t) = c :: t := by
  rw [dropWs, dropWhile_cons, if_neg (by simp [hc])]

/-- The text starts with a token. -/
def Starts (t : List Char) : Prop := ∃ c t', t = c :: t' ∧ white c = false

theorem Starts.dropWs (h : Starts t) (r : List Char) : FastJson.dropWs (t ++ r) = t ++ r := by
  obtain ⟨c, t', rfl, hc⟩ := h
  exact dropWs_of_head hc _

theorem white_digit (h : c = '-' ∨ c.isDigit = true) : white c = false := by
  rw [Bool.eq_false_iff]
  intro hw
  simp only [white, Bool.or_eq_true, beq_iff_eq] at hw
  rcases hw with ((rfl | rfl) | rfl) | rfl <;> exact absurd h (by decide)

theorem Spelled.starts (h : Spelled v t) : Starts t := by
  cases h with
  | null => exact ⟨'n', _, rfl, rfl⟩
  | true => exact ⟨'t', _, rfl, rfl⟩
  | false => exact ⟨'f', _, rfl, rfl⟩
  | int z =>
    cases hz : (toString z).toList with
    | nil =>
      have hsigned := Decimal.parseSigned_toString z
      rw [hz] at hsigned
      cases hsigned
    | cons c t =>
      have hmem : c ∈ (toString z).toList := by
        rw [hz]
        exact mem_cons_self
      exact ⟨c, t, rfl, white_digit (Decimal.mem_toString_int hmem)⟩
  | str s => exact ⟨'"', _, rfl, rfl⟩
  | arr _ => exact ⟨'[', _, rfl, rfl⟩
  | obj _ => exact ⟨'\x7b', _, rfl, rfl⟩

theorem ends_blank (ha : Blank a) (ht : ends t = true) : ends (a ++ t) = true := by
  cases a with
  | nil => exact ht
  | cons c a =>
    rw [cons_append, ends, ha c mem_cons_self, Bool.or_true]

theorem SpelledMore.ends {vs : List Json} (h : SpelledMore vs u) (r : List Char) :
    FastJson.ends (u ++ r) = true ∧ Starts u := by
  cases h with
  | close | trailing | cons => exact ⟨rfl, _, _, rfl, rfl⟩

theorem SpelledMoreEntries.ends (h : SpelledMoreEntries es u) (r : List Char) :
    FastJson.ends (u ++ r) = true ∧ Starts u := by
  cases h with
  | close | trailing | cons => exact ⟨rfl, _, _, rfl, rfl⟩

section

variable {v : Json} {vs : List Json} {es out acc : List (String × Json)} {k : String}
  {a b c d t u r : List Char}

theorem Items.of_text (ha : Blank a) (ht : Starts t) (hb : Blank b) (hu : Starts u)
    (hv : Value lib (t ++ (b ++ (u ++ r))) v (b ++ (u ++ r))) (hm : MoreItems lib (u ++ r) vs r) :
    Items lib (dropWs (a ++ (t ++ (b ++ u)) ++ r)) (v :: vs) r := by
  rw [append_assoc, dropWs_blank ha, append_assoc, ht.dropWs, append_assoc]
  refine .item hv ?_
  rw [dropWs_blank hb, hu.dropWs]
  exact hm

theorem Entries.of_text (hk : k ∉ acc.map Prod.fst) (ha : Blank a) (hb : Blank b) (hc : Blank c)
    (ht : Starts t) (hd : Blank d) (hu : Starts u)
    (hv : Value lib (t ++ (d ++ (u ++ r))) v (d ++ (u ++ r)))
    (hm : MoreEntries lib (u ++ r) (acc ++ [(k, v)]) out r) :
    Entries lib (dropWs (a ++ (Json.quoted k ++ (b ++ ':' :: (c ++ (t ++ (d ++ u))))) ++ r))
      acc out r := by
  have hquote : Starts (Json.quoted k) := ⟨'"', _, rfl, rfl⟩
  obtain ⟨w, hw, hbody⟩ := body_quoted k (b ++ ':' :: (c ++ (t ++ (d ++ (u ++ r)))))
  have hkey : Key lib ('"' :: w) (String.ofList k.toList) _ := .quoted hbody
  rw [String.ofList_toList, ← hw] at hkey
  rw [append_assoc, dropWs_blank ha, append_assoc, hquote.dropWs]
  simp only [append_assoc, cons_append]
  refine .entry (by simp [Json.quoted]) hkey (u := c ++ (t ++ (d ++ (u ++ r)))) ?_ (v := v)
    (s := d ++ (u ++ r)) ?_ ?_
  · rw [dropWs_blank hb, dropWs_of_head (by decide)]
  · rw [dropWs_blank hc, ht.dropWs]
    exact hv
  · rw [dropWs_blank hd, hu.dropWs, Json.insert_of_absent v hk]
    exact hm

end

/-- The keys that are there and those to come are distinct. -/
def Distinct (acc es : List (String × Json)) : Prop :=
  (acc.map Prod.fst ++ es.map Prod.fst).Nodup

theorem Distinct.next {acc : List (String × Json)} {k : String} (h : Distinct acc ((k, v) :: es)) :
    k ∉ acc.map Prod.fst ∧ Distinct (acc ++ [(k, v)]) es := by
  unfold Distinct at h ⊢
  refine ⟨fun hmem => ?_, ?_⟩
  · exact (nodup_append.mp h).2.2 k hmem k mem_cons_self rfl
  · rw [map_append, append_assoc]
    exact h

mutual

/-- **Every text of a value is a text of the grammar.** -/
theorem Spelled.value {v : Json} {t r : List Char} (hp : v.Plain) (hr : ends r = true) :
    Spelled v t → Value lib (t ++ r) v r
  | .null => .literal (.word (by simp [tokens]) hr)
  | .true => .literal (.word (by simp [tokens]) hr)
  | .false => .literal (.word (by simp [tokens]) hr)
  | .int z => by
    cases hp with
    | int hz => exact .literal (literal_int hz hr)
  | .str s => by
    obtain ⟨t, ht, hb⟩ := body_quoted s r
    rw [ht]
    have hstring : Value lib ('"' :: t) (.str (String.ofList s.toList)) r := .string hb
    rwa [String.ofList_toList] at hstring
  | .arr h => by
    cases hp with
    | arr hp => exact .array (SpelledItems.items r hp h)
  | .obj h => by
    cases hp with
    | obj hk hp => exact .object (SpelledEntries.entries r [] hk hp h)

theorem SpelledItems.items {vs : List Json} {t : List Char} (r : List Char)
    (hp : ∀ v ∈ vs, v.Plain) : SpelledItems vs t → Items lib (dropWs (t ++ r)) vs r
  | .nil ha => by
    rw [List.append_assoc, dropWs_blank ha]
    exact .close
  | .cons ha ht hb hu => by
    have hends := ends_blank hb (hu.ends r).1
    exact .of_text ha ht.starts hb (hu.ends r).2
      (Spelled.value (hp _ mem_cons_self) hends ht)
      (SpelledMore.more r (fun v hv => hp v (mem_cons_of_mem _ hv)) hu)

theorem SpelledMore.more {vs : List Json} {t : List Char} (r : List Char)
    (hp : ∀ v ∈ vs, v.Plain) : SpelledMore vs t → MoreItems lib (t ++ r) vs r
  | .close => .close
  | .trailing ha => by
    refine .comma ?_
    rw [List.append_eq, List.append_assoc, dropWs_blank ha]
    exact .close
  | .cons ha ht hb hu => by
    have hends := ends_blank hb (hu.ends r).1
    exact .comma (.of_text ha ht.starts hb (hu.ends r).2
      (Spelled.value (hp _ mem_cons_self) hends ht)
      (SpelledMore.more r (fun v hv => hp v (mem_cons_of_mem _ hv)) hu))

theorem SpelledEntries.entries {es : List (String × Json)} {t : List Char} (r : List Char)
    (acc : List (String × Json)) (hk : Distinct acc es) (hp : ∀ e ∈ es, e.2.Plain) :
    SpelledEntries es t → Entries lib (dropWs (t ++ r)) acc (acc ++ es) r
  | .nil ha => by
    rw [List.append_assoc, dropWs_blank ha, List.append_nil]
    exact .close
  | .cons ha hb hc ht hd hu => by
    have hends := ends_blank hd (hu.ends r).1
    have hmore := SpelledMoreEntries.more r (acc ++ [_]) hk.next.2
      (fun e he => hp e (mem_cons_of_mem _ he)) hu
    rw [append_assoc] at hmore
    exact .of_text hk.next.1 ha hb hc ht.starts hd (hu.ends r).2
      (Spelled.value (hp _ mem_cons_self) hends ht) hmore

theorem SpelledMoreEntries.more {es : List (String × Json)} {t : List Char} (r : List Char)
    (acc : List (String × Json)) (hk : Distinct acc es) (hp : ∀ e ∈ es, e.2.Plain) :
    SpelledMoreEntries es t → MoreEntries lib (t ++ r) acc (acc ++ es) r
  | .close => by
    rw [List.append_nil]
    exact .close
  | .trailing ha => by
    refine .comma ?_
    rw [List.append_eq, List.append_assoc, dropWs_blank ha, List.append_nil]
    exact .close
  | .cons ha hb hc ht hd hu => by
    have hends := ends_blank hd (hu.ends r).1
    have hmore := SpelledMoreEntries.more r (acc ++ [_]) hk.next.2
      (fun e he => hp e (mem_cons_of_mem _ he)) hu
    rw [append_assoc] at hmore
    exact .comma (.of_text hk.next.1 ha hb hc ht.starts hd (hu.ends r).2
      (Spelled.value (hp _ mem_cons_self) hends ht) hmore)

end

/-- **Every text of a value is read as that value**, blanks around it or not. -/
theorem spelled_fromStr {b : List Char} (hp : v.Plain) (ht : Spelled v t) (ha : Blank a)
    (hb : Blank b) : fromStr lib (encode (a ++ (t ++ b))) = .ok v := by
  refine fromStr_eq_ok_iff.mpr ⟨b, ?_, ?_⟩
  · rw [dropWs_blank ha, ht.starts.dropWs]
    refine ht.value hp ?_
    have hends := ends_blank hb (t := []) rfl
    rwa [append_nil] at hends
  · have hnil := dropWs_blank hb []
    rwa [append_nil] at hnil

/-! ## 5. The compact text -/

theorem Blank.nil : Blank [] := fun _ h => nomatch h

mutual

theorem spelled_chars (lib : StdLib) : (v : Json) → v.Plain → Spelled v (Json.chars lib v)
  | .null, _ => by
    rw [Json.chars]
    exact .null
  | .bool true, _ => by
    rw [Json.chars]
    exact .true
  | .bool false, _ => by
    rw [Json.chars]
    exact .false
  | .num (.int z), _ => by
    rw [Json.chars]
    exact .int z
  | .num (.float _), hp => nomatch hp
  | .str s, _ => by
    rw [Json.chars]
    exact .str s
  | .arr [], _ => by
    rw [Json.chars]
    exact .arr (.nil .nil)
  | .arr (v :: vs), hp => by
    rw [Json.chars, cons_append, cons_append, append_assoc]
    cases hp with
    | arr hp =>
      exact .arr (.cons (a := []) (b := []) .nil
        (spelled_chars lib v (hp v mem_cons_self)) .nil
        (spelledMore_chars lib vs fun w hw => hp w (mem_cons_of_mem _ hw)))
  | .obj [], _ => by
    rw [Json.chars]
    exact .obj (.nil .nil)
  | .obj ((k, v) :: es), hp => by
    rw [Json.chars]
    simp only [cons_append, append_assoc]
    cases hp with
    | obj _ hp =>
      exact .obj (.cons (a := []) (b := []) (c := []) (d := []) .nil .nil .nil
        (spelled_chars lib v (hp (k, v) mem_cons_self)) .nil
        (spelledMoreEntries_chars lib es fun e he => hp e (mem_cons_of_mem _ he)))

theorem spelledMore_chars (lib : StdLib) :
    (vs : List Json) → (∀ v ∈ vs, v.Plain) → SpelledMore vs (Json.moreItems lib vs ++ [']'])
  | [], _ => by
    rw [Json.moreItems]
    exact .close
  | v :: vs, hp => by
    rw [Json.moreItems, List.cons_append, List.cons_append, List.append_assoc]
    exact .cons (a := []) (b := []) .nil
      (spelled_chars lib v (hp v mem_cons_self)) .nil
      (spelledMore_chars lib vs fun w hw => hp w (mem_cons_of_mem _ hw))

theorem spelledMoreEntries_chars (lib : StdLib) : (es : List (String × Json)) →
    (∀ e ∈ es, e.2.Plain) → SpelledMoreEntries es (Json.moreEntries lib es ++ ['\x7d'])
  | [], _ => by
    rw [Json.moreEntries]
    exact .close
  | (k, v) :: es, hp => by
    rw [Json.moreEntries]
    simp only [cons_append, append_assoc]
    exact .cons (a := []) (b := []) (c := []) (d := []) .nil .nil .nil
      (spelled_chars lib v (hp (k, v) mem_cons_self)) .nil
      (spelledMoreEntries_chars lib es fun e he => hp e (mem_cons_of_mem _ he))

end

theorem fromStr_chars (hp : v.Plain) : fromStr lib (encode (Json.chars lib v)) = .ok v := by
  have hread : fromStr lib (encode ([] ++ (Json.chars lib v ++ []))) = .ok v :=
    spelled_fromStr hp (spelled_chars lib v hp) .nil .nil
  rwa [append_nil] at hread

/-- **The parser is conservative**: it reads the compact text of a value as that value, and so it
does with blanks between the tokens and with commas behind the last elements. -/
theorem fromStr_conservative (lib : StdLib) {v : Json} (hp : v.Plain) :
    fromStr lib (encode (Json.chars lib v)) = .ok v ∧
      ∀ a t b, Blank a → Spelled v t → Blank b →
        fromStr lib (encode (a ++ (t ++ b))) = .ok v :=
  ⟨fromStr_chars hp, fun _ _ _ ha ht hb => spelled_fromStr hp ht ha hb⟩

end FastJson

namespace Script

/-- No text is a floating-point number. -/
def noFloats : StdLib := ⟨fun _ => false, fun _ => 0, id, fun _ => ""⟩

/-- Two entries, the second one with control characters and one beyond the first plane. -/
def sampleJson : Json :=
  .obj [("a", .arr [.num (.int (-7)), .null]), ("b", .str "\x01\"\\😀")]

theorem sampleJson_plain : sampleJson.Plain := by
  refine .obj (by decide) fun e he => ?_
  rcases mem_cons.mp he with rfl | he
  · refine .arr fun v hv => ?_
    rcases mem_cons.mp hv with rfl | hv
    · exact .int (by decide)
    · cases mem_singleton.mp hv
      exact .null
  · cases mem_singleton.mp he
    exact .str _

end Script

namespace FastJson

open Utf8 (encode)

open Script

/-- A sample value is read back from its compact text. -/
theorem fromStr_conservative_sample :
    sampleJson.Plain ∧ fromStr noFloats
      (encode (Json.chars noFloats sampleJson)) = .ok sampleJson :=
  ⟨sampleJson_plain, (fromStr_conservative noFloats sampleJson_plain).1⟩

end FastJson

end RocketMQ
