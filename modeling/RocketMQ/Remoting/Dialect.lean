/-
  File:      RocketMQ/Remoting/Dialect.lean
  Subject:   The dialect of JSON that the parser reads.

  A grammar on the characters of a text, in the order in which the parser goes through it: keys may
  be without quotes or nested values, the last element may have a comma behind it, and a key that
  comes again replaces the one before. Beside it stand the texts that are cut inside a surrogate
  pair: what comes before the cut reads, and the cut is where the parser slices past the end.

  * `value_agrees`: **the parser reads what the grammar says**, and panics at a cut only;
  * `fromStr_eq_ok_iff`, `fromStr_eq_panic_iff`: the same of a whole text.
-/
import RocketMQ.Remoting.Lexemes

namespace RocketMQ.FastJson

open List
open Utf8 (byte encode lead)

variable {lib : StdLib} {bytes : List UInt8} {pos : Nat}

/-! ## 1. The grammar -/

/-- A character of a key that is neither quoted nor nested. -/
def keyChar (c : Char) : Bool := !(c == ':' || white c)

/-- A nested value starts here. -/
def opens (cs : List Char) : Bool := cs.head? == some '\x7b' || cs.head? == some '['

mutual

/-- **A value** at the start of the text, and what is left behind it. -/
inductive Value (lib : StdLib) : List Char → Json → List Char → Prop where
  | string {t b r} (hb : Body t b r) : Value lib ('"' :: t) (.str (String.ofList b)) r
  | literal {cs r v} (hl : Literal lib cs v r) : Value lib cs v r
  | array {t r vs} (hi : Items lib (dropWs t) vs r) : Value lib ('[' :: t) (.arr vs) r
  | object {t r es} (he : Entries lib (dropWs t) [] es r) : Value lib ('\x7b' :: t) (.obj es) r

/-- The items of an array, up to its bracket. -/
inductive Items (lib : StdLib) : List Char → List Json → List Char → Prop where
  | close {r} : Items lib (']' :: r) [] r
  | item {t r s v vs} (hv : Value lib t v r) (hm : MoreItems lib (dropWs r) vs s) :
      Items lib t (v :: vs) s

/-- What follows an item. -/
inductive MoreItems (lib : StdLib) : List Char → List Json → List Char → Prop where
  | close {r} : MoreItems lib (']' :: r) [] r
  | comma {t r vs} (hi : Items lib (dropWs t) vs r) : MoreItems lib (',' :: t) vs r

/-- The entries of an object, up to its brace: they are inserted one after another. -/
inductive Entries (lib : StdLib) :
    List Char → List (String × Json) → List (String × Json) → List Char → Prop where
  | close {r es} : Entries lib ('\x7d' :: r) es es r
  | entry {t r u s z es out k v} (ho : t.head? ≠ some '\x7d') (hk : Key lib t k r)
      (hc : dropWs r = ':' :: u) (hv : Value lib (dropWs u) v s)
      (hm : MoreEntries lib (dropWs s) (Json.insert es k v) out z) : Entries lib t es out z

/-- What follows an entry. -/
inductive MoreEntries (lib : StdLib) :
    List Char → List (String × Json) → List (String × Json) → List Char → Prop where
  | close {r es} : MoreEntries lib ('\x7d' :: r) es es r
  | comma {t r es out} (he : Entries lib (dropWs t) es out r) : MoreEntries lib (',' :: t) es out r

/-- A key: a string, a nested value that stands for its own text, or a word. -/
inductive Key (lib : StdLib) : List Char → String → List Char → Prop where
  | quoted {t b r} (hb : Body t b r) : Key lib ('"' :: t) (String.ofList b) r
  | nested {w r v} (ho : opens (w ++ r) = true) (hv : Value lib (w ++ r) v r) :
      Key lib (w ++ r) (String.ofList w) r
  | raw {w r} (hw : ∀ c ∈ w, keyChar c = true) (hr : ∀ c ∈ r.head?, keyChar c = false)
      (hq : (w ++ r).head? ≠ some '"') (ho : opens (w ++ r) = false) :
      Key lib (w ++ r) (String.ofList w) r

end

mutual

/-- **A value that is cut inside a surrogate pair.** -/
inductive CutValue (lib : StdLib) : List Char → Prop where
  | string {t} (hb : CutBody t) : CutValue lib ('"' :: t)
  | array {t} (hi : CutItems lib (dropWs t)) : CutValue lib ('[' :: t)
  | object {t} (he : CutEntries lib (dropWs t)) : CutValue lib ('\x7b' :: t)

inductive CutItems (lib : StdLib) : List Char → Prop where
  | here {t} (hv : CutValue lib t) : CutItems lib t
  | later {t r s v} (hv : Value lib t v r) (hr : dropWs r = ',' :: s) (hi : CutItems lib (dropWs s))
      : CutItems lib t

inductive CutEntries (lib : StdLib) : List Char → Prop where
  | key {t} (hk : CutKey lib t) : CutEntries lib t
  | value {t r u k} (ho : t.head? ≠ some '\x7d') (hk : Key lib t k r) (hc : dropWs r = ':' :: u)
      (hv : CutValue lib (dropWs u)) : CutEntries lib t
  | later {t r u s z k v} (ho : t.head? ≠ some '\x7d') (hk : Key lib t k r)
      (hc : dropWs r = ':' :: u) (hv : Value lib (dropWs u) v s) (hs : dropWs s = ',' :: z)
      (he : CutEntries lib (dropWs z)) : CutEntries lib t

inductive CutKey (lib : StdLib) : List Char → Prop where
  | quoted {t} (hb : CutBody t) : CutKey lib ('"' :: t)
  | nested {t} (ho : opens t = true) (hv : CutValue lib t) : CutKey lib t

end

/-! ## 2. Every value takes a part of the text -/

/-- `r` is what is left of the text behind a part that is not empty. -/
def Past (r cs : List Char) : Prop := r <:+ cs ∧ r.length < cs.length

namespace Past

variable {r t cs : List Char} {c : Char}

theorem head : Past r (c :: r) := ⟨suffix_cons _ _, Nat.lt_succ_self _⟩

theorem append {w : List Char} (hne : w ≠ []) : Past r (w ++ r) := by
  refine ⟨suffix_append _ _, ?_⟩
  rw [length_append]
  exact Nat.lt_add_of_pos_left (length_pos_iff.mpr hne)

theorem past_cons (h : r <:+ t) : Past r (c :: t) :=
  ⟨h.trans (suffix_cons _ _), Nat.lt_succ_of_le h.length_le⟩

theorem cons (h : Past r t) : Past r (c :: t) := past_cons h.1

theorem of_suffix (h : Past r t) (ht : t <:+ cs) : Past r cs :=
  ⟨h.1.trans ht, lt_of_lt_of_le h.2 ht.length_le⟩

theorem ws (h : Past r (dropWs t)) : Past r t := h.of_suffix (dropWhile_suffix _)

theorem of_dropWs (h : dropWs t = c :: r) : Past r t := by
  have hhead : Past r (c :: r) := head
  rw [← h] at hhead
  exact hhead.ws

end Past

theorem escapeLexeme_cases (t : List Char) :
    (∃ s r, escapeLexeme t = .piece s r ∧ r <:+ t) ∨ escapeLexeme t = .cut ∨
      escapeLexeme t = .bad := by
  cases t with
  | nil => exact .inr (.inr rfl)
  | cons e t =>
    rw [escapeLexeme]
    split
    · rcases unicodeLexeme_cases t with ⟨c, r, hr, hsuffix⟩ | hcut | hbad
      · exact .inl ⟨[c], r, hr, hsuffix.trans (suffix_cons _ _)⟩
      · exact .inr (.inl hcut)
      · exact .inr (.inr hbad)
    · split
      · exact .inl ⟨_, _, rfl, suffix_cons _ _⟩
      · exact .inl ⟨_, _, rfl, suffix_rfl⟩

variable {t r : List Char} {v : Json} {c : Char}

theorem lexeme_past (h : lexeme t = .close r ∨ ∃ s, lexeme t = .piece s r) : Past r t := by
  cases t with
  | nil => rcases h with h | ⟨s, h⟩ <;> cases h
  | cons c t =>
    rw [lexeme] at h
    split_ifs at h
    · rcases h with h | ⟨s, h⟩ <;> cases h
      exact .head
    · rcases escapeLexeme_cases t with ⟨s, r, hr, hsuffix⟩ | hr | hr <;> rw [hr] at h <;>
        rcases h with h | ⟨s, h⟩ <;> cases h
      exact .past_cons hsuffix
    · rcases h with h | ⟨s, h⟩ <;> cases h
      exact .head

theorem Body.past {b : List Char} (h : Body t b r) : Past r t := by
  induction h with
  | close h => exact lexeme_past (.inl h)
  | step h _ ih => exact ih.of_suffix (lexeme_past (.inr ⟨_, h⟩)).1

theorem Literal.past {cs : List Char} (h : Literal lib cs v r) : Past r cs := by
  cases h with
  | @word w r v hw =>
    refine .append fun hnil => ?_
    rw [hnil] at hw
    exact token_ne_nil _ hw rfl
  | number hne => exact .append hne

mutual

theorem Value.past {cs r : List Char} {v : Json} : Value lib cs v r → Past r cs
  | .string hb => hb.past.cons
  | .literal hl => hl.past
  | .array hi => (Items.past hi).ws.cons
  | .object he => (Entries.past he).ws.cons

theorem Items.past {cs r : List Char} {vs : List Json} : Items lib cs vs r → Past r cs
  | .close => .head
  | .item hv hm => (MoreItems.past hm).ws.of_suffix (Value.past hv).1

theorem MoreItems.past {cs r : List Char} {vs : List Json} : MoreItems lib cs vs r → Past r cs
  | .close => .head
  | .comma hi => (Items.past hi).ws.cons

theorem Entries.past {cs r : List Char} {es out : List (String × Json)} :
    Entries lib cs es out r → Past r cs
  | .close => .head
  | .entry _ hk hc hv hm =>
    ((((MoreEntries.past hm).ws.of_suffix (Value.past hv).ws.1).of_suffix
      (Past.of_dropWs hc).1).of_suffix (Key.suffix hk))

theorem MoreEntries.past {cs r : List Char} {es out : List (String × Json)} :
    MoreEntries lib cs es out r → Past r cs
  | .close => .head
  | .comma he => (Entries.past he).ws.cons

theorem Key.suffix {cs r : List Char} {k : String} : Key lib cs k r → r <:+ cs
  | .quoted hb => hb.past.cons.1
  | .nested _ hv => (Value.past hv).1
  | .raw _ _ _ _ => suffix_append _ _

end

/-! ## 3. By the first character -/

/-- The characters that decide what a value is, and the one that ends an array. -/
def marks : List Char := ['"', '[', ']', '\x7b']

theorem token_head {t : List UInt8 × Json} (h : t ∈ tokens) (hc : c ∈ marks) :
    t.1.head? ≠ some (byte c) := by
  simp only [tokens, mem_cons, not_mem_nil, or_false] at h
  simp only [marks, mem_cons, not_mem_nil, or_false] at hc
  rcases h with rfl | rfl | rfl | rfl | rfl | rfl <;> rcases hc with rfl | rfl | rfl | rfl <;>
    decide

theorem numberEnd_mark (hc : c ∈ marks) (b : List UInt8) : numberEnd (byte c :: b) = 0 := by
  simp only [marks, mem_cons, not_mem_nil, or_false] at hc
  rcases hc with rfl | rfl | rfl | rfl <;> rfl

theorem mark_ascii (hc : c ∈ marks) : c.toNat < 128 := by
  simp only [marks, mem_cons, not_mem_nil, or_false] at hc
  rcases hc with rfl | rfl | rfl | rfl <;> decide

theorem not_literal (hc : c ∈ marks) : ¬ Literal lib (c :: t) v r := by
  intro h
  have hascii := mark_ascii hc
  generalize hcs : c :: t = cs at h
  cases h with
  | @word w r v hw =>
    cases w with
    | nil => exact token_ne_nil _ hw rfl
    | cons d w =>
      cases hcs
      apply token_head hw hc
      rw [Utf8.encode_cons, Utf8.encodeChar_ascii hascii]
      rfl
  | @number w r hne hend =>
    rw [← hcs, Utf8.encode_cons, Utf8.encodeChar_ascii hascii, singleton_append,
      numberEnd_mark hc] at hend
    exact hne (Utf8.nil_of_length_encode hend.symm)

section

variable {t r : List Char} {v : Json}

theorem not_value_nil : ¬ Value lib [] v r := fun h => Nat.not_lt_zero _ h.past.2

theorem value_quote : Value lib ('"' :: t) v r ↔ ∃ b, Body t b r ∧ v = .str (String.ofList b) := by
  constructor
  · intro h
    cases h with
    | string hb => exact ⟨_, hb, rfl⟩
    | literal hl => exact absurd hl (not_literal (by decide))
  · intro h
    obtain ⟨b, hb, rfl⟩ := h
    exact .string hb

theorem value_bracket :
    Value lib ('[' :: t) v r ↔ ∃ vs, Items lib (dropWs t) vs r ∧ v = .arr vs := by
  constructor
  · intro h
    cases h with
    | array hi => exact ⟨_, hi, rfl⟩
    | literal hl => exact absurd hl (not_literal (by decide))
  · intro h
    obtain ⟨vs, hi, rfl⟩ := h
    exact .array hi

theorem value_brace :
    Value lib ('\x7b' :: t) v r ↔ ∃ es, Entries lib (dropWs t) [] es r ∧ v = .obj es := by
  constructor
  · intro h
    cases h with
    | object he => exact ⟨_, he, rfl⟩
    | literal hl => exact absurd hl (not_literal (by decide))
  · intro h
    obtain ⟨es, he, rfl⟩ := h
    exact .object he

theorem value_plain {c : Char} (hq : c ≠ '"') (hb : c ≠ '[') (hc : c ≠ '\x7b') :
    Value lib (c :: t) v r ↔ Literal lib (c :: t) v r := by
  constructor
  · intro h
    cases h with
    | string => exact absurd rfl hq
    | literal hl => exact hl
    | array => exact absurd rfl hb
    | object => exact absurd rfl hc
  · exact .literal

theorem cutValue_quote : CutValue lib ('"' :: t) ↔ CutBody t :=
  ⟨fun h => match h with | .string hb => hb, .string⟩

theorem cutValue_bracket : CutValue lib ('[' :: t) ↔ CutItems lib (dropWs t) :=
  ⟨fun h => match h with | .array hi => hi, .array⟩

theorem cutValue_brace : CutValue lib ('\x7b' :: t) ↔ CutEntries lib (dropWs t) :=
  ⟨fun h => match h with | .object he => he, .object⟩

theorem not_cutValue {c : Char} (hq : c ≠ '"') (hb : c ≠ '[') (hc : c ≠ '\x7b') :
    ¬ CutValue lib (c :: t) := by
  intro h
  cases h with
  | string => exact hq rfl
  | array => exact hb rfl
  | object => exact hc rfl

end

section

variable {t r s : List Char} {vs : List Json} {es out : List (String × Json)}

theorem items_close : Items lib (']' :: t) vs r ↔ vs = [] ∧ r = t := by
  constructor
  · intro h
    cases h with
    | close => exact ⟨rfl, rfl⟩
    | item hv =>
      rw [value_plain (by decide) (by decide) (by decide)] at hv
      exact absurd hv (not_literal (by decide))
  · intro h
    obtain ⟨rfl, rfl⟩ := h
    exact .close

theorem items_close_arr {items : List Json} (t : List Char) (j : Json) (r : List Char) :
    (∃ vs, Items lib (']' :: t) vs r ∧ j = .arr (items ++ vs)) ↔ j = .arr items ∧ r = t := by
  simp [items_close, and_comm]

theorem items_iff (ho : t.head? ≠ some ']') :
    Items lib t vs s ↔
      ∃ v r, Value lib t v r ∧ ∃ ws, MoreItems lib (dropWs r) ws s ∧ vs = v :: ws := by
  constructor
  · intro h
    cases h with
    | close => exact absurd rfl ho
    | item hv hm => exact ⟨_, _, hv, _, hm, rfl⟩
  · intro h
    obtain ⟨v, r, hv, ws, hm, rfl⟩ := h
    exact .item hv hm

theorem moreItems_iff : MoreItems lib t vs s ↔
    (t = ']' :: s ∧ vs = []) ∨ ∃ u, t = ',' :: u ∧ Items lib (dropWs u) vs s := by
  constructor
  · intro h
    cases h with
    | close => exact .inl ⟨rfl, rfl⟩
    | comma hi => exact .inr ⟨_, rfl, hi⟩
  · intro h
    rcases h with ⟨rfl, rfl⟩ | ⟨u, rfl, hi⟩
    · exact .close
    · exact .comma hi

theorem not_cutItems_close : ¬ CutItems lib (']' :: t) := by
  intro h
  cases h with
  | here hv => exact not_cutValue (by decide) (by decide) (by decide) hv
  | later hv =>
    rw [value_plain (by decide) (by decide) (by decide)] at hv
    exact not_literal (by decide) hv

theorem cutItems_iff : CutItems lib t ↔ CutValue lib t ∨
    ∃ v r, Value lib t v r ∧ ∃ u, dropWs r = ',' :: u ∧ CutItems lib (dropWs u) := by
  constructor
  · intro h
    cases h with
    | here hv => exact .inl hv
    | later hv hr hi => exact .inr ⟨_, _, hv, _, hr, hi⟩
  · intro h
    rcases h with hv | ⟨v, r, hv, u, hr, hi⟩
    · exact .here hv
    · exact .later hv hr hi

theorem entries_close : Entries lib ('\x7d' :: t) es out r ↔ out = es ∧ r = t := by
  constructor
  · intro h
    cases h with
    | close => exact ⟨rfl, rfl⟩
    | entry ho => exact absurd rfl ho
  · intro h
    obtain ⟨rfl, rfl⟩ := h
    exact .close

theorem entries_close_obj (t : List Char) (j : Json) (r : List Char) :
    (∃ out, Entries lib ('\x7d' :: t) es out r ∧ j = .obj out) ↔ j = .obj es ∧ r = t := by
  simp [entries_close, and_comm]

theorem entries_iff (ho : t.head? ≠ some '\x7d') :
    Entries lib t es out s ↔ ∃ k r, Key lib t k r ∧ ∃ u, dropWs r = ':' :: u ∧
      ∃ v z, Value lib (dropWs u) v z ∧ MoreEntries lib (dropWs z) (Json.insert es k v) out s := by
  constructor
  · intro h
    cases h with
    | close => exact absurd rfl ho
    | entry _ hk hc hv hm => exact ⟨_, _, hk, _, hc, _, _, hv, hm⟩
  · intro h
    obtain ⟨k, r, hk, u, hc, v, z, hv, hm⟩ := h
    exact .entry ho hk hc hv hm

theorem moreEntries_iff : MoreEntries lib t es out s ↔
    (t = '\x7d' :: s ∧ out = es) ∨ ∃ u, t = ',' :: u ∧ Entries lib (dropWs u) es out s := by
  constructor
  · intro h
    cases h with
    | close => exact .inl ⟨rfl, rfl⟩
    | comma he => exact .inr ⟨_, rfl, he⟩
  · intro h
    rcases h with ⟨rfl, rfl⟩ | ⟨u, rfl, he⟩
    · exact .close
    · exact .comma he

theorem not_cutEntries_close : ¬ CutEntries lib ('\x7d' :: t) := by
  intro h
  cases h with
  | key hk =>
    cases hk with
    | nested ho => exact absurd ho (by simp [opens])
  | value ho => exact ho rfl
  | later ho => exact ho rfl

theorem cutEntries_iff (ho : t.head? ≠ some '\x7d') :
    CutEntries lib t ↔ CutKey lib t ∨ ∃ k r, Key lib t k r ∧ ∃ u, dropWs r = ':' :: u ∧
      (CutValue lib (dropWs u) ∨ ∃ v z, Value lib (dropWs u) v z ∧
        ∃ y, dropWs z = ',' :: y ∧ CutEntries lib (dropWs y)) := by
  constructor
  · intro h
    cases h with
    | key hk => exact .inl hk
    | value _ hk hc hv => exact .inr ⟨_, _, hk, _, hc, .inl hv⟩
    | later _ hk hc hv hs he => exact .inr ⟨_, _, hk, _, hc, .inr ⟨_, _, hv, _, hs, he⟩⟩
  · intro h
    rcases h with hk | ⟨k, r, hk, u, hc, hv | ⟨v, z, hv, y, hs, he⟩⟩
    · exact .key hk
    · exact .value ho hk hc hv
    · exact .later ho hk hc hv hs he

end

/-! ## 4. The readers -/

section

variable {value : Nat → Except Fault (Json × Nat)} {m n : Nat} {cs : List Char}

/-- The nested reader does what the grammar says, on texts that are shorter than this. -/
def Reads (lib : StdLib) (bytes : List UInt8) (value : Nat → Except Fault (Json × Nat))
    (m : Nat) : Prop :=
  ∀ pos cs, At bytes pos cs → cs.length < m →
    Agrees bytes (value pos) (Value lib (dropWs cs)) (CutValue lib (dropWs cs))

variable {close c : Char} {done : Json} {R : List Char → Json → List Char → Prop}
  {C : List Char → Prop} {t r : List Char} {k : String} {es : List (String × Json)}

theorem ne_cons_of_head (h : cs.head? ≠ some c) (t : List Char) : cs ≠ c :: t := by
  rintro rfl
  exact h rfl

theorem closeOr_agrees {again : Nat → Except Fault (Json × Nat)} (hc : close.toNat < 128)
    (hR : ∀ t j r, R (close :: t) j r ↔ j = done ∧ r = t) (hC : ∀ t, ¬ C (close :: t))
    (h : At bytes pos cs) (hagain : (dropWs cs).head? ≠ some close → ∀ p, At bytes p (dropWs cs) →
      Agrees bytes (again p) (R (dropWs cs)) (C (dropWs cs))) :
    Agrees bytes (closeOr bytes close done again pos) (R (dropWs cs)) (C (dropWs cs)) := by
  have hws := h.skipWs
  unfold closeOr
  by_cases hhead : (dropWs cs).head? = some close
  · rw [if_pos ((hws.peek_iff hc).mpr hhead)]
    obtain ⟨t, ht⟩ := head?_eq_some_iff.mp hhead
    rw [ht] at hws ⊢
    exact (Agrees.ok (hws.next hc)).congr (hR t) (iff_false_intro (hC t))
  · rw [if_neg (mt (hws.peek_iff hc).mp hhead)]
    exact hagain hhead _ hws

theorem more_agrees {a : Nat → Except Fault (Json × Nat)} (hc : close.toNat < 128)
    (hne : close ≠ ',') (hR : ∀ t j r, R (close :: t) j r ↔ j = done ∧ r = t)
    (hC : ∀ t, ¬ C (close :: t)) (h : At bytes pos cs)
    (hagain : ∀ t, dropWs cs = ',' :: t → (dropWs t).head? ≠ some close →
      ∀ p, At bytes p (dropWs t) → Agrees bytes (a p) (R (dropWs t)) (C (dropWs t))) :
    Agrees bytes (more bytes close done a pos)
      (fun j r => (dropWs cs = close :: r ∧ j = done) ∨
        ∃ t, dropWs cs = ',' :: t ∧ R (dropWs t) j r)
      (∃ t, dropWs cs = ',' :: t ∧ C (dropWs t)) := by
  have hws := h.skipWs
  unfold more
  by_cases hcomma : (dropWs cs).head? = some ','
  · rw [if_pos ((hws.peek_iff (by decide)).mpr hcomma)]
    obtain ⟨t, ht⟩ := head?_eq_some_iff.mp hcomma
    rw [ht] at hws
    refine (closeOr_agrees hc hR hC (hws.next (by decide)) (hagain t ht)).congr ?_ ?_
    · simp [ht, Ne.symm hne]
    · simp [ht]
  · rw [if_neg (mt (hws.peek_iff (by decide)).mp hcomma)]
    have hnot := ne_cons_of_head hcomma
    by_cases hclose : (dropWs cs).head? = some close
    · rw [if_pos ((hws.peek_iff hc).mpr hclose)]
      obtain ⟨t, ht⟩ := head?_eq_some_iff.mp hclose
      rw [ht] at hws
      refine (Agrees.ok (hws.next hc)).congr ?_ ?_
      · simp [ht, hne, and_comm, eq_comm]
      · simp [hnot]
    · rw [if_neg (mt (hws.peek_iff hc).mp hclose)]
      refine (Agrees.err _).congr ?_ ?_
      · simp [hnot, ne_cons_of_head hclose]
      · simp [hnot]

/-- **The loop reads the items.** -/
theorem arrayLoop_agrees {items : List Json} (hval : Reads lib bytes value m) (h : At bytes pos cs)
    (hws : dropWs cs = cs) (ho : cs.head? ≠ some ']') (hm : cs.length < m) (hn : cs.length < n) :
    Agrees bytes (arrayLoop bytes value n items pos)
      (fun j r => ∃ vs, Items lib cs vs r ∧ j = .arr (items ++ vs)) (CutItems lib cs) := by
  induction n generalizing pos cs items with
  | zero => exact absurd hn (Nat.not_lt_zero _)
  | succ n ih =>
    have hv := hval pos cs h hm
    rw [hws] at hv
    rw [arrayLoop]
    refine (hv.bind fun v p r hr hp => more_agrees
      (R := fun t j s => ∃ vs, Items lib t vs s ∧ j = .arr (items ++ [v] ++ vs))
      (C := CutItems lib) (by decide) (by decide) items_close_arr
      (fun _ => not_cutItems_close) hp ?_).congr ?_
      cutItems_iff
    · intro t ht hhead p hp
      have hpast := (Past.of_dropWs ht).of_suffix hr.past.1
      have hlen := length_dropWs_le t
      have hlt := hpast.2
      exact ih hp (dropWs_dropWs t) hhead (by omega) (by omega)
    · intro j s
      simp only [items_iff ho, moreItems_iff]
      constructor
      · intro hj
        obtain ⟨vs, ⟨v, r, hr, ws, hm, rfl⟩, rfl⟩ := hj
        refine ⟨v, r, hr, ?_⟩
        rcases hm with ⟨hclose, rfl⟩ | ⟨u, hu, hi⟩
        · exact .inl ⟨hclose, rfl⟩
        · exact .inr ⟨u, hu, ws, hi, by rw [append_assoc, singleton_append]⟩
      · intro hj
        obtain ⟨v, r, hr, ⟨hclose, rfl⟩ | ⟨u, hu, ws, hi, rfl⟩⟩ := hj
        · exact ⟨[v], ⟨v, r, hr, [], .inl ⟨hclose, rfl⟩, rfl⟩, rfl⟩
        · refine ⟨v :: ws, ⟨v, r, hr, ws, .inr ⟨u, hu, hi⟩, rfl⟩, ?_⟩
          rw [append_assoc, singleton_append]

theorem At.suffix {p q : Nat} {a b : List Char} (hp : At bytes p a) (hq : At bytes q b)
    (h : b <:+ a) : ∃ w, a = w ++ b ∧ FastJson.textSlice bytes p q = .ok (String.ofList w) := by
  obtain ⟨w, rfl⟩ := h
  exact ⟨w, rfl, hp.textSlice hq⟩

theorem keyChar_byte (hc : c.toNat < 128) :
    (!(byte c == byte ':' || isWs (byte c))) = keyChar c := by
  rw [byte_beq hc (by decide), isWs_byte hc]
  rfl

theorem keyChar_ascii (h : keyChar c = false) : c.toNat < 128 := by
  simp only [keyChar, Bool.not_eq_false', Bool.or_eq_true, beq_iff_eq] at h
  rcases h with rfl | h
  · decide
  · exact white_ascii h

theorem rawKey_agrees (h : At bytes pos cs) (hq : cs.head? ≠ some '"') (ho : opens cs = false) :
    Agrees bytes (rawKey bytes pos) (Key lib cs) (CutKey lib cs) := by
  have hsplit : cs = cs.takeWhile keyChar ++ cs.dropWhile keyChar :=
    takeWhile_append_dropWhile.symm
  have hbytes : (encode cs).takeWhile (fun c => !(c == byte ':' || isWs c))
      = encode (cs.takeWhile keyChar) := by
    refine Utf8.takeWhile_until (fun b hb => ?_) (fun c => keyChar_byte) (fun c => keyChar_ascii) cs
    simp only [Bool.not_eq_false', Bool.or_eq_true, beq_iff_eq] at hb
    rcases hb with rfl | hb
    · decide
    · exact isWs_lt hb
  have hat : At bytes pos (cs.takeWhile keyChar ++ cs.dropWhile keyChar) := by
    rw [← hsplit]
    exact h
  unfold rawKey
  dsimp only
  rw [h.drop, hbytes, hat.textSlice hat.after]
  refine (Agrees.ok hat.after).congr (fun k r => ?_) (iff_false_intro fun hcut => ?_)
  · constructor
    · intro hk
      cases hk with
      | quoted => exact absurd rfl hq
      | nested ho' =>
        cases ho.symm.trans ho'
      | @raw w r hw hr =>
        have hnil : r.takeWhile keyChar = [] := by
          cases r with
          | nil => rfl
          | cons c r => rw [takeWhile_cons, if_neg (by simp [hr c rfl])]
        have hsame : r.dropWhile keyChar = r := by
          cases r with
          | nil => rfl
          | cons c r => rw [dropWhile_cons, if_neg (by simp [hr c rfl])]
        rw [takeWhile_append_of_pos hw, hnil, append_nil,
          dropWhile_append_of_pos hw, hsame]
        exact ⟨rfl, rfl⟩
    · intro hk
      obtain ⟨rfl, rfl⟩ := hk
      rw [hsplit] at hq ho
      have hraw : Key lib (cs.takeWhile keyChar ++ cs.dropWhile keyChar) _ _ := .raw
        (fun c hc => mem_takeWhile_imp hc)
        (fun c hc => ?_) hq ho
      · rwa [← hsplit] at hraw
      · have hnot := head?_dropWhile_not keyChar cs
        rwa [hc] at hnot
  · cases hcut with
    | quoted => exact hq rfl
    | nested ho' =>
      cases ho.symm.trans ho'

theorem key_quote : Key lib ('"' :: t) k r ↔ ∃ b, Body t b r ∧ k = String.ofList b := by
  constructor
  · intro h
    generalize hcs : '"' :: t = cs at h
    cases h with
    | quoted hb =>
      cases hcs
      exact ⟨_, hb, rfl⟩
    | nested ho =>
      rw [← hcs] at ho
      cases ho
    | raw _ _ hq =>
      rw [← hcs] at hq
      exact absurd rfl hq
  · intro h
    obtain ⟨b, hb, rfl⟩ := h
    exact .quoted hb

theorem cutKey_quote : CutKey lib ('"' :: t) ↔ CutBody t := by
  constructor
  · intro h
    cases h with
    | quoted hb => exact hb
    | nested ho => cases ho
  · exact .quoted

theorem key_opens (ho : opens cs = true) :
    Key lib cs k r ↔ ∃ v, Value lib cs v r ∧ ∃ w, cs = w ++ r ∧ k = String.ofList w := by
  constructor
  · intro h
    cases h with
    | quoted => cases ho
    | nested _ hv => exact ⟨_, hv, _, rfl, rfl⟩
    | raw _ _ _ ho' =>
      cases ho.symm.trans ho'
  · rintro ⟨v, hv, w, rfl, rfl⟩
    exact .nested ho hv

theorem cutKey_opens (ho : opens cs = true) : CutKey lib cs ↔ CutValue lib cs := by
  constructor
  · intro h
    cases h with
    | quoted => cases ho
    | nested _ hv => exact hv
  · exact .nested ho

theorem At.opens_iff (h : At bytes pos cs) :
    (bytes[pos]? = some (byte '\x7b') ∨ bytes[pos]? = some (byte '[')) ↔ opens cs = true := by
  rw [h.peek_iff (by decide), h.peek_iff (by decide), opens, Bool.or_eq_true, beq_iff_eq,
    beq_iff_eq]

theorem key_agrees (hval : Reads lib bytes value m) (h : At bytes pos cs) (hm : cs.length < m) :
    Agrees bytes (key bytes value pos) (Key lib (dropWs cs)) (CutKey lib (dropWs cs)) := by
  have hws := h.skipWs
  have hlen := length_dropWs_le cs
  unfold key
  generalize FastJson.skipWs bytes pos = start at hws
  by_cases hq : (dropWs cs).head? = some '"'
  · rw [if_pos ((hws.peek_iff (by decide)).mpr hq)]
    obtain ⟨t, ht⟩ := head?_eq_some_iff.mp hq
    rw [ht] at hws ⊢
    exact (string_agrees hws).congr (fun k r => key_quote) cutKey_quote
  · rw [if_neg (mt (hws.peek_iff (by decide)).mp hq)]
    by_cases ho : opens (dropWs cs) = true
    · rw [if_pos (hws.opens_iff.mpr ho)]
      have hv := hval start (dropWs cs) hws (by omega)
      rw [dropWs_dropWs] at hv
      have hslice v stop r (hr : Value lib (dropWs cs) v r)
          (hstop : At bytes stop r) : Agrees bytes
            (textSlice bytes start stop >>= fun k => .ok (k, stop))
            (fun k s => s = r ∧ ∃ w, dropWs cs = w ++ r ∧ k = String.ofList w) False := by
        obtain ⟨w, hw, hslice⟩ := hws.suffix hstop hr.past.1
        rw [hslice]
        refine (Agrees.ok hstop).congr (fun k s => ?_) Iff.rfl
        rw [hw]
        constructor
        · intro hk
          obtain ⟨rfl, w', hw', rfl⟩ := hk
          rw [append_cancel_right hw']
          exact ⟨rfl, rfl⟩
        · intro hk
          obtain ⟨rfl, rfl⟩ := hk
          exact ⟨rfl, w, rfl, rfl⟩
      refine (hv.bind hslice).congr (fun k r => ?_) ?_
      · rw [key_opens ho]
        constructor
        · intro hk
          obtain ⟨v, hr, w, hw, rfl⟩ := hk
          exact ⟨v, r, hr, rfl, w, hw, rfl⟩
        · intro hk
          obtain ⟨v, r', hr, rfl, w, hw, rfl⟩ := hk
          exact ⟨v, hr, w, hw, rfl⟩
      · rw [cutKey_opens ho]
        simp
    · rw [if_neg (mt hws.opens_iff.mp ho)]
      exact rawKey_agrees hws hq (Bool.eq_false_iff.mpr ho)

theorem member_agrees {again : List (String × Json) → Nat → Except Fault (Json × Nat)}
    (hval : Reads lib bytes value m) (h : At bytes pos cs) (hm : cs.length < m)
    (hagain : ∀ es p t, t.length < cs.length → dropWs t = t →
      t.head? ≠ some '\x7d' → At bytes p t → Agrees bytes (again es p)
        (fun j r => ∃ out, Entries lib t es out r ∧ j = .obj out) (CutEntries lib t)) :
    Agrees bytes (member bytes value again es k pos)
      (fun j s => ∃ u, dropWs cs = ':' :: u ∧ ∃ v r, Value lib (dropWs u) v r ∧
        ∃ out, MoreEntries lib (dropWs r) (Json.insert es k v) out s ∧ j = .obj out)
      (∃ u, dropWs cs = ':' :: u ∧ (CutValue lib (dropWs u) ∨ ∃ v r, Value lib (dropWs u) v r ∧
        ∃ y, dropWs r = ',' :: y ∧ CutEntries lib (dropWs y))) := by
  have hws := h.skipWs
  unfold member
  by_cases hcolon : (dropWs cs).head? = some ':'
  · rw [if_neg (not_not_intro ((hws.peek_iff (by decide)).mpr hcolon))]
    obtain ⟨u, hu⟩ := head?_eq_some_iff.mp hcolon
    have hpast := Past.of_dropWs hu
    have hlt := hpast.2
    rw [hu] at hws
    have hmore v p r (hr : Value lib (dropWs u) v r)
        (hp : At bytes p r) := more_agrees (a := again (Json.insert es k v))
      (R := fun t j s => ∃ out, Entries lib t (Json.insert es k v) out s ∧ j = .obj out)
      (by decide) (by decide) entries_close_obj
      (fun _ => not_cutEntries_close) hp fun t ht hhead p hp => by
        have hlt' := ((Past.of_dropWs ht).of_suffix hr.past.ws.1).2
        have hlen := length_dropWs_le t
        exact hagain _ p (dropWs t) (by omega) (dropWs_dropWs t) hhead hp
    refine ((hval _ u (hws.next (by decide)) (by omega)).bind hmore).congr ?_ ?_
    · intro j s
      simp only [moreEntries_iff]
      constructor
      · intro hj
        obtain ⟨u', hu', v, r, hr, out, hm, rfl⟩ := hj
        cases hu.symm.trans hu'
        refine ⟨v, r, hr, ?_⟩
        rcases hm with ⟨hclose, rfl⟩ | ⟨y, hy, he⟩
        · exact .inl ⟨hclose, rfl⟩
        · exact .inr ⟨y, hy, out, he, rfl⟩
      · intro hj
        obtain ⟨v, r, hr, ⟨hclose, rfl⟩ | ⟨y, hy, out, he, rfl⟩⟩ := hj
        · exact ⟨u, hu, v, r, hr, _, .inl ⟨hclose, rfl⟩, rfl⟩
        · exact ⟨u, hu, v, r, hr, out, .inr ⟨y, hy, he⟩, rfl⟩
    · simp [hu]
  · rw [if_pos (mt (hws.peek_iff (by decide)).mp hcolon)]
    have hnot := ne_cons_of_head hcolon
    exact (Agrees.err _).congr (fun j s => by simp [hnot]) (by simp [hnot])

/-- **The loop reads the entries.** -/
theorem objectLoop_agrees (hval : Reads lib bytes value m) (h : At bytes pos cs)
    (hws : dropWs cs = cs) (ho : cs.head? ≠ some '\x7d') (hm : cs.length < m) (hn : cs.length < n) :
    Agrees bytes (objectLoop bytes value n es pos)
      (fun j r => ∃ out, Entries lib cs es out r ∧ j = .obj out) (CutEntries lib cs) := by
  induction n generalizing pos cs es with
  | zero => exact absurd hn (Nat.not_lt_zero _)
  | succ n ih =>
    have hkey := key_agrees hval h hm
    rw [hws] at hkey
    refine (hkey.bind fun k p r hr hp => member_agrees hval hp ?_ ?_).congr ?_ (cutEntries_iff ho)
    · exact lt_of_le_of_lt hr.suffix.length_le hm
    · intro es p t ht hdrop hhead hp
      have hlen := hr.suffix.length_le
      exact ih hp hdrop hhead (by omega) (by omega)
    · intro j s
      simp only [entries_iff ho]
      constructor
      · intro hj
        obtain ⟨out, ⟨k, r, hk, u, hu, v, z, hv, hm⟩, rfl⟩ := hj
        exact ⟨k, r, hk, u, hu, v, z, hv, out, hm, rfl⟩
      · intro hj
        obtain ⟨k, r, hk, u, hu, v, z, hv, out, hm, rfl⟩ := hj
        exact ⟨out, ⟨k, r, hk, u, hu, v, z, hv, hm⟩, rfl⟩

theorem valueWith_agrees (hval : Reads lib bytes value m) (h : At bytes pos cs)
    (hm : cs.length ≤ m) :
    Agrees bytes (valueWith lib bytes value pos) (Value lib (dropWs cs))
      (CutValue lib (dropWs cs)) := by
  have hws := h.skipWs
  have hlen := length_dropWs_le cs
  have hlen' := h.skipWs.length
  unfold valueWith
  dsimp only
  generalize dropWs cs = ds at hws hlen hlen'
  cases ds with
  | nil =>
    rw [hws.peek_nil]
    refine (Agrees.err _).congr (fun v r => iff_false_intro not_value_nil) ?_
    exact iff_false_intro (by intro hcut; cases hcut)
  | cons c t =>
    rw [hws.peek_cons]
    dsimp only
    have hbytes := Utf8.length_le_encode (c :: t)
    rw [length_cons] at hlen hbytes
    have hdrop := length_dropWs_le t
    by_cases hbrace : c = '\x7b'
    · subst hbrace
      refine (closeOr_agrees
        (R := fun t j s => ∃ out, Entries lib t [] out s ∧ j = .obj out)
        (by decide) entries_close_obj (fun _ => not_cutEntries_close) (hws.next (by decide))
        fun ho p hp => ?_).congr (fun v r => value_brace) cutValue_brace
      exact objectLoop_agrees hval hp (dropWs_dropWs t) ho (by omega) (by omega)
    · rw [if_neg fun hl => hbrace ((Utf8.lead_eq_byte_iff (by decide)).mp hl)]
      by_cases hbracket : c = '['
      · subst hbracket
        refine (closeOr_agrees
          (R := fun t j s => ∃ vs, Items lib t vs s ∧ j = .arr ([] ++ vs))
          (by decide) items_close_arr (fun _ => not_cutItems_close) (hws.next (by decide))
          fun ho p hp => ?_).congr (fun v r => value_bracket) cutValue_bracket
        exact arrayLoop_agrees hval hp (dropWs_dropWs t) ho (by omega) (by omega)
      · rw [if_neg fun hl => hbracket ((Utf8.lead_eq_byte_iff (by decide)).mp hl)]
        by_cases hquote : c = '"'
        · subst hquote
          refine ((string_agrees hws).bind
            fun s p r hr hp => Agrees.ok (a := Json.str s) hp).congr (fun v r => ?_) ?_
          · rw [value_quote]
            constructor
            · intro hv
              obtain ⟨b, hb, rfl⟩ := hv
              exact ⟨_, r, ⟨b, hb, rfl⟩, rfl, rfl⟩
            · intro hv
              obtain ⟨_, _, ⟨b, hb, rfl⟩, rfl, rfl⟩ := hv
              exact ⟨b, hb, rfl⟩
          · rw [cutValue_quote]
            simp
        · rw [if_neg fun hl => hquote ((Utf8.lead_eq_byte_iff (by decide)).mp hl)]
          exact (literal_agrees lib hws).congr (fun v r => value_plain hquote hbracket hbrace)
            (iff_false_intro (not_cutValue hquote hbracket hbrace))

/-- **The parser reads what the grammar says.** -/
theorem value_agrees (h : At bytes pos cs) (hn : cs.length < n) :
    Agrees bytes (FastJson.value lib bytes n pos) (Value lib (dropWs cs))
      (CutValue lib (dropWs cs)) := by
  induction n generalizing pos cs with
  | zero => exact absurd hn (Nat.not_lt_zero _)
  | succ n ih => exact valueWith_agrees (fun p cs h hm => ih h hm) h (Nat.le_of_lt_succ hn)

end

/-! ## 5. Whole texts -/

section

variable {cs : List Char} {v : Json}

theorem At.end_iff (h : At bytes pos cs) : pos < bytes.length ↔ cs ≠ [] := by
  rw [h.length, Nat.lt_add_right_iff_pos]
  constructor
  · intro hpos hnil
    rw [hnil] at hpos
    exact lt_irrefl _ hpos
  · intro hne
    exact lt_of_lt_of_le (length_pos_iff.mpr hne) (Utf8.length_le_encode cs)

theorem start_agrees (lib : StdLib) (cs : List Char) :
    Agrees (encode cs) (FastJson.value lib (encode cs) ((encode cs).length + 1) 0)
      (Value lib (dropWs cs)) (CutValue lib (dropWs cs)) :=
  value_agrees (At.start cs) (Nat.lt_succ_of_le (Utf8.length_le_encode cs))

/-- **A text is accepted as a value** exactly if it is one, between blanks. -/
theorem fromStr_eq_ok_iff :
    fromStr lib (encode cs) = .ok v ↔ ∃ r, Value lib (dropWs cs) v r ∧ dropWs r = [] := by
  have hvalue := start_agrees lib cs
  unfold fromStr
  constructor
  · intro h
    cases hres : FastJson.value lib (encode cs) ((encode cs).length + 1) 0 with
    | error e =>
      rw [hres] at h
      cases h
    | ok x =>
      obtain ⟨v', pos⟩ := x
      rw [hres] at h
      obtain ⟨r, hr, hpos⟩ := hvalue.sound v' pos hres
      dsimp only [bind, Except.bind] at h
      split at h
      · cases h
      · rename_i hend
        cases h
        exact ⟨r, hr, not_not.mp (mt hpos.skipWs.end_iff.mpr hend)⟩
  · intro h
    obtain ⟨r, hr, hend⟩ := h
    obtain ⟨pos, hpos, hres⟩ := hvalue.complete v r hr
    rw [hres]
    dsimp only [bind, Except.bind]
    rw [if_neg fun hlt => hpos.skipWs.end_iff.mp hlt hend]

theorem fromStr_of_error {e : Fault}
    (h : FastJson.value lib (encode cs) ((encode cs).length + 1) 0 = .error e) :
    fromStr lib (encode cs) = .error e := by
  unfold fromStr
  rw [h]
  rfl

theorem value_of_error {e : Fault} (h : fromStr lib (encode cs) = .error e)
    (he : ∀ text, e ≠ .err text) :
    FastJson.value lib (encode cs) ((encode cs).length + 1) 0 = .error e := by
  unfold fromStr at h
  cases hres : FastJson.value lib (encode cs) ((encode cs).length + 1) 0 with
  | error e' =>
    rw [hres] at h
    cases h
    rfl
  | ok x =>
    rw [hres] at h
    dsimp only [bind, Except.bind] at h
    split at h
    · cases h
      exact absurd rfl (he _)
    · cases h

/-- **The parser panics** exactly on a text that is cut inside a surrogate pair. -/
theorem fromStr_eq_panic_iff :
    fromStr lib (encode cs) = .error .panic ↔ CutValue lib (dropWs cs) := by
  constructor
  · intro h
    exact (start_agrees lib cs).panics (value_of_error h (by simp))
  · intro h
    exact fromStr_of_error ((start_agrees lib cs).cuts h)

theorem fromStr_ne_fuel : fromStr lib (encode cs) ≠ .error .fuel := by
  intro h
  exact (start_agrees lib cs).fueled (value_of_error h (by simp))

end

end RocketMQ.FastJson
