/-
  File:      RocketMQ/Lib/Utf8.lean
  Subject:   Texts as bytes.

  `encode` puts the bytes of the characters one after the other. `decode` is strict: it accepts
  exactly the encoded texts.

  * `decodeChar_eq_some`, `decode_eq_some`: **decoding inverts encoding**;
  * `isCont`: the bytes inside a character, which is how a boundary is recognised;
  * `lead`: the first byte of a character, which tells the ASCII characters apart.
-/
import Mathlib

namespace Utf8

open List

/-! ## 1. Characters -/

/-- The code point that a leading byte and its continuation stand for. -/
def candidate (bs : List UInt8) : Nat :=
  let a := (bs.getD 0 0).toNat
  let b := (bs.getD 1 0).toNat - 128
  let c := (bs.getD 2 0).toNat - 128
  let d := (bs.getD 3 0).toNat - 128
  if a < 128 then a
  else if a < 224 then (a - 192) * 64 + b
  else if a < 240 then (a - 224) * 4096 + b * 64 + c
  else (a - 240) * 262144 + b * 4096 + c * 64 + d

/-- **The first character**, if its very encoding comes first. -/
def decodeChar (bs : List UInt8) : Option (Char × List UInt8) :=
  let c := Char.ofNat (candidate bs)
  if (String.utf8EncodeChar c).isPrefixOf bs then
    some (c, bs.drop (String.utf8EncodeChar c).length)
  else none

theorem encodeChar_cases (c : Char) :
    (c.toNat < 128 ∧ String.utf8EncodeChar c = [UInt8.ofNat c.toNat]) ∨
    (128 ≤ c.toNat ∧ c.toNat < 2048 ∧ String.utf8EncodeChar c
      = [UInt8.ofNat (c.toNat / 64 + 192), UInt8.ofNat (c.toNat % 64 + 128)]) ∨
    (2048 ≤ c.toNat ∧ c.toNat < 65536 ∧ String.utf8EncodeChar c
      = [UInt8.ofNat (c.toNat / 4096 + 224), UInt8.ofNat (c.toNat / 64 % 64 + 128),
          UInt8.ofNat (c.toNat % 64 + 128)]) ∨
    (65536 ≤ c.toNat ∧ c.toNat < 1114112 ∧ String.utf8EncodeChar c
      = [UInt8.ofNat (c.toNat / 262144 + 240), UInt8.ofNat (c.toNat / 4096 % 64 + 128),
          UInt8.ofNat (c.toNat / 64 % 64 + 128), UInt8.ofNat (c.toNat % 64 + 128)]) := by
  have hmax : c.toNat < 1114112 := by
    rcases c.valid with h | h
    · exact lt_trans h (by decide)
    · exact h.2
  have hv : c.val.toNat = c.toNat := rfl
  unfold String.utf8EncodeChar
  by_cases h1 : c.toNat ≤ 127
  · exact .inl ⟨by omega, by simp [h1]⟩
  · by_cases h2 : c.toNat ≤ 2047
    · refine .inr (.inl ⟨by omega, by omega, ?_⟩)
      have hdiv : c.toNat / 64 % 32 = c.toNat / 64 := Nat.mod_eq_of_lt (by omega)
      simp [h1, h2, hdiv]
    · by_cases h3 : c.toNat ≤ 65535
      · refine .inr (.inr (.inl ⟨by omega, by omega, ?_⟩))
        have hdiv : c.toNat / 4096 % 16 = c.toNat / 4096 := Nat.mod_eq_of_lt (by omega)
        simp [h1, h2, h3, hdiv]
      · refine .inr (.inr (.inr ⟨by omega, hmax, ?_⟩))
        have hdiv : c.toNat / 262144 % 8 = c.toNat / 262144 := Nat.mod_eq_of_lt (by omega)
        simp [h1, h2, h3, hdiv]

variable {n : Nat} {bs : List UInt8} {c : Char} {cs : List Char} {b : UInt8} {p : UInt8 → Bool}
  {q : Char → Bool}

theorem toNat_ofNat_of_lt (h : n < 256) : (UInt8.ofNat n).toNat = n :=
  UInt8.toNat_ofNat_of_lt' h

theorem candidate_encodeChar (c : Char) (r : List UInt8) :
    candidate (String.utf8EncodeChar c ++ r) = c.toNat := by
  rcases encodeChar_cases c with ⟨h, he⟩ | ⟨h, h', he⟩ | ⟨h, h', he⟩ | ⟨h, h', he⟩
  · simp only [candidate, he, cons_append, getD_cons_zero]
    rw [toNat_ofNat_of_lt (by omega), if_pos h]
  · simp only [candidate, he, cons_append, getD_cons_zero, getD_cons_succ]
    rw [toNat_ofNat_of_lt (by omega), toNat_ofNat_of_lt (by omega), if_neg (by omega),
      if_pos (by omega)]
    omega
  · simp only [candidate, he, cons_append, getD_cons_zero, getD_cons_succ]
    rw [toNat_ofNat_of_lt (by omega), toNat_ofNat_of_lt (by omega), toNat_ofNat_of_lt (by omega),
      if_neg (by omega), if_neg (by omega), if_pos (by omega)]
    omega
  · simp only [candidate, he, cons_append, getD_cons_zero, getD_cons_succ]
    rw [toNat_ofNat_of_lt (by omega), toNat_ofNat_of_lt (by omega), toNat_ofNat_of_lt (by omega),
      toNat_ofNat_of_lt (by omega), if_neg (by omega), if_neg (by omega), if_neg (by omega)]
    omega

theorem decodeChar_encode (c : Char) (r : List UInt8) :
    decodeChar (String.utf8EncodeChar c ++ r) = some (c, r) := by
  have hc : Char.ofNat (candidate (String.utf8EncodeChar c ++ r)) = c := by
    rw [candidate_encodeChar, Char.ofNat_toNat]
  unfold decodeChar
  rw [hc]
  simp

/-- **One character.** -/
theorem decodeChar_eq_some {r : List UInt8} :
    decodeChar bs = some (c, r) ↔ bs = String.utf8EncodeChar c ++ r := by
  constructor
  · intro h
    unfold decodeChar at h
    dsimp only at h
    split at h
    · rename_i hpre
      obtain ⟨t, ht⟩ := isPrefixOf_iff_prefix.mp hpre
      simp only [Option.some.injEq, Prod.mk.injEq] at h
      obtain ⟨hc, hr⟩ := h
      rw [hc] at ht hr
      rw [← ht, drop_left] at hr
      rw [← hr]
      exact ht.symm
    · cases h
  · intro h
    rw [h]
    exact decodeChar_encode c r

/-! ## 2. Texts -/

/-- The bytes of a text. -/
def encode (cs : List Char) : List UInt8 := cs.flatMap String.utf8EncodeChar

@[simp] theorem encode_nil : encode [] = [] := rfl

@[simp] theorem encode_cons (c : Char) (cs : List Char) :
    encode (c :: cs) = String.utf8EncodeChar c ++ encode cs := flatMap_cons

@[simp] theorem encode_append (a b : List Char) : encode (a ++ b) = encode a ++ encode b :=
  flatMap_append

/-- The characters of a text, read one after the other. -/
def decodeSteps : Nat → List UInt8 → Option (List Char)
  | _, [] => some []
  | 0, _ :: _ => none
  | n + 1, b :: bs =>
    match decodeChar (b :: bs) with
    | some (c, rest) => (decodeSteps n rest).map (c :: ·)
    | none => none

/-- **The text of these bytes**, if they are one. -/
def decode (bs : List UInt8) : Option (List Char) := decodeSteps bs.length bs

theorem length_encodeChar_pos (c : Char) : 0 < (String.utf8EncodeChar c).length :=
  length_pos_iff.mpr String.utf8EncodeChar_ne_nil

theorem encode_of_decodeSteps (h : decodeSteps n bs = some cs) : bs = encode cs := by
  induction n generalizing bs cs with
  | zero =>
    cases bs with
    | nil =>
      cases h
      rfl
    | cons b bs => cases h
  | succ n ih =>
    cases bs with
    | nil =>
      cases h
      rfl
    | cons b bs =>
      unfold decodeSteps at h
      split at h
      · rename_i c rest hc
        obtain ⟨cs', hcs', rfl⟩ := Option.map_eq_some_iff.mp h
        rw [decodeChar_eq_some.mp hc, ih hcs', encode_cons]
      · cases h

theorem decodeSteps_encode (h : (encode cs).length ≤ n) : decodeSteps n (encode cs) = some cs := by
  induction cs generalizing n with
  | nil => cases n <;> rfl
  | cons c cs ih =>
    rw [encode_cons, length_append] at h
    have hpos := length_encodeChar_pos c
    obtain ⟨m, rfl⟩ : ∃ m, n = m + 1 := ⟨n - 1, by omega⟩
    have hrest : decodeSteps m (encode cs) = some cs := ih (by omega)
    rw [encode_cons]
    cases hbs : String.utf8EncodeChar c ++ encode cs with
    | nil =>
      rw [append_eq_nil_iff] at hbs
      exact absurd hbs.1 String.utf8EncodeChar_ne_nil
    | cons b bs =>
      unfold decodeSteps
      rw [← hbs, decodeChar_encode]
      simp [hrest]

/-- **Decoding inverts encoding.** -/
theorem decode_eq_some : decode bs = some cs ↔ bs = encode cs := by
  constructor
  · exact encode_of_decodeSteps
  · intro h
    rw [h]
    exact decodeSteps_encode (le_rfl)

theorem encode_injective {a b : List Char} (h : encode a = encode b) : a = b := by
  have ha : decode (encode a) = some a := decode_eq_some.mpr rfl
  rw [h, decode_eq_some.mpr rfl] at ha
  exact (Option.some.inj ha).symm

/-! ## 3. Boundaries -/

/-- A byte inside a character. -/
def isCont (b : UInt8) : Bool := 128 ≤ b && b < 192

theorem encodeChar_eq_cons (c : Char) :
    ∃ b bs, String.utf8EncodeChar c = b :: bs ∧ isCont b = false ∧ ∀ x ∈ bs, isCont x = true := by
  rcases encodeChar_cases c with ⟨h, he⟩ | ⟨h, h', he⟩ | ⟨h, h', he⟩ | ⟨h, h', he⟩
  all_goals
    refine ⟨_, _, he, ?_, ?_⟩
    · simp [isCont, UInt8.le_iff_toNat_le]
      omega
    · simp [isCont, UInt8.le_iff_toNat_le, UInt8.lt_iff_toNat_lt] <;> omega

theorem head_encode (h : encode cs = b :: bs) : isCont b = false := by
  cases cs with
  | nil => cases h
  | cons c cs =>
    obtain ⟨x, xs, hx, hhead, _⟩ := encodeChar_eq_cons c
    rw [encode_cons, hx] at h
    cases h
    exact hhead

/-! ## 4. ASCII -/

/-- The byte of an ASCII character. -/
def byte (c : Char) : UInt8 := UInt8.ofNat c.toNat

theorem encodeChar_ascii (h : c.toNat < 128) : String.utf8EncodeChar c = [byte c] := by
  rcases encodeChar_cases c with ⟨_, he⟩ | ⟨h', _, _⟩ | ⟨h', _, _⟩ | ⟨h', _, _⟩
  · exact he
  all_goals omega

theorem char_of_ascii (h : String.utf8EncodeChar c = b :: bs) (hb : b < 128) :
    c.toNat = b.toNat ∧ bs = [] := by
  have hlt := UInt8.lt_iff_toNat_lt.mp hb
  rcases encodeChar_cases c with ⟨hc, he⟩ | ⟨hc, hc', he⟩ | ⟨hc, hc', he⟩ | ⟨hc, hc', he⟩
  all_goals
    cases he.symm.trans h
    rw [toNat_ofNat_of_lt (by omega)] at hlt
    have : (128 : UInt8).toNat = 128 := rfl
  · exact ⟨(toNat_ofNat_of_lt (by omega)).symm, rfl⟩
  all_goals omega

theorem toNat_byte (h : c.toNat < 128) : (byte c).toNat = c.toNat :=
  toNat_ofNat_of_lt (by omega)

theorem byte_lt (h : c.toNat < 128) : byte c < 128 := by
  rw [UInt8.lt_iff_toNat_lt, toNat_byte h]
  exact h

theorem ascii_of_length (h : String.utf8EncodeChar c = [b]) : c.toNat < 128 := by
  rcases encodeChar_cases c with ⟨hc, _⟩ | ⟨_, _, he⟩ | ⟨_, _, he⟩ | ⟨_, _, he⟩
  · exact hc
  all_goals
    rw [he] at h
    simp at h

/-- The first byte of a character. -/
def lead (c : Char) : UInt8 := (String.utf8EncodeChar c).headD 0

theorem encodeChar_eq_lead (c : Char) : ∃ bs, String.utf8EncodeChar c = lead c :: bs := by
  obtain ⟨b, bs, hb, _, _⟩ := encodeChar_eq_cons c
  refine ⟨bs, ?_⟩
  rw [lead, hb]
  rfl

theorem lead_ascii (h : c.toNat < 128) : lead c = byte c := by
  rw [lead, encodeChar_ascii h]
  rfl

theorem lead_lt_iff : lead c < 128 ↔ c.toNat < 128 := by
  constructor
  · intro h
    obtain ⟨bs, hbs⟩ := encodeChar_eq_lead c
    obtain ⟨hc, _⟩ := char_of_ascii hbs h
    rw [hc]
    exact UInt8.lt_iff_toNat_lt.mp h
  · intro h
    rw [lead_ascii h]
    exact byte_lt h

/-- **The lead tells an ASCII character.** -/
theorem lead_eq_byte_iff {x : Char} (hx : x.toNat < 128) : lead c = byte x ↔ c = x := by
  constructor
  · intro h
    obtain ⟨bs, hbs⟩ := encodeChar_eq_lead c
    rw [h] at hbs
    obtain ⟨hc, _⟩ := char_of_ascii hbs (byte_lt hx)
    rw [toNat_byte hx] at hc
    exact Char.toNat_inj.mp hc
  · intro h
    rw [h, lead_ascii hx]

theorem encode_eq_append {w : List Char} {x : List UInt8} (h : encode cs = encode w ++ x) :
    ∃ r, cs = w ++ r ∧ x = encode r := by
  induction w generalizing cs with
  | nil => exact ⟨cs, rfl, h.symm⟩
  | cons c w ih =>
    cases cs with
    | nil =>
      have hnil := (append_eq_nil_iff.mp h.symm).1
      exact absurd (append_eq_nil_iff.mp hnil).1 String.utf8EncodeChar_ne_nil
    | cons d cs =>
      rw [encode_cons, encode_cons, append_assoc] at h
      have hd := decodeChar_encode d (encode cs)
      rw [h, decodeChar_encode] at hd
      simp only [Option.some.injEq, Prod.mk.injEq] at hd
      obtain ⟨r, hr, hx⟩ := ih hd.2.symm
      exact ⟨r, by rw [hr, ← hd.1]; rfl, hx⟩

theorem length_encode_ascii (h : ∀ c ∈ cs, c.toNat < 128) : (encode cs).length = cs.length := by
  induction cs with
  | nil => rfl
  | cons c cs ih =>
    have hcs := ih fun d hd => h d (mem_cons_of_mem _ hd)
    rw [encode_cons, encodeChar_ascii (h c mem_cons_self), length_append, hcs,
      length_singleton, length_cons, add_comm]

theorem length_le_encode (cs : List Char) : cs.length ≤ (encode cs).length := by
  induction cs with
  | nil => exact le_rfl
  | cons c cs ih =>
    have hpos := length_encodeChar_pos c
    rw [encode_cons, length_append, length_cons]
    omega

theorem nil_of_length_encode (h : (encode cs).length = 0) : cs = [] :=
  length_eq_zero_iff.mp (Nat.le_zero.mp (h ▸ length_le_encode cs))

theorem exists_of_take_ascii {k : Nat} (hk : k ≤ (encode cs).length)
    (h : ∀ b ∈ (encode cs).take k, b < 128) :
    ∃ w r, cs = w ++ r ∧ encode w = (encode cs).take k := by
  induction k generalizing cs with
  | zero => exact ⟨[], cs, rfl, rfl⟩
  | succ k ih =>
    cases cs with
    | nil => exact absurd hk (Nat.not_succ_le_zero _)
    | cons c cs =>
      obtain ⟨bs, hbs⟩ := encodeChar_eq_lead c
      have hlead : lead c < 128 := h (lead c) (by simp [hbs])
      have hc := lead_lt_iff.mp hlead
      rw [encode_cons, encodeChar_ascii hc] at h hk
      obtain ⟨w, r, hcs, hw⟩ := ih (Nat.le_of_succ_le_succ hk)
        fun b hb => h b (mem_cons_of_mem _ hb)
      refine ⟨c :: w, r, by rw [hcs]; rfl, ?_⟩
      rw [encode_cons, encode_cons, encodeChar_ascii hc, singleton_append,
        singleton_append, take_succ_cons, hw]

theorem takeWhile_ascii (hp : ∀ b, p b = true → b < 128)
    (hpq : ∀ c, c.toNat < 128 → p (byte c) = q c) (hq : ∀ c, q c = true → c.toNat < 128)
    (cs : List Char) : (encode cs).takeWhile p = encode (cs.takeWhile q) := by
  induction cs with
  | nil => rfl
  | cons c cs ih =>
    obtain ⟨bs, hbs⟩ := encodeChar_eq_lead c
    by_cases hc : c.toNat < 128
    · rw [encode_cons, encodeChar_ascii hc, singleton_append, takeWhile_cons,
        takeWhile_cons, hpq c hc]
      cases q c with
      | true => simp [ih, encodeChar_ascii hc]
      | false => simp
    · have hlead : p (lead c) = false := by
        rw [Bool.eq_false_iff]
        exact fun h => hc (lead_lt_iff.mp (hp _ h))
      have hqc : q c = false := by
        rw [Bool.eq_false_iff]
        exact fun h => hc (hq c h)
      rw [encode_cons, hbs, cons_append, takeWhile_cons, takeWhile_cons, hlead,
        hqc]
      rfl

theorem takeWhile_until (hp : ∀ b, p b = false → b < 128)
    (hpq : ∀ c, c.toNat < 128 → p (byte c) = q c) (hq : ∀ c, q c = false → c.toNat < 128)
    (cs : List Char) : (encode cs).takeWhile p = encode (cs.takeWhile q) := by
  induction cs with
  | nil => rfl
  | cons c cs ih =>
    by_cases hc : c.toNat < 128
    · rw [encode_cons, encodeChar_ascii hc, singleton_append, takeWhile_cons,
        takeWhile_cons, hpq c hc]
      cases q c with
      | true => simp [ih, encodeChar_ascii hc]
      | false => simp
    · have hall : ∀ b ∈ String.utf8EncodeChar c, p b = true := by
        intro b hb
        by_contra hpb
        have hlt := hp b (by simpa using hpb)
        obtain ⟨x, xs, hx, _, hcont⟩ := encodeChar_eq_cons c
        rw [hx] at hb
        rcases mem_cons.mp hb with rfl | hb
        · obtain ⟨hcb, _⟩ := char_of_ascii hx hlt
          exact hc (by rw [hcb]; exact UInt8.lt_iff_toNat_lt.mp hlt)
        · have hle := hcont b hb
          simp only [isCont, Bool.and_eq_true, decide_eq_true_eq] at hle
          exact absurd hlt (UInt8.not_lt.mpr hle.1)
      have hqc : q c = true := by
        by_contra h
        exact hc (hq c (by simpa using h))
      rw [encode_cons, takeWhile_append_of_pos hall, takeWhile_cons, hqc, ih]
      simp

end Utf8
