/-
  File:      RocketMQ/Remoting/Lexemes.lean
  Subject:   What the parser reads at one place of a text: blanks, strings and literals.

  The parser goes over bytes, but it only ever stops between two characters. So what it does at a
  position is stated of the characters that are left there (`At`).

  * `string_agrees`, `literal_agrees`: **the readers follow them**.
-/
import RocketMQ.Remoting.FastJson

namespace RocketMQ.FastJson

open List Utf8

variable {bytes : List UInt8} {pos : Nat} {cs : List Char}

/-! ## 1. Positions -/

/-- **These characters are left** at the position. -/
def At (bytes : List UInt8) (pos : Nat) (cs : List Char) : Prop :=
  ∃ u, bytes = u ++ encode cs ∧ u.length = pos

namespace At

theorem start (cs : List Char) : At (encode cs) 0 cs := ⟨[], rfl, rfl⟩

theorem length (h : At bytes pos cs) : bytes.length = pos + (encode cs).length := by
  obtain ⟨u, rfl, rfl⟩ := h
  exact length_append

theorem drop (h : At bytes pos cs) : bytes.drop pos = encode cs := by
  obtain ⟨u, rfl, rfl⟩ := h
  exact drop_left

theorem getElem? (h : At bytes pos cs) (i : Nat) : bytes[pos + i]? = (encode cs)[i]? := by
  rw [← h.drop, getElem?_drop]

theorem after {a b : List Char} (h : At bytes pos (a ++ b)) :
    At bytes (pos + (encode a).length) b := by
  obtain ⟨u, rfl, rfl⟩ := h
  exact ⟨u ++ encode a, by simp, by simp⟩

theorem unique {r : List Char} (h : At bytes pos cs) (h' : At bytes pos r) : r = cs := by
  have hdrop := h.drop
  rw [h'.drop] at hdrop
  exact encode_injective hdrop

theorem next {c : Char} (h : At bytes pos (c :: cs)) (hc : c.toNat < 128) :
    At bytes (pos + 1) cs := by
  have hafter := after (a := [c]) h
  rwa [length_encode_ascii (by simpa using hc)] at hafter

theorem peek_nil (h : At bytes pos []) : bytes[pos]? = none := by
  rw [List.getElem?_eq_none_iff, h.length]
  exact le_rfl

theorem peek_cons {c : Char} (h : At bytes pos (c :: cs)) : bytes[pos]? = some (lead c) := by
  obtain ⟨bs, hbs⟩ := encodeChar_eq_lead c
  have hget := h.getElem? 0
  rwa [encode_cons, hbs] at hget

/-- **What the parser sees is the character.** -/
theorem peek_iff (h : At bytes pos cs) {x : Char} (hx : x.toNat < 128) :
    bytes[pos]? = some (byte x) ↔ cs.head? = some x := by
  cases cs with
  | nil =>
    rw [h.peek_nil]
    exact ⟨(fun h => nomatch h), fun h => nomatch h⟩
  | cons c cs =>
    rw [h.peek_cons, Option.some.injEq, head?_cons, Option.some.injEq]
    exact lead_eq_byte_iff hx

theorem boundary (h : At bytes pos cs) : isCharBoundary bytes pos = true := by
  unfold isCharBoundary
  cases cs with
  | nil =>
    have hlen := h.length
    simp [hlen]
  | cons c cs =>
    obtain ⟨bs, hbs⟩ := encodeChar_eq_lead c
    have henc : encode (c :: cs) = lead c :: (bs ++ encode cs) := by simp [hbs]
    have hlead := head_encode henc
    rw [h.peek_cons]
    simp [hlead]

theorem slice (h : At bytes pos cs) (k : Nat) : FastJson.slice bytes pos (pos + k)
    = if k ≤ (encode cs).length then .ok ((encode cs).take k) else .error .panic := by
  have hlen := h.length
  unfold FastJson.slice
  by_cases hk : k ≤ (encode cs).length
  · rw [if_pos ⟨by omega, by omega⟩, if_pos hk, h.drop, Nat.add_sub_cancel_left]
  · rw [if_neg (by omega), if_neg hk]

theorem slice_append {a b : List Char} (h : At bytes pos (a ++ b)) :
    FastJson.slice bytes pos (pos + (encode a).length) = .ok (encode a) := by
  rw [h.slice, encode_append, length_append, if_pos (Nat.le_add_right _ _),
    take_left]

theorem textSlice {stop : Nat} {w r : List Char} (h : At bytes pos (w ++ r))
    (h' : At bytes stop r) : FastJson.textSlice bytes pos stop = .ok (String.ofList w) := by
  have hlen := h.length
  have hlen' := h'.length
  rw [encode_append, length_append] at hlen
  have hstop : stop - pos = (encode w).length := by omega
  unfold FastJson.textSlice
  rw [if_pos ⟨by omega, h.boundary, h'.boundary⟩, h.drop, hstop, encode_append, take_left,
    strOf, decode_eq_some.mpr rfl]
  rfl

end At

/-! ## 2. Outcomes -/

/-- **A reader's outcome** against what the text says: `reads a r` if it reads as `a` and leaves
`r`, `cut` if it ends where the reader panics. -/
structure Agrees {α : Type} (bytes : List UInt8) (res : Except Fault (α × Nat))
    (reads : α → List Char → Prop) (cut : Prop) : Prop where
  sound : ∀ a pos, res = .ok (a, pos) → ∃ r, reads a r ∧ At bytes pos r
  panics : res = .error .panic → cut
  fueled : res ≠ .error .fuel
  complete : ∀ a r, reads a r → ∃ pos, At bytes pos r ∧ res = .ok (a, pos)
  cuts : cut → res = .error .panic

namespace Agrees

variable {α β : Type} {res : Except Fault (α × Nat)} {reads : α → List Char → Prop} {cut : Prop}

theorem ok {a : α} {r : List Char} (h : At bytes pos r) :
    Agrees bytes (.ok (a, pos)) (fun b s => b = a ∧ s = r) False where
  sound _ _ heq := by
    cases heq
    exact ⟨r, ⟨rfl, rfl⟩, h⟩
  panics heq := nomatch heq
  fueled heq := nomatch heq
  complete b s hreads := by
    obtain ⟨rfl, rfl⟩ := hreads
    exact ⟨pos, h, rfl⟩
  cuts hcut := hcut.elim

theorem err (e : Error) : Agrees bytes (.error (.err e) : Except Fault (α × Nat))
    (fun _ _ => False) False where
  sound _ _ heq := nomatch heq
  panics heq := nomatch heq
  fueled heq := nomatch heq
  complete _ _ hreads := hreads.elim
  cuts hcut := hcut.elim

theorem fail (m : String) : Agrees bytes (FastJson.fail m : Except Fault (α × Nat))
    (fun _ _ => False) False :=
  err _

theorem panic : Agrees bytes (.error .panic : Except Fault (α × Nat)) (fun _ _ => False) True where
  sound _ _ heq := nomatch heq
  panics _ := trivial
  fueled heq := nomatch heq
  complete _ _ hreads := hreads.elim
  cuts _ := rfl

theorem congr {reads' : α → List Char → Prop} {cut' : Prop} (h : Agrees bytes res reads cut)
    (hreads : ∀ a r, reads' a r ↔ reads a r) (hcut : cut' ↔ cut) :
    Agrees bytes res reads' cut' where
  sound a pos heq := by
    obtain ⟨r, hr, hat⟩ := h.sound a pos heq
    exact ⟨r, (hreads a r).mpr hr, hat⟩
  panics heq := hcut.mpr (h.panics heq)
  fueled := h.fueled
  complete a r hr := h.complete a r ((hreads a r).mp hr)
  cuts hc := h.cuts (hcut.mp hc)

/-- **One reader after another.** -/
theorem bind {f : α × Nat → Except Fault (β × Nat)} {reads' : α → List Char → β → List Char → Prop}
    {cut' : α → List Char → Prop} (h : Agrees bytes res reads cut)
    (hf : ∀ a pos r, reads a r → At bytes pos r →
      Agrees bytes (f (a, pos)) (reads' a r) (cut' a r)) :
    Agrees bytes (res >>= f) (fun b s => ∃ a r, reads a r ∧ reads' a r b s)
      (cut ∨ ∃ a r, reads a r ∧ cut' a r) := by
  cases hres : res with
  | error e =>
    rw [hres] at h
    refine ⟨(fun b p heq => nomatch heq), fun heq => ?_, fun heq => ?_, ?_, ?_⟩
    · cases heq
      exact .inl (h.panics rfl)
    · cases heq
      exact h.fueled rfl
    · intro b s hreads
      obtain ⟨a, r, ha, _⟩ := hreads
      obtain ⟨p, _, heq⟩ := h.complete a r ha
      cases heq
    · intro hcut
      rcases hcut with hcut | ⟨a, r, ha, _⟩
      · have heq := h.cuts hcut
        cases heq
        rfl
      · obtain ⟨p, _, heq⟩ := h.complete a r ha
        cases heq
  | ok x =>
    obtain ⟨a, p⟩ := x
    rw [hres] at h
    obtain ⟨r, ha, hat⟩ := h.sound a p rfl
    have hnext := hf a p r ha hat
    -- the text says nothing else of the first reader
    have hunique a' r' (h' : reads a' r') : a' = a ∧ r' = r := by
      obtain ⟨p', hat', heq⟩ := h.complete a' r' h'
      cases heq
      exact ⟨rfl, hat.unique hat'⟩
    refine ⟨fun b q heq => ?_, fun heq => ?_, hnext.fueled, ?_, ?_⟩
    · obtain ⟨s, hs, hats⟩ := hnext.sound b q heq
      exact ⟨s, ⟨a, r, ha, hs⟩, hats⟩
    · exact .inr ⟨a, r, ha, hnext.panics heq⟩
    · intro b s hreads
      obtain ⟨a', r', ha', hs⟩ := hreads
      obtain ⟨rfl, rfl⟩ := hunique a' r' ha'
      exact hnext.complete b s hs
    · intro hcut
      rcases hcut with hcut | ⟨a', r', ha', hcut⟩
      · have heq := h.cuts hcut
        cases heq
      · obtain ⟨rfl, rfl⟩ := hunique a' r' ha'
        exact hnext.cuts hcut

end Agrees

/-! ## 3. Blanks -/

/-- A blank. -/
def white (c : Char) : Bool := c == ' ' || c == '\t' || c == '\r' || c == '\n'

/-- The text behind its blanks. -/
def dropWs (cs : List Char) : List Char := cs.dropWhile white

variable {c : Char} {b : List UInt8} {s t r w t' out r' : List Char} {n code i : Nat} {lib : StdLib}
  {v : Json}

theorem white_ascii (h : white c = true) : c.toNat < 128 := by
  simp only [white, Bool.or_eq_true, beq_iff_eq] at h
  rcases h with ((rfl | rfl) | rfl) | rfl <;> decide

theorem byte_beq {x : Char} (hc : c.toNat < 128) (hx : x.toNat < 128) :
    (byte c == byte x) = (c == x) := by
  rw [← lead_ascii hc, Bool.eq_iff_iff, beq_iff_eq, beq_iff_eq]
  exact lead_eq_byte_iff hx

theorem isWs_byte (hc : c.toNat < 128) : isWs (byte c) = white c := by
  unfold isWs white
  rw [byte_beq hc (by decide), byte_beq hc (by decide), byte_beq hc (by decide),
    byte_beq hc (by decide)]

theorem isWs_lt {b : UInt8} (h : isWs b = true) : b < 128 := by
  simp only [isWs, Bool.or_eq_true, beq_iff_eq] at h
  rcases h with ((rfl | rfl) | rfl) | rfl <;> decide

theorem At.skipWs (h : At bytes pos cs) : At bytes (FastJson.skipWs bytes pos) (dropWs cs) := by
  have hsplit : cs = cs.takeWhile white ++ dropWs cs := takeWhile_append_dropWhile.symm
  unfold FastJson.skipWs
  rw [h.drop, takeWhile_ascii (fun _ => isWs_lt) (fun _ => isWs_byte) fun _ => white_ascii]
  rw [hsplit] at h
  exact h.after

@[simp] theorem dropWs_dropWs (cs : List Char) : dropWs (dropWs cs) = dropWs cs := by
  unfold dropWs
  rw [dropWhile_idempotent]

theorem length_dropWs_le (cs : List Char) : (dropWs cs).length ≤ cs.length :=
  (dropWhile_suffix _).length_le

/-! ## 4. The pieces of a string -/

/-- What comes next in a string. -/
inductive Lexeme where
  /-- the closing quote, and what is behind it -/
  | close (r : List Char)
  /-- characters of the string, and what is left -/
  | piece (s t : List Char)
  /-- a surrogate pair whose second half is cut off -/
  | cut
  /-- nothing that a string may hold -/
  | bad
  deriving DecidableEq, Repr

/-- Four hexadecimal digits and what is behind them. -/
def hex4 (t : List Char) : Option (Nat × List Char) :=
  if 4 ≤ t.length then (Scanner.fromHex (t.take 4)).map fun n => (n, t.drop 4) else none

/-- A code point that a string may hold by itself. -/
def scalarLexeme (n : Nat) (t : List Char) : Lexeme :=
  match Scanner.charFromU32 n with
  | some c => .piece [c] t
  | none => .bad

/-- The second half of a surrogate pair, behind the `\u`. -/
def lowLexeme (code : Nat) (x : List Char) : Lexeme :=
  if (encode x).length < 4 then .cut
  else
    match hex4 x with
    | some (low, t) =>
      if isLow low then scalarLexeme (0x10000 + (code - 0xD800) * 1024 + (low - 0xDC00)) t
      else .bad
    | none => .bad

/-- Behind `\u`. A surrogate has no meaning by itself. -/
def unicodeLexeme (t : List Char) : Lexeme :=
  match hex4 t with
  | none => .bad
  | some (code, t') =>
    if isHigh code then
      match t' with
      | '\\' :: 'u' :: x => lowLexeme code x
      | _ => .bad
    else scalarLexeme code t'

/-- Behind a backslash. -/
def escapeLexeme : List Char → Lexeme
  | [] => .bad
  | e :: t =>
    if e = 'u' then unicodeLexeme t
    else if e.toNat < 128 then .piece [unescape (byte e)] t
    else .piece ['\\', '\\'] (e :: t)

/-- **The next piece of a string.** -/
def lexeme : List Char → Lexeme
  | [] => .bad
  | c :: t =>
    if c = '"' then .close t
    else if c = '\\' then escapeLexeme t
    else .piece [c] t

/-- **A string up to its closing quote.** -/
inductive Body : List Char → List Char → List Char → Prop where
  | close {cs r : List Char} (h : lexeme cs = .close r) : Body cs [] r
  | step {cs s t b r : List Char} (h : lexeme cs = .piece s t) (hbody : Body t b r) :
      Body cs (s ++ b) r

/-- **A string that is cut inside a surrogate pair.** -/
inductive CutBody : List Char → Prop where
  | here {cs : List Char} (h : lexeme cs = .cut) : CutBody cs
  | step {cs s t : List Char} (h : lexeme cs = .piece s t) (hcut : CutBody t) : CutBody cs

theorem body_of_piece {b : List Char} (h : lexeme cs = .piece s t) :
    Body cs b r ↔ ∃ b', Body t b' r ∧ b = s ++ b' := by
  constructor
  · intro hbody
    cases hbody with
    | close h' => cases h.symm.trans h'
    | step h' hbody =>
      cases h.symm.trans h'
      exact ⟨_, hbody, rfl⟩
  · intro hbody
    obtain ⟨b', hbody, rfl⟩ := hbody
    exact .step h hbody

theorem cutBody_of_piece (h : lexeme cs = .piece s t) : CutBody cs ↔ CutBody t := by
  constructor
  · intro hcut
    cases hcut with
    | here h' => cases h.symm.trans h'
    | step h' hcut =>
      cases h.symm.trans h'
      exact hcut
  · exact .step h

theorem body_of_close {b : List Char} (h : lexeme cs = .close t) :
    Body cs b r ↔ b = [] ∧ r = t := by
  constructor
  · intro hbody
    cases hbody with
    | close h' =>
      cases h.symm.trans h'
      exact ⟨rfl, rfl⟩
    | step h' => cases h.symm.trans h'
  · rintro ⟨rfl, rfl⟩
    exact .close h

theorem not_body {b : List Char} (hc : ∀ t, lexeme cs ≠ .close t)
    (hp : ∀ s t, lexeme cs ≠ .piece s t) : ¬ Body cs b r := by
  intro hbody
  cases hbody with
  | close h => exact hc _ h
  | step h => exact hp _ _ h

theorem cutBody_iff (hp : ∀ s t, lexeme cs ≠ .piece s t) : CutBody cs ↔ lexeme cs = .cut := by
  constructor
  · intro hcut
    cases hcut with
    | here h => exact h
    | step h => exact absurd h (hp _ _)
  · exact .here

/-! ## 5. Reading strings -/

theorem hexDigit_ascii (h : Scanner.hexDigit c = some n) : c.toNat < 128 := by
  unfold Scanner.hexDigit at h
  split_ifs at h with hc hc hc
  all_goals exact lt_of_le_of_lt (Char.le_def.mp hc.2) (by decide)

theorem hexDigits_ascii (h : Scanner.hexDigits w = some n) : ∀ c ∈ w, c.toNat < 128 := by
  unfold Scanner.hexDigits at h
  generalize (some 0) = acc at h
  induction w generalizing acc with
  | nil => exact fun c hc => nomatch hc
  | cons d w ih =>
    rw [foldl_cons] at h
    refine forall_mem_cons.mpr ⟨?_, ih _ h⟩
    cases hd : Scanner.hexDigit d with
    | some m => exact hexDigit_ascii hd
    | none =>
      have hnone : (acc.bind fun n => (Scanner.hexDigit d).map (n * 16 + ·)) = none := by
        cases acc with
        | none => rfl
        | some a => simp [hd]
      rw [hnone, foldl_fixed' fun _ => rfl] at h
      cases h

theorem fromHex_ascii (h : Scanner.fromHex w = some n) : ∀ c ∈ w, c.toNat < 128 := by
  unfold Scanner.fromHex at h
  split at h
  · exact forall_mem_cons.mpr ⟨by decide, hexDigits_ascii h⟩
  · exact hexDigits_ascii h

theorem hex4_eq_some :
    hex4 t = some (n, r) ↔ ∃ w, t = w ++ r ∧ w.length = 4 ∧ Scanner.fromHex w = some n := by
  unfold hex4
  constructor
  · intro h
    split at h
    · rename_i hlen
      obtain ⟨m, hm, heq⟩ := Option.map_eq_some_iff.mp h
      cases heq
      exact ⟨t.take 4, (take_append_drop 4 t).symm, by simp [hlen], hm⟩
    · cases h
  · intro h
    obtain ⟨w, rfl, hlen, hw⟩ := h
    have hle : 4 ≤ (w ++ r).length := by
      rw [length_append]
      omega
    rw [if_pos hle, ← hlen, take_left, drop_left, hw]
    rfl

theorem hexOf_take (h : 4 ≤ (encode t).length) :
    hexOf ((encode t).take 4) = (hex4 t).map Prod.fst := by
  cases hh : hex4 t with
  | some x =>
    obtain ⟨w, rfl, hlen, hw⟩ := hex4_eq_some.mp hh
    have hlen' := length_encode_ascii (fromHex_ascii hw)
    rw [encode_append, ← hlen, ← hlen', take_left, hexOf, decode_eq_some.mpr rfl]
    exact hw
  | none =>
    cases hx : hexOf ((encode t).take 4) with
    | none => rfl
    | some n =>
      obtain ⟨w, hdecode, hw⟩ := Option.bind_eq_some_iff.mp hx
      have hbytes := decode_eq_some.mp hdecode
      have hlen : w.length = 4 := by
        rw [← length_encode_ascii (fromHex_ascii hw), ← hbytes, length_take]
        omega
      have hsplit : encode t = encode w ++ (encode t).drop 4 := by
        rw [← hbytes, take_append_drop]
      obtain ⟨r, rfl, _⟩ := encode_eq_append hsplit
      rw [hex4_eq_some.mpr ⟨w, rfl, hlen, hw⟩] at hh
      cases hh

theorem At.hex4 (h : At bytes pos t) (hhex : hex4 t = some (n, r)) : At bytes (pos + 4) r := by
  obtain ⟨w, rfl, hw, hfrom⟩ := hex4_eq_some.mp hhex
  have hafter := h.after
  rwa [length_encode_ascii (fromHex_ascii hfrom), hw] at hafter

theorem unicodeChar_agrees (h : At bytes pos cs) :
    Agrees bytes (unicodeChar n pos) (fun c r => scalarLexeme n cs = .piece [c] r)
      (scalarLexeme n cs = .cut) := by
  unfold unicodeChar scalarLexeme
  cases Scanner.charFromU32 n with
  | some c => exact (Agrees.ok h).congr (fun a r => by simp [eq_comm]) (by simp)
  | none => exact (Agrees.fail _).congr (fun a r => by simp) (by simp)

theorem charFromU32_high (h : isHigh code = true) : Scanner.charFromU32 code = none := by
  simp only [isHigh, Bool.and_eq_true, decide_eq_true_eq] at h
  unfold Scanner.charFromU32 Nat.isValidChar
  rw [if_neg (by omega)]

theorem unicodePair_agrees (hhigh : isHigh code = true) (h : At bytes (pos + 7) cs) :
    Agrees bytes (unicodePair bytes code pos) (fun c r => lowLexeme code cs = .piece [c] r)
      (lowLexeme code cs = .cut) := by
  have hslice : FastJson.slice bytes (pos + 7) (pos + 11) = _ := h.slice 4
  unfold unicodePair lowLexeme
  rw [hslice]
  by_cases hlen : (encode cs).length < 4
  · rw [if_neg (by omega), if_pos hlen]
    exact Agrees.panic.congr (fun a r => by simp) (by simp)
  · rw [if_pos (by omega), if_neg hlen]
    dsimp only [bind, Except.bind]
    rw [hexOf_take (by omega)]
    cases hhex : hex4 cs with
    | none => exact (Agrees.fail _).congr (fun a r => by simp) (by simp)
    | some x =>
      obtain ⟨low, t⟩ := x
      dsimp only [Option.map_some]
      by_cases hlow : isLow low = true
      · rw [if_pos hlow, if_pos hlow]
        exact unicodeChar_agrees (h.hex4 hhex)
      · rw [if_neg hlow, if_neg hlow, unicodeChar, charFromU32_high hhigh]
        exact (Agrees.fail _).congr (fun a r => by simp) (by simp)

theorem unicodeLexeme_of_not_high (hhex : hex4 t = some (code, t')) (h : isHigh code = false) :
    unicodeLexeme t = scalarLexeme code t' := by
  rw [unicodeLexeme, hhex]
  simp [h]

theorem unicodeLexeme_of_pair {x : List Char} (hhex : hex4 t = some (code, '\\' :: 'u' :: x))
    (h : isHigh code = true) : unicodeLexeme t = lowLexeme code x := by
  rw [unicodeLexeme, hhex]
  simp [h]

theorem unicodeLexeme_of_lone (hhex : hex4 t = some (code, t')) (h : isHigh code = true)
    (hx : ∀ x, t' ≠ '\\' :: 'u' :: x) : unicodeLexeme t = .bad := by
  rw [unicodeLexeme, hhex]
  dsimp only
  rw [if_pos h]
  split
  · exact absurd rfl (hx _)
  · rfl

theorem At.pair_iff (h : At bytes pos t) :
    (bytes[pos]? = some (byte '\\') ∧ bytes[pos + 1]? = some (byte 'u')) ↔
      ∃ x, t = '\\' :: 'u' :: x := by
  rw [h.peek_iff (by decide)]
  constructor
  · intro hb
    obtain ⟨t', rfl⟩ := head?_eq_some_iff.mp hb.1
    have hu := ((h.next (by decide)).peek_iff (by decide)).mp hb.2
    obtain ⟨x, rfl⟩ := head?_eq_some_iff.mp hu
    exact ⟨x, rfl⟩
  · intro hx
    obtain ⟨x, rfl⟩ := hx
    exact ⟨rfl, ((h.next (by decide)).peek_iff (by decide)).mpr rfl⟩

theorem unicode_agrees (h : At bytes pos ('u' :: t)) :
    Agrees bytes (unicode bytes pos) (fun c r => unicodeLexeme t = .piece [c] r)
      (unicodeLexeme t = .cut) := by
  have ht := h.next (by decide)
  have hlength := ht.length
  have hslice : FastJson.slice bytes (pos + 1) (pos + 5) = _ := ht.slice 4
  unfold unicode
  by_cases hlen : (encode t).length < 4
  · have hnone : hex4 t = none := by
      rw [hex4, if_neg]
      have := length_le_encode t
      omega
    rw [if_pos (by omega), unicodeLexeme, hnone]
    exact (Agrees.fail _).congr (fun a r => by simp) (by simp)
  · rw [if_neg (by omega), hslice, if_pos (by omega)]
    dsimp only [bind, Except.bind]
    rw [hexOf_take (by omega)]
    cases hhex : hex4 t with
    | none =>
      rw [unicodeLexeme, hhex]
      exact (Agrees.fail _).congr (fun a r => by simp) (by simp)
    | some x =>
      obtain ⟨code, t'⟩ := x
      have hafter : At bytes (pos + 5) t' := ht.hex4 hhex
      dsimp only [Option.map_some]
      by_cases hhigh : isHigh code = true
      · by_cases hx : ∃ x, t' = '\\' :: 'u' :: x
        · rw [if_pos ⟨hhigh, hafter.pair_iff.mpr hx⟩]
          obtain ⟨x, rfl⟩ := hx
          rw [unicodeLexeme_of_pair hhex hhigh]
          exact unicodePair_agrees hhigh ((hafter.next (by decide)).next (by decide))
        · rw [if_neg fun hc => hx (hafter.pair_iff.mp hc.2),
            unicodeLexeme_of_lone hhex hhigh fun x h => hx ⟨x, h⟩]
          have hscalar := unicodeChar_agrees (n := code) hafter
          rwa [scalarLexeme, charFromU32_high hhigh] at hscalar
      · rw [if_neg fun hc => hhigh hc.1,
          unicodeLexeme_of_not_high hhex (Bool.eq_false_iff.mpr hhigh)]
        exact unicodeChar_agrees hafter

theorem utf8Len_lead (c : Char) : utf8Len (lead c) = (String.utf8EncodeChar c).length := by
  unfold utf8Len lead
  rcases encodeChar_cases c with ⟨h, he⟩ | ⟨h, h', he⟩ | ⟨h, h', he⟩ | ⟨h, h', he⟩
  all_goals
    rw [he]
    simp only [headD_cons, length_cons, length_nil, UInt8.lt_iff_toNat_lt,
      UInt8.le_iff_toNat_le, UInt8.reduceToNat]
    rw [toNat_ofNat_of_lt (by omega)]
  · rw [if_pos h]
  · rw [if_neg (by omega), if_neg (by omega), if_neg (by omega), if_pos (by omega)]
  · rw [if_neg (by omega), if_neg (by omega), if_pos (by omega)]
  · rw [if_neg (by omega), if_pos (by omega)]

/-- With `out` behind it, the reader reads the rest of a string. -/
abbrev AgreesBody (bytes : List UInt8) (res : Except Fault (String × Nat)) (out cs : List Char) :
    Prop :=
  Agrees bytes res (fun str r => ∃ b, Body cs b r ∧ str = String.ofList (out ++ b)) (CutBody cs)

theorem Agrees.piece {res : Except Fault (String × Nat)} (hpiece : lexeme cs = .piece s t)
    (h : AgreesBody bytes res (out ++ s) t) : AgreesBody bytes res out cs := by
  refine h.congr (fun str r => ?_) (cutBody_of_piece hpiece)
  constructor
  · intro hb
    obtain ⟨b, hb, rfl⟩ := hb
    obtain ⟨b', hb', rfl⟩ := (body_of_piece hpiece).mp hb
    exact ⟨b', hb', by rw [append_assoc]⟩
  · intro hb
    obtain ⟨b', hb', rfl⟩ := hb
    exact ⟨s ++ b', (body_of_piece hpiece).mpr ⟨b', hb', rfl⟩, by rw [append_assoc]⟩

theorem Agrees.bad (e : Error) (hbad : lexeme cs = .bad) :
    AgreesBody bytes (.error (.err e)) out cs := by
  have hpiece : ∀ s t, lexeme cs ≠ .piece s t := by simp [hbad]
  refine (Agrees.err e).congr (fun str r => ?_) ?_
  · refine ⟨fun hb => ?_, False.elim⟩
    obtain ⟨b, hb, _⟩ := hb
    exact not_body (by simp [hbad]) hpiece hb
  · rw [cutBody_iff hpiece, hbad]
    simp

theorem scalarLexeme_cases (n : Nat) (t : List Char) :
    (∃ c, scalarLexeme n t = .piece [c] t) ∨ scalarLexeme n t = .bad := by
  unfold scalarLexeme
  cases Scanner.charFromU32 n with
  | some c => exact .inl ⟨c, rfl⟩
  | none => exact .inr rfl

theorem unicodeLexeme_cases (t : List Char) :
    (∃ c r, unicodeLexeme t = .piece [c] r ∧ r <:+ t) ∨ unicodeLexeme t = .cut ∨
      unicodeLexeme t = .bad := by
  cases hhex : hex4 t with
  | none => exact .inr (.inr (by rw [unicodeLexeme, hhex]))
  | some x =>
    obtain ⟨code, t'⟩ := x
    obtain ⟨w, hw, _, _⟩ := hex4_eq_some.mp hhex
    have hsuffix : t' <:+ t := ⟨w, hw.symm⟩
    by_cases hhigh : isHigh code = true
    · by_cases hx : ∃ x, t' = '\\' :: 'u' :: x
      · obtain ⟨x, rfl⟩ := hx
        rw [unicodeLexeme_of_pair hhex hhigh, lowLexeme]
        split
        · exact .inr (.inl rfl)
        · split
          · rename_i low r hlow
            obtain ⟨w', rfl, _, _⟩ := hex4_eq_some.mp hlow
            split
            · rcases scalarLexeme_cases (0x10000 + (code - 0xD800) * 1024 + (low - 0xDC00)) r with
                ⟨c, hc⟩ | hbad
              · refine .inl ⟨c, r, hc, ?_⟩
                exact List.IsSuffix.trans ⟨'\\' :: 'u' :: w', rfl⟩ hsuffix
              · exact .inr (.inr hbad)
            · exact .inr (.inr rfl)
          · exact .inr (.inr rfl)
      · exact .inr (.inr (unicodeLexeme_of_lone hhex hhigh fun x h => hx ⟨x, h⟩))
    · rw [unicodeLexeme_of_not_high hhex (Bool.eq_false_iff.mpr hhigh)]
      rcases scalarLexeme_cases code t' with ⟨c, hc⟩ | hbad
      · exact .inl ⟨c, t', hc, hsuffix⟩
      · exact .inr (.inr hbad)

theorem Agrees.escaped {res : Except Fault (Char × Nat)}
    {f : Char × Nat → Except Fault (String × Nat)} (hlexeme : lexeme cs = unicodeLexeme t)
    (h : Agrees bytes res (fun c r => unicodeLexeme t = .piece [c] r) (unicodeLexeme t = .cut))
    (hf : ∀ c pos r, r.length ≤ t.length → At bytes pos r →
      AgreesBody bytes (f (c, pos)) (out ++ [c]) r) : AgreesBody bytes (res >>= f) out cs := by
  rcases unicodeLexeme_cases t with ⟨c, r, hpiece, hsuffix⟩ | hcut | hbad
  · obtain ⟨pos, hat, hok⟩ := h.complete c r hpiece
    rw [hok]
    exact .piece (hlexeme.trans hpiece) (hf c pos r hsuffix.length_le hat)
  · rw [h.cuts hcut]
    have hnot : ∀ s t, lexeme cs ≠ .piece s t := by simp [hlexeme, hcut]
    refine Agrees.panic.congr (fun str r => ⟨fun hb => ?_, False.elim⟩) ?_
    · obtain ⟨b, hb, _⟩ := hb
      exact not_body (by simp [hlexeme, hcut]) hnot hb
    · rw [cutBody_iff hnot, hlexeme, hcut]
      simp
  · -- neither a character nor a cut: the reader returns an error
    have herr : ∃ e, res = .error (.err e) := by
      cases hres : res with
      | ok x =>
        obtain ⟨r, hr, _⟩ := h.sound x.1 x.2 hres
        cases hbad.symm.trans hr
      | error fault =>
        cases fault with
        | err e => exact ⟨e, rfl⟩
        | panic =>
          have hcut := h.panics hres
          cases hbad.symm.trans hcut
        | fuel => exact absurd hres h.fueled
    obtain ⟨e, rfl⟩ := herr
    exact .bad e (hlexeme.trans hbad)

/-- **The loop reads the string.** -/
theorem stringLoop_agrees (h : At bytes pos cs) (hn : cs.length < n) :
    AgreesBody bytes (stringLoop bytes n out pos) out cs := by
  induction n generalizing pos cs out with
  | zero => exact absurd hn (Nat.not_lt_zero _)
  | succ n ih =>
    cases cs with
    | nil =>
      rw [stringLoop, h.peek_nil]
      exact .bad _ rfl
    | cons c t =>
      have hlen : t.length < n := by
        rw [length_cons] at hn
        omega
      rw [stringLoop, h.peek_cons]
      dsimp only
      by_cases hq : c = '"'
      · subst hq
        have hclose : lexeme ('"' :: t) = .close t := rfl
        refine (Agrees.ok (h.next (by decide))).congr (fun str r => ?_) ?_
        · simp [body_of_close hclose, and_comm]
        · simp [cutBody_iff, hclose]
      · rw [if_neg fun hl => hq ((lead_eq_byte_iff (by decide)).mp hl)]
        by_cases hb : c = '\\'
        · subst hb
          have ht := h.next (by decide)
          cases t with
          | nil =>
            rw [ht.peek_nil]
            exact .bad _ rfl
          | cons e t =>
            rw [ht.peek_cons]
            dsimp only
            rw [length_cons] at hlen
            by_cases hu : e = 'u'
            · subst hu
              exact .escaped rfl (unicode_agrees ht) fun ch p r hr hat =>
                ih hat (by omega)
            · rw [if_neg fun hl => hu ((lead_eq_byte_iff (by decide)).mp hl)]
              by_cases he : e.toNat < 128
              · rw [if_pos (lead_lt_iff.mpr he), lead_ascii he]
                refine .piece ?_ (ih (ht.next he) (by omega))
                simp [lexeme, escapeLexeme, hu, he]
              · rw [if_neg fun hl => he (lead_lt_iff.mp hl)]
                refine .piece ?_ (ih ht (by omega))
                simp [lexeme, escapeLexeme, hu, he]
        · rw [if_neg fun hl => hb ((lead_eq_byte_iff (by decide)).mp hl)]
          have hafter := At.after (a := [c]) h
          have hle := h.length
          rw [encode_cons, length_append] at hle
          have hstop : min (pos + utf8Len (lead c)) bytes.length
              = pos + (encode [c]).length := by
            rw [utf8Len_lead, encode_cons, encode_nil, append_nil]
            omega
          rw [hstop, At.slice_append h]
          dsimp only [bind, Except.bind]
          rw [decode_eq_some.mpr rfl]
          refine .piece ?_ (ih hafter hlen)
          simp [lexeme, hq, hb]

/-- **A string is read up to its closing quote**, and the reader panics exactly if it is cut. -/
theorem string_agrees (h : At bytes pos ('"' :: cs)) :
    Agrees bytes (string bytes pos) (fun str r => ∃ b, Body cs b r ∧ str = String.ofList b)
      (CutBody cs) := by
  have hlen := h.length
  have hle := length_le_encode ('"' :: cs)
  rw [length_cons] at hle
  exact stringLoop_agrees (h.next (by decide)) (by omega)

/-! ## 6. Reading literals -/

/-- A word ends here: at the end, or before a comma, a closing bracket or a blank. -/
def ends (r : List Char) : Bool :=
  match r with
  | [] => true
  | c :: _ => c == ',' || c == '\x7d' || c == ']' || white c

/-- **A value without structure**: a word, or a number. -/
inductive Literal (lib : StdLib) : List Char → Json → List Char → Prop where
  | word {w r : List Char} {v : Json} (hw : (encode w, v) ∈ tokens) (hr : ends r = true) :
      Literal lib (w ++ r) v r
  | number {w r : List Char} (hne : w ≠ [])
      (hend : numberEnd (encode (w ++ r)) = (encode w).length) :
      Literal lib (w ++ r) (numberValue lib (String.ofList w)) r

theorem token_eq_encode {t : List UInt8 × Json} (h : t ∈ tokens) : ∃ w, t.1 = encode w := by
  simp only [tokens, mem_cons, not_mem_nil, or_false] at h
  rcases h with rfl | rfl | rfl | rfl | rfl | rfl <;> exact ⟨_, rfl⟩

theorem token_unique {t t' : List UInt8 × Json} (h : t ∈ tokens) (h' : t' ∈ tokens)
    (hhead : t.1.head? = t'.1.head?) : t = t' := by
  simp only [tokens, mem_cons, not_mem_nil, or_false] at h h'
  rcases h with rfl | rfl | rfl | rfl | rfl | rfl <;>
    rcases h' with rfl | rfl | rfl | rfl | rfl | rfl <;>
    first
    | rfl
    | exact absurd hhead (by decide)

theorem token_ne_nil : ∀ t ∈ tokens, t.1 ≠ [] := by decide

theorem head_token {w r : List Char} {v : Json} (hw : (encode w, v) ∈ tokens) :
    (encode (w ++ r)).head? = (encode w).head? := by
  rw [encode_append, head?_append_of_ne_nil _ (token_ne_nil _ hw)]

theorem numberEnd_token {t : List UInt8 × Json} (h : t ∈ tokens) (x : List UInt8) :
    numberEnd (t.1 ++ x) = 0 := by
  simp only [tokens, mem_cons, not_mem_nil, or_false] at h
  rcases h with rfl | rfl | rfl | rfl | rfl | rfl <;> rfl

theorem isTokenBoundary_byte (hc : c.toNat < 128) (r : List Char) :
    isTokenBoundary (byte c) = ends (c :: r) := by
  unfold isTokenBoundary ends
  rw [byte_beq hc (by decide), byte_beq hc (by decide), byte_beq hc (by decide), isWs_byte hc]

theorem ends_ascii (h : ends (c :: r) = true) : c.toNat < 128 := by
  simp only [ends, Bool.or_eq_true, beq_iff_eq] at h
  rcases h with ((rfl | rfl) | rfl) | h
  · decide
  · decide
  · decide
  · exact white_ascii h

theorem At.tokenEnds (h : At bytes (pos + n) r) : FastJson.tokenEnds bytes pos n = ends r := by
  have hlen := h.length
  unfold FastJson.tokenEnds
  cases r with
  | nil =>
    have hsub : bytes.length - pos = n := by
      rw [hlen]
      simp
    simp [h.peek_nil, hsub, ends]
  | cons c r =>
    by_cases hc : c.toNat < 128
    · rw [if_pos ⟨h.boundary, (h.next hc).boundary⟩, h.peek_cons, lead_ascii hc]
      exact isTokenBoundary_byte hc r
    · -- a longer character is not a part of the text up to its second byte
      obtain ⟨b, bs, hb, _, hcont⟩ := encodeChar_eq_cons c
      have hmore : isCharBoundary bytes (pos + n + 1) = false := by
        cases bs with
        | nil => exact absurd (ascii_of_length hb) hc
        | cons x xs =>
          have hget := h.getElem? 1
          rw [encode_cons, hb] at hget
          unfold isCharBoundary
          rw [hget]
          simp [hcont x mem_cons_self]
      have hsub : bytes.length - pos ≠ n := by
        have hpos := length_encodeChar_pos c
        rw [encode_cons, length_append] at hlen
        omega
      have hends : ends (c :: r) = false := by
        cases hends : ends (c :: r) with
        | false => rfl
        | true => exact absurd (ends_ascii hends) hc
      simp [hmore, hsub, hends]

theorem At.tokenFits (h : At bytes pos cs) (w : List Char) :
    FastJson.tokenFits bytes pos (encode w) = true ↔ ∃ r, cs = w ++ r ∧ ends r = true := by
  unfold FastJson.tokenFits
  rw [Bool.and_eq_true, h.drop, isPrefixOf_iff_prefix]
  constructor
  · intro hfits
    obtain ⟨hends, x, hx⟩ := hfits
    obtain ⟨r, rfl, _⟩ := encode_eq_append hx.symm
    rw [h.after.tokenEnds] at hends
    exact ⟨r, rfl, hends⟩
  · intro hr
    obtain ⟨r, rfl, hr⟩ := hr
    rw [h.after.tokenEnds, encode_append]
    exact ⟨hr, prefix_append _ _⟩

/-- Up to here the bytes are ASCII. -/
def AsciiTo (b : List UInt8) (i : Nat) : Prop := i ≤ b.length ∧ ∀ x ∈ b.take i, x < 128

theorem AsciiTo.zero (b : List UInt8) : AsciiTo b 0 := ⟨Nat.zero_le _, fun _ h => nomatch h⟩

theorem AsciiTo.next {x : UInt8} (h : AsciiTo b i) (hx : b[i]? = some x) (hlt : x < 128) :
    AsciiTo b (i + 1) := by
  obtain ⟨hi, hget⟩ := List.getElem?_eq_some_iff.mp hx
  refine ⟨hi, fun y hy => ?_⟩
  rw [take_add_one, hx, mem_append] at hy
  rcases hy with hy | hy
  · exact h.2 y hy
  · cases mem_singleton.mp hy
    exact hlt

theorem isDigit_lt {b : UInt8} (h : isDigit b = true) : b < 128 := by
  simp only [isDigit, Bool.and_eq_true, decide_eq_true_eq] at h
  exact Std.lt_of_le_of_lt h.2 (by decide)

theorem AsciiTo.digits (h : AsciiTo b i) : AsciiTo b (digitsEnd b i) := by
  have htake : (b.drop i).takeWhile isDigit <+: b.drop i := takeWhile_prefix _
  refine ⟨?_, fun x hx => ?_⟩
  · have hlen := htake.length_le
    have hi := h.1
    rw [length_drop] at hlen
    unfold digitsEnd
    omega
  · unfold digitsEnd at hx
    rw [take_add, ← prefix_iff_eq_take.mp htake, mem_append] at hx
    rcases hx with hx | hx
    · exact h.2 x hx
    · exact isDigit_lt (mem_takeWhile_imp hx)

theorem AsciiTo.sign (h : AsciiTo b i) : AsciiTo b (if isSign b[i]? then i + 1 else i) := by
  split
  · rename_i hs
    simp only [isSign, Bool.or_eq_true, beq_iff_eq] at hs
    rcases hs with hs | hs <;> exact h.next hs (by decide)
  · exact h

theorem AsciiTo.fraction (h : AsciiTo b i) : AsciiTo b (fractionEnd b i) := by
  unfold fractionEnd
  split
  · rename_i hdot
    exact (h.next hdot.1 (by decide)).digits
  · exact h

theorem AsciiTo.exponent (h : AsciiTo b i) : AsciiTo b (exponentEnd b i) := by
  unfold exponentEnd
  split
  · rename_i he
    have hnext : AsciiTo b (i + 1) := by
      rcases he with he | he <;> exact h.next he (by decide)
    have hsign : AsciiTo b (if isSign b[i + 1]? then i + 2 else i + 1) := hnext.sign
    generalize (if isSign b[i + 1]? then i + 2 else i + 1) = j at hsign
    dsimp only
    split
    · exact hsign.digits
    · exact h
  · exact h

/-- **A number is ASCII.** -/
theorem numberEnd_ascii (b : List UInt8) : AsciiTo b (numberEnd b) := by
  unfold numberEnd
  have hsign : AsciiTo b (if isSign b[0]? then 1 else 0) := (AsciiTo.zero b).sign
  generalize (if isSign b[0]? then 1 else 0) = start at hsign
  dsimp only
  split
  · exact AsciiTo.zero b
  · exact hsign.digits.fraction.exponent

theorem literal_of_word {v' : Json} (hw : (encode w, v) ∈ tokens) (h : Literal lib (w ++ r) v' r') :
    v' = v ∧ r' = r := by
  generalize hcs : w ++ r = cs at h
  cases h with
  | @word w' r' v' hw' hr' =>
    have heq := token_unique hw hw' (by rw [← head_token hw, hcs, head_token hw'])
    cases encode_injective (Prod.ext_iff.mp heq).1
    exact ⟨(Prod.ext_iff.mp heq).2.symm, (append_cancel_left hcs).symm⟩
  | @number w' r' hne hend =>
    rw [← hcs, encode_append, numberEnd_token hw] at hend
    exact absurd (nil_of_length_encode hend.symm) hne

theorem literal_of_number (hne : w ≠ []) (hend : numberEnd (encode (w ++ r)) = (encode w).length)
    (h : Literal lib (w ++ r) v r') : v = numberValue lib (String.ofList w) ∧ r' = r := by
  generalize hcs : w ++ r = cs at h hend
  cases h with
  | word hw =>
    rw [encode_append, numberEnd_token hw] at hend
    exact absurd (nil_of_length_encode hend.symm) hne
  | @number w' r' _ hend' =>
    have hlen : (encode w).length = (encode w').length := by rw [← hend, hend']
    have henc : encode w ++ encode r = encode w' ++ encode r' := by
      rw [← encode_append, ← encode_append, hcs]
    obtain ⟨hw, hr⟩ := append_inj henc hlen
    cases encode_injective hw
    cases encode_injective hr
    exact ⟨rfl, rfl⟩

/-- **The parser reads a literal as the text says.** -/
theorem literal_agrees (lib : StdLib) (h : At bytes pos cs) :
    Agrees bytes (literal lib bytes pos) (Literal lib cs) False := by
  unfold literal
  rw [if_neg (by rw [h.boundary]; decide)]
  cases hfind : tokens.find? fun t => FastJson.tokenFits bytes pos t.1 with
  | some t =>
    have hmem := mem_of_find?_eq_some hfind
    obtain ⟨w, hw⟩ := token_eq_encode hmem
    have hfits := find?_some hfind
    rw [hw] at hfits
    obtain ⟨r, rfl, hr⟩ := (h.tokenFits w).mp hfits
    have hword : (encode w, t.2) ∈ tokens := by
      rw [← hw]
      exact hmem
    dsimp only
    rw [hw]
    refine (Agrees.ok h.after).congr (fun v r' => ⟨literal_of_word hword, ?_⟩) Iff.rfl
    intro heq
    obtain ⟨rfl, rfl⟩ := heq
    exact .word hword hr
  | none =>
    have hnone {w r : List Char} {v : Json} (hw : (encode w, v) ∈ tokens) hr
        hcs : False :=
      find?_eq_none.mp hfind _ hw ((h.tokenFits w).mpr ⟨r, hcs, hr⟩)
    rw [h.drop]
    by_cases hzero : numberEnd (encode cs) = 0
    · rw [if_pos hzero]
      refine (Agrees.err _).congr (fun v r => ⟨fun hlit => ?_, False.elim⟩) Iff.rfl
      cases hlit with
      | word hw hr => exact hnone hw hr rfl
      | number hne hend => exact hne (nil_of_length_encode (hend.symm.trans hzero))
    · rw [if_neg hzero]
      obtain ⟨hle, hascii⟩ := numberEnd_ascii (encode cs)
      obtain ⟨w, r, rfl, hw⟩ := exists_of_take_ascii hle hascii
      have hend : numberEnd (encode (w ++ r)) = (encode w).length := by
        rw [hw, length_take, min_eq_left hle]
      have hne : w ≠ [] := by
        intro hnil
        rw [hend, hnil] at hzero
        exact hzero rfl
      rw [hend, h.textSlice h.after]
      refine (Agrees.ok h.after).congr (fun v r' => ⟨literal_of_number hne hend, ?_⟩) Iff.rfl
      intro heq
      obtain ⟨rfl, rfl⟩ := heq
      exact .number hne hend

end RocketMQ.FastJson
