/-
  File:      RocketMQ/Compress/NodeXxh32.lean
  Subject:   The checksum of LZ4 frames in the Node port (`common/compress.ts`).

  The Node port multiplies a lane before it rotates it, the Go port rotates first. The stripes are
  the only part that does so, and a string without a stripe has fewer than 16 bytes.

  * `Node.xxh32`: with the numbers and the operators of JavaScript;
  * `tail_paired`: behind the stripes the two ports agree exactly if they agreed before;
  * `xxh32_ports_agree_iff`: **the ports agree on all strings of a length exactly if it is below
    16**.
-/
import RocketMQ.Compress.Xxh32

namespace RocketMQ.Compress

open List Outcome Xxh32

namespace Node

/-! ## 1. The checksum of the Node port -/

/-- `ToUint32`. The numbers here are integers below `2 ^ 53`, which a double holds exactly. -/
def toUint32 (x : Int) : UInt32 := ⟨BitVec.ofInt 32 x⟩

/-- The value of an operator that returns 32 bits with a sign. -/
def signed (u : UInt32) : Int := u.toBitVec.toInt

def imul (x y : Int) : Int := signed (toUint32 x * toUint32 y)
def bitOr (x y : Int) : Int := signed (toUint32 x ||| toUint32 y)
def bitXor (x y : Int) : Int := signed (toUint32 x ^^^ toUint32 y)
def shl (x : Int) (k : UInt32) : Int := signed (toUint32 x <<< k)

/-- The operator `>>>`. -/
def ushr (x : Int) (k : UInt32) : Int := (toUint32 x >>> k).toNat

/-- A lane `(v << k) | (v >>> (32 - k))`. -/
def rotate (v : Int) (k : UInt32) : Int := bitOr (shl v k) (ushr v (32 - k))

def P1 : Int := 2654435761
def P2 : Int := 2246822519
def P3 : Int := 3266489917
def P4 : Int := 668265263
def P5 : Int := 374761393

variable {ε : Type} (data : List UInt8)

def readUInt32LE (i : Nat) : Outcome ε Int := do
  let u ← uintAt 4 data i
  return (u : Int)

def accumulate (lane v : Int) : Int := ushr (rotate (imul (imul lane P2 + v) P1) 13) 0

structure Lanes where
  i : Nat
  v1 : Int
  v2 : Int
  v3 : Int
  v4 : Int

def stripe (limit : Nat) (s : Lanes) : Outcome ε (Lanes ⊕ Lanes) := do
  let l1 ← readUInt32LE data s.i
  let l2 ← readUInt32LE data (s.i + 4)
  let l3 ← readUInt32LE data (s.i + 8)
  let l4 ← readUInt32LE data (s.i + 12)
  let next : Lanes := ⟨s.i + 16, accumulate l1 s.v1, accumulate l2 s.v2, accumulate l3 s.v3,
    accumulate l4 s.v4⟩
  return if next.i ≤ limit then .inl next else .inr next

def stripes (seed : Int) : Outcome ε (Nat × Int) :=
  if data.length ≥ 16 then do
    let start : Lanes := ⟨0, ushr (seed + P1 + P2) 0, ushr (seed + P2) 0, ushr seed 0,
      ushr (seed - P1) 0⟩
    let s ← loop (stripe data (data.length - 16)) (data.length + 1) start
    return (s.i, ushr (rotate s.v1 1 + rotate s.v2 7 + rotate s.v3 12 + rotate s.v4 18) 0)
  else return (0, ushr (seed + P5) 0)

def group (s : Nat × Int) : Outcome ε ((Nat × Int) ⊕ (Nat × Int)) :=
  if s.1 + 4 ≤ data.length then do
    let l ← readUInt32LE data s.1
    return .inl (s.1 + 4, imul (ushr (rotate (ushr (s.2 + imul l P3) 0) 17) 0) P4)
  else return .inr s

def single (s : Nat × Int) : Outcome ε ((Nat × Int) ⊕ Int) :=
  if s.1 < data.length then do
    let b ← index data s.1
    return .inl (s.1 + 1,
      imul (ushr (rotate (ushr (s.2 + imul (b.toNat : Int) P5) 0) 11) 0) P1)
  else return .inr s.2

def avalanche (h : Int) : Int :=
  let h := bitXor h (ushr h 15)
  let h := imul h P2
  let h := bitXor h (ushr h 13)
  let h := imul h P3
  let h := bitXor h (ushr h 16)
  ushr h 0

/-- `xxh32` of `compress.ts`. -/
def xxh32 (seed : Int) : Outcome ε Int := do
  let (i, h) ← stripes data seed
  let (i, h) ← loop (group data) (data.length + 1) (i, ushr (h + data.length) 0)
  let h ← loop (single data) (data.length + 1) (i, h)
  return avalanche h

/-! ## 2. The operators are those of `uint32` -/

theorem toUint32_toNat (u : UInt32) : toUint32 u.toNat = u := by
  unfold toUint32
  rw [BitVec.ofInt_natCast]
  exact UInt32.ofNat_toNat

theorem toUint32_signed (u : UInt32) : toUint32 (signed u) = u :=
  UInt32.eq_of_toBitVec_eq BitVec.ofInt_toInt

theorem toUint32_add (x y : Int) : toUint32 (x + y) = toUint32 x + toUint32 y :=
  UInt32.eq_of_toBitVec_eq (BitVec.ofInt_add x y)

@[simp] theorem toUint32_imul (x y : Int) : toUint32 (imul x y) = toUint32 x * toUint32 y :=
  toUint32_signed _

@[simp] theorem toUint32_bitXor (x y : Int) : toUint32 (bitXor x y) = toUint32 x ^^^ toUint32 y :=
  toUint32_signed _

@[simp] theorem toUint32_ushr (x : Int) (k : UInt32) : toUint32 (ushr x k) = toUint32 x >>> k :=
  toUint32_toNat _

@[simp] theorem toUint32_rotate (v : Int) (k : UInt32) :
    toUint32 (rotate v k) = rotateLeft32 (toUint32 v) k := by
  rw [rotate, bitOr, toUint32_signed, shl, toUint32_signed, toUint32_ushr]
  rfl

end Node

/-! ## 3. No step of the tail loses anything -/

variable {x y k p h : UInt32} {r i : Nat}

theorem rotateLeft_injective {x y : BitVec 32} (hr : r < 32) (heq : x.rotateLeft r = y.rotateLeft r) :
    x = y := by
  have hbit : ∀ z : BitVec 32, ∀ i < 32,
      z.getLsbD i = (z.rotateLeft r).getLsbD ((i + r) % 32) := by
    intro z i hi
    rw [BitVec.getLsbD_rotateLeft, Nat.mod_eq_of_lt hr]
    by_cases h : i + r < 32
    · rw [Nat.mod_eq_of_lt h]
      simp [h]
    · have hmod : (i + r) % 32 = i + r - 32 := by omega
      rw [hmod, show 32 - r + (i + r - 32) = i by omega]
      simp [show i + r - 32 < r by omega]
  refine BitVec.eq_of_getLsbD_eq fun i hi => ?_
  rw [hbit x i hi, hbit y i hi, heq]

theorem xorShift_injective (hk : 0 < k.toNat % 32) (heq : x ^^^ x >>> k = y ^^^ y >>> k) :
    x = y := by
  -- from the highest bit down: the bit that is mixed in is higher
  have hbit : ∀ n i, 32 ≤ i + n → x.toBitVec.getLsbD i = y.toBitVec.getLsbD i := by
    intro n
    induction n with
    | zero =>
      intro i hi
      rw [BitVec.getLsbD_of_ge _ i hi, BitVec.getLsbD_of_ge _ i hi]
    | succ n ih =>
      intro i hi
      have hi := congrArg (·.toBitVec.getLsbD i) heq
      simpa [ih (k.toNat % 32 + i) (by omega)] using hi
  exact UInt32.eq_of_toBitVec_eq (BitVec.eq_of_getLsbD_eq fun i _ => hbit 32 i (by omega))

theorem mul_injective (q : UInt32) (hinv : p * q = 1) (heq : x * p = y * p) : x = y := by
  have h := congrArg (· * q) heq
  simpa [UInt32.mul_assoc, hinv] using h

theorem avalanche_injective (heq : avalanche x = avalanche y) : x = y := by
  have h3 := mul_injective 2828982549 (by decide) (xorShift_injective (by decide) heq)
  have h2 := mul_injective 3066638151 (by decide) (xorShift_injective (by decide) h3)
  exact xorShift_injective (by decide) h2

/-- A turn of one of the loops behind the stripes. -/
theorem mix_injective {d : UInt32} (q : UInt32) (hinv : p * q = 1) (hr : r < 32)
    (hk : ∀ z, (rotateLeft32 z k).toBitVec = z.toBitVec.rotateLeft r) :
    rotateLeft32 (x + d) k * p = rotateLeft32 (y + d) k * p ↔ x = y := by
  refine ⟨fun heq => ?_, fun heq => by rw [heq]⟩
  have h := congrArg UInt32.toBitVec (mul_injective q hinv heq)
  rw [hk, hk] at h
  have hsum := UInt32.eq_of_toBitVec_eq (rotateLeft_injective hr h)
  have hback := congrArg (· - d) hsum
  simpa using hback

/-! ## 4. Behind the stripes -/

variable {ε : Type} {data : List UInt8}

theorem lane_both (h : i + 4 ≤ data.length) :
    Both (fun l x => Node.toUint32 x = l) (lane data i : Outcome ε UInt32)
      (Node.readUInt32LE data i) := by
  unfold lane Node.readUInt32LE
  rw [uintAt_eq h]
  exact .value (UInt32.eq_of_toBitVec_eq (BitVec.ofInt_natCast ..))

theorem byte_toUint32 (b : UInt8) : Node.toUint32 (b.toNat : Int) = b.toUInt32 := by
  rw [← UInt8.toNat_toUInt32, Node.toUint32_toNat]

theorem Node.avalanche_eq (x : Int) :
    Node.avalanche x = ((Compress.Xxh32.avalanche (Node.toUint32 x)).toNat : Int) := by
  unfold Node.avalanche
  rw [ushr]
  simp only [toUint32_bitXor, toUint32_ushr, toUint32_imul, UInt32.shiftRight_zero]
  rfl

/-- **The rest of the checksum is the same exactly if it begins with the same.** -/
theorem tail_both (data : List UInt8) (i : Nat) {x : Int} {c : Prop} (hc : Node.toUint32 x = h ↔ c) :
    Both (fun u v => v = (u.toNat : Int) ↔ c)
      (loop (group data) (data.length + 1) (i, h) >>= fun s =>
        loop (single data) (data.length + 1) s >>= fun h => (ok (avalanche h) : Outcome ε UInt32))
      (loop (Node.group data) (data.length + 1) (i, x) >>= fun s =>
        loop (Node.single data) (data.length + 1) s >>= fun h => ok (Node.avalanche h)) := by
  refine Both.bind (R := fun s t => t.1 = s.1 ∧ (Node.toUint32 t.2 = s.2 ↔ c))
    (Both.loop (R := fun s t => t.1 = s.1 ∧ (Node.toUint32 t.2 = s.2 ↔ c))
      (fun s => data.length - s.1) ?_ ⟨rfl, hc⟩ (by simp only; omega)) ?_
  · rintro ⟨i, h⟩ ⟨j, x⟩ ⟨hij, hc⟩
    obtain rfl : j = i := hij
    unfold group Node.group
    by_cases hi : j + 4 ≤ data.length
    · simp only [if_pos hi]
      refine Both.bind (lane_both hi) fun l y hl => .value (.inl ⟨⟨rfl, ?_⟩, by simp only; omega⟩)
      rw [← hc, ← hl]
      simp only [Node.toUint32_imul, Node.toUint32_ushr, Node.toUint32_rotate, Node.toUint32_add,
        UInt32.shiftRight_zero]
      exact mix_injective 2701016015 (by decide) (by decide) (fun _ => rfl)
    · simp only [if_neg hi]
      exact .value (.inr ⟨rfl, hc⟩)
  · rintro s t hst
    refine Both.bind (R := fun h x => Node.toUint32 x = h ↔ c)
      (Both.loop (R := fun s t => t.1 = s.1 ∧ (Node.toUint32 t.2 = s.2 ↔ c))
        (fun s => data.length - s.1) ?_ hst (by omega)) ?_
    · rintro ⟨i, h⟩ ⟨j, x⟩ ⟨hij, hc⟩
      obtain rfl : j = i := hij
      unfold single Node.single
      by_cases hi : j < data.length
      · simp only [if_pos hi, index_eq (getElem?_eq_getElem hi)]
        refine .value (.inl ⟨⟨rfl, ?_⟩, by simp only; omega⟩)
        rw [← hc]
        simp only [Node.toUint32_imul, Node.toUint32_ushr, Node.toUint32_rotate,
          Node.toUint32_add, UInt32.shiftRight_zero, byte_toUint32]
        exact mix_injective 244002641 (by decide) (by decide) (fun _ => rfl)
      · simp only [if_neg hi]
        exact .value (.inr hc)
    · intro h x hc
      refine .value ?_
      rw [← hc, Node.avalanche_eq, Nat.cast_inj, UInt32.toNat_inj]
      exact ⟨avalanche_injective, fun heq => by rw [heq]⟩

/-! ## 5. One lane that is not zero -/

/-- Zeros, but for one byte. -/
def marked (n p : Nat) (b : UInt8) : List UInt8 := (List.replicate n 0).set p b

section Marked

variable {n p i : Nat} {b : UInt8}

theorem length_marked : (marked n p b).length = n := by simp [marked]

theorem marked_zero (hi : i + 4 ≤ n) (hmod : i % 4 = p % 4) (hne : i ≠ p) :
    (uintAt 4 (marked n p b) i : Outcome ε Nat) = ok 0 := by
  rw [uintAt_eq (by simpa [marked] using hi), marked, drop_set]
  split
  · rw [drop_replicate, take_replicate, Nat.min_eq_left (by omega)]
    rfl
  · rw [take_set, drop_replicate, take_replicate, Nat.min_eq_left (by omega),
      set_eq_of_length_le (by rw [length_replicate]; omega)]
    rfl

theorem marked_self (hp : p + 4 ≤ n) :
    (uintAt 4 (marked n p b) p : Outcome ε Nat) = ok b.toNat := by
  rw [uintAt_eq (by simpa [marked] using hp), marked, drop_set, if_neg (by omega),
    take_set, drop_replicate, take_replicate, Nat.min_eq_left (by omega),
    Nat.sub_self]
  exact congrArg ok (Binary.littleNumber_cons b [0, 0, 0])

/-- The Go port: the third lane of the last stripe is added at the end. -/
theorem stripes_marked (hp : p % 16 = 8) (hn : p + 8 ≤ n) (hlast : n < p + 24) :
    Both (fun s t => s.1 = p + 8 ∧ t = (p + 8, s.2 + rotateLeft32 (accumulate 1 0) 12))
      (stripes (marked n p 0) 0 : Outcome ε (Nat × UInt32)) (stripes (marked n p 1) 0) := by
  unfold stripes
  rw [length_marked, length_marked, if_pos (by omega), if_pos (by omega)]
  refine Both.bind (R := fun s t => t = { s with v3 := accumulate 1 0 } ∧ s.v3 = 0 ∧ s.i = p + 8)
    (Both.loop (R := fun s t => t = s ∧ s.v3 = 0 ∧ s.i % 16 = 0 ∧ s.i + 8 ≤ p)
      (fun s => n - s.i) ?_ ⟨rfl, rfl, rfl, by simp only; omega⟩ (by simp only; omega)) ?_
  · rintro _ s ⟨rfl, hzero, hi, hle⟩
    unfold stripe lane
    rw [hzero]
    by_cases hhere : s.i + 8 = p
    · subst hhere
      simp (disch := omega) only [marked_zero, marked_self, ok_bind, pure_eq, if_pos]
      exact .value (.inr ⟨rfl, rfl, rfl⟩)
    · simp (disch := omega) only [marked_zero, ok_bind, pure_eq, if_neg]
      exact .value (.inl ⟨⟨rfl, rfl, by simp only; omega, by simp only; omega⟩,
        by simp only; omega⟩)
  · rintro s _ ⟨rfl, hzero, hi⟩
    refine .value ⟨hi, Prod.ext hi ?_⟩
    simp only [hzero, show rotateLeft32 0 12 = 0 from rfl, UInt32.add_zero]
    ac_rfl

/-- The Node port: so it is there, with another value. -/
theorem Node.stripes_marked (hp : p % 16 = 8) (hn : p + 8 ≤ n) (hlast : n < p + 24) :
    Both (fun s t => s.1 = p + 8 ∧ t.1 = p + 8 ∧
        toUint32 t.2 = toUint32 s.2 + rotateLeft32 (toUint32 (accumulate 1 0)) 12)
      (stripes (marked n p 0) 0 : Outcome ε (Nat × Int)) (stripes (marked n p 1) 0) := by
  have hacc : accumulate 0 0 = 0 := by decide
  unfold stripes
  rw [length_marked, length_marked, if_pos (by omega), if_pos (by omega)]
  refine Both.bind (R := fun s t => t = { s with v3 := accumulate 1 0 } ∧ s.v3 = 0 ∧ s.i = p + 8)
    (Both.loop (R := fun s t => t = s ∧ s.v3 = 0 ∧ s.i % 16 = 0 ∧ s.i + 8 ≤ p)
      (fun s => n - s.i) ?_ ⟨rfl, rfl, rfl, by simp only; omega⟩ (by simp only; omega)) ?_
  · rintro _ s ⟨rfl, hzero, hi, hle⟩
    unfold stripe readUInt32LE
    rw [hzero]
    by_cases hhere : s.i + 8 = p
    · subst hhere
      simp (disch := omega) only [marked_zero, marked_self, ok_bind, pure_eq, if_neg]
      exact .value (.inr ⟨rfl, hacc, rfl⟩)
    · simp (disch := omega) only [marked_zero, ok_bind, pure_eq, if_pos]
      exact .value (.inl ⟨⟨rfl, hacc, by simp only; omega, by simp only; omega⟩,
        by simp only; omega⟩)
  · rintro s _ ⟨rfl, hzero, hi⟩
    refine .value ⟨hi, hi, ?_⟩
    simp only [hzero, toUint32_ushr, toUint32_add, toUint32_rotate, UInt32.shiftRight_zero,
      show rotateLeft32 (toUint32 0) 12 = 0 from rfl, UInt32.add_zero]
    ac_rfl

end Marked

/-! ## 6. The two ports -/

/-- Both ports return a checksum, and it is the same number. -/
def Agree (data : List UInt8) : Prop :=
  ∃ h : UInt32, (xxh32 data 0 : Outcome DecodeError UInt32) = ok h ∧
    (Node.xxh32 data 0 : Outcome DecodeError Int) = ok (h.toNat : Int)

theorem agree_iff {x : Int} (hgo : (stripes data 0 : Outcome DecodeError _) = ok (i, h))
    (hnode : (Node.stripes data 0 : Outcome DecodeError _) = ok (i, x)) :
    Agree data ↔ Node.toUint32 x = h := by
  have hstart : Node.toUint32 (Node.ushr (x + data.length) 0) = h + UInt32.ofNat data.length ↔
      Node.toUint32 x = h := by
    have hlen : Node.toUint32 (data.length : Int) = UInt32.ofNat data.length :=
      UInt32.eq_of_toBitVec_eq (BitVec.ofInt_natCast ..)
    rw [Node.toUint32_ushr, UInt32.shiftRight_zero, Node.toUint32_add, hlen, UInt32.add_left_inj]
  obtain ⟨u, v, hu, hv, hiff⟩ := (tail_both (ε := DecodeError) data i hstart).exists
  unfold Agree xxh32 Node.xxh32
  rw [hgo, hnode, ← hiff]
  refine ⟨?_, fun heq => ⟨u, hu, hv.trans (congrArg ok heq)⟩⟩
  rintro ⟨h', hu', hv'⟩
  cases hu.symm.trans hu'
  cases hv.symm.trans hv'
  rfl

/-- **The ports agree on all strings of a length exactly if it is below 16**, which is the length of
a stripe. -/
theorem xxh32_ports_agree_iff (n : Nat) : (∀ data, data.length = n → Agree data) ↔ n < 16 := by
  constructor
  · intro hall
    by_contra hge
    have hp : (n / 16 * 16 - 8) % 16 = 8 := by omega
    obtain ⟨⟨_, h⟩, _, hg0, hg1, rfl, rfl⟩ :=
      (stripes_marked (ε := DecodeError) (n := n) hp (by omega) (by omega)).exists
    obtain ⟨⟨_, x⟩, ⟨_, y⟩, hn0, hn1, rfl, rfl, hy⟩ :=
      (Node.stripes_marked (ε := DecodeError) (n := n) hp (by omega) (by omega)).exists
    have h0 := (agree_iff hg0 hn0).mp (hall _ length_marked)
    have h1 := (agree_iff hg1 hn1).mp (hall _ length_marked)
    rw [hy, h0, UInt32.add_right_inj] at h1
    exact absurd h1 (by decide)
  · rintro hlt data rfl
    have hshort : ¬ data.length ≥ 16 := by omega
    refine (agree_iff (i := 0) (h := p5) (x := Node.P5) ?_ ?_).mpr (by decide)
    · rw [stripes, if_neg hshort]
      rfl
    · rw [Node.stripes, if_neg hshort]
      rfl

/-- **Sixteen zeros have two checksums.** -/
theorem xxh32_ports_differ :
    (xxh32 (List.replicate 16 0) 0 : Outcome DecodeError UInt32) = ok 2382506810 ∧
    (Node.xxh32 (List.replicate 16 0) 0 : Outcome DecodeError Int) = ok 2236159302 := by
  decide +kernel

end RocketMQ.Compress
