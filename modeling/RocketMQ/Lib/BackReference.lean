/-
  File:      RocketMQ/Lib/BackReference.lean
  Subject:   Lists that are continued by a copy out of themselves.

  * `Extends off n out out'`: `out'` is `out` and `n` elements more, each the same as the one `off`
    places before it; the copy may overlap what it writes;
  * `Extends.take_succ`: **the next element of the copy stands in what has been written so far**;
  * `extends_of_repeat`: a part of a list that repeats an earlier part is such a copy.
-/
import Mathlib

namespace BackReference

open List

variable {α : Type} {off n : Nat} {out out' : List α}

structure Extends (off n : Nat) (out out' : List α) : Prop where
  length : out'.length = out.length + n
  start : out'.take out.length = out
  back : ∀ k < n, out'[out.length + k]? = out'[out.length + k - off]?

theorem Extends.take_succ (h : Extends off n out out') (hpos : 1 ≤ off) (hoff : off ≤ out.length)
    {k : Nat} (hk : k < n) :
    ∃ a, (out'.take (out.length + k))[out.length - off + k]? = some a ∧
      out'.take (out.length + k) ++ [a] = out'.take (out.length + (k + 1)) := by
  have hlen := h.length
  have hlt : out.length + k < out'.length := by omega
  refine ⟨out'.get ⟨out.length + k, hlt⟩, ?_, ?_⟩
  · have hback := h.back k hk
    have hidx : out.length - off + k = out.length + k - off := by omega
    rw [hidx, getElem?_take_of_lt (by omega), ← hback]
    exact getElem?_eq_getElem hlt
  · exact take_append_getElem hlt

theorem extends_of_repeat {data : List α} {ref i : Nat} (hi : i + n ≤ data.length)
    (href : ref < i) (hsame : ∀ k < n, data[ref + k]? = data[i + k]?) :
    Extends (i - ref) n (data.take i) (data.take (i + n)) := by
  have hlen : (data.take i).length = i := by
    rw [length_take]
    omega
  refine ⟨?_, ?_, ?_⟩
  · rw [length_take]
    omega
  · rw [take_take]
    congr 1
    omega
  · intro k hk
    have hidx : i + k - (i - ref) = ref + k := by omega
    rw [hlen, hidx, getElem?_take_of_lt (by omega), getElem?_take_of_lt (by omega)]
    exact (hsame k hk).symm

end BackReference
