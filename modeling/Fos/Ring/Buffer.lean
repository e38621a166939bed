import Mathlib.Data.List.Basic
import Mathlib.Data.List.TakeDrop
import Mathlib.Tactic.Common

/-!
# Ring buffers that are not checked for room

A buffer of `n` cells with a position to read from and one to write to.  A writer that laps
the reader makes the buffer look shorter by `n` elements.

* `Holds`: what has been written, and how many elements the reader is past;
* `Holds.put`, `Holds.get`: the two operations.
-/

namespace Ring

variable {α : Type*} {n : Nat}

/-- The buffer with its two positions. -/
structure Buffer (α : Type*) where
  cell : Nat → α
  rpos : Nat
  wpos : Nat

/-- The position after `p`. -/
def next (n p : Nat) : Nat := if p + 1 = n then 0 else p + 1

def Buffer.put (n : Nat) (r : Buffer α) (x : α) : Buffer α :=
  { r with cell := Function.update r.cell r.wpos x, wpos := next n r.wpos }

/-- The next element, if the positions differ. -/
def Buffer.get (n : Nat) (r : Buffer α) : Option α × Buffer α :=
  if r.rpos ≠ r.wpos then (some (r.cell r.rpos), { r with rpos := next n r.rpos }) else (none, r)

theorem next_mod (pos : 0 < n) (k : Nat) : next n (k % n) = (k + 1) % n := by
  have lt := Nat.mod_lt k pos
  rw [next, Nat.add_mod]
  rcases Nat.lt_or_ge 1 n with more | one
  · rw [Nat.mod_eq_of_lt more]
    split
    · rename_i last
      rw [last, Nat.mod_self]
    · rename_i inside
      exact (Nat.mod_eq_of_lt (by omega)).symm
  · obtain rfl : n = 1 := by omega
    rw [Nat.mod_one, if_pos rfl, Nat.mod_one]

/-- The elements `written` have been written, and the reader is past `k` of them, fewer than
`n` elements behind the writer. -/
structure Holds (n : Nat) (r : Buffer α) (written : List α) (k : Nat) : Prop where
  reader : r.rpos = k % n
  writer : r.wpos = written.length % n
  le : k ≤ written.length
  short : written.length - k < n
  cells : ∀ i x, k ≤ i → written[i]? = some x → r.cell (i % n) = x

variable {r : Buffer α} {written : List α} {k : Nat}

theorem Holds.pos (holds : Holds n r written k) : 0 < n :=
  Nat.zero_lt_of_lt holds.short

/-- Elements that are fewer than `n` apart are in different cells. -/
theorem mod_ne_mod {i j : Nat} (lt : i < j) (near : j - i < n) : i % n ≠ j % n := by
  intro same
  have apart : (j - i) % n = 0 := Nat.sub_mod_eq_zero_of_mod_eq same.symm
  rw [Nat.mod_eq_of_lt near] at apart
  omega

/-- The positions are the same if and only if the reader is not behind. -/
theorem Holds.rpos_eq_wpos (holds : Holds n r written k) :
    r.rpos = r.wpos ↔ k = written.length := by
  rw [holds.reader, holds.writer]
  constructor
  · intro same
    by_contra ne
    exact mod_ne_mod (Nat.lt_of_le_of_ne holds.le ne) holds.short same
  · intro same
    rw [same]

/-- Writing, with room for the element. -/
theorem Holds.put (holds : Holds n r written k) (x : α)
    (room : written.length + 1 - k < n) : Holds n (r.put n x) (written ++ [x]) k where
  reader := holds.reader
  writer := by
    rw [List.length_append, List.length_singleton, ← next_mod holds.pos, ← holds.writer]
    rfl
  le := by
    rw [List.length_append]
    exact Nat.le_add_right_of_le holds.le
  short := by rwa [List.length_append, List.length_singleton]
  cells i y past here := by
    show Function.update r.cell r.wpos x (i % n) = y
    rw [holds.writer]
    by_cases old : i < written.length
    · rw [List.getElem?_append_left old] at here
      rw [Function.update_of_ne (mod_ne_mod old (by omega))]
      exact holds.cells i y past here
    · have last : i = written.length := by
        have bound := (List.getElem?_eq_some_iff.mp here).1
        rw [List.length_append, List.length_singleton] at bound
        omega
      subst last
      rw [List.getElem?_concat_length] at here
      rw [Function.update_self]
      exact Option.some.inj here

/-- Writing into the last free cell: everything that was not read is lost. -/
theorem Holds.put_full (holds : Holds n r written k) (x : α)
    (full : ¬ written.length + 1 - k < n) :
    Holds n (r.put n x) (written ++ [x]) (written.length + 1) where
  reader := by
    have wraps : written.length + 1 = k + n := by
      have le := holds.le
      have short := holds.short
      omega
    show r.rpos = _
    rw [holds.reader, wraps, Nat.add_mod_right]
  writer := by
    rw [List.length_append, List.length_singleton, ← next_mod holds.pos, ← holds.writer]
    rfl
  le := Nat.le_of_eq (by rw [List.length_append, List.length_singleton])
  short := by
    rw [List.length_append, List.length_singleton, Nat.sub_self]
    exact holds.pos
  cells i y past here := by
    have bound := (List.getElem?_eq_some_iff.mp here).1
    rw [List.length_append, List.length_singleton] at bound
    omega

/-- Reading. -/
theorem Holds.get (holds : Holds n r written k) :
    (k = written.length ∧ r.get n = (none, r)) ∨
      ∃ x, written[k]? = some x ∧ (r.get n).1 = some x ∧
        Holds n (r.get n).2 written (k + 1) := by
  by_cases same : r.rpos = r.wpos
  · exact Or.inl ⟨holds.rpos_eq_wpos.mp same, if_neg (not_not.mpr same)⟩
  · have lt : k < written.length :=
      Nat.lt_of_le_of_ne holds.le fun all => same (holds.rpos_eq_wpos.mpr all)
    have here : written[k]? = some written[k] := List.getElem?_eq_getElem lt
    have taken : r.get n = (some (r.cell r.rpos), { r with rpos := next n r.rpos }) := if_pos same
    refine Or.inr ⟨written[k], here, ?_, ?_⟩
    · rw [taken, holds.reader, holds.cells k _ (Nat.le_refl k) here]
    · rw [taken]
      refine ⟨?_, holds.writer, lt, ?_, fun i x past => holds.cells i x (by omega)⟩
      · show next n r.rpos = _
        rw [holds.reader, next_mod holds.pos]
      · have short := holds.short
        omega

end Ring
