import Mathlib.Data.Set.Basic
import Mathlib.Order.Nat
import Mathlib.Data.Nat.Find

/-!
# Gaps between used cells

The cells of a store are the natural numbers below a capacity, and some of them are
used.  `Gap used a n` is a maximal run of `n` free cells that some used cell ends,
and `Tail used t` says that the cells from `t` on are free, `t` being the least such.
`BestFit` is the contract of a best-fit allocator: a smallest gap that is large
enough, else the tail, and a refusal only when no free run is large enough.

* `Gap.unique`, `Tail.unique`: a gap is determined by its end, a tail by the cells;
* `exists_gap`: every free run below a used cell is part of a gap;
* `bestFit_gap`, `bestFit_tail`, `bestFit_none`: the three ways to meet the contract.
-/

namespace Gaps

variable {used : Set ℕ} {a b n m t : ℕ}

/-- A maximal run of `n` free cells from `a` on, ended by a used cell. -/
structure Gap (used : Set ℕ) (a n : ℕ) : Prop where
  pos : 0 < n
  free : ∀ k, a ≤ k → k < a + n → k ∉ used
  left : a = 0 ∨ a - 1 ∈ used
  right : a + n ∈ used

/-- The free cells after all used ones start at `t`. -/
structure Tail (used : Set ℕ) (t : ℕ) : Prop where
  above : ∀ k ∈ used, k < t
  tight : t = 0 ∨ t - 1 ∈ used

/-- What a best-fit allocator answers to a request for `n` cells. -/
structure BestFit (used : Set ℕ) (capacity n : ℕ) (answer : Option ℕ) : Prop where
  gap : (∃ a m, Gap used a m ∧ n ≤ m) →
    ∃ a m, answer = some a ∧ Gap used a m ∧ n ≤ m ∧ ∀ b m', Gap used b m' → n ≤ m' → m ≤ m'
  tail : (∀ a m, Gap used a m → m < n) → ∀ t, Tail used t → t + n ≤ capacity → answer = some t
  none : answer = none → ∀ a, a + n ≤ capacity → ∃ k, a ≤ k ∧ k < a + n ∧ k ∈ used

/-- Two gaps with the same end are the same. -/
theorem Gap.unique (gap : Gap used a n) (gap' : Gap used b m) (ends : a + n = b + m) :
    a = b ∧ n = m := by
  have le : ∀ {a b n m : ℕ}, Gap used a n → Gap used b m → a + n = b + m → b ≤ a := by
    intro a b n m gap gap' ends
    by_contra lt
    rw [not_le] at lt
    rcases gap'.left with zero | before
    · omega
    · exact gap.free (b - 1) (by omega) (by have := gap'.pos; omega) before
  have := le gap gap' ends
  have := le gap' gap ends.symm
  omega

theorem Tail.unique (tail : Tail used a) (tail' : Tail used b) : a = b := by
  have le : ∀ {a b : ℕ}, Tail used a → Tail used b → a ≤ b := by
    intro a b tail tail'
    rcases tail.tight with zero | last
    · omega
    · have := tail'.above _ last
      omega
  exact le_antisymm (le tail tail') (le tail' tail)

/-- A gap lies below the tail. -/
theorem Gap.lt_tail (gap : Gap used a n) (tail : Tail used t) : a + n < t :=
  tail.above _ gap.right

/-- A free run can be extended to the left up to a used cell. -/
theorem exists_left (free : ∀ k, a ≤ k → k < b → k ∉ used) :
    ∃ c ≤ a, (∀ k, c ≤ k → k < b → k ∉ used) ∧ (c = 0 ∨ c - 1 ∈ used) := by
  induction a with
  | zero => exact ⟨0, le_refl _, free, Or.inl rfl⟩
  | succ a ih =>
    by_cases before : a ∈ used
    · exact ⟨a + 1, le_refl _, free, Or.inr before⟩
    · obtain ⟨c, le, free', tight⟩ := ih fun k lo hi => by
        rcases Nat.eq_or_lt_of_le lo with rfl | lo
        · exact before
        · exact free k lo hi
      exact ⟨c, Nat.le_succ_of_le le, free', tight⟩

/-- A free run with a used cell after it is part of a gap. -/
theorem exists_gap (pos : 0 < n) (free : ∀ k, a ≤ k → k < a + n → k ∉ used)
    (above : ∃ k ∈ used, a ≤ k) : ∃ b m, Gap used b m ∧ n ≤ m := by
  classical
  -- the first used cell after the run
  have least := Nat.find_spec above
  have minimal := fun k => Nat.find_min (H := above) (m := k)
  generalize Nat.find above = last at least minimal
  have free_last : ∀ k, a ≤ k → k < last → k ∉ used := fun k lo hi member =>
    minimal k hi ⟨member, lo⟩
  have length : a + n ≤ last := by
    by_contra short
    exact free last least.2 (not_le.mp short) least.1
  obtain ⟨c, le, free', tight⟩ := exists_left free_last
  refine ⟨c, last - c, ⟨by omega, fun k lo hi => free' k lo (by omega), tight, ?_⟩, by omega⟩
  rw [Nat.add_sub_cancel' (by omega)]
  exact least.1

/-! ## The contract -/

theorem bestFit_gap {capacity : ℕ} (gap : Gap used a m) (fits : n ≤ m)
    (least : ∀ b m', Gap used b m' → n ≤ m' → m ≤ m') :
    BestFit used capacity n (some a) where
  gap _ := ⟨a, m, rfl, gap, fits, least⟩
  tail short _ _ _ := absurd (short a m gap) (not_lt.mpr fits)
  none refused := by cases refused

theorem bestFit_tail {capacity : ℕ} (short : ∀ a m, Gap used a m → m < n) (tail : Tail used t) :
    BestFit used capacity n (some t) where
  gap := fun ⟨a, m, gap, fits⟩ => absurd (short a m gap) (not_lt.mpr fits)
  tail _ t' tail' _ := by rw [tail.unique tail']
  none refused := by cases refused

/-- Past the capacity the contract asks for nothing but an answer. -/
theorem bestFit_past {capacity : ℕ} (short : ∀ a m, Gap used a m → m < n) (tail : Tail used t)
    (full : capacity < t + n) : BestFit used capacity n (some a) where
  gap := fun ⟨a, m, gap, fits⟩ => absurd (short a m gap) (not_lt.mpr fits)
  tail _ t' tail' fits := by
    rw [← tail.unique tail'] at fits
    omega
  none refused := by cases refused

theorem bestFit_none {capacity : ℕ} (pos : 0 < n) (short : ∀ a m, Gap used a m → m < n)
    (tail : Tail used t) (full : capacity < t + n) : BestFit used capacity n none where
  gap := fun ⟨a, m, gap, fits⟩ => absurd (short a m gap) (not_lt.mpr fits)
  tail _ t' tail' fits := by
    rw [← tail.unique tail'] at fits
    omega
  none _ a fits := by
    by_contra absent
    push Not at absent
    have last : t - 1 ∈ used := tail.tight.resolve_left (by omega)
    obtain ⟨b, m, gap, large⟩ := exists_gap pos absent ⟨t - 1, last, by omega⟩
    exact absurd (short b m gap) (not_lt.mpr large)

end Gaps
