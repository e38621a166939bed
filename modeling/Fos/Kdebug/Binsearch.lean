import Mathlib.Algebra.Group.Nat.Defs
import Mathlib.Data.Int.Init
import Mathlib.Data.Nat.Init
import Mathlib.Logic.Relation
import Mathlib.Tactic.Common

/-!
# The binary search in the symbol table

`stab_binsearch` of `kern/kdebug.c`: a binary search in which only the entries of one type count.

* `Search.step`: one pass of the loop; `step_cases` says all that it can do;
* `Reach`: the passes from a state on;
* `reach_noMatch`, `reach_match`: the search without an exact match, and up to one.
-/

namespace Fos.Kdebug

/-- `struct Stab`: the members that the search reads. -/
structure Stab where
  nType : UInt8
  nValue : UInt32

/-- `stabs`, and the `type` that is looked for. -/
structure Table where
  stabs : Int → Stab
  type : Int

/-- `stabs[m].n_type == type`. -/
def Table.Matches (t : Table) (m : Int) : Prop := ((t.stabs m).nType.toNat : Int) = t.type

instance (t : Table) (m : Int) : Decidable (t.Matches m) :=
  inferInstanceAs (Decidable (_ = _))

/-- The number `stabs[m].n_value`. -/
def Table.value (t : Table) (m : Int) : Nat := (t.stabs m).nValue.toNat

/-- `while (m >= l && stabs[m].n_type != type) m--`. -/
def Table.backScan (t : Table) (l m : Int) : Int :=
  if m ≥ l ∧ ¬ t.Matches m then backScan t l (m - 1) else m
termination_by (m - l + 1).toNat

/-- The variables of `stab_binsearch`. -/
structure Search where
  regionLeft : Int
  regionRight : Int
  l : Int
  r : Int
  anyMatches : Bool
  addr : UInt32

/-- The body of the `while` loop; `addr` is a pointer to `uint32`, so that `addr++` adds 4. -/
def Search.step (t : Table) (s : Search) : Search :=
  let trueM := (s.l + s.r).tdiv 2
  let m := t.backScan s.l trueM
  if m < s.l then { s with l := trueM + 1 }
  else if (t.stabs m).nValue < s.addr then
    { s with anyMatches := true, regionLeft := m, l := trueM + 1 }
  else if (t.stabs m).nValue > s.addr then
    { s with anyMatches := true, regionRight := m - 1, r := m - 1 }
  else { s with anyMatches := true, regionLeft := m, l := m, addr := s.addr + 4 }

/-- The `while` loop, for the given number of passes. -/
def searchLoop (t : Table) : Nat → Search → Option Search
  | 0, _ => none
  | fuel + 1, s => if s.l ≤ s.r then searchLoop t fuel (s.step t) else some s

/-- The loop for the rightmost region: `l` goes down to an entry of the type. -/
def Table.rescan (t : Table) (left l : Int) : Int :=
  if l > left ∧ ¬ t.Matches l then rescan t left (l - 1) else l
termination_by (l - left).toNat

/-- `*region_left` and `*region_right` after the `while` loop. -/
def Search.finish (t : Table) (s : Search) : Int × Int :=
  if s.anyMatches then (t.rescan s.regionLeft s.regionRight, s.regionRight)
  else (s.regionLeft, s.regionLeft - 1)

/-- `stab_binsearch(stabs, &left, &right, type, addr)`. -/
def stabBinsearch (t : Table) (fuel : Nat) (left right : Int) (addr : UInt32) :
    Option (Int × Int) :=
  (searchLoop t fuel ⟨left, right, left, right, false, addr⟩).map (·.finish t)

/-! ## The two scans -/

variable {t : Table} {l m r left : Int}

/-- No entry of the type lies in the range. -/
def Table.Free (t : Table) (l r : Int) : Prop := ∀ i, l ≤ i → i ≤ r → ¬ t.Matches i

theorem Table.backScan_spec (le : l ≤ m + 1) :
    l - 1 ≤ t.backScan l m ∧ t.backScan l m ≤ m ∧ t.Free (t.backScan l m + 1) m ∧
      (t.backScan l m < l ∨ t.Matches (t.backScan l m)) := by
  induction gap : (m - l + 1).toNat generalizing m with
  | zero =>
    rw [backScan, if_neg (by omega)]
    exact ⟨by omega, Int.le_refl m, fun i lo hi => by omega, Or.inl (by omega)⟩
  | succ gap ih =>
    rw [backScan]
    by_cases here : t.Matches m
    · rw [if_neg fun scan => scan.2 here]
      exact ⟨by omega, Int.le_refl m, fun i lo hi => by omega, Or.inr here⟩
    · rw [if_pos ⟨by omega, here⟩]
      obtain ⟨lo, hi, free, stop⟩ := @ih (m - 1) (by omega) (by omega)
      refine ⟨lo, by omega, fun i after upTo => ?_, stop⟩
      by_cases last : i = m
      · rwa [last]
      · exact free i after (by omega)

theorem Table.rescan_of_free (le : left ≤ l) (free : t.Free (left + 1) l) :
    t.rescan left l = left := by
  induction gap : (l - left).toNat generalizing l with
  | zero =>
    rw [rescan, if_neg (by omega)]
    omega
  | succ gap ih =>
    rw [rescan, if_pos ⟨by omega, free l (by omega) (Int.le_refl l)⟩]
    exact ih (by omega) (fun i lo hi => free i lo (by omega)) (by omega)

theorem Table.rescan_of_le (le : l ≤ left) : t.rescan left l = l := by
  rw [rescan, if_neg (by omega)]

/-! ## One pass -/

theorem mid_bounds (le : l ≤ r) : l ≤ (l + r).tdiv 2 ∧ (l + r).tdiv 2 ≤ r := by
  rcases Int.lt_or_le (l + r) 0 with neg | nonneg
  · have half : (l + r).tdiv 2 = -((-(l + r)) / 2) := by
      rw [← Int.tdiv_eq_ediv_of_nonneg (by omega), Int.neg_tdiv, Int.neg_neg]
    omega
  · have half : (l + r).tdiv 2 = (l + r) / 2 := Int.tdiv_eq_ediv_of_nonneg nonneg
    omega

/-- What a pass does, with the midpoint `mid` of its range. -/
inductive Passed (t : Table) (s : Search) (mid : Int) : Search → Prop
  | skip (free : t.Free s.l mid) : Passed t s mid { s with l := mid + 1 }
  | below (m : Int) (lo : s.l ≤ m) (hi : m ≤ mid) (entry : t.Matches m)
      (free : t.Free (m + 1) mid) (less : t.value m < s.addr.toNat) :
      Passed t s mid { s with anyMatches := true, regionLeft := m, l := mid + 1 }
  | above (m : Int) (lo : s.l ≤ m) (hi : m ≤ mid) (entry : t.Matches m)
      (free : t.Free (m + 1) mid) (greater : s.addr.toNat < t.value m) :
      Passed t s mid { s with anyMatches := true, regionRight := m - 1, r := m - 1 }
  | exact (m : Int) (lo : s.l ≤ m) (hi : m ≤ mid) (entry : t.Matches m)
      (free : t.Free (m + 1) mid) (equal : t.value m = s.addr.toNat) :
      Passed t s mid
        { s with anyMatches := true, regionLeft := m, l := m, addr := s.addr + 4 }

theorem step_cases {s : Search} (le : s.l ≤ s.r) :
    ∃ mid, s.l ≤ mid ∧ mid ≤ s.r ∧ mid = (s.l + s.r).tdiv 2 ∧ Passed t s mid (s.step t) := by
  obtain ⟨lo, hi⟩ := mid_bounds le
  refine ⟨_, lo, hi, rfl, ?_⟩
  generalize mid_ : (s.l + s.r).tdiv 2 = mid at lo hi
  obtain ⟨lo', hi', free, stop⟩ := @Table.backScan_spec t s.l mid (by omega)
  have run : s.step t =
      if t.backScan s.l mid < s.l then { s with l := mid + 1 }
      else if (t.stabs (t.backScan s.l mid)).nValue < s.addr then
        { s with anyMatches := true, regionLeft := t.backScan s.l mid, l := mid + 1 }
      else if (t.stabs (t.backScan s.l mid)).nValue > s.addr then
        { s with
          anyMatches := true
          regionRight := t.backScan s.l mid - 1
          r := t.backScan s.l mid - 1 }
      else
        { s with
          anyMatches := true
          regionLeft := t.backScan s.l mid
          l := t.backScan s.l mid
          addr := s.addr + 4 } := by rw [← mid_]; rfl
  rw [run]
  generalize t.backScan s.l mid = m at lo' hi' free stop
  by_cases out : m < s.l
  · rw [if_pos out]
    exact .skip fun i after upTo => free i (by omega) upTo
  · have entry := stop.resolve_left out
    have inside : s.l ≤ m := by omega
    rw [if_neg out]
    rcases Nat.lt_trichotomy (t.value m) s.addr.toNat with less | equal | greater
    · rw [if_pos (UInt32.lt_iff_toNat_lt.mpr less)]
      exact .below m inside hi' entry free less
    · rw [if_neg fun lt => Nat.ne_of_lt (UInt32.lt_iff_toNat_lt.mp lt) equal,
        if_neg fun gt => Nat.ne_of_gt (UInt32.lt_iff_toNat_lt.mp gt) equal]
      exact .exact m inside hi' entry free equal
    · rw [if_neg fun lt => Nat.lt_asymm greater (UInt32.lt_iff_toNat_lt.mp lt),
        if_pos (UInt32.lt_iff_toNat_lt.mpr greater)]
      exact .above m inside hi' entry free greater

/-! ## Several passes -/

/-- The passes of the loop. -/
def Reach (t : Table) : Search → Search → Prop :=
  Relation.ReflTransGen fun s s' => s.l ≤ s.r ∧ s' = s.step t

theorem Reach.loop {s s' : Search} (reach : Reach t s s') (crossed : s'.r < s'.l) :
    ∃ passes, ∀ fuel ≥ passes, searchLoop t fuel s = some s' := by
  induction reach using Relation.ReflTransGen.head_induction_on with
  | refl =>
    refine ⟨1, fun fuel enough => ?_⟩
    obtain ⟨fuel, rfl⟩ : ∃ k, fuel = k + 1 := ⟨fuel - 1, by omega⟩
    exact if_neg (Int.not_le_of_gt crossed)
  | head pass _ ih =>
    obtain ⟨le, rfl⟩ := pass
    obtain ⟨passes, run⟩ := ih
    refine ⟨passes + 1, fun fuel enough => ?_⟩
    obtain ⟨fuel, rfl⟩ : ∃ k, fuel = k + 1 := ⟨fuel - 1, by omega⟩
    rw [searchLoop, if_pos le]
    exact run fuel (by omega)

/-- The entries of the range have strictly increasing values. -/
def Table.Rising (t : Table) (l r : Int) : Prop :=
  ∀ i j, l ≤ i → i < j → j ≤ r → t.Matches i → t.Matches j → t.value i < t.value j

theorem Table.Rising.mono {l' r' : Int} (rising : t.Rising l r) (left : l ≤ l') (right : r' ≤ r) :
    t.Rising l' r' :=
  fun i j lo lt hi => rising i j (by omega) lt (by omega)

theorem Table.Rising.le (rising : t.Rising l r) {i j : Int} (lo : l ≤ i) (le : i ≤ j) (hi : j ≤ r)
    (entry : t.Matches i) (entry' : t.Matches j) : t.value i ≤ t.value j := by
  rcases Int.lt_or_eq_of_le le with lt | rfl
  · exact Nat.le_of_lt (rising i j lo lt hi entry entry')
  · exact Nat.le_refl _

/-- How the loop ends if no entry has the address: `r` is in front of the entries above it, and
the left end is at the last one below it. -/
structure Settled (t : Table) (s s' : Search) : Prop where
  crossed : s'.r < s'.l
  right : s'.regionRight = s'.r
  lo : s.l ≤ s'.r + 1
  hi : s'.r ≤ s.r
  edge : s'.r = s.r ∨ (t.Matches (s'.r + 1) ∧ s.addr.toNat < t.value (s'.r + 1))
  less : ∀ i, s.l ≤ i → i ≤ s'.r → t.Matches i → t.value i < s.addr.toNat
  left : (s'.regionLeft = s.regionLeft ∧ t.Free s.l s'.r) ∨
    (s.l ≤ s'.regionLeft ∧ s'.regionLeft ≤ s'.r ∧ t.Matches s'.regionLeft ∧
      t.Free (s'.regionLeft + 1) s'.r)
  any : s'.anyMatches = true ↔ s.anyMatches = true ∨ ∃ i, s.l ≤ i ∧ i ≤ s.r ∧ t.Matches i

/-- Without an exact match. -/
theorem reach_noMatch {s : Search} (range : s.l ≤ s.r + 1)
    (right : s.regionRight = s.r) (rising : t.Rising s.l s.r)
    (noMatch : ∀ i, s.l ≤ i → i ≤ s.r → t.Matches i → t.value i ≠ s.addr.toNat) :
    ∃ s', Reach t s s' ∧ Settled t s s' := by
  induction gap : (s.r + 1 - s.l).toNat using Nat.strong_induction_on generalizing s with
  | _ gap ih =>
    by_cases le : s.l ≤ s.r
    · obtain ⟨mid, lo, hi, -, passed⟩ := @step_cases t s le
      generalize next : s.step t = s₁ at passed
      have pass : Reach t s s₁ := .single ⟨le, next.symm⟩
      cases passed with
      | skip free =>
        obtain ⟨s', reach, settled⟩ := ih _ (by dsimp only; omega)
          (s := { s with l := mid + 1 }) (by dsimp only; omega) right
          (rising.mono (by dsimp only; omega) (Int.le_refl _))
          (fun i lo' => noMatch i (by dsimp only at lo'; omega)) rfl
        have lo' := settled.lo
        dsimp only at lo'
        have before : ∀ i, s.l ≤ i → t.Matches i → mid + 1 ≤ i := fun i lo entry => by
          by_contra upTo
          exact free i lo (by omega) entry
        refine ⟨s', pass.trans reach, settled.crossed, settled.right, by omega, settled.hi,
          settled.edge, fun i lo hi entry => settled.less i (before i lo entry) hi entry, ?_, ?_⟩
        · rcases settled.left with ⟨same, none⟩ | ⟨lo, rest⟩
          · exact Or.inl ⟨same, fun i lo hi entry => none i (before i lo entry) hi entry⟩
          · exact Or.inr ⟨by dsimp only at lo; omega, rest⟩
        · refine settled.any.trans (or_congr_right ⟨?_, ?_⟩)
          · rintro ⟨i, lo, hi, entry⟩
            exact ⟨i, by dsimp only at lo; omega, hi, entry⟩
          · rintro ⟨i, lo, hi, entry⟩
            exact ⟨i, before i lo entry, hi, entry⟩
      | below m lo' hi' entry free less =>
        obtain ⟨s', reach, settled⟩ := ih _ (by dsimp only; omega)
          (s := { s with anyMatches := true, regionLeft := m, l := mid + 1 })
          (by dsimp only; omega) right
          (rising.mono (by dsimp only; omega) (Int.le_refl _))
          (fun i lo' => noMatch i (by dsimp only at lo'; omega)) rfl
        have upTo := settled.lo
        dsimp only at upTo
        refine ⟨s', pass.trans reach, settled.crossed, settled.right, by omega, settled.hi,
          settled.edge, fun i lo hi there => ?_, ?_, ?_⟩
        · by_cases after : mid + 1 ≤ i
          · exact settled.less i after hi there
          · have before : i ≤ m := by
              by_contra later
              exact free i (by omega) (by omega) there
            exact Nat.lt_of_le_of_lt (rising.le lo before (by omega) there entry) less
        · rcases settled.left with ⟨same, none⟩ | ⟨lo, rest⟩
          · dsimp only at same none
            refine Or.inr ⟨by omega, by omega, same ▸ entry, fun i after hi => ?_⟩
            by_cases later : mid + 1 ≤ i
            · exact none i later hi
            · exact free i (by omega) (by omega)
          · exact Or.inr ⟨by dsimp only at lo; omega, rest⟩
        · exact iff_of_true (settled.any.mpr (Or.inl rfl))
            (Or.inr ⟨m, lo', by omega, entry⟩)
      | above m lo' hi' entry free greater =>
        obtain ⟨s', reach, settled⟩ := ih _ (by dsimp only; omega)
          (s := { s with anyMatches := true, regionRight := m - 1, r := m - 1 })
          (by dsimp only; omega) rfl (rising.mono (Int.le_refl _) (by dsimp only; omega))
          (fun i lo hi => noMatch i lo (by dsimp only at hi; omega)) rfl
        have upTo := settled.hi
        dsimp only at upTo
        refine ⟨s', pass.trans reach, settled.crossed, settled.right, settled.lo, by omega, ?_,
          settled.less, settled.left, ?_⟩
        · rcases settled.edge with same | edge
          · dsimp only at same
            rw [same, Int.sub_add_cancel]
            exact Or.inr ⟨entry, greater⟩
          · exact Or.inr edge
        · exact iff_of_true (settled.any.mpr (Or.inl rfl))
            (Or.inr ⟨m, lo', by omega, entry⟩)
      | exact m lo' hi' entry free equal =>
        exact absurd equal (noMatch m lo' (by omega) entry)
    · exact ⟨s, .refl, by omega, right, range, Int.le_refl _, Or.inl rfl,
        fun i lo hi => by omega, Or.inl ⟨rfl, fun i lo hi => by omega⟩,
        ⟨Or.inl, fun any => any.resolve_right fun ⟨i, lo, hi, _⟩ => by omega⟩⟩

/-- The right end of the range when the halving of `[l, r]` comes to the entry `e`: the
midpoint, back from it to an entry, and on with the part in which `e` lies. -/
def Table.halving (t : Table) (e l r : Int) : Int :=
  if _le : l ≤ r then
    let mid := (l + r).tdiv 2
    let m := t.backScan l mid
    if m < l ∨ m < e then halving t e (mid + 1) r
    else if m > e then halving t e l (m - 1)
    else r
  else r
termination_by (r + 1 - l).toNat
decreasing_by
  · have bounds := mid_bounds _le
    omega
  · have bounds := mid_bounds _le
    have scanned := (@Table.backScan_spec t l ((l + r).tdiv 2) (by omega)).2.1
    omega

/-- Up to the exact match. -/
theorem reach_match {s : Search} {e : Int} (lo : s.l ≤ e) (hi : e ≤ s.r)
    (entry : t.Matches e) (equal : t.value e = s.addr.toNat) (right : s.regionRight = s.r)
    (rising : t.Rising s.l s.r) :
    ∃ r, Reach t s ⟨e, r, e, r, true, s.addr + 4⟩ ∧ r = t.halving e s.l s.r ∧ e ≤ r ∧ r ≤ s.r ∧
      (r = s.r ∨ t.Matches (r + 1)) := by
  induction gap : (s.r + 1 - s.l).toNat using Nat.strong_induction_on generalizing s with
  | _ gap ih =>
    have le : s.l ≤ s.r := by omega
    obtain ⟨mid, lo', hi', mid_, passed⟩ := @step_cases t s le
    obtain ⟨back, upTo, -, -⟩ := @Table.backScan_spec t s.l mid (by omega)
    generalize next : s.step t = s₁ at passed
    have pass : Reach t s s₁ := .single ⟨le, next.symm⟩
    -- the pass finds the last entry up to the midpoint
    have found : ∀ m, s.l ≤ m → m ≤ mid → t.Matches m → t.Free (m + 1) mid →
        t.backScan s.l mid = m := by
      intro m lo hi entry free
      obtain ⟨-, le', free', stop⟩ := @Table.backScan_spec t s.l mid (by omega)
      by_contra ne
      rcases Int.lt_or_lt_of_ne ne with before | after
      · exact free' m (by omega) hi entry
      · exact free _ (by omega) le' (stop.resolve_left (by omega))
    have halve : t.halving e s.l s.r =
        if t.backScan s.l mid < s.l ∨ t.backScan s.l mid < e then t.halving e (mid + 1) s.r
        else if t.backScan s.l mid > e then t.halving e s.l (t.backScan s.l mid - 1) else s.r := by
      rw [Table.halving, dif_pos le, ← mid_]
    cases passed with
    | skip free =>
      have out : t.backScan s.l mid < s.l := by
        obtain ⟨-, le', -, stop⟩ := @Table.backScan_spec t s.l mid (by omega)
        by_contra inside
        exact free _ (by omega) le' (stop.resolve_left inside)
      have after : mid + 1 ≤ e := by
        by_contra before
        exact free e lo (by omega) entry
      obtain ⟨r, reach, end_, rest⟩ := ih _ (by dsimp only; omega) (s := { s with l := mid + 1 })
        after hi equal right (rising.mono (by dsimp only; omega) (Int.le_refl _)) rfl
      exact ⟨r, pass.trans reach, by rw [halve, if_pos (Or.inl out)]; exact end_, rest⟩
    | below m lo₁ hi₁ entry₁ free less =>
      have before : m < e := by
        by_contra later
        have := rising.le lo (by omega) (by omega) entry entry₁
        omega
      have after : mid + 1 ≤ e := by
        by_contra inside
        exact free e (by omega) (by omega) entry
      obtain ⟨r, reach, end_, rest⟩ := ih _ (by dsimp only; omega)
        (s := { s with anyMatches := true, regionLeft := m, l := mid + 1 })
        after hi equal right (rising.mono (by dsimp only; omega) (Int.le_refl _)) rfl
      refine ⟨r, pass.trans reach, ?_, rest⟩
      rw [halve, found m lo₁ hi₁ entry₁ free, if_pos (Or.inr before)]
      exact end_
    | above m lo₁ hi₁ entry₁ free greater =>
      have later : e < m := by
        by_contra before
        have := rising.le lo₁ (by omega) (by omega) entry₁ entry
        omega
      obtain ⟨r, reach, end_, le₁, le₂, edge⟩ := ih _ (by dsimp only; omega)
        (s := { s with anyMatches := true, regionRight := m - 1, r := m - 1 })
        lo (by dsimp only; omega) equal rfl
        (rising.mono (Int.le_refl _) (by dsimp only; omega)) rfl
      dsimp only at le₂ edge
      refine ⟨r, pass.trans reach, ?_, le₁, by omega, Or.inr ?_⟩
      · rw [halve, found m lo₁ hi₁ entry₁ free, if_neg (by omega), if_pos later]
        exact end_
      · rcases edge with same | edge
        · rw [same, Int.sub_add_cancel]
          exact entry₁
        · exact edge
    | exact m lo₁ hi₁ entry₁ free equal₁ =>
      have same : m = e := by
        rcases Int.lt_trichotomy m e with before | same | after
        · have := rising m e lo₁ before hi entry₁ entry
          omega
        · exact same
        · have := rising e m lo after (by omega) entry entry₁
          omega
      subst same
      refine ⟨s.r, ?_, ?_, hi, Int.le_refl _, Or.inl rfl⟩
      · rw [← right] at pass ⊢
        exact pass
      · rw [halve, found m lo₁ hi₁ entry₁ free, if_neg (by omega), if_neg (Int.lt_irrefl m)]

end Fos.Kdebug
