import Mathlib.Algebra.Order.Interval.Finset.SuccPred
import Mathlib.Data.Nat.SuccPred
import Mathlib.Order.Interval.Finset.Nat
import Fos.Memory.FrameSpecs
import Fos.WorkingSet.Termination

/-!
# The frames that an allocation requires

`calculate_required_frames` of `kern/memory_manager.c` counts the page tables and the pages
that a range of user addresses lacks.

* `unitsOf`: the regions or pages that a range meets;
* `missingTables`, `missingPages`: those that it lacks;
* `calculateRequiredFrames_counts`: the function returns their number, and changes nothing.
-/

namespace Fos

open Exec

/-! ## The units of a range -/

/-- The units of that many bytes that the addresses from `start` on lie in. -/
def unitsOf (unit start size : Nat) : Finset Nat :=
  (Finset.Ico start (start + size)).image (· / unit)

/-- They are consecutive. -/
theorem unitsOf_eq {unit start size : Nat} (pos : 0 < unit) (some : 0 < size) :
    unitsOf unit start size = Finset.Ico (start / unit) ((start + size - 1) / unit + 1) := by
  ext k
  simp only [unitsOf, Finset.mem_image, Finset.mem_Ico]
  constructor
  · rintro ⟨a, ⟨ge, lt⟩, rfl⟩
    exact ⟨Nat.div_le_div_right ge, Nat.lt_succ_of_le (Nat.div_le_div_right (by omega))⟩
  · rintro ⟨ge, lt⟩
    have le : k * unit ≤ start + size - 1 :=
      (Nat.le_div_iff_mul_le pos).mp (Nat.le_of_lt_succ lt)
    -- The first address of the unit, or that of the range.
    rcases le_total start (k * unit) with first | inside
    · exact ⟨k * unit, ⟨first, by omega⟩, Nat.mul_div_cancel k pos⟩
    · refine ⟨start, ⟨le_rfl, by omega⟩, le_antisymm ge ?_⟩
      exact (Nat.le_div_iff_mul_le pos).mpr inside

section Counting

variable (P : Nat → Prop) [DecidablePred P] {k last : Nat}

/-- How many of the units from `k` up to `last` satisfy `P`. -/
def countFrom (k last : Nat) : Nat := ((Finset.Ico k last).filter P).card

theorem countFrom_last : countFrom P last last = 0 := by
  rw [countFrom, Finset.Ico_self, Finset.filter_empty, Finset.card_empty]

/-- One pass of a loop that counts. -/
theorem countFrom_step (lt : k < last) :
    countFrom P k last = (if P k then 1 else 0) + countFrom P (k + 1) last := by
  have notin : k ∉ (Finset.Ico (k + 1) last).filter P := by simp
  rw [countFrom, ← Finset.insert_Ico_add_one_left_eq_Ico lt, Finset.filter_insert, countFrom]
  split
  · rw [Finset.card_insert_of_notMem notin, Nat.add_comm]
  · rw [Nat.zero_add]

end Counting

/-! ## What a range lacks -/

/-- The page directory has no table for the region `k`. -/
def NoTable (s : Kernel) (dir k : Nat) : Prop := s.mem dir (pdx (k * ptSize)) = 0

/-- The page table entry of the page `k` is absent or zero. -/
def NoPage (s : Kernel) (dir k : Nat) : Prop :=
  s.mem dir (pdx (k * pageSize)) = 0 ∨
    s.mem (frameOf (s.mem dir (pdx (k * pageSize)))) (ptx (k * pageSize)) = 0

instance (s : Kernel) (dir : Nat) : DecidablePred (NoTable s dir) :=
  fun _ => inferInstanceAs (Decidable (_ = _))

instance (s : Kernel) (dir : Nat) : DecidablePred (NoPage s dir) :=
  fun _ => inferInstanceAs (Decidable (_ ∨ _))

/-- The regions of 4 MB that a range meets and that have no page table. -/
def missingTables (s : Kernel) (dir start size : Nat) : Nat :=
  ((unitsOf ptSize start size).filter (NoTable s dir)).card

/-- The pages that it meets and that are not mapped. -/
def missingPages (s : Kernel) (dir start size : Nat) : Nat :=
  ((unitsOf pageSize start size).filter (NoPage s dir)).card

/-- Below `USER_TOP` the entries of the page directory are zero or present, and the frames of
its tables and of their pages exist. -/
structure UserDirectory (s : Kernel) (dir : Nat) : Prop where
  pos : 0 < s.globals.numberOfFrames
  entries : ∀ i, i < 955 → s.mem dir i ≠ 0 →
    present (s.mem dir i) ∧ frameOf (s.mem dir i) < s.globals.numberOfFrames
  pages : ∀ i, i < 955 → ∀ j, s.mem dir i ≠ 0 → s.mem (frameOf (s.mem dir i)) j ≠ 0 →
    frameOf (s.mem (frameOf (s.mem dir i)) j) < s.globals.numberOfFrames

/-- The page directory of every environment is such a one. -/
theorem Rep.userDirectory {s : Kernel} {v : View} {e dir : Nat} (rep : Rep s v)
    (here : v.place (.pageDir e) = some dir) : UserDirectory s dir := by
  have exists_of_place : ∀ o f, v.place o = some f → f < s.globals.numberOfFrames := by
    intro o f place
    rw [rep.globals]
    apply rep.bound
    rw [(rep.wf.place_use o f).mp place]
    rintro ⟨⟩
  have table : ∀ i, i < 955 → s.mem dir i ≠ 0 →
      v.place (.pageTable e i) = some (frameOf (s.mem dir i)) := by
    intro i user entry
    have child : shape.child (.pageDir e) i = some (.pageTable e i) := if_pos user
    rw [rep.stores _ _ here] at entry ⊢
    exact (rep.wf.linked _ i _ child _).mpr ⟨entry, rfl⟩
  refine ⟨Nat.zero_lt_of_lt (exists_of_place _ _ here), fun i user entry => ⟨?_, ?_⟩,
    fun i user j entry page => ?_⟩
  · rw [rep.stores _ _ here] at entry ⊢
    exact ((rep.words (.pageDir e) i).1 user entry).1
  · exact exists_of_place _ _ (table i user entry)
  · have stored := rep.stores _ _ (table i user entry)
    have child : shape.child (.pageTable e i) j = some (.userPage e i j) := rfl
    rw [stored] at page ⊢
    exact exists_of_place _ _ ((rep.wf.linked _ j _ child _).mpr ⟨page, rfl⟩)

/-! ## The loops -/

variable {s : Kernel} {dir endVa k last : Nat} {Q : Nat → Kernel → Prop} {E : Stop → Kernel → Prop}

theorem UserDirectory.getPageTable_wp {va : Nat} {Q : Option Nat → Kernel → Prop}
    (directory : UserDirectory s dir) (lt : va < userTop)
    (absent : s.mem dir (pdx va) = 0 → Q none s)
    (table : s.mem dir (pdx va) ≠ 0 → Q (some (frameOf (s.mem dir (pdx va)))) s) :
    wp (getPageTable dir va) Q E s :=
  getPageTable_walk_wp directory.pos (directory.entries _ (userVa_of_lt lt)) absent table

theorem UserDirectory.getFrameInfo_wp {va : Nat} {Q : Option Nat × Option Nat → Kernel → Prop}
    (directory : UserDirectory s dir) (lt : va < userTop)
    (absent : s.mem dir (pdx va) = 0 ∨ s.mem (frameOf (s.mem dir (pdx va))) (ptx va) = 0 →
      ∀ table, Q (none, table) s)
    (mapped : ∀ f table, s.mem dir (pdx va) ≠ 0 →
      s.mem (frameOf (s.mem dir (pdx va))) (ptx va) ≠ 0 → Q (some f, table) s) :
    wp (getFrameInfo dir va) Q E s := by
  rw [getFrameInfo, wp_bind]
  apply directory.getPageTable_wp lt
  · exact fun none => absent (Or.inl none) _
  · intro entry
    simp only [readWord, wp_bind, wp_get, wp_pure, wp_ite]
    split
    · rename_i page
      have there := directory.pages (pdx va) (userVa_of_lt lt) (ptx va) entry page
      simp only [toFrameInfo, wp_bind, wp_get, wp_ite, wp_pure, ppn_extractAddress,
        if_neg (Nat.not_le_of_lt there)]
      exact mapped _ _ entry page
    · rename_i page
      exact absent (Or.inr (not_not.mp page)) _

/-- The loop over tables. -/
theorem countMissingTables_counts {n : Nat} (passes last : Nat) (directory : UserDirectory s dir)
    (user : endVa ≤ userTop) (le : k ≤ last) (enough : last < k + passes)
    (top : last * ptSize < word32)
    (below : ∀ k < last, k * ptSize < endVa) (past : endVa ≤ last * ptSize)
    (done : Q (n + countFrom (NoTable s dir) k last) s) :
    wp (countMissingTables dir endVa passes (k * ptSize) n) Q E s := by
  induction passes generalizing k n with
  | zero => exact absurd enough (Nat.not_lt_of_le le)
  | succ passes ih =>
    rcases Nat.lt_or_eq_of_le le with lt | rfl
    · have next : (k * ptSize + ptSize) % word32 = (k + 1) * ptSize := by
        simp only [ptSize, word32] at *
        omega
      rw [countFrom_step _ lt] at done
      simp only [countMissingTables, if_pos (below k lt), wp_bind, next]
      apply directory.getPageTable_wp (Nat.lt_of_lt_of_le (below k lt) user)
      · intro none
        refine ih lt (by omega) ?_
        rwa [if_pos (show NoTable s dir k from none), ← Nat.add_assoc] at done
      · intro table
        refine ih lt (by omega) ?_
        rwa [if_neg (show ¬ NoTable s dir k from table), Nat.zero_add] at done
    · simp only [countMissingTables, if_neg (Nat.not_lt_of_le past), wp_pure]
      rwa [countFrom_last] at done

/-- The loop over pages. -/
theorem countMissingPages_counts {n : Nat} (passes last : Nat) (directory : UserDirectory s dir)
    (user : endVa ≤ userTop) (le : k ≤ last) (enough : last < k + passes)
    (top : last * pageSize < word32) (below : ∀ k < last, k * pageSize < endVa)
    (past : endVa ≤ last * pageSize) (done : Q (n + countFrom (NoPage s dir) k last) s) :
    wp (countMissingPages dir endVa passes (k * pageSize) n) Q E s := by
  induction passes generalizing k n with
  | zero => exact absurd enough (Nat.not_lt_of_le le)
  | succ passes ih =>
    rcases Nat.lt_or_eq_of_le le with lt | rfl
    · have next : (k * pageSize + pageSize) % word32 = (k + 1) * pageSize := by
        simp only [pageSize, word32] at *
        omega
      rw [countFrom_step _ lt] at done
      simp only [countMissingPages, if_pos (below k lt), wp_bind, next]
      apply directory.getFrameInfo_wp (Nat.lt_of_lt_of_le (below k lt) user)
      · intro none table
        refine ih lt (by omega) ?_
        rwa [if_pos (show NoPage s dir k from none), ← Nat.add_assoc] at done
      · intro f table entry page
        refine ih lt (by omega) ?_
        rwa [if_neg (show ¬ NoPage s dir k from not_or.mpr ⟨entry, page⟩), Nat.zero_add] at done
    · simp only [countMissingPages, if_neg (Nat.not_lt_of_le past), wp_pure]
      rwa [countFrom_last] at done

/-- `calculate_required_frames` returns the number of tables and pages that the range lacks,
and changes nothing. -/
theorem calculateRequiredFrames_counts {start size : Nat} (directory : UserDirectory s dir)
    (some : 0 < size) (le : start + size ≤ userTop) :
    calculateRequiredFrames dir start size s =
      .ok (missingTables s dir start size + missingPages s dir start size) s := by
  have run : wp (calculateRequiredFrames dir start size) (fun n s' =>
      n = missingTables s dir start size + missingPages s dir start size ∧ s' = s)
      (fun _ _ => False) s := by
    have fits : (start + size) % word32 = start + size := by
      apply Nat.mod_eq_of_lt
      simp only [userTop, word32] at *
      omega
    have firstTable : start - start % ptSize = start / ptSize * ptSize := by
      simp only [ptSize]
      omega
    have firstPage : roundDown start = start / pageSize * pageSize := by
      simp only [roundDown, pageSize]
      omega
    simp only [calculateRequiredFrames, wp_bind, fits, firstTable, firstPage]
    simp only [missingTables, missingPages, unitsOf_eq (show 0 < ptSize by decide) some,
      unitsOf_eq (show 0 < pageSize by decide) some]
    have below : start + size ≤ 0xEEC00000 := le
    apply countMissingTables_counts 1025 ((start + size - 1) / ptSize + 1) directory le
    · simp only [ptSize]
      omega
    · simp only [ptSize]
      omega
    · simp only [ptSize, word32]
      omega
    · simp only [ptSize]
      omega
    · simp only [ptSize]
      omega
    rw [Nat.zero_add]
    apply countMissingPages_counts (2 ^ 20 + 1) ((start + size - 1) / pageSize + 1)
      directory le
    · simp only [pageSize]
      omega
    · simp only [pageSize]
      omega
    · simp only [pageSize, word32]
      omega
    · simp only [pageSize]
      omega
    · simp only [pageSize]
      omega
    rw [Nat.zero_add]
    exact ⟨rfl, rfl⟩
  obtain ⟨n, s', ends, rfl, rfl⟩ := wp_returns run
  exact ends

/-- In `pairKernel` the two pages from 0x80000000 on are mapped, the page before and its table
are not, and neither is the page after. -/
theorem calculateRequiredFrames_pair :
    calculateRequiredFrames 5 0x7FFFFFFF 0x2002 pairKernel = .ok 3 pairKernel := by
  obtain ⟨dir, here, walkable⟩ := walkable_pair
  obtain rfl : 5 = dir := Option.some.inj here
  have directory : UserDirectory pairKernel 5 := by
    refine ⟨walkable.pos, fun i _ => walkable.entries i, fun i _ j entry => ?_⟩
    by_cases here : i = 512
    · subst here
      have table : frameOf (pairKernel.mem 5 512) = 6 := by decide
      rw [table]
      by_cases first : j = 0
      · subst first
        decide
      · by_cases second : j = 1
        · subst second
          decide
        · exact fun page => absurd ((if_neg first).trans (if_neg second)) page
    · exact absurd (if_neg here) entry
  rw [calculateRequiredFrames_counts directory (by decide) (by decide)]
  have table : missingTables pairKernel 5 0x7FFFFFFF 0x2002 = 1 := by
    rw [missingTables, unitsOf_eq (by decide) (by decide)]
    decide
  have page : missingPages pairKernel 5 0x7FFFFFFF 0x2002 = 2 := by
    rw [missingPages, unitsOf_eq (by decide) (by decide)]
    decide
  rw [table, page]

end Fos
