import Fos.UserHeap.Runs
import Fos.WorkingSet.Invariant

/-!
# The system calls of an environment

What `freeMem` does for the environment that runs, while the others wait.

* `Underway.freeMem_wp`: pages go, and those that are left are as they were.
-/

namespace Fos

open Exec UserHeap

variable {e va size n : Nat} {env₀ : Env} {s s' : Kernel} {v v' : View} {w w' : WorkingSet}
  {T D : PageNo → Word} {m g : PageNo → Option Page}

theorem below_of_mem_rangeVas {a : Nat} (heap : va + numOf size * pageSize ≤ userHeapMax)
    (mem : a ∈ rangeVas va size) : UserVa a ∧ a < kernelBase := by
  rw [rangeVas_pages heap] at mem
  obtain ⟨i, small, rfl⟩ := List.mem_map.mp mem
  have le := Nat.mul_le_mul_right pageSize (List.mem_range.mp small).le
  have below := (Nat.add_le_add_left le va).trans heap
  exact ⟨userVa_of_le below, lt_of_le_of_lt below (by decide)⟩

/-- What is left of the pages of the current environment after it has freed a range. -/
structure View.FreesRange (v v' : View) (e va size : Nat) : Prop extends v.Remains v' e where
  gone : ∀ p, Aligned p → va ≤ p → p < va + size →
    v'.memory e (pageNo p) = none ∧ v'.stored e (pageNo p) = none
  kept : ∀ p, Aligned p → UserVa p → ¬ (va ≤ p ∧ p < va + size) →
    (v'.memory e (pageNo p) = none → v.memory e (pageNo p) = none) ∧
      v'.stored e (pageNo p) = v.stored e (pageNo p)

/-- The current environment frees a range of its heap. -/
theorem Underway.freeMem_wp (underway : Underway e env₀ s v w) (aligned : Aligned va)
    (heap : va + size ≤ userHeapMax) :
    wp (freeMem e va size) (fun _ s' => ∃ v' w', Underway e env₀ s' v' w' ∧
      v.FreesRange v' e va size) (fun _ _ => False) s := by
  apply underway.toResident.freed_wp heap
  intro s' v₁ v' w' resident gone entry dir _ _ remains less
  refine ⟨v', w', ?_, remains, fun p aligned' ge lt => ?_, fun p aligned' user out => ⟨?_, ?_⟩⟩
  · refine { resident with
      few := fun k has => underway.few k (less.has k has)
      fits := underway.fits
      sum := underway.sum
      active := (Int.ofNat_le.mpr less.active).trans underway.active
      second := underway.second
      high := ?_
      curenv := remains.curenv.trans underway.curenv
      current := ?_ }
    · rw [remains.envsAddress]
      exact underway.high
    · rw [View.Current, dir, remains.cr3]
      exact underway.current
  · have mem := (mem_freedPages aligned heap).mpr ⟨aligned', ge, lt⟩
    have user := userVa_of_le (lt.le.trans heap)
    constructor
    · by_contra some
      exact ((gone.queue p).mp ((resident.memory_ne_none aligned' user).mp some)).2 mem
    · by_contra some
      refine View.stored_ne_none.mp some ?_
      rw [entry, cleared, if_pos (List.mem_map_of_mem mem)]
  · intro none
    by_contra some
    have queued := (underway.toResident.memory_ne_none aligned' user).mp some
    have left :=
      (gone.queue p).mpr ⟨queued, fun mem => out ((mem_freedPages aligned heap).mp mem).2⟩
    exact (resident.memory_ne_none aligned' user).mpr left none
  · have same : v'.entry e (pageNo p) = v.entry e (pageNo p) := by
      rw [entry, cleared, if_neg fun mem => out ((mem_map_pageNo aligned aligned' heap).mp mem)]
    by_cases none : v'.stored e (pageNo p) = none
    · rw [none]
      by_contra some
      have nonzero := View.stored_ne_none.mp fun zero => some zero.symm
      exact View.stored_ne_none.mpr (same ▸ nonzero) none
    · exact remains.stored _ none

end Fos
