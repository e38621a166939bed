import Mathlib.Data.List.Basic
import Mathlib.Data.List.Nodup
import Mathlib.Data.List.TakeDrop
import Mathlib.Order.Lattice
import Mathlib.Tactic.Common

/-!
# Recency queues

A queue of at most `n` elements, the newest first.  Touching an element puts it in front; if
it was not in a full queue, the last element is dropped.

* `touch`, `touchAll`: one element, and several one after the other;
* `dropped_eq_getLast`: only the last element of a full queue is dropped;
* `mem_touchAll`: an element stays for `n - 1` further touches.
-/

namespace Recency

variable {α : Type*} [DecidableEq α] {n : Nat} {q : List α} {x y : α}

/-- The element `x` comes to the front. -/
def touch (n : Nat) (q : List α) (x : α) : List α := (x :: q.erase x).take n

/-- Several elements do, one after the other. -/
def touchAll (n : Nat) (q : List α) (xs : List α) : List α := xs.foldl (touch n) q

theorem touch_of_mem (short : q.length ≤ n) (mem : x ∈ q) : touch n q x = x :: q.erase x := by
  refine List.take_of_length_le ?_
  have pos := List.length_pos_of_mem mem
  rw [List.length_cons, List.length_erase_of_mem mem]
  omega

theorem touch_of_lt (room : q.length < n) (new : x ∉ q) : touch n q x = x :: q := by
  rw [touch, List.erase_of_not_mem new]
  exact List.take_of_length_le room

theorem touch_of_full (full : q.length = n) (new : x ∉ q) (pos : 0 < n) :
    touch n q x = x :: q.dropLast := by
  obtain ⟨m, rfl⟩ := Nat.exists_eq_succ_of_ne_zero (Nat.ne_of_gt pos)
  rw [touch, List.erase_of_not_mem new, List.take_succ_cons, List.dropLast_eq_take, full]
  rfl

/-- An element is dropped when a new one comes to a full queue, and it is the last one. -/
theorem dropped_eq_getLast (short : q.length ≤ n) (mem : y ∈ q) (gone : y ∉ touch n q x) :
    x ∉ q ∧ q.length = n ∧ q.getLast? = some y := by
  have other : y ≠ x := by
    rintro rfl
    have pos : 0 < n := Nat.lt_of_lt_of_le (List.length_pos_of_mem mem) short
    obtain ⟨m, rfl⟩ := Nat.exists_eq_succ_of_ne_zero (Nat.ne_of_gt pos)
    exact gone (by simp [touch])
  have new : x ∉ q := fun old => gone (by
    rw [touch_of_mem short old]
    exact List.mem_cons_of_mem x ((List.mem_erase_of_ne other).mpr mem))
  have full : q.length = n := by
    refine Nat.le_antisymm short (Nat.le_of_not_lt fun room => gone ?_)
    rw [touch_of_lt room new]
    exact List.mem_cons_of_mem x mem
  refine ⟨new, full, ?_⟩
  have nonempty : q ≠ [] := List.ne_nil_of_mem mem
  rw [touch_of_full full new (full ▸ List.length_pos_of_mem mem)] at gone
  have split := List.dropLast_append_getLast nonempty
  rw [← split, List.mem_append, List.mem_singleton] at mem
  rcases mem with mem | last
  · exact absurd (List.mem_cons_of_mem x mem) gone
  · rw [List.getLast?_eq_some_getLast nonempty, last]

/-- Erasing an element brings the others forward. -/
theorem mem_take_erase {j : Nat} (mem : y ∈ q.take j) (ne : y ≠ x) : y ∈ (q.erase x).take j := by
  induction q generalizing j with
  | nil => simp at mem
  | cons a q ih =>
    cases j with
    | zero => simp at mem
    | succ j =>
      rw [List.take_succ_cons, List.mem_cons] at mem
      rcases eq_or_ne a x with rfl | other
      · rw [List.erase_cons_head]
        exact (List.take_sublist_take_left (Nat.le_succ j)).subset (mem.resolve_left ne)
      · rw [List.erase_cons_tail (by simpa using other), List.take_succ_cons, List.mem_cons]
        exact mem.imp_right ih

/-- An element falls back by one place at most. -/
theorem mem_take_touch {j : Nat} (mem : y ∈ q.take j) (lt : j < n) (x : α) :
    y ∈ (touch n q x).take (j + 1) := by
  rw [touch, List.take_take, min_eq_left lt, List.take_succ_cons, List.mem_cons]
  exact (eq_or_ne y x).imp_right (mem_take_erase mem)

/-- An element among the first `j` is among the first `j + k` after `k` touches. -/
theorem mem_take_touchAll {j : Nat} (xs : List α) (mem : y ∈ q.take j) (le : j + xs.length ≤ n) :
    y ∈ (touchAll n q xs).take (j + xs.length) := by
  induction xs generalizing q j with
  | nil => exact mem
  | cons x xs ih =>
    rw [List.length_cons] at le ⊢
    have lt : j < n := by omega
    have next := ih (mem_take_touch mem lt x) (by omega)
    rwa [Nat.add_right_comm, Nat.add_assoc] at next

/-- An element that is touched stays in the queue for the next `n - 1` touches. -/
theorem mem_touchAll (q : List α) (x : α) (xs : List α) (short : xs.length < n) :
    x ∈ touchAll n (touch n q x) xs := by
  have first : x ∈ (touch n q x).take 1 := by
    rw [touch, List.take_take, min_eq_left (by omega)]
    simp
  exact List.mem_of_mem_take (mem_take_touchAll xs first (by omega))

end Recency
