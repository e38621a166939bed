import Mathlib.Data.Finset.Card
import Mathlib.Data.Finset.Prod
import Mathlib.Tactic.Common

/-!
# Counting the slots that refer to an object

A finite set of slots each of which refers to at most one object.  Assigning one slot
changes the number of holders by one at most: it falls for the object that the slot
referred to, and rises for the new one.
-/

namespace Arena

variable {Slot Obj : Type*} [DecidableEq Obj]

/-- The slots that refer to the object `o`. -/
def holders (slots : Finset Slot) (m : Slot → Option Obj) (o : Obj) : Finset Slot :=
  slots.filter fun k => m k = some o

variable {slots : Finset Slot} {m m' : Slot → Option Obj} {k : Slot} {o : Obj}

theorem mem_holders : k ∈ holders slots m o ↔ k ∈ slots ∧ m k = some o := Finset.mem_filter

theorem holders_congr (same : ∀ k ∈ slots, m k = m' k) :
    holders slots m o = holders slots m' o :=
  Finset.filter_congr fun k member => by rw [same k member]

variable [DecidableEq Slot]

/-- The slots other than `k` that refer to `o` stay as they are. -/
theorem holders_update_erase (slots : Finset Slot) (m : Slot → Option Obj) (k : Slot)
    (x : Option Obj) (o : Obj) :
    (holders slots (Function.update m k x) o).erase k = (holders slots m o).erase k := by
  ext k'
  simp only [Finset.mem_erase, mem_holders]
  refine and_congr_right fun ne => ?_
  rw [Function.update_of_ne ne]

/-- What an assignment does to the number of holders. -/
theorem card_holders_update (member : k ∈ slots) (x : Option Obj) (o : Obj) :
    (holders slots (Function.update m k x) o).card + (if m k = some o then 1 else 0) =
      (holders slots m o).card + if x = some o then 1 else 0 := by
  have others := congrArg Finset.card (holders_update_erase slots m k x o)
  have new : k ∈ holders slots (Function.update m k x) o ↔ x = some o := by
    rw [mem_holders, Function.update_self, and_iff_right member]
  have old : k ∈ holders slots m o ↔ m k = some o := by
    rw [mem_holders, and_iff_right member]
  rw [Finset.card_erase_eq_ite, Finset.card_erase_eq_ite] at others
  simp only [new, old] at others
  have newPos := fun h => Finset.card_pos.mpr ⟨k, new.mpr h⟩
  have oldPos := fun h => Finset.card_pos.mpr ⟨k, old.mpr h⟩
  generalize (holders slots (Function.update m k x) o).card = n at *
  generalize (holders slots m o).card = n' at *
  by_cases hx : x = some o <;> by_cases hm : m k = some o
  · have hn := newPos hx
    have hn' := oldPos hm
    simp only [hx, hm, if_true] at others ⊢
    omega
  · have hn := newPos hx
    simp only [hx, hm, if_true, if_false] at others ⊢
    omega
  · have hn' := oldPos hm
    simp only [hx, hm, if_true, if_false] at others ⊢
    omega
  · simpa [hx, hm] using others

end Arena
