import Mathlib.Data.Option.Basic
import Mathlib.Data.Set.Basic
import Mathlib.Logic.Function.Basic
import Mathlib.Tactic.Common

/-!
# Write-back memory

Items that lie in a store, some of them with a copy in memory that may have been changed since.
`Shows` says that the two tiers together hold what is known of the cells of the items.

* `Shown`: the same of one item, which is written, evicted, loaded and created;
* `Shows.change`: one item changes at a time;
* `Tiers.Fetched`, `Shows.fetched`, `Shows.write`: items are fetched and written.
-/

namespace WriteBack

variable {ι κ β γ : Type*}

/-! ## One item -/

/-- An item in memory has what is known of it, and so has its copy in the store unless the item
is dirty; an item that is not in memory has it in the store. -/
structure Shown (get : β → κ → γ) (known : κ → Option γ) (memory : Option β) (dirty : Bool)
    (store : Option β) : Prop where
  here : ∀ {p k x}, memory = some p → known k = some x → get p k = x
  clean : ∀ {q k x}, memory ≠ none → dirty = false → store = some q → known k = some x → get q k = x
  away : ∀ {k x}, memory = none → known k = some x → ∃ q, store = some q ∧ get q k = x
  backed : memory ≠ none → store ≠ none

variable {get : β → κ → γ} {known : κ → Option γ} {memory store : Option β} {dirty dirty' : Bool}
  {p q : β}

namespace Shown

/-- Nothing is known of it. -/
theorem unknown (none : ∀ k, known k = none) (backed : memory ≠ .none → store ≠ .none) :
    Shown get known memory dirty store := by
  refine ⟨fun _ is => ?_, fun _ _ _ is => ?_, fun _ is => ?_, backed⟩ <;> simp [none] at is

/-- It leaves the memory, and is written back if it is dirty. -/
theorem evict (item : Shown get known (some p) dirty store) :
    Shown get known none dirty' (if dirty then some p else store) := by
  refine ⟨nofun, nofun, fun {k x} _ is => ?_, nofun⟩
  cases dirty with
  | true => exact ⟨p, rfl, item.here rfl is⟩
  | false =>
    obtain ⟨q, stored⟩ := Option.ne_none_iff_exists'.mp (item.backed (by simp))
    exact ⟨q, stored, item.clean (by simp) rfl stored is⟩

/-- It comes in from the store, and its cells become known. -/
theorem load (item : Shown get known none dirty (some q)) :
    Shown get (fun k => some ((known k).getD (get q k))) (some q) dirty' (some q) := by
  have value : ∀ {k x}, some ((known k).getD (get q k)) = some x → get q k = x := by
    intro k x is
    cases old : known k with
    | none =>
      rw [old] at is
      exact Option.some.inj is
    | some y =>
      obtain ⟨r, stored, old'⟩ := item.away rfl old
      rw [old] at is
      obtain rfl := Option.some.inj stored
      exact old'.trans (Option.some.inj is)
  refine ⟨fun there is => ?_, fun _ _ there is => ?_, nofun, fun _ => nofun⟩
  · obtain rfl := Option.some.inj there
    exact value is
  · obtain rfl := Option.some.inj there
    exact value is

/-- A new one is made in both tiers. -/
theorem create (item : Shown get known none dirty none) :
    Shown get known (some p) dirty' (some q) := by
  refine unknown (fun k => ?_) fun _ => nofun
  cases is : known k with
  | none => rfl
  | some x =>
    obtain ⟨r, stored, -⟩ := item.away rfl is
    cases stored

/-- While it is not in memory it does not matter whether it is dirty. -/
theorem idle (item : Shown get known none dirty store) : Shown get known none dirty' store :=
  ⟨item.here, fun here => absurd rfl here, item.away, item.backed⟩

/-- It may come into the store if it is not there. -/
theorem add {store' : Option β} (item : Shown get known memory dirty store)
    (kept : ∀ q, store = some q → store' = some q) : Shown get known memory dirty store' := by
  refine ⟨item.here, fun {q k x} here clean there is => ?_, fun {k x} out is => ?_, fun here => ?_⟩
  · obtain ⟨r, stored⟩ := Option.ne_none_iff_exists'.mp (item.backed here)
    obtain rfl := Option.some.inj ((kept r stored).symm.trans there)
    exact item.clean here clean stored is
  · obtain ⟨q, stored, value⟩ := item.away out is
    exact ⟨q, kept q stored, value⟩
  · obtain ⟨r, stored⟩ := Option.ne_none_iff_exists'.mp (item.backed here)
    simp [kept r stored]

variable [DecidableEq κ]

/-- A cell is written. -/
theorem write {k : κ} {x : γ} (item : Shown get known (some p) dirty store)
    (written : ∀ k', get q k' = if k' = k then x else get p k') :
    Shown get (Function.update known k (some x)) (some q) true store := by
  refine ⟨fun {r k' y} there is => ?_, fun _ => nofun, nofun, fun _ => item.backed (by simp)⟩
  obtain rfl := Option.some.inj there
  rw [written]
  rw [Function.update_apply] at is
  split
  · rename_i cell
    rw [if_pos cell] at is
    exact Option.some.inj is
  · rename_i other
    rw [if_neg other] at is
    exact item.here rfl is

end Shown

/-! ## All items -/

/-- The items in memory, which of them are dirty, and the items in the store. -/
@[ext]
structure Tiers (ι β : Type*) where
  memory : ι → Option β
  dirty : ι → Bool
  store : ι → Option β

/-- The items `I` have what is known of them. -/
def Shows (get : β → κ → γ) (known : ι → κ → Option γ) (I : Set ι) (t : Tiers ι β) : Prop :=
  ∀ i ∈ I, Shown get (known i) (t.memory i) (t.dirty i) (t.store i)

/-- Those of the items that are in memory have a place in the store. -/
def Tiers.Backed (t : Tiers ι β) (I : Set ι) : Prop := ∀ i ∈ I, t.memory i ≠ none → t.store i ≠ none

theorem Shows.backed {known : ι → κ → Option γ} {I : Set ι} {t : Tiers ι β}
    (tiers : Shows get known I t) : t.Backed I := fun i mem => (tiers i mem).backed

/-- One item changes. -/
theorem Shows.change {known known' : ι → κ → Option γ} {I : Set ι} {t t' : Tiers ι β} {i : ι}
    (tiers : Shows get known I t)
    (item : i ∈ I → Shown get (known' i) (t'.memory i) (t'.dirty i) (t'.store i))
    (others : ∀ j ≠ i, known' j = known j ∧ t'.memory j = t.memory j ∧ t'.dirty j = t.dirty j ∧
      t'.store j = t.store j) : Shows get known' I t' := by
  intro j mem
  rcases eq_or_ne j i with rfl | ne
  · exact item mem
  · obtain ⟨same, memory, dirty, store⟩ := others j ne
    rw [same, memory, dirty, store]
    exact tiers j mem

variable [DecidableEq ι] {t t' : Tiers ι β} {i : ι}

namespace Tiers

/-- An item leaves the memory, and is written back if it is dirty. -/
def evict (t : Tiers ι β) (i : ι) : Tiers ι β :=
  ⟨Function.update t.memory i none, Function.update t.dirty i false,
    if t.dirty i then Function.update t.store i (t.memory i) else t.store⟩

/-- An item comes in from the store. -/
def load (t : Tiers ι β) (i : ι) : Tiers ι β :=
  ⟨Function.update t.memory i (t.store i), Function.update t.dirty i false, t.store⟩

/-- An item is made in both tiers. -/
def create (t : Tiers ι β) (i : ι) (p q : β) : Tiers ι β :=
  ⟨Function.update t.memory i (some p), Function.update t.dirty i false,
    Function.update t.store i (some q)⟩

/-- An item in memory is written. -/
def write (t : Tiers ι β) (i : ι) (p : β) : Tiers ι β :=
  ⟨Function.update t.memory i (some p), Function.update t.dirty i true, t.store⟩

/-- An item that is not in memory comes into it. -/
def Placed (t : Tiers ι β) (i : ι) (t' : Tiers ι β) : Prop :=
  t.store i ≠ none ∧ t' = t.load i ∨ t.store i = none ∧ ∃ p q, t' = t.create i p q

/-- An item comes into memory, if it is not there, for which another one may have to leave. -/
inductive Fetched (t : Tiers ι β) (i : ι) : Tiers ι β → Prop
  | here : t.memory i ≠ none → Fetched t i t
  | placed {t' : Tiers ι β} : t.memory i = none → t.Placed i t' → Fetched t i t'
  | replaced {j : ι} {t' : Tiers ι β} : t.memory i = none → t.memory j ≠ none →
    (t.evict j).Placed i t' → Fetched t i t'

end Tiers

/-- What is known after an item has been fetched. -/
def fetched (get : β → κ → γ) (known : ι → κ → Option γ) (t : Tiers ι β) (i : ι) :
    ι → κ → Option γ :=
  match t.memory i, t.store i with
  | none, some q => Function.update known i fun k => some ((known i k).getD (get q k))
  | _, _ => known

namespace Shows

open Tiers

variable {known : ι → κ → Option γ} {I : Set ι} {j : ι}

theorem evict (tiers : Shows get known I t) (here : t.memory j ≠ none) :
    Shows get known I (t.evict j) := by
  obtain ⟨p, memory⟩ := Option.ne_none_iff_exists'.mp here
  refine tiers.change (i := j) (fun mem => ?_) fun k ne => ?_
  · have item := tiers j mem
    rw [memory] at item
    have out : (t.evict j).store j = if t.dirty j then some p else t.store j := by
      simp only [Tiers.evict]
      split <;> simp [memory]
    rw [out]
    simpa [Tiers.evict] using item.evict
  · refine ⟨rfl, Function.update_of_ne ne .., Function.update_of_ne ne .., ?_⟩
    simp only [Tiers.evict]
    split <;> simp [ne]

theorem placed (tiers : Shows get known I t) (out : t.memory i = none) (placed : t.Placed i t') :
    Shows get (fetched get known t i) I t' := by
  rcases placed with ⟨stored, rfl⟩ | ⟨absent, p, q, rfl⟩
  · obtain ⟨q, store⟩ := Option.ne_none_iff_exists'.mp stored
    simp only [fetched, out, store]
    refine tiers.change (i := i) (fun mem => ?_) fun k ne => ?_
    · have item := tiers i mem
      rw [out, store] at item
      simpa [Tiers.load, store] using item.load
    · exact ⟨Function.update_of_ne ne .., Function.update_of_ne ne .., Function.update_of_ne ne ..,
        rfl⟩
  · simp only [fetched, out, absent]
    refine tiers.change (i := i) (fun mem => ?_) fun k ne => ?_
    · have item := tiers i mem
      rw [out, absent] at item
      simpa [Tiers.create] using item.create
    · exact ⟨rfl, Function.update_of_ne ne .., Function.update_of_ne ne ..,
        Function.update_of_ne ne ..⟩

/-- **Whatever is evicted, what is known stays true.** -/
theorem fetched (tiers : Shows get known I t) (fetch : t.Fetched i t') :
    Shows get (fetched get known t i) I t' := by
  cases fetch with
  | here resident =>
    obtain ⟨p, memory⟩ := Option.ne_none_iff_exists'.mp resident
    simpa only [WriteBack.fetched, memory] using tiers
  | placed out placed => exact tiers.placed out placed
  | @replaced j t' out here placed =>
    have ne : i ≠ j := fun eq => here (eq ▸ out)
    have gone : (t.evict j).memory i = none := (Function.update_of_ne ne ..).trans out
    have store : (t.evict j).store i = t.store i := by
      simp only [Tiers.evict]
      split <;> simp [ne]
    have next := (tiers.evict here).placed gone placed
    simpa only [WriteBack.fetched, out, gone, store] using next

variable [DecidableEq κ]

theorem write {k : κ} {x : γ} (tiers : Shows get known I t) (here : t.memory i = some p)
    (written : ∀ k', get q k' = if k' = k then x else get p k') :
    Shows get (Function.update known i (Function.update (known i) k (some x))) I (t.write i q) := by
  refine tiers.change (i := i) (fun mem => ?_) fun j ne => ?_
  · have item := tiers i mem
    rw [here] at item
    simpa [Tiers.write] using item.write written
  · exact ⟨Function.update_of_ne ne .., Function.update_of_ne ne .., Function.update_of_ne ne ..,
      rfl⟩

end Shows

end WriteBack
