import Mathlib.Logic.Function.Basic
import Mathlib.Tactic.Common

/-!
# Trees of tables in a store of frames

Objects (tables and the pages they lead to) lie in numbered frames.  A frame is free,
lost, reserved, or holds one object; an entry of a table is zero or refers to the
frame of the child object that belongs to that place.  A `View` says where the
objects lie and what they contain, and `View.Wf` that this is consistent: no frame
holds two objects, and an object exists exactly if its parent's entry is not zero.

* `Wf.retire`, `Wf.link`, `Wf.unlink`, `Wf.rewrite`, `Wf.setPage`, `Wf.root`,
  `Wf.forget`: the edits of a tree, each keeping consistency;
* `Stores`: a memory that has the contents of a view in the frames, and what a write
  does to it.
-/

namespace Arena

/-- What a frame is used for.  A `taken` frame is allocated and does not hold an object
yet; nothing will ever refer to a `lost` one. -/
inductive Use (Obj : Type*) where
  | free
  | taken
  | lost
  | reserved
  | holds (o : Obj)

/-- Which object an entry leads to, and which frame a word refers to. -/
structure Shape (Obj Idx Word : Type*) where
  child : Obj → Idx → Option Obj
  frameOf : Word → ℕ
  zero : Word
  child_inj : ∀ {o o' i i' c}, child o i = some c → child o' i' = some c → o = o' ∧ i = i'

/-- Where the objects lie and what they contain. -/
structure View (Obj Idx Word : Type*) where
  use : ℕ → Use Obj
  place : Obj → Option ℕ
  page : Obj → Idx → Word

variable {Obj Idx Word : Type*} {sh : Shape Obj Idx Word} {v : View Obj Idx Word}
  {o c : Obj} {i : Idx} {f : ℕ} {w : Word} {p : Idx → Word}

/-- Frames and objects agree, and objects exist as the entries of their parents say. -/
structure View.Wf (sh : Shape Obj Idx Word) (v : View Obj Idx Word) : Prop where
  place_use : ∀ o f, v.place o = some f ↔ v.use f = .holds o
  absent : ∀ o, v.place o = none → v.page o = fun _ => sh.zero
  linked : ∀ o i c, sh.child o i = some c →
    ∀ f, v.place c = some f ↔ v.page o i ≠ sh.zero ∧ sh.frameOf (v.page o i) = f

/-- A frame that holds no object. -/
def Use.Loose (u : Use Obj) : Prop := ∀ o, u ≠ .holds o

theorem loose_free : (Use.free : Use Obj).Loose := by rintro _ ⟨⟩

theorem loose_taken : (Use.taken : Use Obj).Loose := by rintro _ ⟨⟩

theorem loose_lost : (Use.lost : Use Obj).Loose := by rintro _ ⟨⟩

namespace View.Wf

/-- An object lies in one frame. -/
theorem place_inj (wf : v.Wf sh) (here : v.place o = some f) (there : v.place c = some f) :
    o = c := by
  have eq := ((wf.place_use o f).mp here).symm.trans ((wf.place_use c f).mp there)
  cases eq
  rfl

theorem not_placed (wf : v.Wf sh) (loose : (v.use f).Loose) (o : Obj) : v.place o ≠ some f :=
  fun here => loose o ((wf.place_use o f).mp here)

/-- The child of a zero entry does not exist. -/
theorem place_child_none (wf : v.Wf sh) (child : sh.child o i = some c)
    (empty : v.page o i = sh.zero) : v.place c = none := by
  by_contra some
  obtain ⟨f, here⟩ := Option.ne_none_iff_exists'.mp some
  exact ((wf.linked o i c child f).mp here).1 empty

theorem place_child_some (wf : v.Wf sh) (child : sh.child o i = some c)
    (entry : v.page o i ≠ sh.zero) : v.place c = some (sh.frameOf (v.page o i)) :=
  (wf.linked o i c child _).mpr ⟨entry, rfl⟩

/-- A child exists only below its parent. -/
theorem place_parent (wf : v.Wf sh) (child : sh.child o i = some c) (here : v.place c = some f) :
    ∃ g, v.place o = some g := by
  by_contra none
  rw [← Option.ne_none_iff_exists', not_not] at none
  exact ((wf.linked o i c child f).mp here).1 (congrFun (wf.absent o none) i)

end View.Wf

/-! ## Edits -/

/-- Change the use of a frame that holds no object. -/
def View.retire (v : View Obj Idx Word) (f : ℕ) (u : Use Obj) : View Obj Idx Word :=
  { v with use := Function.update v.use f u }

theorem View.Wf.retire (wf : v.Wf sh) (loose : (v.use f).Loose) {u : Use Obj} (loose' : u.Loose) :
    (v.retire f u).Wf sh := by
  refine ⟨fun o g => ?_, wf.absent, wf.linked⟩
  rcases eq_or_ne g f with rfl | ne
  · simp only [View.retire, Function.update_self]
    exact iff_of_false (wf.not_placed loose o) (loose' o)
  · simp only [View.retire, Function.update_of_ne ne]
    exact wf.place_use o g

section Edits

variable [DecidableEq Obj]

/-- Change one word of an object. -/
def View.write [DecidableEq Idx] (v : View Obj Idx Word) (o : Obj) (i : Idx) (w : Word) :
    View Obj Idx Word :=
  { v with page := Function.update v.page o (Function.update (v.page o) i w) }

/-- Change the contents of an object. -/
def View.setPage (v : View Obj Idx Word) (o : Obj) (p : Idx → Word) : View Obj Idx Word :=
  { v with page := Function.update v.page o p }

/-- Let the frame `f` hold the new object `o` with the contents `p`. -/
def View.put (v : View Obj Idx Word) (o : Obj) (f : ℕ) (p : Idx → Word) : View Obj Idx Word :=
  { use := Function.update v.use f (.holds o)
    place := Function.update v.place o (some f)
    page := Function.update v.page o p }

/-- Forget the object `o`, whose frame is lost. -/
def View.drop (sh : Shape Obj Idx Word) (v : View Obj Idx Word) (o : Obj) (f : ℕ) :
    View Obj Idx Word :=
  { use := Function.update v.use f .lost
    place := Function.update v.place o none
    page := Function.update v.page o fun _ => sh.zero }

/-- A word that leads to no object, or leads on to the same frame. -/
theorem View.Wf.rewrite [DecidableEq Idx] (wf : v.Wf sh) (here : v.place o ≠ none)
    (same : ∀ c, sh.child o i = some c →
      v.page o i ≠ sh.zero ∧ w ≠ sh.zero ∧ sh.frameOf w = sh.frameOf (v.page o i)) :
    (v.write o i w).Wf sh := by
  refine ⟨wf.place_use, fun o' none => ?_, fun o' i' c child g => ?_⟩
  · have ne : o' ≠ o := fun eq => here (eq ▸ none)
    simpa [View.write, Function.update_of_ne ne] using wf.absent o' none
  · have linked := wf.linked o' i' c child g
    rcases eq_or_ne o' o with rfl | ne
    · rcases eq_or_ne i' i with rfl | ne'
      · obtain ⟨old, new, frame⟩ := same c child
        simpa [View.write, old, new, frame] using linked
      · simpa [View.write, Function.update_of_ne ne'] using linked
    · simpa [View.write, Function.update_of_ne ne] using linked

/-- The contents of an object without children. -/
theorem View.Wf.setPage (wf : v.Wf sh) (here : v.place o ≠ none)
    (leaf : ∀ i, sh.child o i = none) : (v.setPage o p).Wf sh := by
  refine ⟨wf.place_use, fun o' none => ?_, fun o' i' c child g => ?_⟩
  · have ne : o' ≠ o := fun eq => here (eq ▸ none)
    simpa [View.setPage, Function.update_of_ne ne] using wf.absent o' none
  · have ne : o' ≠ o := by
      rintro rfl
      rw [leaf] at child
      cases child
    simpa [View.setPage, Function.update_of_ne ne] using wf.linked o' i' c child g

/-- A new object in a loose frame, with no children yet.  Its parent, if it has one, must
come to refer to it. -/
theorem View.Wf.put_aux (wf : v.Wf sh) (fresh : v.place c = none) (loose : (v.use f).Loose)
    (bare : ∀ i c', sh.child c i = some c' → p i = sh.zero) :
    let v' := v.put c f p
    (∀ o g, v'.place o = some g ↔ v'.use g = .holds o) ∧
    (∀ o, v'.place o = none → v'.page o = fun _ => sh.zero) ∧
    ∀ o i c', sh.child o i = some c' → c' ≠ c →
      ∀ g, v'.place c' = some g ↔ v'.page o i ≠ sh.zero ∧ sh.frameOf (v'.page o i) = g := by
  refine ⟨fun o g => ?_, fun o none => ?_, fun o i c' child ne g => ?_⟩
  · rcases eq_or_ne o c with rfl | ne
    · rcases eq_or_ne g f with rfl | ne'
      · simp [View.put]
      · have absent : v.use g ≠ .holds o := fun h => by
          rw [(wf.place_use o g).mpr h] at fresh
          cases fresh
        simp [View.put, Function.update_of_ne ne', ne'.symm, absent]
    · rcases eq_or_ne g f with rfl | ne'
      · simp [View.put, Function.update_of_ne ne, wf.not_placed loose o, ne.symm]
      · simpa [View.put, Function.update_of_ne ne, Function.update_of_ne ne']
          using wf.place_use o g
  · rcases eq_or_ne o c with rfl | ne
    · simp [View.put] at none
    · simp only [View.put, Function.update_of_ne ne] at none ⊢
      exact wf.absent o none
  · simp only [View.put, Function.update_of_ne ne]
    rcases eq_or_ne o c with rfl | ne'
    · have gone : v.place c' = none :=
        wf.place_child_none child (congrFun (wf.absent o fresh) i)
      simp [gone, bare i c' child]
    · simpa [Function.update_of_ne ne'] using wf.linked o i c' child g

/-- A root is nobody's child. -/
theorem View.Wf.root (wf : v.Wf sh) (root : ∀ o i, sh.child o i ≠ some c)
    (fresh : v.place c = none) (loose : (v.use f).Loose)
    (bare : ∀ i c', sh.child c i = some c' → p i = sh.zero) : (v.put c f p).Wf sh := by
  obtain ⟨place_use, absent, linked⟩ := wf.put_aux fresh loose bare
  refine ⟨place_use, absent, fun o i c' child => linked o i c' child ?_⟩
  rintro rfl
  exact root o i child

/-- An entry that was zero comes to refer to a new object. -/
theorem View.Wf.link [DecidableEq Idx] (wf : v.Wf sh) (child : sh.child o i = some c)
    (here : v.place o ≠ none)
    (empty : v.page o i = sh.zero) (loose : (v.use f).Loose) (entry : w ≠ sh.zero)
    (frame : sh.frameOf w = f) (bare : ∀ j c', sh.child c j = some c' → p j = sh.zero) :
    ((v.write o i w).put c f p).Wf sh := by
  have fresh := wf.place_child_none child empty
  have o_c : o ≠ c := by
    rintro rfl
    exact here fresh
  obtain ⟨place_use, absent, linked⟩ := wf.put_aux fresh loose bare
  have pages : ∀ o' i', (o', i') ≠ (o, i) →
      ((v.write o i w).put c f p).page o' i' = (v.put c f p).page o' i' := by
    intro o' i' ne
    rcases eq_or_ne o' c with rfl | ne_c
    · simp [View.put]
    · rcases eq_or_ne o' o with rfl | ne_o
      · have ne_i : i' ≠ i := by
          rintro rfl
          exact ne rfl
        simp [View.put, View.write, Function.update_of_ne ne_c, Function.update_of_ne ne_i]
      · simp [View.put, View.write, Function.update_of_ne ne_c, Function.update_of_ne ne_o]
  have at_o : ((v.write o i w).put c f p).page o i = w := by
    simp [View.put, View.write, Function.update_of_ne o_c]
  refine ⟨place_use, fun o' none => ?_, fun o' i' c' child' g => ?_⟩
  · have ne : o' ≠ o := by
      rintro rfl
      simp only [View.put, View.write, Function.update_of_ne o_c] at none
      exact here none
    funext i'
    rw [pages o' i' fun eq => ne (congrArg Prod.fst eq)]
    exact congrFun (absent o' none) i'
  · by_cases eq : (o', i') = (o, i)
    · obtain ⟨rfl, rfl⟩ := Prod.mk.injEq .. ▸ eq
      obtain rfl : c = c' := Option.some.inj (child.symm.trans child')
      rw [at_o]
      simp [View.put, View.write, entry, frame]
    · have ne : c' ≠ c := by
        rintro rfl
        obtain ⟨rfl, rfl⟩ := sh.child_inj child child'
        exact eq rfl
      rw [pages o' i' eq]
      exact linked o' i' c' child' ne g

/-- An entry is cleared; the frame it referred to is lost. -/
theorem View.Wf.unlink [DecidableEq Idx] (wf : v.Wf sh) (child : sh.child o i = some c)
    (here : v.place c = some f)
    (bare : ∀ j c', sh.child c j = some c' → v.page c j = sh.zero) :
    ((v.write o i sh.zero).drop sh c f).Wf sh := by
  obtain ⟨g, parent⟩ := wf.place_parent child here
  have entry := (wf.linked o i c child f).mp here
  have o_c : o ≠ c := by
    rintro rfl
    exact entry.1 (bare i _ child)
  refine ⟨fun o' g' => ?_, fun o' none => ?_, fun o' i' c' child' g' => ?_⟩
  · rcases eq_or_ne o' c with rfl | ne
    · rcases eq_or_ne g' f with rfl | ne'
      · simp [View.drop]
      · have other : v.use g' ≠ .holds o' := fun h => by
          have eq := here.symm.trans ((wf.place_use o' g').mpr h)
          exact ne' (Option.some.inj eq).symm
        simp [View.drop, View.write, Function.update_of_ne ne', other]
    · rcases eq_or_ne g' f with rfl | ne'
      · have elsewhere : v.place o' ≠ some g' := fun h => ne (wf.place_inj h here)
        simp [View.drop, View.write, Function.update_of_ne ne, elsewhere]
      · simpa [View.drop, View.write, Function.update_of_ne ne, Function.update_of_ne ne']
          using wf.place_use o' g'
  · rcases eq_or_ne o' c with rfl | ne
    · simp [View.drop]
    · simp only [View.drop, View.write, Function.update_of_ne ne] at none ⊢
      have ne_o : o' ≠ o := by
        rintro rfl
        rw [parent] at none
        cases none
      rw [Function.update_of_ne ne_o]
      exact wf.absent o' none
  · rcases eq_or_ne c' c with rfl | ne
    · obtain ⟨rfl, rfl⟩ := sh.child_inj child child'
      simp [View.drop, View.write, Function.update_of_ne o_c]
    · have linked := wf.linked o' i' c' child' g'
      rcases eq_or_ne o' c with rfl | ne_c
      · have gone := wf.place_child_none child' (bare i' c' child')
        simp [View.drop, View.write, Function.update_of_ne ne, gone]
      · rcases eq_or_ne o' o with rfl | ne_o
        · have ne_i : i' ≠ i := by
            rintro rfl
            exact ne (Option.some.inj (child'.symm.trans child))
          simpa [View.drop, View.write, Function.update_of_ne ne, Function.update_of_ne ne_c,
            Function.update_of_ne ne_i] using linked
        · simpa [View.drop, View.write, Function.update_of_ne ne, Function.update_of_ne ne_c,
            Function.update_of_ne ne_o] using linked

end Edits

/-! ## Forgetting a whole tree -/

section Forget

variable (S : Obj → Prop) [DecidablePred S]

/-- Forget the objects `S`, whose frames are lost. -/
def View.forget (sh : Shape Obj Idx Word) (v : View Obj Idx Word) : View Obj Idx Word where
  use f := match v.use f with
    | .holds o => if S o then .lost else .holds o
    | u => u
  place o := if S o then none else v.place o
  page o := if S o then fun _ => sh.zero else v.page o

theorem View.Wf.forget (wf : v.Wf sh) (down : ∀ o i c, sh.child o i = some c → (S o ↔ S c)) :
    (v.forget S sh).Wf sh := by
  refine ⟨fun o f => ?_, fun o none => ?_, fun o i c child f => ?_⟩
  · have place_use := wf.place_use o f
    simp only [View.forget]
    by_cases gone : S o
    · rw [if_pos gone]
      refine iff_of_false (by simp) fun h => ?_
      cases use : v.use f with
      | holds o' =>
        rw [use] at h
        simp only at h
        split at h
        · cases h
        · rename_i kept
          cases h
          exact kept gone
      | free => simp [use] at h
      | taken => simp [use] at h
      | lost => simp [use] at h
      | reserved => simp [use] at h
    · rw [if_neg gone, place_use]
      cases use : v.use f with
      | holds o' =>
        simp only
        split
        · rename_i gone'
          refine iff_of_false (fun h => ?_) (by simp)
          cases h
          exact gone gone'
        · rfl
      | free => rfl
      | taken => rfl
      | lost => rfl
      | reserved => rfl
  · simp only [View.forget] at none ⊢
    split
    · rfl
    · rename_i kept
      rw [if_neg kept] at none
      exact wf.absent o none
  · simp only [View.forget]
    by_cases gone : S o
    · rw [if_pos ((down o i c child).mp gone), if_pos gone]
      simp
    · rw [if_neg (fun h => gone ((down o i c child).mpr h)), if_neg gone]
      exact wf.linked o i c child f

end Forget

/-! ## Memory -/

/-- The memory has the contents of the view in the frames of its objects. -/
def Stores (mem : ℕ → Idx → Word) (v : View Obj Idx Word) : Prop :=
  ∀ o f, v.place o = some f → mem f = v.page o

variable {mem : ℕ → Idx → Word}

/-- Writing to a frame that holds no object. -/
theorem Stores.loose (stores : Stores mem v) (wf : v.Wf sh) (loose : (v.use f).Loose)
    (p : Idx → Word) : Stores (Function.update mem f p) v := by
  intro o' f' here'
  have ne : f' ≠ f := by
    rintro rfl
    exact wf.not_placed loose o' here'
  rw [Function.update_of_ne ne]
  exact stores o' f' here'

theorem Stores.forget {S : Obj → Prop} [DecidablePred S] (stores : Stores mem v) :
    Stores mem (v.forget S sh) := by
  intro o' f' here'
  simp only [View.forget] at here' ⊢
  split at here'
  · cases here'
  · rename_i kept
    rw [if_neg kept]
    exact stores o' f' here'

section Stores

variable [DecidableEq Obj]

/-- Writing a word of an object. -/
theorem Stores.write [DecidableEq Idx] (stores : Stores mem v) (wf : v.Wf sh)
    (here : v.place o = some f)
    (i : Idx) (w : Word) :
    Stores (Function.update mem f (Function.update (mem f) i w)) (v.write o i w) := by
  intro o' f' here'
  rcases eq_or_ne o' o with rfl | ne
  · obtain rfl := Option.some.inj (here.symm.trans here')
    simp [View.write, stores o' f here]
  · have ne' : f' ≠ f := by
      rintro rfl
      exact ne (wf.place_inj here' here)
    simpa [View.write, Function.update_of_ne ne, Function.update_of_ne ne'] using stores o' f' here'

/-- Overwriting the contents of an object. -/
theorem Stores.setPage (stores : Stores mem v) (wf : v.Wf sh) (here : v.place o = some f)
    (p : Idx → Word) : Stores (Function.update mem f p) (v.setPage o p) := by
  intro o' f' here'
  rcases eq_or_ne o' o with rfl | ne
  · obtain rfl := Option.some.inj (here.symm.trans here')
    simp [View.setPage]
  · have ne' : f' ≠ f := by
      rintro rfl
      exact ne (wf.place_inj here' here)
    simpa [View.setPage, Function.update_of_ne ne, Function.update_of_ne ne']
      using stores o' f' here'

/-- A frame comes to hold what is in it. -/
theorem Stores.put (stores : Stores mem v) (c : Obj) : Stores mem (v.put c f (mem f)) := by
  intro o' f' here'
  rcases eq_or_ne o' c with rfl | ne
  · simp only [View.put, Function.update_self, Option.some.injEq] at here' ⊢
    rw [here']
  · simp only [View.put, Function.update_of_ne ne] at here' ⊢
    exact stores o' f' here'

theorem Stores.drop (stores : Stores mem v) : Stores mem (v.drop sh c f) := by
  intro o' f' here'
  rcases eq_or_ne o' c with rfl | ne
  · simp [View.drop] at here'
  · simp only [View.drop, Function.update_of_ne ne] at here' ⊢
    exact stores o' f' here'

end Stores

end Arena
