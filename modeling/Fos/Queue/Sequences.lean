import Fos.Queue

/-!
# The list macros on sequences

The insertions of `inc/queue.h` next to a given node, and every macro that edits one list,
over lists that share the links of their nodes.

* `ListMacro`: a macro with the nodes it is given; `ListMacro.onSequence` is what it should do
  to the sequence;
* `Lists.Rep.edits`: it does this to its list and keeps all the lists well formed;
* `listConcat_iff`: when `LIST_CONCAT` leaves one list of all the elements and an empty one.
-/

namespace Fos

open Linked

section Macros

variable {α : Type} [DecidableEq α]

/-- `LIST_INSERT_AFTER(list, listelm, elm)`. -/
def listInsertAfter (L : Links α) (list : ListHead α) (listelm elm : α) :
    Links α × ListHead α :=
  let L := L.setNext elm (L.next listelm)
  let L :=
    match L.next listelm with
    | some next => L.setPrev next (some elm)
    | none => L
  let L := (L.setNext listelm (some elm)).setPrev elm (some listelm)
  let list :=
    match L.next elm with
    | some _ => list
    | none => { list with lhLast := some elm }
  (L, { list with size := list.size + 1 })

/-- `LIST_INSERT_BEFORE(list, listelm, elm)`. -/
def listInsertBefore (L : Links α) (list : ListHead α) (listelm elm : α) :
    Links α × ListHead α :=
  let L := (L.setPrev elm (L.prev listelm)).setNext elm (some listelm)
  let (L, list) :=
    match L.prev listelm with
    | some prev => (L.setNext prev (some elm), list)
    | none => (L, { list with lhFirst := some elm })
  (L.setPrev listelm (some elm), { list with size := list.size + 1 })

/-- A macro that edits one list, with the nodes it is given. -/
inductive ListMacro (α : Type) where
  | insertHead (elm : α)
  | insertTail (elm : α)
  | insertAfter (listelm elm : α)
  | insertBefore (listelm elm : α)
  | remove (elm : α)

/-- The macro. -/
def ListMacro.apply (L : Links α) (list : ListHead α) : ListMacro α → Links α × ListHead α
  | .insertHead elm => listInsertHead L list elm
  | .insertTail elm => listInsertTail L list elm
  | .insertAfter listelm elm => listInsertAfter L list listelm elm
  | .insertBefore listelm elm => listInsertBefore L list listelm elm
  | .remove elm => listRemove L list elm

/-! ## The sequences -/

/-- `x` right after `y`. -/
def insertedAfter (y x : α) : List α → List α
  | [] => []
  | z :: zs => if z = y then z :: x :: zs else z :: insertedAfter y x zs

/-- `x` right before `y`. -/
def insertedBefore (y x : α) : List α → List α
  | [] => []
  | z :: zs => if z = y then x :: z :: zs else z :: insertedBefore y x zs

/-- What the macro should do to the sequence of its list. -/
def ListMacro.onSequence (xs : List α) : ListMacro α → List α
  | .insertHead elm => elm :: xs
  | .insertTail elm => xs ++ [elm]
  | .insertAfter listelm elm => insertedAfter listelm elm xs
  | .insertBefore listelm elm => insertedBefore listelm elm xs
  | .remove elm => xs.erase elm

theorem insertedAfter_append {xs ys : List α} {x y : α} (notin : y ∉ xs) :
    insertedAfter y x (xs ++ y :: ys) = xs ++ y :: x :: ys := by
  induction xs with
  | nil => exact if_pos rfl
  | cons z zs ih =>
    rw [List.mem_cons, not_or] at notin
    rw [List.cons_append, insertedAfter, if_neg (Ne.symm notin.1), ih notin.2, List.cons_append]

theorem insertedBefore_append {xs ys : List α} {x y : α} (notin : y ∉ xs) :
    insertedBefore y x (xs ++ y :: ys) = xs ++ x :: y :: ys := by
  induction xs with
  | nil => exact if_pos rfl
  | cons z zs ih =>
    rw [List.mem_cons, not_or] at notin
    rw [List.cons_append, insertedBefore, if_neg (Ne.symm notin.1), ih notin.2,
      List.cons_append]

end Macros

/-! ## Insertion next to a node -/

section Operations

variable {α : Type} {L : Links α} {h : ListHead α} {xs ys : List α} {x y : α}

/-- Where a node of a well-formed list stands. -/
structure Stands (L : Links α) (xs : List α) (y : α) (ys : List α) : Prop where
  back : L.prev y = xs.getLast?
  forth : L.next y = ys.head?
  before : L.Seg none (xs ++ [y]) ys.head?
  after : L.Seg (some y) ys none
  from_ : L.Seg xs.getLast? (y :: ys) none
  upTo : L.Seg none xs (some y)
  notBefore : y ∉ xs
  notAfter : y ∉ ys
  apart : ∀ a ∈ xs, ∀ b ∈ y :: ys, a ≠ b

theorem ListHead.Rep.stands (rep : h.Rep L (xs ++ y :: ys)) : Stands L xs y ys := by
  have seg := rep.seg
  have nodup := List.nodup_append.mp rep.nodup
  rw [Links.seg_append] at seg
  obtain ⟨upTo, back, forth, after⟩ := seg
  rw [Option.or_none] at back forth
  refine ⟨back, forth, ?_, after, ?_, upTo, fun mem => nodup.2.2 y mem y (by simp) rfl,
    (List.nodup_cons.mp nodup.2.1).1, nodup.2.2⟩
  · rw [Links.seg_append, Links.seg_singleton, Option.or_none]
    exact ⟨upTo, back, forth⟩
  · rw [Links.seg_cons, Option.or_none]
    exact ⟨back, forth, after⟩

theorem nodup_inserted (nodup : (xs ++ ys).Nodup) (fresh : x ∉ xs ++ ys) :
    (xs ++ x :: ys).Nodup :=
  List.nodup_middle.mpr (List.nodup_cons.mpr ⟨fresh, nodup⟩)

theorem size_inserted (rep : h.Rep L (xs ++ ys)) :
    h.size + 1 = UInt32.ofNat (xs ++ x :: ys).length := by
  rw [rep.size, List.length_append, List.length_append, List.length_cons, ← Nat.add_assoc,
    UInt32.ofNat_add (xs.length + ys.length)]
  rfl

variable [DecidableEq α]

/-- `LIST_INSERT_AFTER` of a loose node puts it after the given one. -/
theorem rep_insertAfter (rep : h.Rep L (xs ++ y :: ys)) (fresh : x ∉ xs ++ y :: ys) :
    (listInsertAfter L h y x).2.Rep (listInsertAfter L h y x).1 (xs ++ y :: x :: ys) := by
  have stands := rep.stands
  have split : xs ++ y :: ys = (xs ++ [y]) ++ ys := by simp
  have joined : xs ++ y :: x :: ys = (xs ++ [y]) ++ x :: ys := by simp
  rw [split] at fresh
  have xLeft : x ∉ xs ++ [y] := fun mem => fresh (List.mem_append_left _ mem)
  have xRight : x ∉ ys := fun mem => fresh (List.mem_append_right _ mem)
  have yx : y ≠ x := fun same => xLeft (by simp [same])
  have nodup : ((xs ++ [y]) ++ x :: ys).Nodup := nodup_inserted (split ▸ rep.nodup) fresh
  have size : h.size + 1 = UInt32.ofNat ((xs ++ [y]) ++ x :: ys).length :=
    size_inserted (split ▸ rep)
  have first : h.lhFirst = ((xs ++ [y]) ++ x :: ys).head? := by
    rw [rep.first]
    cases xs <;> simp
  have before : ∀ L' : Links α, L'.Seg none (xs ++ [y]) ys.head? →
      ((L'.setNext y (some x)).setPrev x (some y)).Seg none (xs ++ [y]) (some x) :=
    fun L' seg => (seg.setNext_last stands.notBefore).setPrev xLeft
  have whole : ∀ L' : Links α, L'.Seg none (xs ++ [y]) (some x) → L'.prev x = some y →
      L'.next x = ys.head? → L'.Seg (some x) ys none →
        L'.Seg none ((xs ++ [y]) ++ x :: ys) none := by
    intro L' left back forth right
    rw [Links.seg_append, Links.seg_cons, List.getLast?_concat]
    exact ⟨left, back, forth.trans (Option.or_none ..).symm, right⟩
  rw [joined]
  cases ys with
  | nil =>
    simp only [listInsertAfter, stands.forth, L.setNext_next_of_ne _ yx, List.head?_nil,
      Links.setPrev_next, Links.setNext_next_of_ne _ _ yx.symm, Links.setNext_next_self]
    refine ⟨first, by simp, whole _ (before _ (stands.before.setNext xLeft)) (by simp) ?_ trivial,
      nodup, size⟩
    rw [Links.setPrev_next, Links.setNext_next_of_ne _ _ yx.symm, Links.setNext_next_self]
    rfl
  | cons z zs =>
    have zzs : z ∉ zs := (List.nodup_cons.mp (List.nodup_append.mp (split ▸ rep.nodup)).2.1).1
    have zLeft : z ∉ xs ++ [y] := fun mem =>
      (List.nodup_append.mp (split ▸ rep.nodup)).2.2 z mem z (by simp) rfl
    simp only [listInsertAfter, stands.forth, L.setNext_next_of_ne _ yx, List.head?_cons,
      Links.setPrev_next, Links.setNext_next_of_ne _ _ yx.symm, Links.setNext_next_self]
    refine ⟨first, ?_, whole _ (before _ ((stands.before.setNext xLeft).setPrev zLeft)) (by simp)
      ?_ ?_, nodup, size⟩
    · rw [rep.last]
      simp
    · rw [Links.setPrev_next, Links.setNext_next_of_ne _ _ yx.symm, Links.setPrev_next,
        Links.setNext_next_self]
      rfl
    · exact (((stands.after.setNext xRight).setPrev_head zzs).setNext stands.notAfter).setPrev
        xRight

/-- `LIST_INSERT_BEFORE` of a loose node puts it before the given one. -/
theorem rep_insertBefore (rep : h.Rep L (xs ++ y :: ys)) (fresh : x ∉ xs ++ y :: ys) :
    (listInsertBefore L h y x).2.Rep (listInsertBefore L h y x).1 (xs ++ x :: y :: ys) := by
  have stands := rep.stands
  have xLeft : x ∉ xs := fun mem => fresh (List.mem_append_left _ mem)
  have xRight : x ∉ y :: ys := fun mem => fresh (List.mem_append_right _ mem)
  have yx : y ≠ x := fun same => xRight (by simp [same])
  have nodup : (xs ++ x :: y :: ys).Nodup := nodup_inserted rep.nodup fresh
  have size : h.size + 1 = UInt32.ofNat (xs ++ x :: y :: ys).length := size_inserted rep
  have last : h.lhLast = (xs ++ x :: y :: ys).getLast? := by
    rw [rep.last]
    simp
  have whole : ∀ L' : Links α, L'.Seg none xs (some x) → L'.prev x = xs.getLast? →
      L'.next x = some y → L'.Seg (some x) (y :: ys) none →
      L'.Seg none (xs ++ x :: y :: ys) none := by
    intro L' left back forth right
    rw [Links.seg_append, Links.seg_cons]
    exact ⟨left, back.trans (Option.or_none ..).symm, forth, right⟩
  rcases xs.eq_nil_or_concat with rfl | ⟨ws, w, rfl⟩
  · simp only [listInsertBefore, stands.back, L.setPrev_prev_of_ne _ yx, List.getLast?_nil,
      Links.setNext_prev]
    refine ⟨rfl, last, whole _ trivial ?_ (by simp) ?_, nodup, size⟩
    · rw [Links.setPrev_prev_of_ne _ _ yx.symm, Links.setNext_prev, Links.setPrev_prev_self]
      rfl
    · exact ((stands.from_.setPrev xRight).setNext xRight).setPrev_head stands.notAfter
  · rw [List.concat_eq_append] at *
    have wx : w ≠ x := fun same => xLeft (by simp [same])
    have wRight : w ∉ y :: ys := fun mem => stands.apart w (by simp) w mem rfl
    have wws : w ∉ ws := fun mem =>
      (List.nodup_append.mp (List.nodup_append.mp rep.nodup).1).2.2 w mem w (by simp) rfl
    simp only [listInsertBefore, stands.back, L.setPrev_prev_of_ne _ yx, List.getLast?_concat,
      Links.setNext_prev]
    refine ⟨?_, last, whole _ ?_ ?_ ?_ ?_, nodup, size⟩
    · rw [rep.first]
      cases ws <;> simp
    · exact (((stands.upTo.setPrev xLeft).setNext xLeft).setNext_last wws).setPrev
        stands.notBefore
    · rw [Links.setPrev_prev_of_ne _ _ yx.symm, Links.setNext_prev, Links.setNext_prev,
        Links.setPrev_prev_self, List.getLast?_concat]
    · rw [Links.setPrev_next, Links.setNext_next_of_ne _ _ wx.symm, Links.setNext_next_self]
    · have onwards := stands.from_
      rw [List.getLast?_concat] at onwards
      exact (((onwards.setPrev xRight).setNext xRight).setNext wRight).setPrev_head
        stands.notAfter

/-- `LIST_INSERT_AFTER` writes links of the new node and of its neighbours only. -/
theorem insertAfter_frame {z : α} (rep : h.Rep L (xs ++ y :: ys))
    (notin : z ∉ x :: (xs ++ y :: ys)) (yx : y ≠ x) :
    (listInsertAfter L h y x).1.next z = L.next z ∧
      (listInsertAfter L h y x).1.prev z = L.prev z := by
  rw [List.mem_cons, not_or] at notin
  have zx : z ≠ x := notin.1
  have zy : z ≠ y := fun same => notin.2 (by simp [same])
  cases forth : L.next y with
  | none => simp [listInsertAfter, Links.setNext, Links.setPrev, forth, Function.update_of_ne zx,
      Function.update_of_ne zy, Function.update_of_ne yx]
  | some n =>
    have zn : z ≠ n := fun same => notin.2 (by
      have mem : n ∈ ys := List.mem_of_head? (rep.stands.forth.symm.trans forth)
      simp [same, mem])
    simp [listInsertAfter, Links.setNext, Links.setPrev, forth, Function.update_of_ne zx,
      Function.update_of_ne zy, Function.update_of_ne zn, Function.update_of_ne yx]

/-- `LIST_INSERT_BEFORE` writes links of the new node and of its neighbours only. -/
theorem insertBefore_frame {z : α} (rep : h.Rep L (xs ++ y :: ys))
    (notin : z ∉ x :: (xs ++ y :: ys)) (yx : y ≠ x) :
    (listInsertBefore L h y x).1.next z = L.next z ∧
      (listInsertBefore L h y x).1.prev z = L.prev z := by
  rw [List.mem_cons, not_or] at notin
  have zx : z ≠ x := notin.1
  have zy : z ≠ y := fun same => notin.2 (by simp [same])
  cases back : L.prev y with
  | none => simp [listInsertBefore, Links.setNext, Links.setPrev, back,
      Function.update_of_ne zx, Function.update_of_ne zy, Function.update_of_ne yx]
  | some p =>
    have zp : z ≠ p := fun same => notin.2 (by
      have mem : p ∈ xs := List.mem_of_getLast? (rep.stands.back.symm.trans back)
      simp [same, mem])
    simp [listInsertBefore, Links.setNext, Links.setPrev, back, Function.update_of_ne zx,
      Function.update_of_ne zy, Function.update_of_ne zp, Function.update_of_ne yx]

end Operations

/-! ## Lists that share one link field -/

section Family

variable {ι α : Type} [DecidableEq ι] {S : Lists ι α} {seqs : ι → List α} {i : ι}

/-- The new node of an insertion comes in at any place. -/
theorem Lists.Rep.inserted {S' : Lists ι α} {x : α} {xs ys : List α} (rep : S.Rep seqs)
    (at_ : seqs i = xs ++ ys) (loose : ∀ j, x ∉ seqs j)
    (here : (S'.head i).Rep S'.links (xs ++ x :: ys))
    (heads : ∀ j, j ≠ i → S'.head j = S.head j)
    (frame : ∀ z, z ∉ x :: seqs i →
      S'.links.next z = S.links.next z ∧ S'.links.prev z = S.links.prev z) :
    S'.Rep (Function.update seqs i (xs ++ x :: ys)) := by
  refine rep.edit here heads (fun j ne z mem new => ?_) ?_
  · rcases List.mem_append.mp new with left | right
    · exact rep.disjoint j i ne mem (at_ ▸ List.mem_append_left ys left)
    · rcases List.mem_cons.mp right with rfl | right
      · exact loose j mem
      · exact rep.disjoint j i ne mem (at_ ▸ List.mem_append_right xs right)
  · rintro z ⟨j, ne, mem⟩
    refine frame z fun new => ?_
    rcases List.mem_cons.mp new with rfl | old
    · exact loose j mem
    · exact rep.disjoint j i ne mem old

variable [DecidableEq α]

/-- A macro on the list `i`. -/
def Lists.edit (S : Lists ι α) (i : ι) (m : ListMacro α) : Lists ι α :=
  let (links, list) := m.apply S.links (S.head i)
  { links := links, head := Function.update S.head i list }

/-- The nodes that a macro is given: a new node is in no list, and the others are in the
list `i`. -/
def ListMacro.Given (seqs : ι → List α) (i : ι) : ListMacro α → Prop
  | .insertHead elm | .insertTail elm => ∀ j, elm ∉ seqs j
  | .insertAfter listelm elm | .insertBefore listelm elm =>
    listelm ∈ seqs i ∧ ∀ j, elm ∉ seqs j
  | .remove elm => elm ∈ seqs i

theorem Lists.Rep.insertAfter {x y : α} (rep : S.Rep seqs) (mem : y ∈ seqs i)
    (loose : ∀ j, x ∉ seqs j) :
    (S.edit i (.insertAfter y x)).Rep (Function.update seqs i (insertedAfter y x (seqs i))) := by
  obtain ⟨xs, ys, at_⟩ := List.append_of_mem mem
  have here := rep.list i
  have fresh := loose i
  rw [at_] at here fresh
  have split : seqs i = (xs ++ [y]) ++ ys := by simp [at_]
  have joined : insertedAfter y x (seqs i) = (xs ++ [y]) ++ x :: ys := by
    rw [at_, insertedAfter_append here.stands.notBefore]
    simp
  rw [joined]
  refine rep.inserted split loose ?_ (fun j ne => Function.update_of_ne ne ..) fun z notin => ?_
  · simpa [Lists.edit, ListMacro.apply] using rep_insertAfter here fresh
  · exact insertAfter_frame here (at_ ▸ notin) fun same => fresh (by simp [same])

theorem Lists.Rep.insertBefore {x y : α} (rep : S.Rep seqs) (mem : y ∈ seqs i)
    (loose : ∀ j, x ∉ seqs j) :
    (S.edit i (.insertBefore y x)).Rep
      (Function.update seqs i (insertedBefore y x (seqs i))) := by
  obtain ⟨xs, ys, at_⟩ := List.append_of_mem mem
  have here := rep.list i
  have fresh := loose i
  rw [at_] at here fresh
  rw [at_, insertedBefore_append here.stands.notBefore]
  refine rep.inserted at_ loose ?_ (fun j ne => Function.update_of_ne ne ..) fun z notin => ?_
  · simpa [Lists.edit, ListMacro.apply] using rep_insertBefore here fresh
  · exact insertBefore_frame here (at_ ▸ notin) fun same => fresh (by simp [same])

/-- **The list macros are the sequence operations.**  Each keeps every list over the shared
links well formed, does to its own list what it is named after, and leaves the sequences of
the others as they are. -/
theorem Lists.Rep.edits (rep : S.Rep seqs) (m : ListMacro α) (given : m.Given seqs i) :
    (S.edit i m).Rep (Function.update seqs i (m.onSequence (seqs i))) := by
  cases m with
  | insertHead elm => exact rep.insertHead i given
  | insertTail elm => exact rep.insertTail i given
  | insertAfter listelm elm => exact rep.insertAfter given.1 given.2
  | insertBefore listelm elm => exact rep.insertBefore given.1 given.2
  | remove elm => exact rep.remove given

end Family

/-- Two empty lists. -/
def twoLists : Lists Bool Nat :=
  ⟨⟨fun _ => none, fun _ => none⟩, fun _ => ⟨none, none, none, 0⟩⟩

theorem rep_twoLists : twoLists.Rep fun _ => [] :=
  ⟨fun _ => rep_listInit twoLists.links ⟨none, none, none, 0⟩,
  fun _ _ _ => List.disjoint_nil_left _⟩

/-- A list of the node 3 and a list of the node 5. -/
def threeAndFive : Lists Bool Nat := (twoLists.insertTail true 3).insertTail false 5

theorem rep_threeAndFive :
    threeAndFive.Rep (Function.update (Function.update (fun _ => []) true [3]) false [5]) := by
  have three := rep_twoLists.insertTail true (x := 3) fun _ => List.not_mem_nil
  exact three.insertTail false (x := 5) (by decide)

/-- A node is put behind the node 3, which then leaves its list; the list of 5 stays. -/
theorem edits_threeAndFive :
    ((threeAndFive.edit true (.insertAfter 3 7)).edit true (.remove 3)).Rep
      fun i => bif i then [7] else [5] := by
  have inserted := rep_threeAndFive.edits (i := true) (.insertAfter 3 7) ⟨by decide, by decide⟩
  have there : 3 ∈ [3, 7] := by decide
  have removed := inserted.edits (i := true) (.remove 3) there
  refine Eq.mp (congrArg _ (funext fun i => ?_)) removed
  cases i
  · exact rfl
  · exact rfl

/-! ## Concatenation -/

section Concat

variable {α : Type} {L : Links α} {list1 list2 : ListHead α} {xs ys : List α}

/-- The size field of two lists together. -/
theorem size_append (rep1 : list1.Rep L xs) (rep2 : list2.Rep L ys) :
    list1.size + list2.size = UInt32.ofNat (xs ++ ys).length := by
  rw [rep1.size, rep2.size, List.length_append, UInt32.ofNat_add]

variable [DecidableEq α]

/-- `LIST_CONCAT(list1, list2)`, or nothing if it follows the null pointer in `lh_last` of the
first list.  The sizes are added after `LIST_INIT(list2)`, which sets that of the second list
to 0. -/
def listConcat (L : Links α) (list1 list2 : ListHead α) :
    Option (Links α × ListHead α × ListHead α) := do
  let (L, list1, list2) ←
    match list1.lhFirst with
    | none => some (L, { list1 with lhFirst := list2.lhFirst, lhLast := list2.lhLast }, list2)
    | some _ =>
      match list2.lhFirst with
      | some first =>
        list1.lhLast.map fun last =>
          ((L.setNext last (some first)).setPrev first (some last),
            { list1 with lhLast := list2.lhLast }, listInit list2)
      | none => some (L, list1, list2)
  return (L, { list1 with size := list1.size + list2.size }, list2)

/-- What `LIST_CONCAT` is for: the first list gets the elements of the second one, with the sum
of the sizes, and the second one is empty. -/
def Concatenates (L : Links α) (list1 list2 : ListHead α) (xs ys : List α) : Prop :=
  ∃ L' list1' list2', listConcat L list1 list2 = some (L', list1', list2') ∧
    list1'.Rep L' (xs ++ ys) ∧ list1'.size = list1.size + list2.size ∧ list2'.Rep L' []

/-- With an empty first list, the first head becomes a copy of the second one, which keeps its
nodes. -/
theorem listConcat_nil (rep1 : list1.Rep L []) (rep2 : list2.Rep L ys) :
    ∃ list1', listConcat L list1 list2 = some (L, list1', list2) ∧ list1'.Rep L ys ∧
      list1'.size = list1.size + list2.size := by
  have first : list1.lhFirst = none := rep1.first
  refine ⟨_, by rw [listConcat, first]; rfl, ?_, rfl⟩
  exact ⟨rep2.first, rep2.last, rep2.seg, rep2.nodup, size_append rep1 rep2⟩

/-- An empty second list changes nothing. -/
theorem listConcat_of_nil (rep1 : list1.Rep L xs) (rep2 : list2.Rep L []) :
    ∃ list1', listConcat L list1 list2 = some (L, list1', list2) ∧ list1'.Rep L xs ∧
      list1'.size = list1.size + list2.size := by
  have whole := size_append rep1 rep2
  rw [List.append_nil] at whole
  have first2 : list2.lhFirst = none := rep2.first
  cases first : list1.lhFirst with
  | none =>
    have empty : xs = [] := List.head?_eq_none_iff.mp (rep1.first.symm.trans first)
    subst empty
    exact listConcat_nil rep1 rep2
  | some x =>
    refine ⟨_, by rw [listConcat, first, first2]; rfl, ?_, rfl⟩
    exact ⟨rep1.first, rep1.last, rep1.seg, rep1.nodup, whole⟩

/-- Two lists with nodes are linked to each other, but the first one keeps its size. -/
theorem listConcat_cons {x y : α} (rep1 : list1.Rep L (xs ++ [x])) (rep2 : list2.Rep L (y :: ys))
    (apart : (xs ++ [x]).Disjoint (y :: ys)) :
    ∃ L' list1', listConcat L list1 list2 = some (L', list1', listInit list2) ∧
      ({ list1' with size := list1.size + list2.size } : ListHead α).Rep L'
        (xs ++ [x] ++ y :: ys) ∧
      list1'.size = list1.size := by
  have first2 : list2.lhFirst = some y := rep2.first
  have last : list1.lhLast = some x := by rw [rep1.last, List.getLast?_concat]
  have nodup : (xs ++ [x] ++ y :: ys).Nodup := List.Nodup.append rep1.nodup rep2.nodup apart
  have ends : list2.lhLast = (xs ++ [x] ++ y :: ys).getLast? := by
    rw [rep2.last, List.getLast?_append, List.getLast?_cons, Option.some_or]
  cases first : list1.lhFirst with
  | none =>
    have empty := List.head?_eq_none_iff.mp (rep1.first.symm.trans first)
    simp at empty
  | some w =>
    have starts : some w = (xs ++ [x] ++ y :: ys).head? := by
      rw [← first, rep1.first]
      cases xs <;> simp
    refine ⟨_, _, by rw [listConcat, first, first2, last]; rfl, ?_, ?_⟩
    · exact ⟨starts, ends, rep1.seg.join rep2.seg nodup, nodup, size_append rep1 rep2⟩
    · exact add_zero list1.size

/-- **`LIST_CONCAT` concatenates** exactly if the second list is empty, or if the first one is
not and the size of the second one wraps to 0: otherwise the second head keeps its nodes, or
the first one its size. -/
theorem listConcat_iff (rep1 : list1.Rep L xs) (rep2 : list2.Rep L ys) (apart : xs.Disjoint ys) :
    Concatenates L list1 list2 xs ys ↔ ys = [] ∨ xs ≠ [] ∧ 2 ^ 32 ∣ ys.length := by
  cases ys with
  | nil =>
    obtain ⟨list1', run, rep1', size⟩ := listConcat_of_nil rep1 rep2
    rw [← xs.append_nil] at rep1'
    exact iff_of_true ⟨L, list1', list2, run, rep1', size, rep2⟩ (Or.inl rfl)
  | cons y ys =>
    rcases xs.eq_nil_or_concat with rfl | ⟨ws, x, rfl⟩
    · obtain ⟨list1', run, -, -⟩ := listConcat_nil rep1 rep2
      refine iff_of_false ?_ (by simp)
      rintro ⟨L', _, _, run', -, -, empty⟩
      rw [run] at run'
      cases run'
      have first : list2.lhFirst = none := empty.first
      rw [rep2.first] at first
      cases first
    · rw [List.concat_eq_append] at rep1 apart ⊢
      obtain ⟨L', list1', run, rep1', kept⟩ := listConcat_cons rep1 rep2 apart
      have wraps : 2 ^ 32 ∣ (y :: ys).length ↔ list2.size = 0 := by
        rw [rep2.size, ← UInt32.toNat_inj, UInt32.toNat_ofNat', Nat.dvd_iff_mod_eq_zero]
        rfl
      rw [wraps]
      constructor
      · rintro ⟨_, _, _, run', -, size, -⟩
        rw [run] at run'
        cases run'
        exact Or.inr ⟨by simp, left_eq_add.mp (kept.symm.trans size)⟩
      · rintro (none | ⟨-, zero⟩)
        · cases none
        · rw [zero, add_zero] at rep1'
          refine ⟨L', list1', listInit list2, run, ?_, by rw [kept, zero, add_zero],
            rep_listInit L' list2⟩
          exact ⟨rep1'.first, rep1'.last, rep1'.seg, rep1'.nodup, kept.trans rep1'.size⟩

end Concat

/-- With an empty second list the property holds. -/
theorem listConcat_three :
    Concatenates threeAndFive.links (threeAndFive.head true) (listInit (threeAndFive.head false))
      [3] [] :=
  (listConcat_iff (rep_threeAndFive.list true) (rep_listInit _ _) (List.disjoint_nil_right _)).mpr
    (Or.inl rfl)

/-- The list of 3 and 5 has size 1. -/
theorem listConcat_short :
    (threeAndFive.head true).Rep threeAndFive.links [3] ∧
      (threeAndFive.head false).Rep threeAndFive.links [5] ∧ List.Disjoint [3] [5] ∧
      ¬ Concatenates threeAndFive.links (threeAndFive.head true) (threeAndFive.head false)
        [3] [5] := by
  refine ⟨rep_threeAndFive.list true, rep_threeAndFive.list false,
    rep_threeAndFive.disjoint true false (by decide), ?_⟩
  rintro ⟨L', list1', list2', run, -, sum, -⟩
  have size : (listConcat threeAndFive.links (threeAndFive.head true)
      (threeAndFive.head false)).map (·.2.1.size) = some 1 := by decide
  rw [run, Option.map_some, sum] at size
  exact absurd size (by decide)

end Fos
