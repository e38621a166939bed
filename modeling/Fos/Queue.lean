import Mathlib.Data.List.Perm.Basic
import Mathlib.Data.UInt
import Fos.Linked.Seg

/-!
# The intrusive lists of `inc/queue.h`

`ListHead` is the structure that `LIST_HEAD` declares and the links are the
`prev_next_info` members of the nodes, shared by every list over one node type.
The `LIST_*` macros are transcribed assignment by assignment.

* `ListHead.Rep L h xs`: the list headed by `h` is well formed and its elements
  are `xs` (`first`/`last` are the ends, `LIST_NEXT` and `LIST_PREV` agree, `size`
  counts the nodes);
* `rep_insertHead`, `rep_insertTail`, `rep_remove`: each macro is the sequence
  operation it is named after;
* `Lists.Rep`: finitely or infinitely many lists over disjoint sets of nodes that
  thread one link field, kept by every operation on one of them.
-/

namespace Fos

open Linked

/-- `LIST_HEAD(name, type)`: the two ends, the saved successor of `LIST_FOREACH`
and the element counter. -/
structure ListHead (α : Type) where
  lhFirst : Option α
  lhLast : Option α
  ptrNext : Option α
  size : UInt32

/-- `LIST_INIT`; a zeroed head is the same value with no saved successor. -/
def listInit {α : Type} (h : ListHead α) : ListHead α :=
  { h with lhFirst := none, lhLast := none, size := 0 }

section Macros

variable {α : Type} [DecidableEq α]

/-- `LIST_INSERT_HEAD(list, elm)`. -/
def listInsertHead (L : Links α) (list : ListHead α) (elm : α) : Links α × ListHead α :=
  let L := L.setNext elm list.lhFirst
  match list.lhFirst with
  | some first =>
    ((L.setPrev first (some elm)).setPrev elm none,
      { list with lhFirst := some elm, size := list.size + 1 })
  | none =>
    (L.setPrev elm none,
      { list with lhLast := some elm, lhFirst := some elm, size := list.size + 1 })

/-- `LIST_INSERT_TAIL(list, elm)`. -/
def listInsertTail (L : Links α) (list : ListHead α) (elm : α) : Links α × ListHead α :=
  let L := L.setPrev elm list.lhLast
  match list.lhLast with
  | some last =>
    ((L.setNext last (some elm)).setNext elm none,
      { list with lhLast := some elm, size := list.size + 1 })
  | none =>
    (L.setNext elm none,
      { list with lhFirst := some elm, lhLast := some elm, size := list.size + 1 })

/-- `LIST_REMOVE(list, elm)`. -/
def listRemove (L : Links α) (list : ListHead α) (elm : α) : Links α × ListHead α :=
  let (L, list) :=
    match L.next elm with
    | some next => (L.setPrev next (L.prev elm), list)
    | none => (L, { list with lhLast := L.prev elm })
  let (L, list) :=
    match L.prev elm with
    | some prev => (L.setNext prev (L.next elm), list)
    | none => (L, { list with lhFirst := L.next elm })
  ((L.setNext elm none).setPrev elm none, { list with size := list.size - 1 })

theorem lhFirst_listInsertHead (L : Links α) (list : ListHead α) (elm : α) :
    (listInsertHead L list elm).2.lhFirst = some elm := by
  unfold listInsertHead
  cases list.lhFirst <;> rfl

theorem next_listInsertHead (L : Links α) (list : ListHead α) (elm : α) :
    (listInsertHead L list elm).1.next elm = list.lhFirst := by
  unfold listInsertHead
  cases list.lhFirst <;> simp

end Macros

/-! ## Representation -/

variable {α : Type}

/-- The list headed by `h` is well formed and holds the elements `xs`. -/
structure ListHead.Rep (L : Links α) (h : ListHead α) (xs : List α) : Prop where
  first : h.lhFirst = xs.head?
  last : h.lhLast = xs.getLast?
  seg : L.Seg none xs none
  nodup : xs.Nodup
  size : h.size = UInt32.ofNat xs.length

/-- A well-formed list only depends on the links of its own nodes. -/
theorem ListHead.Rep.congr {L L' : Links α} {h : ListHead α} {xs : List α}
    (rep : h.Rep L xs)
    (next : ∀ x ∈ xs, L'.next x = L.next x) (prev : ∀ x ∈ xs, L'.prev x = L.prev x) :
    h.Rep L' xs :=
  { rep with seg := rep.seg.congr next prev }

/-- Saving a successor in the head does not change the list. -/
theorem ListHead.Rep.ptrNext {L : Links α} {h : ListHead α} {xs : List α}
    (rep : h.Rep L xs) (p : Option α) : ({ h with ptrNext := p } : ListHead α).Rep L xs :=
  ⟨rep.first, rep.last, rep.seg, rep.nodup, rep.size⟩

theorem rep_listInit (L : Links α) (h : ListHead α) : (listInit h).Rep L [] :=
  ⟨rfl, rfl, trivial, List.nodup_nil, rfl⟩

/-- The size is the length, as far as 32 bits count. -/
theorem ListHead.Rep.size_toNat {L : Links α} {h : ListHead α} {xs : List α} (rep : h.Rep L xs)
    (lt : xs.length < 2 ^ 32) : h.size.toNat = xs.length := by
  rw [rep.size, UInt32.toNat_ofNat', Nat.mod_eq_of_lt lt]

theorem ofNat_succ_sub_one (n : Nat) : UInt32.ofNat (n + 1) - 1 = UInt32.ofNat n := by
  rw [UInt32.ofNat_add]
  exact add_sub_cancel_right (UInt32.ofNat n) 1

section Operations

variable [DecidableEq α]

/-- `LIST_INSERT_HEAD` of a loose node is `cons`. -/
theorem rep_insertHead {L : Links α} {h : ListHead α} {xs : List α} {x : α}
    (rep : h.Rep L xs) (fresh : x ∉ xs) :
    (listInsertHead L h x).2.Rep (listInsertHead L h x).1 (x :: xs) := by
  have first := rep.first
  cases xs with
  | nil =>
    simp only [List.head?_nil] at first
    simp only [listInsertHead, first]
    exact ⟨rfl, rfl, by simp [Links.seg_cons], by simp, by simp [rep.size]⟩
  | cons y ys =>
    simp only [List.head?_cons] at first
    simp only [List.mem_cons, not_or] at fresh
    simp only [listInsertHead, first]
    refine ⟨rfl, rep.last.trans (by simp), ⟨by simp, by simp, ?_⟩, by simp [fresh, rep.nodup],
      ?_⟩
    · have ynotin : y ∉ ys := (List.nodup_cons.mp rep.nodup).1
      have xnotin : x ∉ y :: ys := by simp [fresh]
      exact ((rep.seg.setNext xnotin).setPrev_head ynotin).setPrev xnotin
    · rw [rep.size]
      simp [UInt32.ofNat_add]

/-- `LIST_INSERT_TAIL` of a loose node is `snoc`. -/
theorem rep_insertTail {L : Links α} {h : ListHead α} {xs : List α} {x : α}
    (rep : h.Rep L xs) (fresh : x ∉ xs) :
    (listInsertTail L h x).2.Rep (listInsertTail L h x).1 (xs ++ [x]) := by
  have last := rep.last
  rcases xs.eq_nil_or_concat with rfl | ⟨ys, y, rfl⟩
  · simp only [List.getLast?_nil] at last
    simp only [listInsertTail, last]
    exact ⟨rfl, rfl, by simp [Links.seg_cons], by simp, by simp [rep.size]⟩
  · simp only [List.concat_eq_append] at *
    simp only [List.getLast?_concat] at last
    simp only [List.mem_append, List.mem_singleton, not_or] at fresh
    simp only [listInsertTail, last]
    have nodup := rep.nodup
    refine ⟨rep.first.trans ?_, by simp, ?_, ?_, ?_⟩
    · cases ys <;> simp
    · have ynotin : y ∉ ys := by
        intro member
        exact (List.nodup_append.mp nodup).2.2 y member y (by simp) rfl
      have xnotin : x ∉ ys ++ [y] := by simp [fresh]
      rw [Links.seg_append]
      refine ⟨?_, ?_⟩
      · exact ((rep.seg.setPrev xnotin).setNext_last ynotin).setNext xnotin
      · rw [Links.seg_singleton]
        refine ⟨?_, by simp⟩
        simp
    · refine List.nodup_append.mpr ⟨nodup, by simp, ?_⟩
      rintro a ha b hb rfl
      simp only [List.mem_singleton] at hb
      subst hb
      simp [fresh] at ha
    · rw [List.length_append, UInt32.ofNat_add, ← rep.size]
      rfl

/-- `LIST_REMOVE` of an element deletes it from the sequence. -/
theorem rep_remove {L : Links α} {h : ListHead α} {xs ys : List α} {x : α}
    (rep : h.Rep L (xs ++ x :: ys)) :
    (listRemove L h x).2.Rep (listRemove L h x).1 (xs ++ ys) := by
  have seg := rep.seg
  have nodup := rep.nodup
  rw [Links.seg_append] at seg
  obtain ⟨before, back, forth, after⟩ := seg
  simp only [Option.or_none] at back forth
  have xs_x : x ∉ xs := fun m => (List.nodup_append.mp nodup).2.2 x m x (by simp) rfl
  have ys_x : x ∉ ys := (List.nodup_cons.mp (List.nodup_append.mp nodup).2.1).1
  have keep : (xs ++ ys).Nodup := nodup.sublist (by simp)
  have length : h.size - 1 = UInt32.ofNat (xs ++ ys).length := by
    rw [rep.size, List.length_append, List.length_cons, ← Nat.add_assoc, ofNat_succ_sub_one,
      List.length_append]
  have whole : ∀ {L' : Links α}, L'.Seg none xs ys.head? → L'.Seg xs.getLast? ys none →
      ((L'.setNext x none).setPrev x none).Seg none (xs ++ ys) none := by
    intro L' left right
    rw [Links.seg_append]
    simp only [Option.or_none]
    exact ⟨(left.setNext xs_x).setPrev xs_x, (right.setNext ys_x).setPrev ys_x⟩
  -- the four cases: is there a node before `x`, and is there one after it?
  rcases xs.eq_nil_or_concat with rfl | ⟨ws, w, rfl⟩ <;> rcases ys with _ | ⟨z, zs⟩
  case inl.nil =>
    simp only [listRemove, back, forth, List.head?_nil, List.getLast?_nil]
    exact ⟨rfl, rfl, whole trivial trivial, keep, length⟩
  case inl.cons =>
    have z_zs : z ∉ zs := (List.nodup_cons.mp (List.nodup_append.mp keep).2.1).1
    simp only [listRemove, back, forth, List.head?_cons, List.getLast?_nil]
    have x_z : x ≠ z := fun e => ys_x (by simp [e])
    rw [L.setPrev_prev_of_ne _ x_z, back]
    simp only [List.getLast?_nil]
    refine ⟨forth, ?_, whole trivial (after.setPrev_head z_zs), keep, length⟩
    rw [rep.last]
    simp
  case inr.nil =>
    have w_ws : w ∉ ws := by
      intro m
      simp only [List.concat_eq_append, List.append_nil] at keep
      exact (List.nodup_append.mp keep).2.2 w m w (by simp) rfl
    simp only [List.concat_eq_append] at *
    simp only [listRemove, back, forth, List.head?_nil, List.getLast?_concat]
    refine ⟨?_, by simp, whole (before.setNext_last w_ws) trivial, keep, length⟩
    rw [rep.first]
    cases ws <;> simp
  case inr.cons =>
    simp only [List.concat_eq_append] at *
    have z_zs : z ∉ zs := (List.nodup_cons.mp (List.nodup_append.mp keep).2.1).1
    have w_ws : w ∉ ws := by
      intro m
      exact (List.nodup_append.mp (List.nodup_append.mp keep).1).2.2 w m w (by simp) rfl
    have apart : ∀ a ∈ ws ++ [w], ∀ b ∈ z :: zs, a ≠ b := (List.nodup_append.mp keep).2.2
    have z_ws : z ∉ ws ++ [w] := fun m => apart z m z (by simp) rfl
    have w_zs : w ∉ z :: zs := fun m => apart w (by simp) w m rfl
    have x_z : x ≠ z := fun e => ys_x (by simp [e])
    simp only [listRemove, back, forth, List.head?_cons]
    rw [L.setPrev_prev_of_ne _ x_z, back]
    simp only [List.getLast?_concat, Links.setPrev_next, forth]
    refine ⟨?_, ?_, whole ((before.setPrev z_ws).setNext_last w_ws) ?_, keep, length⟩
    · rw [rep.first]
      cases ws <;> simp
    · rw [rep.last]
      simp
    · rw [List.getLast?_concat] at *
      exact (after.setPrev_head z_zs).setNext w_zs

/-! ### What an operation leaves alone -/

/-- `LIST_INSERT_HEAD` writes links of the new node and of the old first node only. -/
theorem insertHead_frame {L : Links α} {h : ListHead α} {xs : List α} {x z : α}
    (rep : h.Rep L xs) (notin : z ∉ x :: xs) :
    (listInsertHead L h x).1.next z = L.next z ∧ (listInsertHead L h x).1.prev z = L.prev z := by
  simp only [List.mem_cons, not_or] at notin
  have first := rep.first
  cases xs with
  | nil =>
    simp only [List.head?_nil] at first
    simp [listInsertHead, first, Links.setNext, Links.setPrev, Function.update_of_ne notin.1]
  | cons y ys =>
    simp only [List.head?_cons] at first
    simp only [List.mem_cons, not_or] at notin
    simp [listInsertHead, first, Links.setNext, Links.setPrev, Function.update_of_ne notin.1,
      Function.update_of_ne notin.2.1]

/-- `LIST_INSERT_TAIL` writes links of the new node and of the old last node only. -/
theorem insertTail_frame {L : Links α} {h : ListHead α} {xs : List α} {x z : α}
    (rep : h.Rep L xs) (notin : z ∉ xs ++ [x]) :
    (listInsertTail L h x).1.next z = L.next z ∧ (listInsertTail L h x).1.prev z = L.prev z := by
  have last := rep.last
  have z_x : z ≠ x := fun e => notin (by simp [e])
  rcases xs.eq_nil_or_concat with rfl | ⟨ys, y, rfl⟩
  · simp only [List.getLast?_nil] at last
    simp [listInsertTail, last, Links.setNext, Links.setPrev, Function.update_of_ne z_x]
  · simp only [List.concat_eq_append] at *
    have z_y : z ≠ y := fun e => notin (by simp [e])
    simp only [List.getLast?_concat] at last
    simp [listInsertTail, last, Links.setNext, Links.setPrev, Function.update_of_ne z_x,
      Function.update_of_ne z_y]

/-- `LIST_REMOVE` writes links of nodes of the list only. -/
theorem remove_frame {L : Links α} {h : ListHead α} {xs ys : List α} {x z : α}
    (rep : h.Rep L (xs ++ x :: ys)) (notin : z ∉ xs ++ x :: ys) :
    (listRemove L h x).1.next z = L.next z ∧ (listRemove L h x).1.prev z = L.prev z := by
  obtain ⟨-, back, forth, -⟩ := Links.seg_append.mp rep.seg
  simp only [Option.or_none] at back forth
  have z_x : z ≠ x := fun e => notin (by simp [e])
  have x_ys : x ∉ ys := (List.nodup_cons.mp (List.nodup_append.mp rep.nodup).2.1).1
  have succ : ∀ n, L.next x = some n → z ≠ n ∧ x ≠ n := by
    intro n hn
    have : n ∈ ys := List.mem_of_head? (forth.symm.trans hn)
    exact ⟨fun e => notin (by simp [e, this]), fun e => x_ys (e ▸ this)⟩
  have pred : ∀ n, L.prev x = some n → z ≠ n := by
    intro n hn
    have : n ∈ xs := List.mem_of_getLast? (back.symm.trans hn)
    exact fun e => notin (by simp [e, this])
  unfold listRemove
  rcases hn : L.next x with _ | n <;> rcases hp : L.prev x with _ | p
  · simp [Links.setNext, Links.setPrev, hp, Function.update_of_ne z_x]
  · simp [Links.setNext, Links.setPrev, hp, Function.update_of_ne z_x,
      Function.update_of_ne (pred p hp)]
  · obtain ⟨z_n, x_n⟩ := succ n hn
    simp [Links.setNext, Links.setPrev, hp, Function.update_of_ne z_x,
      Function.update_of_ne z_n, Function.update_of_ne x_n]
  · obtain ⟨z_n, x_n⟩ := succ n hn
    simp [Links.setNext, Links.setPrev, hp, Function.update_of_ne z_x,
      Function.update_of_ne z_n, Function.update_of_ne x_n, Function.update_of_ne (pred p hp)]

end Operations

/-! ## Lists that share one link field -/

/-- Several list heads over one type of nodes with a single link field. -/
structure Lists (ι α : Type) where
  links : Links α
  head : ι → ListHead α

variable {ι : Type}

/-- Every list is well formed, and no node is on two of them. -/
structure Lists.Rep (S : Lists ι α) (seqs : ι → List α) : Prop where
  list : ∀ i, (S.head i).Rep S.links (seqs i)
  disjoint : ∀ i j, i ≠ j → (seqs i).Disjoint (seqs j)

theorem Lists.Rep.first {S : Lists ι α} {seqs : ι → List α} (rep : S.Rep seqs) (i : ι) :
    (S.head i).lhFirst = (seqs i).head? := (rep.list i).first

theorem Lists.Rep.last {S : Lists ι α} {seqs : ι → List α} (rep : S.Rep seqs) (i : ι) :
    (S.head i).lhLast = (seqs i).getLast? := (rep.list i).last

/-- The sequences of well-formed lists are determined. -/
theorem Lists.Rep.unique {S : Lists ι α} {seqs seqs' : ι → List α} (rep : S.Rep seqs)
    (rep' : S.Rep seqs') : seqs = seqs' := by
  funext i
  exact (rep.list i).seg.unique (rep'.list i).seg ((rep.first i).symm.trans (rep'.first i))

/-- `LIST_NEXT` at a known place of a list. -/
theorem Lists.Rep.next {S : Lists ι α} {seqs : ι → List α} (rep : S.Rep seqs) {i : ι}
    {xs ys : List α} {x : α} (at_ : seqs i = xs ++ x :: ys) : S.links.next x = ys.head? := by
  have seg := (rep.list i).seg
  rw [at_, Links.seg_append] at seg
  simpa using seg.2.2.1

section Family

variable [DecidableEq ι]

/-- The assignment to `___ptr_next` in the condition of `LIST_FOREACH`. -/
def Lists.savePtrNext (S : Lists ι α) (i : ι) (p : Option α) : Lists ι α :=
  { S with head := Function.update S.head i { S.head i with ptrNext := p } }

/-- One list is edited in place; the others are over other nodes. -/
theorem Lists.Rep.edit {S S' : Lists ι α} {seqs : ι → List α} (rep : S.Rep seqs) {i : ι}
    {xs : List α} (edited : (S'.head i).Rep S'.links xs)
    (heads : ∀ j, j ≠ i → S'.head j = S.head j)
    (apart : ∀ j, j ≠ i → (seqs j).Disjoint xs)
    (links : ∀ z, (∃ j, j ≠ i ∧ z ∈ seqs j) →
      S'.links.next z = S.links.next z ∧ S'.links.prev z = S.links.prev z) :
    S'.Rep (Function.update seqs i xs) := by
  refine ⟨fun j => ?_, fun j k ne => ?_⟩
  · by_cases e : j = i
    · subst e
      simpa using edited
    · rw [Function.update_of_ne e, heads j e]
      exact (rep.list j).congr (fun z hz => (links z ⟨j, e, hz⟩).1)
        (fun z hz => (links z ⟨j, e, hz⟩).2)
  · by_cases ej : j = i
    · subst ej
      rw [Function.update_self, Function.update_of_ne ne.symm]
      exact (apart k ne.symm).symm
    · rw [Function.update_of_ne ej]
      by_cases ek : k = i
      · subst ek
        rw [Function.update_self]
        exact apart j ej
      · rw [Function.update_of_ne ek]
        exact rep.disjoint j k ne

theorem Lists.Rep.savePtrNext {S : Lists ι α} {seqs : ι → List α} (rep : S.Rep seqs) (i : ι)
    (p : Option α) : (S.savePtrNext i p).Rep seqs := by
  refine ⟨fun j => ?_, rep.disjoint⟩
  by_cases e : j = i
  · subst e
    simpa [Lists.savePtrNext] using (rep.list j).ptrNext p
  · simpa [Lists.savePtrNext, Function.update_of_ne e] using rep.list j

@[simp] theorem Lists.savePtrNext_links (S : Lists ι α) (i : ι) (p : Option α) :
    (S.savePtrNext i p).links = S.links := rfl

@[simp] theorem Lists.savePtrNext_ptrNext (S : Lists ι α) (i : ι) (p : Option α) :
    ((S.savePtrNext i p).head i).ptrNext = p := by
  simp [Lists.savePtrNext]

variable [DecidableEq α]

/-- `LIST_INSERT_HEAD(&S.head i, x)`. -/
def Lists.insertHead (S : Lists ι α) (i : ι) (x : α) : Lists ι α :=
  let (links, list) := listInsertHead S.links (S.head i) x
  { links := links, head := Function.update S.head i list }

/-- `LIST_INSERT_TAIL(&S.head i, x)`. -/
def Lists.insertTail (S : Lists ι α) (i : ι) (x : α) : Lists ι α :=
  let (links, list) := listInsertTail S.links (S.head i) x
  { links := links, head := Function.update S.head i list }

/-- `LIST_REMOVE(&S.head i, x)`. -/
def Lists.remove (S : Lists ι α) (i : ι) (x : α) : Lists ι α :=
  let (links, list) := listRemove S.links (S.head i) x
  { links := links, head := Function.update S.head i list }

/-- Inserting a node that is on no list. -/
theorem Lists.Rep.insertHead {S : Lists ι α} {seqs : ι → List α} (rep : S.Rep seqs) (i : ι)
    {x : α} (loose : ∀ j, x ∉ seqs j) :
    (S.insertHead i x).Rep (Function.update seqs i (x :: seqs i)) := by
  refine rep.edit ?_ (fun j ne => Function.update_of_ne ne ..) (fun j ne z hz hx => ?_) ?_
  · simpa [Lists.insertHead] using rep_insertHead (rep.list i) (loose i)
  · rcases List.mem_cons.mp hx with rfl | hx
    · exact loose j hz
    · exact rep.disjoint j i ne hz hx
  · rintro z ⟨j, ne, hz⟩
    refine insertHead_frame (rep.list i) ?_
    rw [List.mem_cons, not_or]
    exact ⟨fun e => loose j (e ▸ hz), rep.disjoint j i ne hz⟩

theorem Lists.Rep.insertTail {S : Lists ι α} {seqs : ι → List α} (rep : S.Rep seqs) (i : ι)
    {x : α} (loose : ∀ j, x ∉ seqs j) :
    (S.insertTail i x).Rep (Function.update seqs i (seqs i ++ [x])) := by
  refine rep.edit ?_ (fun j ne => Function.update_of_ne ne ..) (fun j ne z hz hx => ?_) ?_
  · simpa [Lists.insertTail] using rep_insertTail (rep.list i) (loose i)
  · rcases List.mem_append.mp hx with hx | hx
    · exact rep.disjoint j i ne hz hx
    · rw [List.mem_singleton] at hx
      exact loose j (hx ▸ hz)
  · rintro z ⟨j, ne, hz⟩
    refine insertTail_frame (rep.list i) ?_
    rw [List.mem_append, List.mem_singleton, not_or]
    exact ⟨rep.disjoint j i ne hz, fun e => loose j (e ▸ hz)⟩

/-- Removing a node from the list it is on. -/
theorem Lists.Rep.remove {S : Lists ι α} {seqs : ι → List α} (rep : S.Rep seqs) {i : ι}
    {x : α} (member : x ∈ seqs i) :
    (S.remove i x).Rep (Function.update seqs i ((seqs i).erase x)) := by
  obtain ⟨xs, ys, at_⟩ := List.append_of_mem member
  have here := rep.list i
  rw [at_] at here
  have x_xs : x ∉ xs := fun m => (List.nodup_append.mp here.nodup).2.2 x m x (by simp) rfl
  have erased : (seqs i).erase x = xs ++ ys := by
    rw [at_, List.erase_append_right _ x_xs, List.erase_cons_head]
  rw [erased]
  refine rep.edit ?_ (fun j ne => Function.update_of_ne ne ..) (fun j ne z hz hx => ?_) ?_
  · simpa [Lists.remove] using rep_remove here
  · refine rep.disjoint j i ne hz ?_
    rw [at_]
    simp only [List.mem_append, List.mem_cons] at hx ⊢
    tauto
  · rintro z ⟨j, ne, hz⟩
    exact remove_frame here (at_ ▸ rep.disjoint j i ne hz)

/-- Inserting leaves the saved successors alone, whichever list it is on. -/
@[simp] theorem Lists.insertHead_ptrNext (S : Lists ι α) (i j : ι) (x : α) :
    ((S.insertHead i x).head j).ptrNext = (S.head j).ptrNext := by
  by_cases e : j = i
  · subst e
    simp only [Lists.insertHead, listInsertHead, Function.update_self]
    cases (S.head j).lhFirst <;> rfl
  · simp [Lists.insertHead, Function.update_of_ne e]

@[simp] theorem Lists.insertTail_ptrNext (S : Lists ι α) (i j : ι) (x : α) :
    ((S.insertTail i x).head j).ptrNext = (S.head j).ptrNext := by
  by_cases e : j = i
  · subst e
    simp only [Lists.insertTail, listInsertTail, Function.update_self]
    cases (S.head j).lhLast <;> rfl
  · simp [Lists.insertTail, Function.update_of_ne e]

@[simp] theorem Lists.remove_ptrNext (S : Lists ι α) (i j : ι) (x : α) :
    ((S.remove i x).head j).ptrNext = (S.head j).ptrNext := by
  by_cases e : j = i
  · subst e
    simp only [Lists.remove, listRemove, Function.update_self]
    cases S.links.next x with
    | none => simp only; cases S.links.prev x <;> rfl
    | some n => simp only; cases (S.links.setPrev n (S.links.prev x)).prev x <;> rfl
  · simp [Lists.remove, Function.update_of_ne e]

end Family

/-! ## `LIST_FOREACH` -/

/-- How one pass through the body of `LIST_FOREACH` ends: normally, with `break`,
or by leaving the enclosing function. -/
inductive Flow (σ ρ : Type) where
  | next (s : σ)
  | brk (s : σ)
  | ret (r : ρ)

/-- How the whole loop ends: the final loop variable (null after the last element),
or the enclosing function's result; `spin` when the given number of passes is used up. -/
inductive LoopEnd (α σ ρ : Type) where
  | done (var : Option α) (s : σ)
  | ret (r : ρ)
  | spin

/-- A state that holds a family of lists. -/
class HasLists (σ : Type) (ι α : outParam Type) where
  lists : σ → Lists ι α
  setLists : σ → Lists ι α → σ
  lists_setLists : ∀ s l, lists (setLists s l) = l

section Foreach

variable {σ ρ : Type} [DecidableEq ι] [HasLists σ ι α]

/-- `(head)->___ptr_next = LOOP_LIST_NEXT(var)`. -/
def saveNext (i : ι) (var : Option α) (s : σ) : σ :=
  let S := HasLists.lists s
  HasLists.setLists s (S.savePtrNext i (var.bind S.links.next))

/-- `LIST_FOREACH(var, head) body`.  The successor of `var` is saved before the body
runs, and the saved value is read back after it. -/
def listForeach (i : ι) (body : α → σ → Flow σ ρ) : Nat → Option α → σ → LoopEnd α σ ρ
  | 0, _, _ => .spin
  | fuel + 1, var, s =>
    let s := saveNext i var s
    match var with
    | none => .done none s
    | some x =>
      match body x s with
      | .next s => listForeach i body fuel (((HasLists.lists s).head i).ptrNext) s
      | .brk s => .done (some x) s
      | .ret r => .ret r

/-- The loop rule.  `P rest s` holds when the elements `rest` are still to be
visited; a pass may change the lists in any way that keeps the saved successor. -/
theorem listForeach_rule {i : ι} {body : α → σ → Flow σ ρ}
    (P : List α → σ → Prop) (Q : LoopEnd α σ ρ → Prop)
    (pass : ∀ x rest s, P (x :: rest) s →
      match body x (saveNext i (some x) s) with
      | .next s' => P rest s' ∧ ((HasLists.lists s').head i).ptrNext = rest.head?
      | .brk s' => Q (.done (some x) s')
      | .ret r => Q (.ret r))
    (exit : ∀ s, P [] s → Q (.done none (saveNext i none s)))
    {fuel : Nat} {xs : List α} {s : σ} (enough : xs.length < fuel) (start : P xs s) :
    Q (listForeach i body fuel xs.head? s) := by
  induction xs generalizing fuel s with
  | nil =>
    obtain ⟨fuel, rfl⟩ := Nat.exists_eq_succ_of_ne_zero (Nat.ne_of_gt enough)
    exact exit s start
  | cons x rest ih =>
    obtain ⟨fuel, rfl⟩ := Nat.exists_eq_succ_of_ne_zero (Nat.ne_of_gt (Nat.zero_lt_of_lt enough))
    have step := pass x rest s start
    simp only [List.head?_cons, listForeach]
    split at step
    · rename_i s' run
      simp only [step.2]
      exact ih (Nat.lt_of_succ_lt_succ enough) step.1
    · rename_i s' run
      simpa only [run] using step
    · rename_i r run
      simpa only [run] using step

end Foreach

end Fos
