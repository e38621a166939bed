import Mathlib.Data.List.Nodup
import Mathlib.Logic.Function.Basic

/-!
# Doubly linked segments

Nodes of an arbitrary type carry one forward and one backward link.  A segment
`L.Seg p xs q` says that the nodes `xs` are linked both ways in that order, that
the first of them points back to `p` and that the last of them points on to `q`.
Every edit of a linked list is local in this view: `Links.Seg.append` cuts a
segment at any node, `Links.Seg.congr` moves it to other links that agree on its
nodes, `Links.Seg.setNext_last`, `Links.Seg.setPrev_head` redirect its ends, and
`Links.Seg.join` links two segments.
-/

namespace Linked

/-- The forward and the backward link of every node. -/
structure Links (α : Type*) where
  next : α → Option α
  prev : α → Option α

variable {α : Type*}

section Update

variable [DecidableEq α]

/-- Redirect the forward link of `x`. -/
def Links.setNext (L : Links α) (x : α) (y : Option α) : Links α :=
  { L with next := Function.update L.next x y }

/-- Redirect the backward link of `x`. -/
def Links.setPrev (L : Links α) (x : α) (y : Option α) : Links α :=
  { L with prev := Function.update L.prev x y }

@[simp] theorem Links.setNext_next_self (L : Links α) (x : α) (y : Option α) :
    (L.setNext x y).next x = y := Function.update_self ..

theorem Links.setNext_next_of_ne (L : Links α) {x z : α} (y : Option α) (h : z ≠ x) :
    (L.setNext x y).next z = L.next z := Function.update_of_ne h ..

@[simp] theorem Links.setNext_prev (L : Links α) (x : α) (y : Option α) :
    (L.setNext x y).prev = L.prev := rfl

@[simp] theorem Links.setPrev_prev_self (L : Links α) (x : α) (y : Option α) :
    (L.setPrev x y).prev x = y := Function.update_self ..

theorem Links.setPrev_prev_of_ne (L : Links α) {x z : α} (y : Option α) (h : z ≠ x) :
    (L.setPrev x y).prev z = L.prev z := Function.update_of_ne h ..

@[simp] theorem Links.setPrev_next (L : Links α) (x : α) (y : Option α) :
    (L.setPrev x y).next = L.next := rfl

end Update

/-- The nodes `xs` are linked both ways, entered from `p` and left towards `q`. -/
def Links.Seg (L : Links α) : Option α → List α → Option α → Prop
  | _, [], _ => True
  | p, x :: xs, q => L.prev x = p ∧ L.next x = xs.head?.or q ∧ L.Seg (some x) xs q

@[simp] theorem Links.Seg.nil (L : Links α) (p q : Option α) : L.Seg p [] q := trivial

theorem Links.seg_cons {L : Links α} {p q : Option α} {x : α} {xs : List α} :
    L.Seg p (x :: xs) q ↔ L.prev x = p ∧ L.next x = xs.head?.or q ∧ L.Seg (some x) xs q :=
  Iff.rfl

theorem Links.seg_singleton {L : Links α} {p q : Option α} {x : α} :
    L.Seg p [x] q ↔ L.prev x = p ∧ L.next x = q := by
  simp [Links.Seg]

/-- A segment is cut at any point: each half sees the other half's end node. -/
theorem Links.seg_append {L : Links α} {p q : Option α} {xs ys : List α} :
    L.Seg p (xs ++ ys) q ↔
      L.Seg p xs (ys.head?.or q) ∧ L.Seg (xs.getLast?.or p) ys q := by
  induction xs generalizing p with
  | nil => simp
  | cons x xs ih =>
    have lastEq : (x :: xs).getLast?.or p = xs.getLast?.or (some x) := by
      rcases xs.eq_nil_or_concat with rfl | ⟨zs, z, rfl⟩
      · rfl
      · simp [List.getLast?_cons]
    simp only [List.cons_append, Links.seg_cons, ih, lastEq, List.head?_append,
      Option.or_assoc, and_assoc]

/-- A segment only reads the links of its own nodes. -/
theorem Links.Seg.congr {L L' : Links α} {p q : Option α} {xs : List α}
    (seg : L.Seg p xs q)
    (next : ∀ x ∈ xs, L'.next x = L.next x)
    (prev : ∀ x ∈ xs, L'.prev x = L.prev x) : L'.Seg p xs q := by
  induction xs generalizing p with
  | nil => trivial
  | cons x xs ih =>
    obtain ⟨back, forth, rest⟩ := seg
    refine ⟨(prev x (by simp)).trans back, (next x (by simp)).trans forth, ih rest ?_ ?_⟩
    · exact fun y hy => next y (by simp [hy])
    · exact fun y hy => prev y (by simp [hy])

/-- The links determine a sequence that ends at a null pointer. -/
theorem Links.Seg.unique {L : Links α} {p q : Option α} {xs ys : List α} (seg : L.Seg p xs none)
    (seg' : L.Seg q ys none) (first : xs.head? = ys.head?) : xs = ys := by
  induction xs generalizing p q ys with
  | nil =>
    rw [List.head?_nil, eq_comm, List.head?_eq_none_iff] at first
    exact first.symm
  | cons x xs ih =>
    cases ys with
    | nil => simp at first
    | cons y ys =>
      obtain rfl : x = y := by simpa using first
      obtain ⟨-, forth, rest⟩ := seg
      obtain ⟨-, forth', rest'⟩ := seg'
      rw [Option.or_none] at forth forth'
      rw [ih rest rest' (forth.symm.trans forth')]

section Edit

variable [DecidableEq α]

/-- A link edit at a node outside the segment leaves the segment alone. -/
theorem Links.Seg.setNext {L : Links α} {p q r : Option α} {xs : List α} {x : α}
    (seg : L.Seg p xs q) (fresh : x ∉ xs) : (L.setNext x r).Seg p xs q := by
  refine seg.congr (fun y hy => ?_) (fun _ _ => rfl)
  exact L.setNext_next_of_ne r (ne_of_mem_of_not_mem hy fresh)

theorem Links.Seg.setPrev {L : Links α} {p q r : Option α} {xs : List α} {x : α}
    (seg : L.Seg p xs q) (fresh : x ∉ xs) : (L.setPrev x r).Seg p xs q := by
  refine seg.congr (fun _ _ => rfl) (fun y hy => ?_)
  exact L.setPrev_prev_of_ne r (ne_of_mem_of_not_mem hy fresh)

/-- Redirecting where the last node points on. -/
theorem Links.Seg.setNext_last {L : Links α} {p q r : Option α} {xs : List α} {x : α}
    (seg : L.Seg p (xs ++ [x]) q) (fresh : x ∉ xs) :
    (L.setNext x r).Seg p (xs ++ [x]) r := by
  rw [Links.seg_append] at seg ⊢
  obtain ⟨init, last⟩ := seg
  rw [Links.seg_singleton] at last ⊢
  exact ⟨init.setNext fresh, last.1, by simp⟩

/-- Redirecting where the first node points back. -/
theorem Links.Seg.setPrev_head {L : Links α} {p q r : Option α} {xs : List α} {x : α}
    (seg : L.Seg p (x :: xs) q) (fresh : x ∉ xs) :
    (L.setPrev x r).Seg r (x :: xs) q := by
  obtain ⟨-, forth, rest⟩ := seg
  exact ⟨by simp, forth, rest.setPrev fresh⟩

/-- Two segments become one when the last node of the first and the first node of the second
are linked to each other. -/
theorem Links.Seg.join {L : Links α} {p q p' q' : Option α} {xs ys : List α} {x y : α}
    (left : L.Seg p (xs ++ [x]) q') (right : L.Seg p' (y :: ys) q)
    (nodup : (xs ++ [x] ++ y :: ys).Nodup) :
    ((L.setNext x (some y)).setPrev y (some x)).Seg p (xs ++ [x] ++ y :: ys) q := by
  obtain ⟨left_nodup, right_nodup, apart⟩ := List.nodup_append.mp nodup
  have x_xs : x ∉ xs := fun mem => (List.nodup_append.mp left_nodup).2.2 x mem x (by simp) rfl
  have y_ys : y ∉ ys := (List.nodup_cons.mp right_nodup).1
  have x_right : x ∉ y :: ys := fun mem => apart x (by simp) x mem rfl
  have y_left : y ∉ xs ++ [x] := fun mem => apart y mem y (by simp) rfl
  rw [Links.seg_append, List.getLast?_concat]
  exact ⟨(left.setNext_last x_xs).setPrev y_left, (right.setNext x_right).setPrev_head y_ys⟩

end Edit

end Linked
