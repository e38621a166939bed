import Fos.UserHeap.Blocks

/-!
# The indices of the heap tables

Which members of `addresses`, `changed` and `numOfPages` the calls of `lib/uheap.c` read and
write.  A `malloc` that gets memory adds a record, and no record is ever removed, while the
heap has more pages than the tables have members.

* `HeapOp.indices`: the indices of a call;
* `InRange`: those of a sequence of calls are inside the tables;
* `inRange_iff`: so they are as long as fewer than 100000 calls before got memory.
-/

namespace Fos.UserHeap

/-! ## The indices of a call -/

/-- Placing a block after all others. -/
def appendIndices (h : UserHeap) : List Int := [h.sizeofarray]

/-- The scan looks at every record. -/
def scanIndices (h : UserHeap) : List Int := (List.range h.sizeofarray).map Int.ofNat

/-- Placing a block in a hole: with `sizeofarray` one larger, the loop moves the member `i - 1`
to `i` for `i` from `sizeofarray - 1` down to `index + 1`; then the members `index + 1` and
`index` are written. -/
def splitIndices (h : UserHeap) (fit : Fit) : List Int :=
  ((List.range' (fit.index + 1) (h.sizeofarray - fit.index)).flatMap fun (i : Nat) =>
    [(i : Int), i - 1]) ++
    [(fit.index : Int) + 1, fit.index]

/-- The indices at which `malloc` reads or writes the tables. -/
def mallocIndices (h : UserHeap) (size : Nat) : List Int :=
  if size > userHeapMax - userHeapStart then []
  else if h.changes = 0 then h.appendIndices
  else
    h.scanIndices ++ match (scan (numOf size) .start 0 h.entries).fit with
      | some fit => h.splitIndices fit
      | none => if size > uint32 ((userHeapMax : Int) - h.lastAddres) then [] else h.appendIndices

/-- The indices at which `free` does: it looks for the record, and changes it. -/
def freeIndices (h : UserHeap) (virtualAddress : Nat) : List Int :=
  match h.entries.findIdx? fun e => e.address = virtualAddress ∧ e.changed = true with
  | some index => (List.range (index + 1)).map Int.ofNat ++ [(index : Int)]
  | none => h.scanIndices

def opIndices (h : UserHeap) : HeapOp → List Int
  | .malloc size => h.mallocIndices size
  | .free va => h.freeIndices va

/-- The tables after a call. -/
def exec (h : UserHeap) : HeapOp → Option UserHeap
  | .malloc size => (h.malloc size).map fun (_, _, h') => h'
  | .free va => some (h.free va).2

/-- Every index of the calls lies inside the tables. -/
def InRange (h : UserHeap) : List HeapOp → Prop
  | [] => h.sizeofarray ≤ heapTableSize
  | op :: ops => h.sizeofarray ≤ heapTableSize ∧
      (∀ i ∈ h.opIndices op, 0 ≤ i ∧ i < heapTableSize) ∧ ∃ h', h.exec op = some h' ∧ InRange h' ops

/-! ## The calls that add a record -/

/-- The call gets memory. -/
def Gets (h : UserHeap) : HeapOp → Prop
  | .malloc size => ¬ size > userHeapMax - userHeapStart ∧
      (h.changes = 0 ∨ (scan (numOf size) .start 0 h.entries).fit.isSome ∨
        ¬ size > uint32 ((userHeapMax : Int) - h.lastAddres))
  | .free _ => False

instance (h : UserHeap) (op : HeapOp) : Decidable (h.Gets op) := by
  cases op <;> unfold Gets <;> infer_instance

/-- When a call gets memory, fewer than 100000 calls before it did; `n` of them did before
`h`. -/
def FewGet (n : Nat) (h : UserHeap) : List HeapOp → Prop
  | [] => True
  | op :: ops => (h.Gets op → n < heapTableSize) ∧
      ∀ h', h.exec op = some h' → FewGet (if h.Gets op then n + 1 else n) h' ops

variable {h h' : UserHeap} {op : HeapOp} {ops : List HeapOp} {n : Nat}

/-- A hole that the scan finds lies among the records. -/
theorem fit_lt {num : Nat} {fit : Fit} (found : (scan num .start 0 h.entries).fit = some fit) :
    fit.index < h.sizeofarray := by
  obtain ⟨-, -, pre, run, e, post, hole, -, index, -⟩ :=
    (scan_start_best num h.entries).some fit found
  rw [sizeofarray, hole.append, index]
  simp only [List.length_append, List.length_cons]
  omega

theorem appendBlock_sizeofarray (size : Nat) (room : h.sizeofarray < heapTableSize) :
    ∃ (r : Nat × List HeapCall) (h' : UserHeap), h.appendBlock size = some (r.1, r.2, h') ∧
      h'.sizeofarray = h.sizeofarray + 1 := by
  rw [appendBlock, if_pos room]
  exact ⟨(_, _), _, rfl, by simp [sizeofarray]⟩

theorem splitHole_sizeofarray (size : Nat) {fit : Fit} (room : h.sizeofarray < heapTableSize)
    (lt : fit.index < h.sizeofarray) :
    ∃ (r : Nat × List HeapCall) (h' : UserHeap), h.splitHole size fit = some (r.1, r.2, h') ∧
      h'.sizeofarray = h.sizeofarray + 1 := by
  rw [splitHole, if_pos room, List.getElem?_eq_getElem lt]
  refine ⟨(_, _), _, rfl, ?_⟩
  rw [sizeofarray, sizeofarray, List.length_insertIdx_of_le_length, List.length_set]
  rw [List.length_set]
  exact lt

theorem free_sizeofarray (h : UserHeap) (va : Nat) : (h.free va).2.sizeofarray = h.sizeofarray := by
  unfold free
  split
  · split
    · simp [sizeofarray]
    · rfl
  · rfl

/-- A record more, or as many as before. -/
theorem exec_sizeofarray (room : h.Gets op → h.sizeofarray < heapTableSize) :
    ∃ h', h.exec op = some h' ∧
      h'.sizeofarray = if h.Gets op then h.sizeofarray + 1 else h.sizeofarray := by
  cases op with
  | free va => exact ⟨_, rfl, free_sizeofarray h va⟩
  | malloc size =>
    rw [exec, malloc]
    by_cases large : size > userHeapMax - userHeapStart
    · rw [if_pos large, if_neg fun gets => gets.1 large]
      exact ⟨h, rfl, rfl⟩
    · rw [if_neg large]
      by_cases fresh : h.changes = 0
      · have gets : h.Gets (.malloc size) := ⟨large, Or.inl fresh⟩
        obtain ⟨r, h', run, more⟩ := appendBlock_sizeofarray size (room gets)
        rw [if_pos fresh, run, if_pos gets]
        exact ⟨h', rfl, more⟩
      · rw [if_neg fresh]
        cases found : (scan (numOf size) .start 0 h.entries).fit with
        | some fit =>
          have gets : h.Gets (.malloc size) := ⟨large, Or.inr (Or.inl (by rw [found]; rfl))⟩
          obtain ⟨r, h', run, more⟩ :=
            splitHole_sizeofarray size (room gets) (fit_lt found)
          simp only [run, if_pos gets]
          exact ⟨h', rfl, more⟩
        | none =>
          by_cases past : size > uint32 ((userHeapMax : Int) - h.lastAddres)
          · have refused : ¬ h.Gets (.malloc size) := by
              rintro ⟨-, fresh' | fits | fits⟩
              · exact fresh fresh'
              · rw [found] at fits
                cases fits
              · exact fits past
            simp only [if_pos past, if_neg refused]
            exact ⟨h, rfl, rfl⟩
          · have gets : h.Gets (.malloc size) := ⟨large, Or.inr (Or.inr past)⟩
            obtain ⟨r, h', run, more⟩ := appendBlock_sizeofarray size (room gets)
            simp only [if_neg past, run, if_pos gets]
            exact ⟨h', rfl, more⟩

/-- The indices of the records are inside the tables. -/
theorem range_inside (le : n ≤ heapTableSize) :
    ∀ i ∈ (List.range n).map Int.ofNat, 0 ≤ i ∧ i < heapTableSize := by
  intro i mem
  obtain ⟨k, lt, rfl⟩ := List.mem_map.mp mem
  rw [List.mem_range] at lt
  simp only [Int.ofNat_eq_natCast]
  omega

theorem appendIndices_iff : (∀ i ∈ h.appendIndices, 0 ≤ i ∧ i < heapTableSize) ↔
    h.sizeofarray < heapTableSize := by
  simp only [appendIndices, List.mem_singleton, forall_eq]
  omega

theorem splitIndices_iff {fit : Fit} (lt : fit.index < h.sizeofarray) :
    (∀ i ∈ h.splitIndices fit, 0 ≤ i ∧ i < heapTableSize) ↔ h.sizeofarray < heapTableSize := by
  constructor
  · intro inside
    have last := inside h.sizeofarray (List.mem_append_left _ (List.mem_flatMap.mpr
      ⟨h.sizeofarray, List.mem_range'_1.mpr ⟨lt, by omega⟩, by simp⟩))
    omega
  · intro room i mem
    rcases List.mem_append.mp mem with mem | mem
    · obtain ⟨k, range, mem⟩ := List.mem_flatMap.mp mem
      rw [List.mem_range'_1] at range
      simp only [List.mem_cons, List.not_mem_nil, or_false] at mem
      omega
    · simp only [List.mem_cons, List.not_mem_nil, or_false] at mem
      omega

theorem freeIndices_inside (le : h.sizeofarray ≤ heapTableSize) (va : Nat) :
    ∀ i ∈ h.freeIndices va, 0 ≤ i ∧ i < heapTableSize := by
  unfold freeIndices
  split
  · rename_i index found
    have lt : index < h.sizeofarray := (List.findIdx?_eq_some_iff_getElem.mp found).1
    intro i mem
    rcases List.mem_append.mp mem with mem | mem
    · exact range_inside (n := index + 1) (by omega) i mem
    · rw [List.mem_singleton] at mem
      omega
  · exact range_inside le

/-- The indices of a call reach as far as the record that it adds. -/
theorem opIndices_iff (le : h.sizeofarray ≤ heapTableSize) :
    (∀ i ∈ h.opIndices op, 0 ≤ i ∧ i < heapTableSize) ↔
      (h.Gets op → h.sizeofarray < heapTableSize) := by
  cases op with
  | free va => exact iff_of_true (freeIndices_inside le va) fun gets => gets.elim
  | malloc size =>
    rw [opIndices, mallocIndices]
    by_cases large : size > userHeapMax - userHeapStart
    · rw [if_pos large]
      exact iff_of_true (fun _ mem => by cases mem) fun gets => absurd large gets.1
    · rw [if_neg large]
      by_cases fresh : h.changes = 0
      · have gets : h.Gets (.malloc size) := ⟨large, Or.inl fresh⟩
        rw [if_pos fresh, appendIndices_iff, forall_prop_of_true gets]
      · rw [if_neg fresh, List.forall_mem_append, scanIndices, and_iff_right (range_inside le)]
        cases found : (scan (numOf size) .start 0 h.entries).fit with
        | some fit =>
          have gets : h.Gets (.malloc size) := ⟨large, Or.inr (Or.inl (by rw [found]; rfl))⟩
          rw [forall_prop_of_true gets]
          exact splitIndices_iff (fit_lt found)
        | none =>
          by_cases past : size > uint32 ((userHeapMax : Int) - h.lastAddres)
          · simp only [if_pos past]
            refine iff_of_true (fun _ mem => by cases mem) ?_
            rintro ⟨-, fresh' | fits | fits⟩
            · exact absurd fresh' fresh
            · rw [found] at fits
              cases fits
            · exact absurd past fits
          · have gets : h.Gets (.malloc size) := ⟨large, Or.inr (Or.inr past)⟩
            simp only [if_neg past, appendIndices_iff, forall_prop_of_true gets]

/-- Along the calls there are as many records as calls that got memory. -/
theorem inRange_of_sizeofarray (le : h.sizeofarray ≤ heapTableSize) :
    InRange h ops ↔ FewGet h.sizeofarray h ops := by
  induction ops generalizing h with
  | nil => exact iff_of_true le trivial
  | cons op ops ih =>
    rw [InRange, FewGet, opIndices_iff le, and_iff_right le]
    refine and_congr_right fun room => ?_
    obtain ⟨h', run, size⟩ := exec_sizeofarray room
    have le' : h'.sizeofarray ≤ heapTableSize := by
      rw [size]
      split
      · exact room ‹_›
      · exact le
    rw [run, ← size]
    simp only [Option.some.injEq, exists_eq_left', forall_eq']
    exact ih le'

/-- **The indices are inside the tables**, in any sequence of calls, exactly as long as each call
that gets memory comes after fewer than 100000 that did. -/
theorem inRange_iff (ops : List HeapOp) : InRange initial ops ↔ FewGet 0 initial ops :=
  inRange_of_sizeofarray (Nat.zero_le _)

/-- One page after another, without a `free`. -/
theorem inRange_pages {k : Nat} (fresh : h.changes = 0)
    (inside : InRange h (List.replicate k (.malloc pageSize))) :
    h.sizeofarray + k ≤ heapTableSize := by
  induction k generalizing h with
  | zero => exact inside
  | succ k ih =>
    obtain ⟨le, indices, h', run, inside'⟩ := inside
    have gets : h.Gets (.malloc pageSize) := ⟨by decide, Or.inl fresh⟩
    have room := (opIndices_iff le).mp indices gets
    have appended : h.malloc pageSize = h.appendBlock pageSize := by
      rw [malloc, if_neg (by decide), if_pos fresh]
    rw [exec, appended, appendBlock, if_pos room, Option.map_some, Option.some_inj] at run
    have bound := ih (by rw [← run]; exact fresh) inside'
    rw [← run, sizeofarray, List.length_append, List.length_singleton] at bound
    rw [sizeofarray]
    omega

/-- The heap has 131072 pages: 100001 of them, one by one, overrun the tables. -/
theorem inRange_overrun : ¬ ∀ ops, InRange initial ops := by
  intro inside
  have bound := inRange_pages rfl (inside (List.replicate 100001 (.malloc pageSize)))
  exact absurd bound (by decide)

end Fos.UserHeap
