import Fos.Memlayout

/-!
# The user heap

`malloc` and `free` of `lib/uheap.c`, which run in user mode.  The parallel arrays
`addresses`, `changed` and `numOfPages` are one list of entries, whose length is
`sizeofarray`; `changed` is 1 for a live block and 0 for a freed one.  Addresses are
`uint32`; page counts are signed, and the freed rest of a split may have a negative
one.  `changes` counts the frees.  The system calls are recorded in the order they are
made.
-/

namespace Fos

/-- The length of the arrays of `lib/uheap.c`. -/
abbrev heapTableSize : Nat := 100000

/-- `addresses[i]`, `changed[i]` and `numOfPages[i]`. -/
structure HeapEntry where
  address : Nat
  changed : Bool
  numOfPages : Int
  deriving DecidableEq

/-- The static variables of `lib/uheap.c`. -/
structure UserHeap where
  lastAddres : Nat
  changes : UInt32
  entries : List HeapEntry
  deriving DecidableEq

/-- `sys_allocateMem` and `sys_freeMem`. -/
inductive HeapCall where
  | allocateMem (virtualAddress size : Nat)
  | freeMem (virtualAddress size : Nat)
  deriving DecidableEq

namespace UserHeap

/-- The variables as they are initialised. -/
def initial : UserHeap :=
  { lastAddres := userHeapStart, changes := 0, entries := [] }

/-- `sizeofarray`. -/
def sizeofarray (h : UserHeap) : Nat := h.entries.length

/-- `num`: the pages of a request. -/
def numOf (size : Nat) : Nat :=
  if size % pageSize ≠ 0 then size / pageSize + 1 else size / pageSize

/-- The hole that the scan prefers so far. -/
structure Fit where
  index : Nat
  lastindex : Nat
  minAddresss : Nat

/-- The locals of the scan; `fit` is there when `bool` is 1. -/
structure Scan where
  count : Int
  f : Nat
  min : Int
  fit : Option Fit

/-- The locals before the scan. -/
def Scan.start : Scan := { count := 0, f := 0, min := 4000, fit := none }

/-- The body of the scan for the entry with index `i`. -/
def Scan.visit (num : Nat) (t : Scan) (i : Nat) (e : HeapEntry) : Scan :=
  if e.changed = false then { t with count := t.count + e.numOfPages, f := t.f + 1 }
  else if t.count < t.min ∧ (num : Int) ≤ t.count then
    { count := 0
      f := 0
      min := t.count
      fit := some
        { index := i - t.f, lastindex := i,
          minAddresss := uint32 (e.address - t.count * pageSize) } }
  else { t with count := 0, f := 0 }

/-- The scan of the entries from index `i` on. -/
def scan (num : Nat) : Scan → Nat → List HeapEntry → Scan
  | t, _, [] => t
  | t, i, e :: es => scan num (t.visit num i e) (i + 1) es

/-- The two copies of the code that places a block after all others. -/
def appendBlock (h : UserHeap) (size : Nat) : Option (Nat × List HeapCall × UserHeap) :=
  if h.sizeofarray < heapTableSize then
    let returnAddres := h.lastAddres
    some (returnAddres, [.allocateMem h.lastAddres size],
      { h with
        lastAddres := uint32 (h.lastAddres + numOf size * pageSize)
        entries := h.entries ++
          [{ address := returnAddres, changed := true, numOfPages := numOf size }] })
  else none

/-- The code that places a block in a hole.  The entry at `index` becomes the block and
the rest of the hole is inserted after it; a hole with no entry (`index = lastindex`)
does not set `changed`. -/
def splitHole (h : UserHeap) (size : Nat) (fit : Fit) : Option (Nat × List HeapCall × UserHeap) :=
  if h.sizeofarray < heapTableSize then
    match h.entries[fit.index]? with
    | some e =>
      let rest : HeapEntry :=
        { address := uint32 (fit.minAddresss + size), changed := false
          numOfPages := e.numOfPages - numOf size }
      let block : HeapEntry :=
        { e with
          numOfPages := numOf size
          changed := if fit.index < fit.lastindex then true else e.changed }
      some (fit.minAddresss, [.allocateMem fit.minAddresss size],
        { h with entries := (h.entries.set fit.index block).insertIdx (fit.index + 1) rest })
    | none => none
  else none

/-- `malloc`: the pointer (0 is NULL), the system calls and the variables afterwards;
nothing when the arrays are written past their end. -/
def malloc (h : UserHeap) (size : Nat) : Option (Nat × List HeapCall × UserHeap) :=
  if size > userHeapMax - userHeapStart then some (0, [], h)
  else if h.changes = 0 then h.appendBlock size
  else
    match (scan (numOf size) .start 0 h.entries).fit with
    | some fit => h.splitHole size fit
    | none =>
      if size > uint32 ((userHeapMax : Int) - h.lastAddres) then some (0, [], h)
      else h.appendBlock size

/-- `free`. -/
def free (h : UserHeap) (virtualAddress : Nat) : List HeapCall × UserHeap :=
  match h.entries.findIdx? fun e => e.address = virtualAddress ∧ e.changed = true with
  | some index =>
    match h.entries[index]? with
    | some e =>
      ([.freeMem virtualAddress (uint32 (e.numOfPages * pageSize))],
        { h with
          changes := h.changes + 1
          entries := h.entries.set index { e with changed := false } })
    | none => ([], h)
  | none => ([], h)

/-- The paths of `malloc`: it returns NULL, places the block after all others, or places it in the
hole that the scan has found. -/
theorem malloc_paths (h : UserHeap) (size : Nat) :
    h.malloc size = some (0, [], h) ∨ size ≤ userHeapMax - userHeapStart ∧
      (h.malloc size = h.appendBlock size ∨
        ∃ fit, (scan (numOf size) .start 0 h.entries).fit = some fit ∧
          h.malloc size = h.splitHole size fit) := by
  unfold malloc
  by_cases large : size > userHeapMax - userHeapStart
  · exact Or.inl (if_pos large)
  rw [if_neg large]
  by_cases fresh : h.changes = 0
  · exact Or.inr ⟨not_lt.mp large, Or.inl (if_pos fresh)⟩
  rw [if_neg fresh]
  cases found : (scan (numOf size) .start 0 h.entries).fit with
  | some fit => exact Or.inr ⟨not_lt.mp large, Or.inr ⟨fit, rfl, rfl⟩⟩
  | none =>
    by_cases past : size > uint32 ((userHeapMax : Int) - h.lastAddres)
    · exact Or.inl (if_pos past)
    · exact Or.inr ⟨not_lt.mp large, Or.inl (if_neg past)⟩

end UserHeap

end Fos
