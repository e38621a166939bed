import Fos.UserHeap.Layout
import Mathlib.Data.Set.Basic
import Mathlib.Order.CompletePartialOrder
import Mathlib.Order.Interval.Set.Basic

/-!
# The blocks of a process

A process calls `malloc` and `free` in any order.  `Process` adds to the heap's
variables the blocks that were returned and not freed since, each with the size it
was asked for; they are the program's view and no code reads them.

* `Reach.safe`: in a run whose `malloc` calls are sound, the blocks are disjoint and
  inside the heap.  `malloc_past_heap` is the shortest run that leaves the heap.
* `Paged.free_own`: if the sizes are positive too, the live records of the table are
  the blocks, so that `free` finds the record of the block it is given.
-/

namespace Fos.UserHeap

/-! ## Records in order -/

/-- The addresses that a record stands for. -/
def recordRange (r : Nat × Int) : Set Nat := {a | r.1 ≤ a ∧ (a : Int) < r.1 + r.2 * pageSize}

/-- The live blocks of a walk lie between the ends of the live blocks around it. -/
theorem Walk.bounds {q p q' p' : Int} {es : List HeapEntry} (walk : Walk q p es q' p') :
    ∀ r ∈ records es, userHeapStart + q * pageSize ≤ r.1 ∧ 0 ≤ r.2 ∧
      r.1 + r.2 * pageSize ≤ userHeapStart + q' * pageSize := by
  induction walk with
  | nil => simp [records]
  | live pos address live le len rest ih =>
    intro r hr
    rw [records_cons_live live, List.mem_cons] at hr
    have le' := rest.le
    rcases hr with rfl | hr
    · simp only [pageSize] at *
      omega
    · have bounds := ih r hr
      simp only [pageSize] at *
      omega
  | freed _ _ free _ ih =>
    rw [records_cons_freed free]
    exact ih

/-- The live blocks of a walk follow one another. -/
theorem Walk.pairwise {q p q' p' : Int} {es : List HeapEntry} (walk : Walk q p es q' p') :
    (records es).Pairwise fun r r' => (r.1 : Int) + r.2 * pageSize ≤ r'.1 := by
  induction walk with
  | nil => simp [records]
  | live pos address live le len rest ih =>
    rw [records_cons_live live, List.pairwise_cons]
    refine ⟨fun r hr => ?_, ih⟩
    have bounds := rest.bounds r hr
    simp only [pageSize] at *
    omega
  | freed _ _ free _ ih =>
    rw [records_cons_freed free]
    exact ih

theorem Laid.disjoint {h : UserHeap} {q p : Int} (laid : Laid h q p) :
    (records h.entries).Pairwise fun r r' => Disjoint (recordRange r) (recordRange r') := by
  refine laid.walk.pairwise.imp fun apart => Set.disjoint_left.mpr fun a ha ha' => ?_
  simp only [recordRange, Set.mem_ofPred_eq] at ha ha'
  omega

theorem Laid.subset {h : UserHeap} {q p : Int} (laid : Laid h q p) {r : Nat × Int}
    (member : r ∈ records h.entries) :
    recordRange r ⊆ Set.Ico userHeapStart userHeapMax ∧ userHeapStart ≤ r.1 := by
  have bounds := laid.walk.bounds r member
  have le := laid.le
  have inside := laid.inside
  simp only [heapPages, userHeapMax, userHeapStart, pageSize] at *
  refine ⟨fun a ha => ?_, by omega⟩
  simp only [recordRange, pageSize, Set.mem_ofPred_eq, Set.mem_Ico] at *
  omega

/-! ## Processes -/

/-- A call of the user program. -/
inductive HeapOp where
  | malloc (size : Nat)
  | free (virtualAddress : Nat)

/-- A block: its address and the size that was asked for. -/
abbrev Block := Nat × Nat

/-- The addresses of a block, which takes up whole pages. -/
def Block.range (b : Block) : Set Nat := Set.Ico b.1 (b.1 + numOf b.2 * pageSize)

/-- The heap and the blocks the program holds. -/
structure Process where
  heap : UserHeap
  blocks : List Block
  deriving DecidableEq

namespace Process

def initial : Process := { heap := UserHeap.initial, blocks := [] }

/-- A call, unless it writes the arrays past their end. -/
def step (s : Process) : HeapOp → Option Process
  | .malloc size =>
    (s.heap.malloc size).map fun (p, _, h) =>
      { heap := h, blocks := if p = 0 then s.blocks else (p, size) :: s.blocks }
  | .free p => some { heap := (s.heap.free p).2, blocks := s.blocks.filter (·.1 ≠ p) }

/-- The states that calls with the property `ok` lead to. -/
inductive Reach (ok : UserHeap → HeapOp → Prop) : Process → Prop
  | initial : Reach ok initial
  | step {s s' : Process} (op : HeapOp) : Reach ok s → ok s.heap op → s.step op = some s' →
    Reach ok s'

theorem Reach.mono {ok ok' : UserHeap → HeapOp → Prop} (weaker : ∀ h op, ok h op → ok' h op)
    {s : Process} (reach : Reach ok s) : Reach ok' s := by
  induction reach with
  | initial => exact .initial
  | step op _ allowed run ih => exact .step op ih (weaker _ op allowed) run

/-- The blocks are pairwise disjoint and inside the heap. -/
def Safe (s : Process) : Prop :=
  s.blocks.Pairwise (fun b c => Disjoint b.range c.range) ∧
    ∀ b ∈ s.blocks, b.range ⊆ Set.Ico userHeapStart userHeapMax ∧ userHeapStart ≤ b.1

/-- A call as its heap handles it well. -/
def SoundCall (h : UserHeap) : HeapOp → Prop
  | .malloc size => h.Sound size
  | .free _ => True

/-- What a block has in the table. -/
def recordOf (b : Block) : Nat × Int := (b.1, (numOf b.2 : Int))

theorem recordRange_recordOf (b : Block) : recordRange (recordOf b) = b.range := by
  ext a
  simp only [recordRange, recordOf, Block.range, Set.mem_ofPred_eq, Set.mem_Ico]
  omega

/-! ## Runs -/

/-- The table is laid out and has a live record for each block. -/
def Kept (s : Process) : Prop :=
  (∃ q p, Laid s.heap q p) ∧ (s.blocks.map recordOf).Subperm (records s.heap.entries)

theorem Kept.step {s s' : Process} (kept : s.Kept) {op : HeapOp} (sound : SoundCall s.heap op)
    (run : s.step op = some s') : s'.Kept := by
  obtain ⟨⟨q, p, laid⟩, held⟩ := kept
  cases op with
  | malloc size =>
    rcases laid.malloc sound with ⟨-, null⟩ | ⟨ptr, h', q', p', -, some, nonnull, laid', -, perm⟩
    · simp only [Process.step, null, Option.map_some, if_true, Option.some.injEq] at run
      subst run
      exact ⟨⟨q, p, laid⟩, held⟩
    · simp only [Process.step, some, Option.map_some, if_neg nonnull, Option.some.injEq] at run
      subst run
      exact ⟨⟨q', p', laid'⟩, ((List.subperm_cons _).mpr held).trans perm.symm.subperm⟩
  | free va =>
    simp only [Process.step, Option.some.injEq] at run
    subst run
    rcases laid.free va with ⟨-, free⟩ | ⟨n, h', q', free, laid', -, perm⟩
    · refine ⟨⟨q, p, by rw [free]; exact laid⟩, ?_⟩
      rw [free]
      exact ((List.filter_sublist.map _).subperm).trans held
    · refine ⟨⟨q', p, by rw [free]; exact laid'⟩, ?_⟩
      rw [free]
      -- both sides without the records of address `va`
      have filtered := (held.trans perm.subperm).filter (·.1 ≠ va)
      have blocks : (s.blocks.map recordOf).filter (·.1 ≠ va) =
          (s.blocks.filter (·.1 ≠ va)).map recordOf := by
        rw [List.filter_map]
        rfl
      rw [blocks, List.filter_cons_of_neg (by simp)] at filtered
      exact filtered.trans List.filter_sublist.subperm

/-- **Blocks never overlap and never leave the heap**, while the calls are sound. -/
theorem Reach.safe {s : Process} (reach : Reach SoundCall s) : s.Safe := by
  have kept : s.Kept := by
    induction reach with
    | initial => exact ⟨⟨0, 0, laid_initial⟩, List.nil_subperm⟩
    | step op _ sound run kept => exact kept.step sound run
  obtain ⟨⟨q, p, laid⟩, held⟩ := kept
  refine ⟨?_, fun b hb => ?_⟩
  · obtain ⟨rs, perm, sub⟩ := held
    have apart : (s.blocks.map recordOf).Pairwise
        fun r r' => Disjoint (recordRange r) (recordRange r') :=
      (perm.pairwise_iff fun h => h.symm).mp (laid.disjoint.sublist sub)
    rw [List.pairwise_map] at apart
    exact apart.imp fun {b c} h => by rwa [recordRange_recordOf, recordRange_recordOf] at h
  · have inside := laid.subset (held.subset (List.mem_map_of_mem hb))
    rwa [recordRange_recordOf] at inside

/-- A block of two pages is freed, and a block of one page placed in its hole. -/
theorem safe_reuse : Safe
    { heap :=
        { lastAddres := 0x80003000, changes := 1
          entries := [⟨0x80000000, true, 1⟩, ⟨0x80001000, false, 1⟩, ⟨0x80002000, true, 1⟩] }
      blocks := [(0x80000000, 4096), (0x80002000, 100)] } := by
  have first : Reach SoundCall ⟨⟨0x80002000, 0, [⟨0x80000000, true, 2⟩]⟩, [(0x80000000, 8192)]⟩ :=
    .step (.malloc 8192) .initial
      (.inr ⟨by decide, fun _ => by decide, fun h => absurd rfl h⟩) (by decide +kernel)
  have second : Reach SoundCall
      ⟨⟨0x80003000, 0, [⟨0x80000000, true, 2⟩, ⟨0x80002000, true, 1⟩]⟩,
        [(0x80002000, 100), (0x80000000, 8192)]⟩ :=
    .step (.malloc 100) first
      (.inr ⟨by decide, fun _ => by decide, fun h => absurd rfl h⟩) (by decide +kernel)
  have freed : Reach SoundCall
      ⟨⟨0x80003000, 1, [⟨0x80000000, false, 2⟩, ⟨0x80002000, true, 1⟩]⟩, [(0x80002000, 100)]⟩ :=
    .step (.free 0x80000000) second trivial (by decide +kernel)
  exact Reach.safe (.step (.malloc 4096) freed
    (.inr ⟨by decide, fun h => absurd h (by decide), fun _ _ => by decide⟩) (by decide +kernel))

/-- The first append path has no limit check: of two blocks as large as the heap the
second one starts where the heap ends. -/
theorem malloc_past_heap : ¬ ∀ s : Process, Reach (fun _ _ => True) s → s.Safe := by
  intro claim
  have first : Reach (fun _ _ => True)
      ⟨⟨0xA0000000, 0, [⟨0x80000000, true, 131072⟩]⟩, [(0x80000000, 0x20000000)]⟩ :=
    .step (.malloc 0x20000000) .initial trivial (by decide +kernel)
  have second : Reach (fun _ _ => True)
      ⟨⟨0xC0000000, 0, [⟨0x80000000, true, 131072⟩, ⟨0xA0000000, true, 131072⟩]⟩,
        [(0xA0000000, 0x20000000), (0x80000000, 0x20000000)]⟩ :=
    .step (.malloc 0x20000000) first trivial (by decide +kernel)
  have inside := ((claim _ second).2 (0xA0000000, 0x20000000) (by simp)).1
  have member : (0xA0000000 : Nat) ∈ Block.range (0xA0000000, 0x20000000) :=
    ⟨le_refl _, by decide⟩
  exact absurd (inside member).2 (lt_irrefl _)

/-! ## Blocks with pages -/

/-- The live records are the blocks, and each has pages. -/
structure Paged (s : Process) (q p : Int) : Prop where
  laid : Laid s.heap q p
  perm : (s.blocks.map recordOf).Perm (records s.heap.entries)
  positive : ∀ b ∈ s.blocks, 0 < b.2

theorem numOf_pos {size : Nat} (pos : 0 < size) : 0 < numOf size := by
  have le := le_numOf size
  simp only [pageSize] at le
  omega

theorem paged_initial : Paged initial 0 0 := ⟨laid_initial, List.Perm.nil, by simp [initial]⟩

theorem Paged.len_pos {s : Process} {q p : Int} (paged : Paged s q p) {r : Nat × Int}
    (member : r ∈ records s.heap.entries) : 0 < r.2 := by
  obtain ⟨b, hb, rfl⟩ := List.mem_map.mp (paged.perm.symm.subset member)
  exact Int.natCast_pos.mpr (numOf_pos (paged.positive b hb))

/-- The live records have different addresses. -/
theorem Paged.nodup {s : Process} {q p : Int} (paged : Paged s q p) :
    (records s.heap.entries).Pairwise fun r r' => r.1 ≠ r'.1 := by
  refine paged.laid.walk.pairwise.imp_of_mem fun {r r'} hr _ apart eq => ?_
  have pos := paged.len_pos hr
  simp only [pageSize] at apart
  omega

/-- `free` finds the record of the block it is given, asks for exactly the pages of the
block to be freed, and takes no other block from the table. -/
theorem Paged.free_own {s : Process} {q p : Int} (paged : Paged s q p) {b : Block}
    (member : b ∈ s.blocks) :
    ∃ h' q', s.heap.free b.1 = ([.freeMem b.1 (numOf b.2 * pageSize)], h') ∧
      Paged { heap := h', blocks := s.blocks.filter (·.1 ≠ b.1) } q' p ∧
      h'.changes = s.heap.changes + 1 ∧
      (records s.heap.entries).Perm (recordOf b :: records h'.entries) := by
  have recorded : recordOf b ∈ records s.heap.entries :=
    paged.perm.subset (List.mem_map_of_mem member)
  rcases paged.laid.free b.1 with ⟨absent, -⟩ | ⟨n, h', q', free, laid', changes, perm⟩
  · exact absurd recorded (absent _)
  · have apart := (perm.pairwise_iff fun h => h.symm).mp paged.nodup
    rw [List.pairwise_cons] at apart
    obtain rfl : n = numOf b.2 := by
      rcases List.mem_cons.mp (perm.subset recorded) with same | other
      · exact (congrArg Prod.snd same).symm
      · exact absurd rfl (apart.1 (recordOf b) other)
    have size : uint32 ((numOf b.2 : Int) * pageSize) = numOf b.2 * pageSize := by
      have bounds := paged.laid.walk.bounds _ recorded
      have le := paged.laid.le
      have inside := paged.laid.inside
      have same : (uint32 ((numOf b.2 : Int) * pageSize) : Int) = (numOf b.2 : Int) * pageSize := by
        simp only [recordOf, heapPages, userHeapMax, userHeapStart, pageSize] at *
        exact uint32_of_nonneg (by omega) (by omega)
      exact_mod_cast same
    rw [size] at free
    refine ⟨h', q', free, ⟨laid', ?_, fun c hc => paged.positive c (List.mem_filter.mp hc).1⟩,
      changes, perm⟩
    have filtered := (paged.perm.trans perm).filter (·.1 ≠ b.1)
    have rest : (records h'.entries).filter (·.1 ≠ b.1) = records h'.entries :=
      List.filter_eq_self.mpr fun r hr => by simpa using (apart.1 r hr).symm
    rw [List.filter_map, List.filter_cons_of_neg (by simp), rest] at filtered
    exact filtered

/-- `free` of any other address does nothing. -/
theorem Paged.free_other {s : Process} {q p : Int} (paged : Paged s q p) {va : Nat}
    (other : ∀ b ∈ s.blocks, b.1 ≠ va) : s.heap.free va = ([], s.heap) := by
  rcases paged.laid.free va with ⟨-, free⟩ | ⟨n, h', q', -, -, -, perm⟩
  · exact free
  · have recorded : (va, n) ∈ s.blocks.map recordOf :=
      paged.perm.symm.subset (perm.symm.subset (by simp))
    obtain ⟨b, hb, eq⟩ := List.mem_map.mp recorded
    exact absurd (congrArg Prod.fst eq) (other b hb)

/-- A sound `malloc` of a positive size returns NULL or adds a block. -/
theorem Paged.malloc {s : Process} {q p : Int} (paged : Paged s q p) {size : Nat}
    (sound : s.heap.Sound size) (pos : 0 < size) :
    s.heap.malloc size = some (0, [], s.heap) ∨
    ∃ ptr h' q' p', s.heap.malloc size = some (ptr, [.allocateMem ptr size], h') ∧ ptr ≠ 0 ∧
      Paged { heap := h', blocks := (ptr, size) :: s.blocks } q' p' := by
  rcases paged.laid.malloc sound with ⟨-, null⟩ | ⟨ptr, h', q', p', -, run, nonnull, laid', -, perm⟩
  · exact Or.inl null
  · refine Or.inr ⟨ptr, h', q', p', run, nonnull, laid', ?_, ?_⟩
    · exact (paged.perm.cons _).trans perm.symm
    · simpa [pos] using paged.positive

/-- A call as its heap handles it well, by a program that asks for at least a byte. -/
def PositiveCall (h : UserHeap) (op : HeapOp) : Prop :=
  SoundCall h op ∧ ∀ size, op = .malloc size → 0 < size

theorem Reach.paged {s : Process} (reach : Reach PositiveCall s) : ∃ q p, Paged s q p := by
  induction reach with
  | initial => exact ⟨0, 0, paged_initial⟩
  | @step s s' op _ sound run ih =>
    obtain ⟨q, p, paged⟩ := ih
    cases op with
    | malloc size =>
      rcases paged.malloc sound.1 (sound.2 size rfl) with null | ⟨ptr, h', q', p', some, nonnull,
        paged'⟩
      · simp only [Process.step, null, Option.map_some, if_true, Option.some.injEq] at run
        subst run
        exact ⟨q, p, paged⟩
      · simp only [Process.step, some, Option.map_some, if_neg nonnull, Option.some.injEq] at run
        subst run
        exact ⟨q', p', paged'⟩
    | free va =>
      simp only [Process.step, Option.some.injEq] at run
      subst run
      by_cases own : ∃ b ∈ s.blocks, b.1 = va
      · obtain ⟨b, hb, rfl⟩ := own
        obtain ⟨h', q', free, paged', -⟩ := paged.free_own hb
        rw [free]
        exact ⟨q', p, paged'⟩
      · push Not at own
        have blocks : s.blocks.filter (·.1 ≠ va) = s.blocks :=
          List.filter_eq_self.mpr fun b hb => by simpa using own b hb
        rw [paged.free_other own, blocks]
        exact ⟨q, p, paged⟩

end Process

end Fos.UserHeap
