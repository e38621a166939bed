import Fos.UserHeap.Backed
import Fos.UserHeap.Blocks
import Fos.WorkingSet.Reclaim

/-!
# The blocks and the page file

A process calls `malloc` and `free`, and its system calls are run in the kernel.  While the
calls are sound and the page file has room, the pages of its heap in the page file are those
of its blocks.

* `HeapRun`: the runs;
* `Resident.allocateMem_wp`, `Resident.freeBlock_wp`: the system calls;
* `HeapRun.owned`: what holds in every state of a run.
-/

namespace Fos

open Exec UserHeap

variable {e va size : Nat} {env₀ : Env} {s s' : Kernel} {v v' : View} {w : WorkingSet}

/-- The system calls of a call. -/
def UserHeap.HeapOp.calls (h : UserHeap) : HeapOp → List HeapCall
  | .malloc size => (h.malloc size).elim [] fun (_, calls, _) => calls
  | .free p => (h.free p).1

/-- The states of the process `e` and of the kernel after calls with the property `ok`, from a
new heap and the kernel's state `s₀` on.  A call that panics ends the run. -/
inductive HeapRun (e : Nat) (ok : UserHeap → Kernel → HeapOp → Prop) (s₀ : Kernel) :
    Process → Kernel → Prop
  | start : HeapRun e ok s₀ .initial s₀
  | step {P P' : Process} {s s' : Kernel} (op : HeapOp) : HeapRun e ok s₀ P s → ok P.heap s op →
    P.step op = some P' → ((op.calls P.heap).forM (HeapCall.prog e)) s = .ok () s' →
    HeapRun e ok s₀ P' s'

/-- A call that the heap handles well, by a program that asks for at least a byte, and with disk
frames for the pages of a block. -/
def BackedCall (h : UserHeap) (s : Kernel) (op : HeapOp) : Prop :=
  Process.PositiveCall h op ∧
    ∀ size, op = .malloc size → ¬ h.Refuses size → numOf size ≤ s.freeDiskFrames

/-! ## Blocks of whole pages -/

/-- The live records start at page boundaries. -/
theorem UserHeap.Walk.aligned {q p q' p' : Int} {es : List HeapEntry} (walk : Walk q p es q' p') :
    ∀ r ∈ records es, r.1 % pageSize = 0 := by
  induction walk with
  | nil => simp [records]
  | live pos address live _ _ _ ih =>
    intro r mem
    rw [records_cons_live live, List.mem_cons] at mem
    rcases mem with rfl | mem
    · simp only [userHeapStart, pageSize] at *
      omega
    · exact ih r mem
  | freed _ _ free _ ih =>
    rw [records_cons_freed free]
    exact ih

/-- The pages of a block that ends inside the heap. -/
theorem mem_pages {n a : Nat} (aligned : va % pageSize = 0) (heap : va + n * pageSize ≤ userHeapMax)
    (lt : a < userHeapMax) : pageNo a ∈ ((List.range n).map (va + · * pageSize)).map pageNo ↔
      va ≤ a ∧ a < va + n * pageSize := by
  simp only [List.mem_map, List.mem_range, exists_exists_and_eq_and]
  constructor
  · rintro ⟨i, small, eq⟩
    have le : (i + 1) * pageSize ≤ n * pageSize := Nat.mul_le_mul_right _ small
    rw [Nat.succ_mul] at le
    have top : va + i * pageSize < word32 := by
      simp only [pageSize, userHeapMax, word32] at *
      omega
    have div := div_eq_of_pageNo top (lt.trans (by decide)) eq
    simp only [pageSize] at *
    omega
  · rintro ⟨ge, below⟩
    refine ⟨(a - va) / pageSize, ?_, pageNo_congr ?_⟩
    · simp only [pageSize] at *
      omega
    · simp only [pageSize] at *
      omega

theorem freedPages_eq {n : Nat} (heap : va + n * pageSize ≤ userHeapMax) :
    freedPages va (n * pageSize) = (List.range n).map (va + · * pageSize) := by
  have whole : roundUp (n * pageSize) / pageSize = n := by
    simp only [roundUp, roundDown, pageSize, userHeapMax, word32] at *
    omega
  rw [freedPages, whole]
  refine List.map_congr_left fun i mem => Nat.mod_eq_of_lt ?_
  have small := List.mem_range.mp mem
  simp only [pageSize, userHeapMax, word32] at *
  omega

theorem rangeVas_pages (heap : va + numOf size * pageSize ≤ userHeapMax) :
    rangeVas va size = (List.range (numOf size)).map (va + · * pageSize) := by
  rw [rangeVas, numOf_eq]
  refine List.map_congr_left fun i mem => Nat.mod_eq_of_lt ?_
  have small := List.mem_range.mp mem
  simp only [pageSize, userHeapMax, word32] at *
  omega

/-! ## The system calls -/

theorem Resident.allocateMem_wp (resident : Resident e env₀ s v w)
    (aligned : va % pageSize = 0) (heap : va + numOf size * pageSize ≤ userHeapMax)
    (room : numOf size ≤ s.freeDiskFrames) :
    wp (allocateMem e va size) (fun _ s' => (∃ v', Resident e env₀ s' v' w) ∧
      ∀ a < userHeapMax, (s'.pageFileEntry e a ≠ 0 ↔
        s.pageFileEntry e a ≠ 0 ∨ va ≤ a ∧ a < va + numOf size * pageSize))
      (fun _ _ => True) s := by
  have sound := resident.toSound.file
  have lt : va < word32 := lt_of_le_of_lt (le_trans (Nat.le_add_right ..) heap) (by decide)
  have below : ∀ a ∈ rangeVas va size, a ≤ userHeapMax := by
    rw [rangeVas_pages heap]
    intro a mem
    obtain ⟨i, small, rfl⟩ := List.mem_map.mp mem
    have le := Nat.mul_le_mul_right pageSize (List.mem_range.mp small).le
    exact (Nat.add_le_add_left le va).trans heap
  cases run : allocateMem e va size s with
  | error x s' =>
    rw [wp, run]
    trivial
  | ok u s' =>
    rw [wp_ok run]
    have lists := resident.toSpace.followed.addPages_wp fun a mem =>
      ⟨userVa_of_le (below a mem), lt_of_le_of_lt (below a mem) (by decide)⟩
    rw [← allocateMem_eq, wp_ok run] at lists
    obtain ⟨D, g, n, ⟨v', space, next, -, -⟩, -⟩ := lists
    have file := (wp_ok run).mp (Fos.allocateMem_wp sound lt)
    obtain ⟨-, v'', sound', filled⟩ := file
    refine ⟨⟨v', space, ?_, resident.pos, resident.full⟩, fun a small => ?_⟩
    · rw [next.ptes]
      exact resident.mapped
    · have pages := mem_pages aligned heap small
      rw [← rangeVas_pages heap] at pages
      rw [sound'.pageFileEntry, sound.pageFileEntry, ← pages]
      by_cases inside : pageNo a ∈ (rangeVas va size).map pageNo
      · have missing : v.missing e (rangeVas va size) ≤ v.diskFree.length := by
          rw [← sound.freeDiskFrames]
          refine (List.countP_le_length).trans (le_of_eq_of_le ?_ room)
          rw [rangeVas_pages heap]
          simp
        obtain ⟨b, mem, eq⟩ := List.mem_map.mp inside
        have there := (filled.enough missing).1 b mem
        rw [eq] at there
        exact iff_of_true there (Or.inr inside)
      · rw [filled.others e _ fun _ => inside]
        simp [inside]

/-- Freeing a block. -/
theorem Resident.freeBlock_wp {n : Nat} (resident : Resident e env₀ s v w)
    (aligned : va % pageSize = 0) (heap : va + n * pageSize ≤ userHeapMax) :
    wp (freeMem e va (n * pageSize)) (fun _ s' => (∃ v' w', Resident e env₀ s' v' w') ∧
      ∀ a < userHeapMax, (s'.pageFileEntry e a ≠ 0 ↔
        s.pageFileEntry e a ≠ 0 ∧ ¬ (va ≤ a ∧ a < va + n * pageSize)))
      (fun _ _ => False) s := by
  apply resident.freeMem_wp heap
  intro s' _ v' w' resident' _ entry _ _ _
  refine ⟨⟨v', w', resident'⟩, fun a small => ?_⟩
  have pages := mem_pages aligned heap small
  rw [← freedPages_eq heap] at pages
  rw [resident'.toSound.file.pageFileEntry, resident.toSound.file.pageFileEntry, entry, cleared,
    ← pages]
  split
  · rename_i inside
    simp [inside]
  · rename_i outside
    simp [outside]

/-! ## Runs -/

/-- A block lies in the heap and starts at a page boundary. -/
theorem UserHeap.Process.Paged.block {P : Process} {q p : Int} (paged : P.Paged q p) {b : Block}
    (mem : b ∈ P.blocks) : b.1 % pageSize = 0 ∧ userHeapStart ≤ b.1 ∧
      b.1 + numOf b.2 * pageSize ≤ userHeapMax := by
  have recorded : Process.recordOf b ∈ records P.heap.entries :=
    paged.perm.subset (List.mem_map_of_mem mem)
  have aligned := paged.laid.walk.aligned _ recorded
  have bounds := paged.laid.walk.bounds _ recorded
  have le := paged.laid.le
  have inside := paged.laid.inside
  simp only [Process.recordOf, heapPages, userHeapMax, userHeapStart, pageSize] at *
  omega

/-- The blocks start at different addresses and are disjoint. -/
theorem UserHeap.Process.Paged.apart {P : Process} {q p : Int} (paged : P.Paged q p) {b c : Block}
    (mem : b ∈ P.blocks) (mem' : c ∈ P.blocks) {a : Nat} (inside : a ∈ b.range)
    (inside' : a ∈ c.range) : b.1 = c.1 := by
  have disjoint : (P.blocks.map Process.recordOf).Pairwise
      fun r r' => Disjoint (recordRange r) (recordRange r') :=
    (paged.perm.pairwise_iff fun h => h.symm).mpr paged.laid.disjoint
  rw [List.pairwise_map] at disjoint
  have blocks : P.blocks.Pairwise fun b c => Disjoint b.range c.range :=
    disjoint.imp fun {b c} h => by
      rwa [Process.recordRange_recordOf, Process.recordRange_recordOf] at h
  by_contra ne
  have ne' : b ≠ c := fun eq => ne (congrArg Prod.fst eq)
  have : Std.Symm fun b c : Block => Disjoint b.range c.range := ⟨fun _ _ h => h.symm⟩
  exact Set.disjoint_left.mp (blocks.forall mem mem' ne') inside inside'

theorem UserHeap.Process.Paged.eq_of_start {P : Process} {q p : Int} (paged : P.Paged q p)
    {b c : Block} (mem : b ∈ P.blocks) (mem' : c ∈ P.blocks) (eq : b.1 = c.1) : b = c := by
  have starts : (P.blocks.map Process.recordOf).Pairwise fun r r' => r.1 ≠ r'.1 :=
    (paged.perm.pairwise_iff fun h => h.symm).mpr paged.nodup
  rw [List.pairwise_map] at starts
  have : Std.Symm fun b c : Block => (Process.recordOf b).1 ≠ (Process.recordOf c).1 :=
    ⟨fun _ _ h => h.symm⟩
  by_contra ne
  exact starts.forall mem mem' ne eq

/-- The record that `free` finds stays in the table as a part of a hole. -/
theorem UserHeap.free_entry {h h' : UserHeap} {call : HeapCall}
    (freed : h.free va = ([call], h')) : ∃ x ∈ h.entries, x.address = va ∧ x.changed = true ∧
      { x with changed := false } ∈ h'.entries := by
  rcases h.free_cases va with ⟨-, none⟩ | ⟨pre, x, post, table, address, live, run⟩
  · rw [none] at freed
    cases freed
  · rw [run] at freed
    obtain ⟨-, rfl⟩ := Prod.mk.inj freed
    exact ⟨x, by simp [table], address, live, by simp⟩

theorem single_wp {c : HeapCall} {Q : Unit → Kernel → Prop} {E : Stop → Kernel → Prop}
    (run : wp (c.prog e) Q E s) : wp ([c].forM (HeapCall.prog e)) Q E s := by
  rw [wp_forM_cons]
  exact wp_mono run (fun _ _ h => h) fun _ _ h => h

/-- What a run keeps. -/
structure Owned (e : Nat) (env : Env) (P : Process) (s : Kernel) : Prop where
  resident : ∃ v w, Resident e env s v w
  paged : ∃ q p, P.Paged q p
  pages : ∀ a, userHeapStart ≤ a → a < userHeapMax →
    (s.pageFileEntry e a ≠ 0 ↔ ∃ b ∈ P.blocks, a ∈ Block.range b)

variable {P P' : Process} {op : HeapOp}

theorem Owned.malloc (owned : Owned e env₀ P s) (ok : BackedCall P.heap s (.malloc size))
    (step : P.step (.malloc size) = some P')
    (run : ((HeapOp.calls P.heap (.malloc size)).forM (HeapCall.prog e)) s = .ok () s') :
    Owned e env₀ P' s' := by
  obtain ⟨v, w, resident⟩ := owned.resident
  obtain ⟨q, p, paged⟩ := owned.paged
  rcases paged.malloc ok.1.1 (ok.1.2 size rfl) with null | ⟨ptr, h', q', p', some, nonnull, paged'⟩
  · simp only [Process.step, null, Option.map_some, if_true, Option.some.injEq] at step
    subst step
    rw [HeapOp.calls, null] at run
    cases run
    exact owned
  · simp only [Process.step, some, Option.map_some, if_neg nonnull, Option.some.injEq] at step
    subst step
    have accepts : ¬ P.heap.Refuses size := fun refuses => by
      rw [paged.laid.malloc_refuses refuses] at some
      cases some
    obtain ⟨aligned, start, heap⟩ := paged'.block (b := (ptr, size)) (by simp)
    have ends := resident.allocateMem_wp aligned heap (ok.2 size rfl accepts)
    rw [HeapOp.calls, some] at run
    obtain ⟨⟨v', resident'⟩, pages⟩ :=
      (wp_ok run).mp (single_wp (c := .allocateMem ptr size) ends)
    refine ⟨⟨v', w, resident'⟩, ⟨q', p', paged'⟩, fun a ge lt => ?_⟩
    rw [pages a lt, owned.pages a ge lt, List.exists_mem_cons_iff, or_comm]
    rfl

theorem Owned.free (owned : Owned e env₀ P s) (step : P.step (.free va) = some P')
    (run : ((HeapOp.calls P.heap (.free va)).forM (HeapCall.prog e)) s = .ok () s') :
    Owned e env₀ P' s' := by
  obtain ⟨v, w, resident⟩ := owned.resident
  obtain ⟨q, p, paged⟩ := owned.paged
  simp only [Process.step, Option.some.injEq] at step
  subst step
  by_cases own : ∃ b ∈ P.blocks, b.1 = va
  · obtain ⟨b, mem, rfl⟩ := own
    obtain ⟨h', q', freed, paged', -⟩ := paged.free_own mem
    obtain ⟨aligned, start, heap⟩ := paged.block mem
    rw [HeapOp.calls, freed] at run
    obtain ⟨⟨v', w', resident'⟩, pages⟩ := (wp_ok run).mp
      (single_wp (c := .freeMem b.1 (numOf b.2 * pageSize)) (resident.freeBlock_wp aligned heap))
    rw [freed]
    refine ⟨⟨v', w', resident'⟩, ⟨q', p, paged'⟩, fun a ge lt => ?_⟩
    rw [pages a lt, owned.pages a ge lt]
    constructor
    · rintro ⟨⟨c, mem', inside⟩, out⟩
      refine ⟨c, List.mem_filter.mpr ⟨mem', ?_⟩, inside⟩
      have ne : c.1 ≠ b.1 := fun eq => out (paged.eq_of_start mem' mem eq ▸ inside)
      simpa using ne
    · rintro ⟨c, mem', inside⟩
      obtain ⟨mem', ne⟩ := List.mem_filter.mp mem'
      refine ⟨⟨c, mem', inside⟩, fun inside' => ?_⟩
      simp [paged.apart mem' mem inside inside'] at ne
  · have other : ∀ b ∈ P.blocks, b.1 ≠ va := fun b mem eq => own ⟨b, mem, eq⟩
    have none := paged.free_other other
    rw [HeapOp.calls, none] at run
    cases run
    have blocks : P.blocks.filter (·.1 ≠ va) = P.blocks :=
      List.filter_eq_self.mpr fun b mem => by simpa using other b mem
    rw [none, blocks]
    exact owned

theorem HeapRun.kept {s₀ : Kernel} (resident : Resident e env₀ s₀ v w)
    (empty : ∀ a, userHeapStart ≤ a → a < userHeapMax → s₀.pageFileEntry e a = 0)
    (run : HeapRun e BackedCall s₀ P s) : Owned e env₀ P s := by
  induction run with
  | start =>
    refine ⟨⟨v, w, resident⟩, ⟨0, 0, Process.paged_initial⟩, fun a ge lt => ?_⟩
    simp [empty a ge lt, Process.initial]
  | step op _ ok stepped ran owned =>
    cases op with
    | malloc size => exact owned.malloc ok stepped ran
    | free va => exact owned.free stepped ran

/-- **Every block can be freed**: `free` finds its record, makes one system call for exactly its
pages, which returns, and the pages are part of a hole then; and the pages of the heap that
are in the page file are those of the blocks. -/
theorem HeapRun.owned {s₀ : Kernel} (resident : Resident e env₀ s₀ v w)
    (empty : ∀ a, userHeapStart ≤ a → a < userHeapMax → s₀.pageFileEntry e a = 0)
    (run : HeapRun e BackedCall s₀ P s) :
    (∀ a, userHeapStart ≤ a → a < userHeapMax →
      (s.pageFileEntry e a ≠ 0 ↔ ∃ b ∈ P.blocks, a ∈ Block.range b)) ∧
    ∀ b ∈ P.blocks, ∃ h' s', P.heap.free b.1 = ([.freeMem b.1 (numOf b.2 * pageSize)], h') ∧
      freeMem e b.1 (numOf b.2 * pageSize) s = .ok () s' ∧
      ⟨b.1, false, numOf b.2⟩ ∈ h'.entries ∧
      HeapRun e BackedCall s₀ ⟨h', P.blocks.filter (·.1 ≠ b.1)⟩ s' := by
  obtain ⟨⟨v', w', resident'⟩, ⟨q, p, paged⟩, pages⟩ := run.kept resident empty
  refine ⟨pages, fun b mem => ?_⟩
  obtain ⟨h', q', freed, -⟩ := paged.free_own mem
  obtain ⟨aligned, -, heap⟩ := paged.block mem
  obtain ⟨_, s', ran, -⟩ := wp_returns (resident'.freeBlock_wp aligned heap)
  refine ⟨h', s', freed, ran, ?_, ?_⟩
  · obtain ⟨x, there, here, live, hole⟩ := free_entry freed
    have recorded : Process.recordOf b ∈ records P.heap.entries :=
      paged.perm.subset (List.mem_map_of_mem mem)
    have recorded' : (x.address, x.numOfPages) ∈ records P.heap.entries :=
      List.mem_map.mpr ⟨x, List.mem_filter.mpr ⟨there, live⟩, rfl⟩
    have : Std.Symm fun r r' : Nat × Int => r.1 ≠ r'.1 := ⟨fun _ _ h => h.symm⟩
    have same : (x.address, x.numOfPages) = Process.recordOf b := by
      by_contra ne
      exact paged.nodup.forall recorded' recorded ne here
    rwa [here, (Prod.mk.inj same).2] at hole
  · refine .step (.free b.1) run ⟨⟨trivial, nofun⟩, nofun⟩ (by rw [Process.step, freed]) ?_
    rw [HeapOp.calls, freed]
    exact single_call ran

/-- A new environment gets a block of two pages. -/
theorem owned_first : ∃ s₀ P s, HeapRun 0 BackedCall s₀ P s ∧ P.blocks = [(0x80000000, 0x2000)] ∧
    s.pageFileEntry 0 0x80001000 ≠ 0 ∧ ∃ s', freeMem 0 0x80000000 0x2000 s = .ok () s' := by
  obtain ⟨s₀, env, v, w, running, -, -, entry, disk, free, -⟩ :=
    smallMachine.running_boot 0 3 1 (by decide) (by decide) (by decide)
  have sound := running.toSound.file
  have empty : ∀ a, userHeapStart ≤ a → a < userHeapMax → s₀.pageFileEntry 0 a = 0 :=
    fun a _ _ => by rw [sound.pageFileEntry, entry]
  have room : 2 ≤ s₀.freeDiskFrames := by
    rw [sound.freeDiskFrames, disk]
    show 2 ≤ Machine.diskFrames.reverse.length
    rw [List.length_reverse, Machine.diskFrames, List.length_range']
    decide
  obtain ⟨s, ran, -⟩ := allocateMem_returns 0 userHeapStart 2 sound (by decide) (by decide)
    (le_trans (by decide) free)
  have run : HeapRun 0 BackedCall s₀
      ⟨⟨0x80002000, 0, [⟨0x80000000, true, 2⟩]⟩, [(0x80000000, 0x2000)]⟩ s := by
    refine .step (.malloc 0x2000) .start ⟨⟨?_, fun size eq => ?_⟩, fun size eq _ => ?_⟩
      (by decide +kernel) (single_call ran)
    · exact .inr ⟨by decide, fun _ => by decide, fun h => absurd rfl h⟩
    · cases eq
      decide
    · cases eq
      exact room
  obtain ⟨pages, blocks⟩ := run.owned running.toResident empty
  obtain ⟨h', s', -, freed, -⟩ := blocks (0x80000000, 0x2000) (by simp)
  refine ⟨s₀, _, s, run, rfl, (pages 0x80001000 (by decide) (by decide)).mpr ?_, s', freed⟩
  exact ⟨(0x80000000, 0x2000), List.mem_singleton_self _, by decide, by decide⟩

/-- A block in the rest of a hole that was split for 100 bytes cannot be freed. -/
theorem free_lost : ¬ ∀ P : Process,
    Process.Reach (fun _ op => ∀ size, op = .malloc size → 0 < size) P → ∀ b ∈ P.blocks,
      (P.heap.free b.1).1 = [.freeMem b.1 (numOf b.2 * pageSize)] := by
  intro claim
  have first : Process.Reach (fun _ op => ∀ size, op = .malloc size → 0 < size)
      ⟨⟨0x80002000, 0, [⟨0x80000000, true, 2⟩]⟩, [(0x80000000, 0x2000)]⟩ :=
    .step (.malloc 0x2000) .initial (fun _ eq => by cases eq; decide) (by decide +kernel)
  have second : Process.Reach (fun _ op => ∀ size, op = .malloc size → 0 < size)
      ⟨⟨0x80003000, 0, [⟨0x80000000, true, 2⟩, ⟨0x80002000, true, 1⟩]⟩,
        [(0x80002000, 0x1000), (0x80000000, 0x2000)]⟩ :=
    .step (.malloc 0x1000) first (fun _ eq => by cases eq; decide) (by decide +kernel)
  have freed : Process.Reach (fun _ op => ∀ size, op = .malloc size → 0 < size)
      ⟨⟨0x80003000, 1, [⟨0x80000000, false, 2⟩, ⟨0x80002000, true, 1⟩]⟩,
        [(0x80002000, 0x1000)]⟩ :=
    .step (.free 0x80000000) second nofun (by decide +kernel)
  have split_ : Process.Reach (fun _ op => ∀ size, op = .malloc size → 0 < size)
      ⟨⟨0x80003000, 1, [⟨0x80000000, true, 1⟩, ⟨0x80000064, false, 1⟩, ⟨0x80002000, true, 1⟩]⟩,
        [(0x80000000, 100), (0x80002000, 0x1000)]⟩ :=
    .step (.malloc 100) freed (fun _ eq => by cases eq; decide) (by decide +kernel)
  have last : Process.Reach (fun _ op => ∀ size, op = .malloc size → 0 < size)
      ⟨⟨0x80003000, 1, [⟨0x80000000, true, 1⟩, ⟨0x80000064, true, 1⟩, ⟨0x80002000, false, 0⟩,
        ⟨0x80002000, true, 1⟩]⟩, [(0x80001000, 0x1000), (0x80000000, 100), (0x80002000, 0x1000)]⟩ :=
    .step (.malloc 0x1000) split_ (fun _ eq => by cases eq; decide) (by decide +kernel)
  have found := claim _ last (0x80001000, 0x1000) (by simp)
  revert found
  decide +kernel

end Fos
