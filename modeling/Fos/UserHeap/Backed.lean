import Fos.PageFile.Allocate
import Fos.UserHeap.Layout

/-!
# The page file behind the heap

`malloc` with the system calls that it makes, on a page file that other environments use
too.

* `Mallocs`: a call of `malloc` that returns, in the process and in the kernel;
* `Backed`: its pages are in the page file, or everything is as it was;
* `UserHeap.place`: where a block goes;
* `Mallocs.backed_iff`: when this is so.
-/

namespace Fos

open Exec

/-- The system call of `e`. -/
def HeapCall.prog (e : Nat) : HeapCall → Prog Unit
  | .allocateMem virtualAddress size => Fos.allocateMem e virtualAddress size
  | .freeMem virtualAddress size => Fos.freeMem e virtualAddress size

/-- The process `e` calls `malloc(size)` and gets `p`; the variables of the heap were `h` and
are `h'`, and the kernel goes from `s` to `s'`. -/
def Mallocs (e : Nat) (h : UserHeap) (size p : Nat) (h' : UserHeap) (s s' : Kernel) : Prop :=
  ∃ calls, h.malloc size = some (p, calls, h') ∧ (calls.forM (HeapCall.prog e)) s = .ok () s'

/-- `LIST_SIZE(&disk_free_frame_list)`. -/
def Kernel.freeDiskFrames (s : Kernel) : Nat := s.diskFreeFrameList.size.toNat

/-- The page file has room for the pages of a request at `p` that are not there yet. -/
def Kernel.CanHold (s : Kernel) (e p size : Nat) : Prop :=
  ((rangeVas p size).countP fun va => s.pageFileEntry e va = 0) ≤ s.freeDiskFrames

/-- The last byte of a block at `p` is in one of as many pages as its size takes, counted from
the page of `p`, or its page is there already. -/
def Kernel.LastIn (s : Kernel) (e p size : Nat) : Prop :=
  p % pageSize + size ≤ UserHeap.numOf size * pageSize ∨ size = 0 ∨
    s.pageFileEntry e (p + size - 1) ≠ 0

/-- What a caller relies on: the pages of the block are in the page file, and a request that
does not fit changes nothing. -/
structure Backed (e size p : Nat) (h h' : UserHeap) (s s' : Kernel) : Prop where
  pages : p ≠ 0 → ∀ a, p ≤ a → a < p + size → s'.pageFileEntry e a ≠ 0
  restored : ¬ s.CanHold e p size →
    h' = h ∧ ∀ a < word32, s'.pageFileEntry e a = s.pageFileEntry e a

namespace UserHeap

/-- Where a block goes: once a block has been freed to the hole that the scan prefers, if there is
one, and else behind all others. -/
def place (h : UserHeap) (size : Nat) : Nat :=
  if h.changes = 0 then h.lastAddres
  else
    match (scan (numOf size) .start 0 h.entries).fit with
    | some fit => fit.minAddresss
    | none => h.lastAddres

theorem Scan.visit_lt {num i : Nat} {t : Scan} {e : HeapEntry}
    (small : ∀ fit, t.fit = some fit → fit.minAddresss < word32) :
    ∀ fit, (t.visit num i e).fit = some fit → fit.minAddresss < word32 := by
  unfold Scan.visit
  split
  · exact small
  · split
    · rintro fit ⟨⟩
      simp only [uint32, word32]
      omega
    · exact small

/-- The places that the scan finds are addresses. -/
theorem scan_lt {num i : Nat} {t : Scan} {es : List HeapEntry}
    (small : ∀ fit, t.fit = some fit → fit.minAddresss < word32) :
    ∀ fit, (scan num t i es).fit = some fit → fit.minAddresss < word32 := by
  induction es generalizing t i with
  | nil => exact small
  | cons e es ih => exact ih (Scan.visit_lt small)

theorem place_lt {h : UserHeap} (lt : h.lastAddres < word32) (size : Nat) :
    h.place size < word32 := by
  unfold place
  split
  · exact lt
  · split
    · rename_i fit found
      exact scan_lt (by simp [Scan.start]) fit found
    · exact lt

/-- `malloc` turns the request down, or makes one system call for the block and changes the
table. -/
theorem malloc_cases {h h' : UserHeap} {size p : Nat} {calls : List HeapCall}
    (run : h.malloc size = some (p, calls, h')) :
    h.TurnsDown size ∧ p = 0 ∧ calls = [] ∧ h' = h ∨
      ¬ h.TurnsDown size ∧ p = h.place size ∧ calls = [.allocateMem p size] ∧ h' ≠ h := by
  have append : h.appendBlock size = some (p, calls, h') →
      p = h.lastAddres ∧ calls = [.allocateMem p size] ∧ h' ≠ h := by
    intro run
    unfold appendBlock at run
    split at run <;> cases run
    exact ⟨rfl, rfl, fun eq => by simpa using congrArg (·.entries.length) eq⟩
  have split' : ∀ fit, h.splitHole size fit = some (p, calls, h') →
      p = fit.minAddresss ∧ calls = [.allocateMem p size] ∧ h' ≠ h := by
    intro fit run
    unfold splitHole at run
    split at run
    · split at run <;> cases run
      rename_i e at_
      have index := (List.getElem?_eq_some_iff.mp at_).1
      refine ⟨rfl, rfl, fun eq => ?_⟩
      have length := congrArg (·.entries.length) eq
      simp only [List.length_insertIdx, List.length_set] at length
      split at length <;> omega
    · cases run
  by_cases down : h.TurnsDown size
  · rw [malloc_turnsDown down] at run
    cases run
    exact Or.inl ⟨down, rfl, rfl, rfl⟩
  refine Or.inr ⟨down, ?_⟩
  rw [TurnsDown, ← (scan_start_best (numOf size) h.entries).none_iff, not_or] at down
  obtain ⟨fits, rest⟩ := down
  rw [malloc, if_neg fits] at run
  rw [place]
  by_cases fresh : h.changes = 0
  · rw [if_pos fresh] at run ⊢
    exact append run
  rw [if_neg fresh] at run ⊢
  cases found : (scan (numOf size) .start 0 h.entries).fit with
  | some fit =>
    rw [found] at run
    exact split' fit run
  | none =>
    rw [found] at run
    simp only [if_neg fun past => rest ⟨fresh, found, past⟩] at run
    exact append run

end UserHeap

/-! ## The pages of a block -/

variable {s s' : Kernel} {v v' : View} {e p size : Nat}

theorem numOf_eq (size : Nat) : size / pageSize + (if size % pageSize ≠ 0 then 1 else 0) =
    UserHeap.numOf size := by
  rw [UserHeap.numOf]
  split <;> rfl

theorem pageNo_congr {a b : Nat} (eq : a / pageSize = b / pageSize) : pageNo a = pageNo b := by
  have div : ∀ x, x / ptSize = x / pageSize / 1024 := fun x => by
    simp only [ptSize, pageSize]
    omega
  simp only [pageNo, pdx, ptx, div, eq]

/-- The pages that `allocateMem` adds for a block. -/
theorem mem_rangeVas {a : Nat} (lt : p < word32) (base : ∀ a ∈ rangeVas p size, a < kernelBase) :
    a ∈ rangeVas p size ↔ ∃ i < UserHeap.numOf size, p + i * pageSize = a := by
  rw [rangeVas_eq lt base, numOf_eq]
  simp

theorem FileSound.freeDiskFrames (sound : FileSound s v) :
    s.freeDiskFrames = v.diskFree.length := by
  have sub : v.diskFree ⊆ List.range pagesPerFile := fun d mem =>
    List.mem_range.mpr (sound.shared.free_range d mem).2
  have length : v.diskFree.length ≤ pagesPerFile := by
    simpa using (sound.shared.nodup.subperm sub).length_le
  exact sound.rep.diskFree.size_toNat (length.trans_lt (by decide))

theorem FileSound.canHold (sound : FileSound s v) (e p size : Nat) :
    s.CanHold e p size ↔ v.missing e (rangeVas p size) ≤ v.diskFree.length := by
  rw [Kernel.CanHold, sound.freeDiskFrames, View.missing]
  simp only [sound.pageFileEntry]

section Block

variable (lt : p < word32) (base : ∀ a ∈ rangeVas p size, a < kernelBase) (sound : FileSound s v)
  (sound' : FileSound s' v') (filled : Filled e (rangeVas p size) v v')

include lt base sound sound' filled

/-- When the whole block is in the page file afterwards. -/
theorem Filled.block_iff : (∀ a, p ≤ a → a < p + size → s'.pageFileEntry e a ≠ 0) ↔
    s.CanHold e p size ∧ s.LastIn e p size := by
  have mem := fun a => mem_rangeVas (a := a) lt base
  have enough : UserHeap.numOf size * pageSize < size + pageSize ∧
      size ≤ UserHeap.numOf size * pageSize := by
    rw [UserHeap.numOf]
    simp only [pageSize]
    split <;> omega
  simp only [sound'.pageFileEntry]
  constructor
  · intro there
    refine ⟨?_, ?_⟩
    · rw [sound.canHold]
      by_contra short
      obtain ⟨⟨a, inside, zero⟩, -⟩ := filled.full (Nat.lt_of_not_le short)
      obtain ⟨i, small, rfl⟩ := (mem a).mp inside
      refine there _ (Nat.le_add_right ..) ?_ zero
      have : (i + 1) * pageSize ≤ UserHeap.numOf size * pageSize := Nat.mul_le_mul_right _ small
      simp only [pageSize] at *
      omega
    · by_contra out
      rw [Kernel.LastIn, sound.pageFileEntry] at out
      push Not at out
      obtain ⟨long, pos, zero⟩ := out
      refine there (p + size - 1) (by omega) (by omega) ?_
      rw [filled.others e _ fun _ page => ?_, zero]
      obtain ⟨a, inside, eq⟩ := List.mem_map.mp page
      obtain ⟨i, small, rfl⟩ := (mem a).mp inside
      have last := base _ ((mem _).mpr ⟨UserHeap.numOf size - 1, by omega, rfl⟩)
      have step : (i + 1) * pageSize ≤ UserHeap.numOf size * pageSize :=
        Nat.mul_le_mul_right _ small
      have whole : (UserHeap.numOf size - 1) * pageSize + pageSize =
          UserHeap.numOf size * pageSize := by
        rw [← Nat.succ_mul]
        congr 1
        omega
      have div := div_eq_of_pageNo (base _ inside |>.trans (by decide))
        (by simp only [word32, kernelBase, pageSize] at *; omega) eq
      simp only [pageSize] at *
      omega
  · rintro ⟨hold, last⟩ a ge below
    rw [sound.canHold] at hold
    by_cases inside : a / pageSize - p / pageSize < UserHeap.numOf size
    · have there := (filled.enough hold).1 _ ((mem _).mpr ⟨_, inside, rfl⟩)
      rwa [pageNo_congr (b := a)] at there
      simp only [pageSize] at *
      omega
    · have page : s.pageFileEntry e (p + size - 1) ≠ 0 := by
        rcases last with short | none | page
        · simp only [pageSize] at *
          omega
        · omega
        · exact page
      rw [sound.pageFileEntry, pageNo_congr (b := a)] at page
      · rwa [filled.kept e _ page]
      · simp only [pageSize] at *
        omega

end Block

/-- **A successful `malloc` is backed by the page file** exactly if the request is turned down, or
there are disk frames for the pages that the block needs at its place, and the block does not reach
beyond them: the result of adding a page is not looked at. -/
theorem Mallocs.backed_iff {h h' : UserHeap} (sound : FileSound s v) (lt : h.lastAddres < word32)
    (mallocs : Mallocs e h size p h' s s') : Backed e size p h h' s s' ↔
      h.TurnsDown size ∨
        s.CanHold e (h.place size) size ∧ s.LastIn e (h.place size) size := by
  obtain ⟨calls, run, ends⟩ := mallocs
  rcases UserHeap.malloc_cases run with ⟨down, rfl, rfl, rfl⟩ | ⟨accepted, rfl, rfl, changed⟩
  · cases ends
    exact iff_of_true ⟨fun ne => absurd rfl ne, fun _ => ⟨rfl, fun _ _ => rfl⟩⟩ (Or.inl down)
  · have small := UserHeap.place_lt lt size
    generalize h.place size = p at *
    have ran : wp ([HeapCall.allocateMem p size].forM (HeapCall.prog e))
        (fun _ s' => (∀ a ∈ rangeVas p size, a < kernelBase) ∧
          ∃ v', FileSound s' v' ∧ Filled e (rangeVas p size) v v') (fun _ _ => True) s := by
      rw [wp_forM_cons]
      exact wp_mono (allocateMem_wp sound small) (fun _ _ h => h) fun _ _ h => h
    obtain ⟨base, v', sound', filled⟩ := (wp_ok ends).mp ran
    have block := filled.block_iff small base sound sound'
    rw [or_iff_right accepted]
    constructor
    · rintro ⟨pages, restored⟩
      have hold : s.CanHold e p size := by
        by_contra short
        exact changed (restored short).1
      by_cases null : p = 0
      · subst null
        refine ⟨hold, Or.inl ?_⟩
        rw [UserHeap.numOf]
        simp only [pageSize]
        split <;> omega
      · exact block.mp (pages null)
    · intro holds
      exact ⟨fun _ => block.mpr holds, fun short => absurd holds.1 short⟩

/-! ## Two large requests -/

/-- The largest request that `malloc` looks at. -/
abbrev largePages : Nat := 131072

/-- The heap after a request of that size. -/
def largeHeap : UserHeap := ⟨userHeapMax, 0, [⟨userHeapStart, true, largePages⟩]⟩

theorem missing_none {vas : List Nat} (none : ∀ va ∈ vas, v.entry e (pageNo va) = 0) :
    v.missing e vas = vas.length :=
  List.countP_eq_length.mpr fun va mem => by simpa using none va mem

theorem bootView_entry (m : Machine) (e : Nat) (p : PageNo) : m.bootView.entry e p = 0 := by
  rw [View.entry, m.page_bootView (by simp) (by simp)]
  rfl

theorem single_call {c : HeapCall} (run : c.prog e s = .ok () s') :
    ([c].forM (HeapCall.prog e)) s = .ok () s' := by
  change (c.prog e >>= fun _ => pure ()) s = _
  simp only [bind, EStateM.bind, run]
  rfl

theorem length_rangeVas (va n : Nat) : (rangeVas va (n * pageSize)).length = n := by
  rw [rangeVas, List.length_map, List.length_range, Nat.mul_div_cancel _ (by decide),
    Nat.mul_mod_left, if_neg (by simp), Nat.add_zero]

/-- The addresses of a range. -/
theorem le_of_mem_rangeVas {va n a : Nat} (base : va + n * pageSize ≤ kernelBase)
    (mem : a ∈ rangeVas va (n * pageSize)) : va ≤ a ∧ a < va + n * pageSize := by
  rw [rangeVas, Nat.mul_div_cancel _ (by decide), Nat.mul_mod_left, if_neg (by simp),
    Nat.add_zero] at mem
  obtain ⟨i, lt, rfl⟩ := List.mem_map.mp mem
  have lt := List.mem_range.mp lt
  have small : va + i * pageSize < word32 := by
    simp only [pageSize, word32, kernelBase] at *
    omega
  rw [Nat.mod_eq_of_lt small]
  simp only [pageSize] at *
  omega

/-- The first one leaves too few disk frames for another. -/
theorem smallMachine_large : ∃ s, Mallocs 0 .initial (largePages * pageSize) userHeapStart largeHeap
    smallMachine.boot s ∧ smallMachine.boot.CanHold 0 userHeapStart (largePages * pageSize) ∧
    (∃ b, FileReach smallMachine s b) ∧ ∃ v, FileSound s v ∧ v.diskFree.length = 2047 ∧
      500 ≤ v.free.length ∧ ∀ a, userHeapMax ≤ a → a < kernelBase → v.entry 0 (pageNo a) = 0 := by
  have sound := smallMachine.sound_boot.file
  have base : userHeapStart + largePages * pageSize ≤ kernelBase := by decide
  have frames : smallMachine.bootView.free.length = 669 := by
    have all : smallMachine.bootView.free.length = 157 + (1024 - 512) := by
      simp only [Machine.bootView, Machine.freshFrames, List.length_reverse, List.length_append,
        List.length_range']
      rfl
    exact all
  have disk : smallMachine.bootView.diskFree.length = 133119 := by
    show Machine.diskFrames.reverse.length = 133119
    rw [List.length_reverse, Machine.diskFrames, List.length_range']
    rfl
  have missing : smallMachine.bootView.missing 0 (rangeVas userHeapStart (largePages * pageSize)) =
      largePages := by
    rw [missing_none fun a _ => bootView_entry smallMachine 0 (pageNo a), length_rangeVas]
  obtain ⟨s, run, v, sound', filled, length⟩ :=
    allocateMem_returns 0 userHeapStart largePages sound (by decide) base
      (by rw [frames]; decide)
  have enough := (filled.enough (by rw [missing, disk]; decide)).2
  refine ⟨s, ⟨_, rfl, single_call run⟩, ?_, ?_, v, sound', ?_, ?_, fun a ge below => ?_⟩
  · rw [sound.canHold, missing, disk]
    decide
  · refine FileReach.boot.allocateMem (fun a mem => ?_) run
    exact (le_of_mem_rangeVas base mem).2.trans (by decide)
  · rw [missing, disk] at enough
    simp only [largePages] at enough
    omega
  · rw [frames] at length
    have tables : largePages / 1024 = 128 := by decide
    omega
  · rw [filled.others 0 _ fun _ page => ?_]
    · exact bootView_entry smallMachine 0 (pageNo a)
    · obtain ⟨a', inside, eq⟩ := List.mem_map.mp page
      have range := le_of_mem_rangeVas base inside
      have div := div_eq_of_pageNo (range.2.trans (by decide)) (below.trans (by decide)) eq
      simp only [pageSize, userHeapStart, userHeapMax, largePages] at *
      omega

/-- A process that calls `malloc(0x20000000)` twice gets a pointer the second time too. -/
theorem malloc_unbacked : ¬ ∀ (m : Machine) (s : Kernel) (b : Book), FileReach m s b →
    ∀ e h size p h' s', Mallocs e h size p h' s s' → Backed e size p h h' s s' := by
  intro backed
  obtain ⟨s, -, -, ⟨b, reach⟩, v, sound, disk, frames, none⟩ := smallMachine_large
  have base : userHeapMax + largePages * pageSize ≤ kernelBase := by decide
  obtain ⟨s', run, v', sound', filled, -⟩ :=
    allocateMem_returns 0 userHeapMax largePages sound (by decide) base
      (le_trans (by decide) frames)
  have mallocs : Mallocs 0 largeHeap (largePages * pageSize) userHeapMax
      ⟨userHeapMax + largePages * pageSize, 0, [⟨userHeapStart, true, largePages⟩,
        ⟨userHeapMax, true, largePages⟩]⟩ s s' := ⟨_, rfl, single_call run⟩
  have pages := (backed _ s b reach _ _ _ _ _ _ mallocs).pages (by decide)
  have below : ∀ a ∈ rangeVas userHeapMax (largePages * pageSize), a < kernelBase := fun a mem =>
    (le_of_mem_rangeVas base mem).2.trans_le base
  obtain ⟨hold, -⟩ := (filled.block_iff (by decide) below sound sound').mp pages
  rw [sound.canHold, disk, missing_none fun a mem => ?_, length_rangeVas] at hold
  · exact absurd hold (by decide)
  · exact none a (le_of_mem_rangeVas base mem).1 (below a mem)

/-- The first time its pages are there. -/
theorem backed_first : ∃ s, Backed 0 (largePages * pageSize) userHeapStart .initial largeHeap
    smallMachine.boot s := by
  obtain ⟨s, mallocs, hold, -⟩ := smallMachine_large
  exact ⟨s, (mallocs.backed_iff smallMachine.sound_boot.file (by decide)).mpr
    (Or.inr ⟨hold, Or.inl (by decide)⟩)⟩

end Fos
