import Fos.Gaps.BestFit
import Fos.UserHeap.Blocks

/-!
# When `malloc` is best fit

For requests of whole pages the live records of the table are exactly the blocks of
the process, and the holes of the table that have pages are the gaps between them
(`Paged.gap_iff`).  `malloc` looks for a smallest gap, but only after the first
`free`, only among gaps below 4000 pages, and it takes `last_addres` for the end of
the last live block, which it is not when a freed block is the last one.

* `Reach.bestFit_iff`: exactly when `malloc` meets the contract `Gaps.BestFit`.
* `malloc_large_hole`: a hole of 5000 pages is passed over.
-/

namespace Fos.UserHeap

/-- A walk that has passed live records ends where the last of them does. -/
theorem Walk.last {q p q' p' : Int} {es : List HeapEntry} (walk : Walk q p es q' p') :
    q' = q ∨ ∃ r ∈ records es, (r.1 : Int) + r.2 * pageSize = userHeapStart + q' * pageSize := by
  induction walk with
  | nil => exact Or.inl rfl
  | live pos address live le len rest ih =>
    rw [records_cons_live live]
    rcases ih with rfl | ⟨r, hr, ends⟩
    · refine Or.inr ⟨_, List.mem_cons_self .., ?_⟩
      simp only [address]
      ring
    · exact Or.inr ⟨r, List.mem_cons_of_mem _ hr, ends⟩
  | freed _ _ free _ ih =>
    rw [records_cons_freed free]
    exact ih

namespace Process

open Gaps

/-- The heap pages that belong to a block. -/
def livePages (s : Process) : Set Nat :=
  {k | ∃ b ∈ s.blocks, userHeapStart + k * pageSize ∈ b.range}

/-- The pointer that stands for an answer. -/
def pointerOf : Option Nat → Nat
  | some k => userHeapStart + k * pageSize
  | none => 0

/-- `malloc` of `n` pages returns, with a pointer that best fit allows. -/
def MallocBestFit (s : Process) (n : Nat) : Prop :=
  ∃ answer calls h', s.heap.malloc (n * pageSize) = some (pointerOf answer, calls, h') ∧
    BestFit s.livePages heapPages n answer

/-- A call of a program that asks for whole pages. -/
def PageOp (op : HeapOp) : Prop := ∀ size, op = .malloc size → 0 < size ∧ pageSize ∣ size

/-- Such a call, as its heap handles it well. -/
def PageCall (h : UserHeap) (op : HeapOp) : Prop := SoundCall h op ∧ PageOp op

theorem pageOp_malloc {size : Nat} (pos : 0 < size) (whole : pageSize ∣ size) :
    PageOp (.malloc size) := by
  rintro _ ⟨⟩
  exact ⟨pos, whole⟩

theorem pageOp_free (va : Nat) : PageOp (.free va) := by
  rintro _ ⟨⟩

theorem numOf_mul (n : Nat) : numOf (n * pageSize) = n := by
  have exact_ := numOf_of_dvd (Dvd.intro_left n rfl : pageSize ∣ n * pageSize)
  simp only [pageSize] at *
  omega

/-! ## Gaps of the blocks and holes of the table -/

/-- A page belongs to a block when it belongs to a live record. -/
theorem Paged.mem_livePages {s : Process} {q p : Int} (paged : Paged s q p) {k : Nat} :
    k ∈ s.livePages ↔
      ∃ r ∈ records s.heap.entries, userHeapStart + k * pageSize ∈ recordRange r := by
  constructor
  · rintro ⟨b, hb, inside⟩
    rw [← recordRange_recordOf] at inside
    exact ⟨recordOf b, paged.perm.subset (List.mem_map_of_mem hb), inside⟩
  · rintro ⟨r, hr, inside⟩
    obtain ⟨b, hb, rfl⟩ := List.mem_map.mp (paged.perm.symm.subset hr)
    rw [recordRange_recordOf] at inside
    exact ⟨b, hb, inside⟩

/-- The page before the end of a live record is live. -/
theorem Paged.live_before {s : Process} {q p : Int} (paged : Paged s q p) {r : Nat × Int}
    (member : r ∈ records s.heap.entries) {b : Nat} (pos : b ≠ 0)
    (ends : (r.1 : Int) + r.2 * pageSize = userHeapStart + b * pageSize) :
    b - 1 ∈ s.livePages := by
  have len := paged.len_pos member
  refine paged.mem_livePages.mpr ⟨r, member, ?_⟩
  simp only [recordRange, Set.mem_ofPred_eq, userHeapStart, pageSize] at *
  omega

theorem Paged.tail {s : Process} {q p : Int} (paged : Paged s q p) :
    Tail s.livePages q.toNat := by
  have walk := paged.laid.walk
  refine ⟨fun k live => ?_, ?_⟩
  · obtain ⟨r, hr, inside⟩ := paged.mem_livePages.mp live
    have bounds := walk.bounds r hr
    simp only [recordRange, Set.mem_ofPred_eq, userHeapStart, pageSize] at *
    omega
  · by_cases zero : q.toNat = 0
    · exact Or.inl zero
    · rcases walk.last with none | ⟨r, hr, ends⟩
      · omega
      · refine Or.inr (paged.live_before hr zero ?_)
        rw [ends, Int.toNat_of_nonneg walk.le]

/-- The pages around a hole of the table that starts at page `b`. -/
theorem Paged.around {s : Process} {q p : Int} (paged : Paged s q p)
    {pre run post : List HeapEntry} {e : HeapEntry} (hole : Hole s.heap.entries pre run e post) :
    ∃ b : Nat, (e.address : Int) = userHeapStart + (b + pagesOf run) * pageSize ∧
      0 ≤ pagesOf run ∧ 0 < e.numOfPages ∧
      (∀ k : Nat, b ≤ k → k < b + pagesOf run → k ∉ s.livePages) ∧
      (b = 0 ∨ b - 1 ∈ s.livePages) ∧
      ∀ k : Nat, b + pagesOf run ≤ k → k < b + pagesOf run + e.numOfPages → k ∈ s.livePages := by
  obtain ⟨b, before, -, nonneg, start, address, -, after⟩ := paged.laid.walk.hole hole
  obtain ⟨b, rfl⟩ := Int.eq_ofNat_of_zero_le start
  have split : records s.heap.entries =
      records pre ++ (e.address, e.numOfPages) :: records post := by
    rw [hole.append, records_append, records_append, records_run hole.cut.freed, List.append_nil,
      records_cons_live hole.live]
  have here : ((e.address : Nat), e.numOfPages) ∈ records s.heap.entries := by simp [split]
  have len := paged.len_pos here
  refine ⟨b, address, nonneg, len, fun k lo hi live => ?_, ?_, fun k lo hi => ?_⟩
  · obtain ⟨r, hr, inside⟩ := paged.mem_livePages.mp live
    rw [split, List.mem_append, List.mem_cons] at hr
    simp only [recordRange, Set.mem_ofPred_eq, userHeapStart, pageSize] at *
    rcases hr with hr | rfl | hr
    · have bounds := before.bounds r hr
      simp only [userHeapStart, pageSize] at bounds
      omega
    · omega
    · have bounds := after.bounds r hr
      simp only [userHeapStart, pageSize] at bounds
      omega
  · by_cases zero : b = 0
    · exact Or.inl zero
    · rcases before.last with none | ⟨r, hr, ends⟩
      · omega
      · exact Or.inr (paged.live_before (by simp [split, hr]) zero ends)
  · refine paged.mem_livePages.mpr ⟨_, here, ?_⟩
    simp only [recordRange, Set.mem_ofPred_eq, userHeapStart, pageSize] at *
    omega

/-- A hole of the table that has pages is a gap. -/
theorem Paged.gap_of_hole {s : Process} {q p : Int} (paged : Paged s q p)
    {pre run post : List HeapEntry} {e : HeapEntry} (hole : Hole s.heap.entries pre run e post)
    (pos : 0 < pagesOf run) :
    ∃ b m : Nat, Gap s.livePages b m ∧ (m : Int) = pagesOf run ∧
      (e.address : Int) = userHeapStart + (b + pagesOf run) * pageSize := by
  obtain ⟨b, address, -, len, free, left, live⟩ := paged.around hole
  refine ⟨b, (pagesOf run).toNat, ⟨by omega, fun k lo hi => free k lo (by omega), left, ?_⟩,
    by omega, address⟩
  exact live _ (by omega) (by omega)

/-- Every gap is one. -/
theorem Paged.hole_of_gap {s : Process} {q p : Int} (paged : Paged s q p) {a m : Nat}
    (gap : Gap s.livePages a m) :
    ∃ pre run e post, Hole s.heap.entries pre run e post ∧ pagesOf run = m := by
  -- the record of the page after the gap, and the hole before it
  obtain ⟨r, hr, inside⟩ := paged.mem_livePages.mp gap.right
  obtain ⟨e, he, rfl⟩ := List.mem_map.mp hr
  obtain ⟨mem, live⟩ := List.mem_filter.mp he
  obtain ⟨front, post, split⟩ := List.append_of_mem mem
  obtain ⟨pre, run, cut⟩ := exists_cut front
  have hole : Hole s.heap.entries pre run e post :=
    ⟨by rw [split, cut.append], ⟨rfl, cut.ends, cut.freed⟩, live⟩
  refine ⟨pre, run, e, post, hole, ?_⟩
  obtain ⟨b, address, nonneg, len, free, left, live⟩ := paged.around hole
  have pos := gap.pos
  have first : ((a + m : Nat) : Int) = b + pagesOf run := by
    have last := gap.free (a + m - 1) (by omega) (by omega)
    by_contra ne
    simp only [recordRange, Set.mem_ofPred_eq, userHeapStart, pageSize] at inside address
    exact last (live _ (by omega) (by omega))
  have pages : 0 < pagesOf run := by
    by_contra none
    rcases left with zero | before
    · omega
    · exact gap.free (b - 1) (by omega) (by omega) before
  have same := gap.unique (b := b) (m := (pagesOf run).toNat)
    ⟨by omega, fun k lo hi => free k lo (by omega), left, live _ (by omega) (by omega)⟩ (by omega)
  omega

/-! ## The contract -/

/-- A hole that the scan accepts is a gap below 4000 pages that fits. -/
theorem Paged.holeFits_iff {s : Process} {q p : Int} (paged : Paged s q p) {n : Nat}
    (pos : 0 < n) : s.heap.HoleFits (n * pageSize) ↔
      ∃ a m, Gap s.livePages a m ∧ n ≤ m ∧ m < 4000 := by
  unfold HoleFits
  rw [numOf_mul]
  constructor
  · rintro ⟨pre, run, e, post, hole, fits, small⟩
    obtain ⟨b, m, gap, pages, -⟩ := paged.gap_of_hole hole (by omega)
    exact ⟨b, m, gap, by omega, by omega⟩
  · rintro ⟨a, m, gap, fits, small⟩
    obtain ⟨pre, run, e, post, hole, pages⟩ := paged.hole_of_gap gap
    exact ⟨pre, run, e, post, hole, by omega, by omega⟩

theorem appendBlock_eq_some {h h' : UserHeap} {size ptr : Nat} {calls : List HeapCall}
    (run : h.appendBlock size = some (ptr, calls, h')) :
    h.sizeofarray < heapTableSize ∧ ptr = h.lastAddres := by
  unfold appendBlock at run
  split at run
  · rename_i room
    simp only [Option.some.injEq, Prod.mk.injEq] at run
    exact ⟨room, run.1.symm⟩
  · cases run

theorem appendBlock_of_room {h : UserHeap} (size : Nat) (room : h.sizeofarray < heapTableSize) :
    ∃ calls h', h.appendBlock size = some (h.lastAddres, calls, h') := by
  unfold appendBlock
  rw [if_pos room]
  exact ⟨_, _, rfl⟩

theorem splitHole_room {h h' : UserHeap} {size ptr : Nat} {fit : Fit} {calls : List HeapCall}
    (run : h.splitHole size fit = some (ptr, calls, h')) : h.sizeofarray < heapTableSize := by
  unfold splitHole at run
  split at run
  · assumption
  · cases run

/-- `malloc` puts a block at page `a` only if that is where `last_addres` or a gap
below 4000 pages starts. -/
theorem pointerOf_eq_lastAddres {s : Process} {q p : Int} (paged : Paged s q p)
    {answer : Option Nat} (same : pointerOf answer = s.heap.lastAddres) :
    ∃ a : Nat, answer = some a ∧ p = a := by
  have last := paged.laid.last
  have bounds := paged.laid.lastAddres_le
  cases answer with
  | none =>
    simp only [pointerOf, userHeapStart] at same bounds
    omega
  | some a =>
    refine ⟨a, rfl, ?_⟩
    simp only [pointerOf, userHeapStart, pageSize] at same last
    omega

/-- When `malloc` of `n` pages is best fit: a gap that fits is looked for, is below 4000
pages, and the arrays have room for the rest of it; the tail starts at `last_addres`,
and the arrays have room for one more block. -/
structure FitsWell (s : Process) (n : Nat) : Prop where
  gap : (∃ a m, Gap s.livePages a m ∧ n ≤ m) → s.heap.changes ≠ 0 ∧
    s.heap.sizeofarray < heapTableSize ∧ ∃ a m, Gap s.livePages a m ∧ n ≤ m ∧ m < 4000
  tail : (∀ a m, Gap s.livePages a m → m < n) → ∀ t, Tail s.livePages t → t + n ≤ heapPages →
    s.heap.lastAddres = userHeapStart + t * pageSize ∧ s.heap.sizeofarray < heapTableSize
  full : (∀ a m, Gap s.livePages a m → m < n) → ∀ t, Tail s.livePages t → heapPages < t + n →
    n ≤ heapPages → s.heap.changes = 0 → s.heap.sizeofarray < heapTableSize

section Request

variable {s : Process} {q p : Int} {n : Nat}

/-- Requests that are refused, in pages. -/
theorem Paged.refuses_iff (paged : Paged s q p) (pos : 0 < n) :
    s.heap.Refuses (n * pageSize) ↔ heapPages < n ∨ (s.heap.changes ≠ 0 ∧
      (¬ ∃ a m, Gap s.livePages a m ∧ n ≤ m ∧ m < 4000) ∧ (heapPages : Int) < p + n) := by
  have last := paged.laid.last
  unfold Refuses
  rw [paged.holeFits_iff pos]
  refine or_congr ?_ (and_congr_right fun _ => and_congr_right fun _ => ?_)
  · simp only [heapPages, userHeapMax, userHeapStart, pageSize]
    omega
  · simp only [heapPages, userHeapMax, userHeapStart, pageSize] at *
    omega

/-- A gap lies before the end of the last live block. -/
theorem Paged.gap_lt (paged : Paged s q p) {a m : Nat} (gap : Gap s.livePages a m) :
    (a + m : Int) < q := by
  have lt := gap.lt_tail paged.tail
  omega

theorem Paged.fitsWell (paged : Paged s q p) (pos : 0 < n) (best : s.MallocBestFit n) :
    s.FitsWell n := by
  obtain ⟨answer, calls, h', run, best⟩ := best
  have le := paged.laid.le
  have inside := paged.laid.inside
  -- a block at `last_addres` is past every gap
  have not_gap : ∀ {a m : Nat}, Gap s.livePages a m →
      pointerOf (some a) ≠ s.heap.lastAddres := by
    intro a m gap same
    obtain ⟨b, eq, at_⟩ := pointerOf_eq_lastAddres paged same
    have lt := paged.gap_lt gap
    simp only [Option.some.injEq] at eq
    omega
  refine ⟨fun fits => ?_, fun short t tail fits => ?_, fun short t tail full small never => ?_⟩
  · obtain ⟨a, m, rfl, gap, -, -⟩ := best.gap fits
    have accepts : ¬ s.heap.Refuses (n * pageSize) := by
      intro refuses
      rw [paged.laid.malloc_refuses refuses] at run
      simp only [Option.some.injEq, Prod.mk.injEq, pointerOf, userHeapStart] at run
      omega
    by_cases hole : s.heap.changes ≠ 0 ∧ s.heap.HoleFits (n * pageSize)
    · have small : n * pageSize ≤ userHeapMax - userHeapStart := by
        by_contra large
        exact accepts (Or.inl (not_le.mp large))
      obtain ⟨fit, pre, run', e, post, run_eq, -⟩ := malloc_hole small hole.1 hole.2
      rw [run_eq] at run
      exact ⟨hole.1, splitHole_room run, (paged.holeFits_iff pos).mp hole.2⟩
    · rw [not_and_or, not_not] at hole
      rw [paged.laid.malloc_append accepts hole] at run
      exact absurd (appendBlock_eq_some run).2 (not_gap gap)
  · have some := best.tail short t tail fits
    subst some
    have accepts : ¬ s.heap.Refuses (n * pageSize) := by
      intro refuses
      rw [paged.laid.malloc_refuses refuses] at run
      simp only [Option.some.injEq, Prod.mk.injEq, pointerOf, userHeapStart] at run
      omega
    have misfit : ¬ s.heap.HoleFits (n * pageSize) := by
      rw [paged.holeFits_iff pos]
      rintro ⟨a, m, gap, fits', -⟩
      exact absurd (short a m gap) (not_lt.mpr fits')
    rw [paged.laid.malloc_append accepts (Or.inr misfit)] at run
    obtain ⟨room, same⟩ := appendBlock_eq_some run
    exact ⟨same.symm, room⟩
  · have accepts : ¬ s.heap.Refuses (n * pageSize) := by
      rw [paged.refuses_iff pos]
      rintro (large | ⟨freed, -⟩)
      · exact absurd small (not_le.mpr large)
      · exact freed never
    rw [paged.laid.malloc_append accepts (Or.inl never)] at run
    exact (appendBlock_eq_some run).1

theorem FitsWell.mallocBestFit (paged : Paged s q p) (pos : 0 < n) (well : s.FitsWell n) :
    s.MallocBestFit n := by
  have last := paged.laid.last
  have start := paged.laid.walk.le
  have le := paged.laid.le
  have at_last : pointerOf (some p.toNat) = s.heap.lastAddres := by
    simp only [pointerOf, userHeapStart, pageSize] at *
    omega
  by_cases fits : ∃ a m, Gap s.livePages a m ∧ n ≤ m
  · -- a smallest hole of the table is a smallest gap
    obtain ⟨freed, room, small⟩ := well.gap fits
    have hole_fits := (paged.holeFits_iff pos).mpr small
    have inHeap : n * pageSize ≤ userHeapMax - userHeapStart := by
      obtain ⟨a, m, gap, fits, -⟩ := small
      have lt := paged.gap_lt gap
      have inside := paged.laid.inside
      simp only [heapPages, userHeapMax, userHeapStart, pageSize] at *
      omega
    obtain ⟨fit, pre, run, e, post, run_eq, hole, enough, -, least, index, lastindex, start⟩ :=
      malloc_hole inHeap freed hole_fits
    obtain ⟨b, h', address, -, e_address, split, -⟩ :=
      paged.laid.splitHole room (Nat.mul_pos pos (by decide)) (Dvd.intro_left n rfl) hole enough
        index lastindex start
    rw [numOf_mul] at enough least
    obtain ⟨b', m, gap, pages, e_address'⟩ := paged.gap_of_hole hole (by omega)
    have same : fit.minAddresss = pointerOf (some b') := by
      simp only [pointerOf, userHeapStart, pageSize] at *
      omega
    rw [same] at split
    refine ⟨some b', _, h', run_eq.trans split,
      bestFit_gap gap (by omega) fun c m' gap' fits' => ?_⟩
    obtain ⟨pre', run', e', post', hole', pages'⟩ := paged.hole_of_gap gap'
    have := least hole' (by omega)
    omega
  · have short : ∀ a m, Gap s.livePages a m → m < n := by
      push Not at fits
      exact fits
    have misfit : ¬ s.heap.HoleFits (n * pageSize) := by
      rw [paged.holeFits_iff pos]
      rintro ⟨a, m, gap, fits', -⟩
      exact fits ⟨a, m, gap, fits'⟩
    by_cases refuses : s.heap.Refuses (n * pageSize)
    · refine ⟨none, [], s.heap, paged.laid.malloc_refuses refuses,
        bestFit_none pos short paged.tail ?_⟩
      -- had the tail been large enough, `last_addres` would have been its start
      by_contra fits'
      obtain ⟨start_t, -⟩ := well.tail short _ paged.tail (not_lt.mp fits')
      rw [paged.refuses_iff pos] at refuses
      rcases refuses with large | ⟨-, -, large⟩
      · omega
      · simp only [userHeapStart, pageSize] at *
        omega
    · have room : s.heap.sizeofarray < heapTableSize := by
        by_cases fits' : q.toNat + n ≤ heapPages
        · exact (well.tail short _ paged.tail fits').2
        · rw [paged.refuses_iff pos, not_or] at refuses
          refine well.full short _ paged.tail (not_le.mp fits') (not_lt.mp refuses.1) ?_
          by_contra freed
          refine refuses.2 ⟨freed, fun ⟨a, m, gap, fits', _⟩ => fits ⟨a, m, gap, fits'⟩, ?_⟩
          omega
      obtain ⟨calls, h', run⟩ := appendBlock_of_room (n * pageSize) room
      refine ⟨some p.toNat, calls, h', ?_, ?_⟩
      · rw [paged.laid.malloc_append refuses (Or.inr misfit), run, at_last]
      · by_cases fits' : q.toNat + n ≤ heapPages
        · obtain ⟨start_t, -⟩ := well.tail short _ paged.tail fits'
          have same : p.toNat = q.toNat := by
            simp only [userHeapStart, pageSize] at *
            omega
          rw [same]
          exact bestFit_tail short paged.tail
        · exact bestFit_past short paged.tail (not_le.mp fits')

end Request

theorem Reach.paged_of_pageCall {s : Process} (reach : Reach PageCall s) :
    ∃ q p, Paged s q p :=
  Reach.paged (reach.mono fun _ _ call => ⟨call.1, fun size eq => (call.2 size eq).1⟩)

/-- **When `malloc` is best fit.**  In a run of calls for whole pages that are sound, a
request for `n` pages is answered by best fit exactly when `FitsWell` says so. -/
theorem Reach.bestFit_iff {s : Process} (reach : Reach PageCall s) {n : Nat} (pos : 0 < n) :
    s.MallocBestFit n ↔ s.FitsWell n := by
  obtain ⟨q, p, paged⟩ := reach.paged_of_pageCall
  exact ⟨paged.fitsWell pos, fun well => well.mallocBestFit paged pos⟩

/-- A process that has freed the first of its two blocks, of `n` and of one page. -/
def freedFirst (n : Nat) : Process :=
  { heap :=
      { lastAddres := userHeapStart + (n + 1) * pageSize, changes := 1
        entries := [⟨userHeapStart, false, n⟩, ⟨userHeapStart + n * pageSize, true, 1⟩] }
    blocks := [(userHeapStart + n * pageSize, pageSize)] }

theorem freedFirst_gap {n : Nat} (pos : 0 < n) : Gap (freedFirst n).livePages 0 n := by
  have live : ∀ k, k ∈ (freedFirst n).livePages ↔ k = n := by
    intro k
    simp only [livePages, freedFirst, Block.range, numOf, pageSize, List.mem_singleton,
      exists_eq_left, Set.mem_ofPred_eq, Set.mem_Ico]
    norm_num
    omega
  refine ⟨pos, fun k _ lt => ?_, Or.inl rfl, ?_⟩
  · rw [live]
    omega
  · rw [live]
    omega

/-- `malloc` before the first `free`. -/
theorem malloc_first {h : UserHeap} {size : Nat} (small : size ≤ userHeapMax - userHeapStart)
    (never : h.changes = 0) (room : h.sizeofarray < heapTableSize)
    (inside : h.lastAddres + numOf size * pageSize < 4294967296) :
    h.malloc size = some (h.lastAddres, [.allocateMem h.lastAddres size],
      { h with
        lastAddres := h.lastAddres + numOf size * pageSize
        entries := h.entries ++
          [{ address := h.lastAddres, changed := true, numOfPages := numOf size }] }) := by
  have moved : uint32 (h.lastAddres + numOf size * pageSize) =
      h.lastAddres + numOf size * pageSize := by
    have eq := uint32_of_nonneg (z := h.lastAddres + numOf size * pageSize) (by positivity)
      (by exact_mod_cast inside)
    exact_mod_cast eq
  rw [malloc, if_neg (not_lt.mpr small), if_pos never, appendBlock, if_pos room, moved]

theorem freedFirst_reach {n : Nat} (pos : 0 < n) (small : n < heapPages) :
    Reach PageCall (freedFirst n) := by
  have below : n < 131072 := small
  have one : numOf pageSize = 1 := by decide
  have room : 1 < heapTableSize := by decide
  have first : Reach PageCall
      ⟨⟨userHeapStart + n * pageSize, 0, [⟨userHeapStart, true, n⟩]⟩,
        [(userHeapStart, n * pageSize)]⟩ := by
    refine .step (.malloc (n * pageSize)) .initial ⟨.inr ⟨by decide, fun _ => ?_, fun h => ?_⟩,
      pageOp_malloc (Nat.mul_pos pos (by decide)) (Dvd.intro_left n rfl)⟩ ?_
    · rw [numOf_mul]
      simp only [initial, UserHeap.initial, userHeapMax, userHeapStart, pageSize]
      omega
    · exact absurd rfl h
    · rw [Process.step, malloc_first]
      · simp [initial, UserHeap.initial, numOf_mul]
      · simp only [userHeapMax, userHeapStart, pageSize]
        omega
      · rfl
      · decide
      · rw [numOf_mul]
        simp only [initial, UserHeap.initial, userHeapStart, pageSize]
        omega
  have second : Reach PageCall
      ⟨⟨userHeapStart + (n + 1) * pageSize, 0,
        [⟨userHeapStart, true, n⟩, ⟨userHeapStart + n * pageSize, true, 1⟩]⟩,
        [(userHeapStart + n * pageSize, pageSize), (userHeapStart, n * pageSize)]⟩ := by
    refine .step (.malloc pageSize) first ⟨.inr ⟨room, fun _ => ?_, fun h => ?_⟩,
      pageOp_malloc (by decide) (dvd_refl _)⟩ ?_
    · simp only [one, userHeapMax, userHeapStart, pageSize]
      omega
    · exact absurd rfl h
    · rw [Process.step, malloc_first]
      · simp [one]
        ring
      · decide
      · rfl
      · exact room
      · simp only [one, userHeapStart, pageSize]
        omega
  refine .step (.free userHeapStart) second ⟨trivial, pageOp_free _⟩ ?_
  have other : userHeapStart + n * pageSize ≠ userHeapStart := by
    simp only [userHeapStart, pageSize]
    omega
  simp [Process.step, free, freedFirst, List.findIdx?_cons, pos.ne']

/-- A block of one page goes to the hole of two pages. -/
theorem bestFit_small_hole : (freedFirst 2).MallocBestFit 1 := by
  have gap := freedFirst_gap (n := 2) (by decide)
  refine ((freedFirst_reach (by decide) (by decide)).bestFit_iff (by decide)).mpr
    ⟨fun _ => ⟨by decide, ?_, 0, 2, gap, by decide, by decide⟩, fun short => ?_, fun short => ?_⟩
  · show 2 < heapTableSize
    decide
  · exact absurd (short 0 2 gap) (by decide)
  · exact absurd (short 0 2 gap) (by decide)

/-- The scan starts from `min = 4000`: a hole of 5000 pages is passed over. -/
theorem malloc_large_hole : ¬ ∀ s : Process, Reach (fun _ op => PageOp op) s →
    ∀ n, 0 < n → s.MallocBestFit n := by
  intro claim
  have reach := freedFirst_reach (n := 5000) (by decide) (by decide)
  have best := claim _ (reach.mono fun _ _ call => call.2) 4500 (by decide)
  obtain ⟨q, p, paged⟩ := reach.paged_of_pageCall
  have gap := freedFirst_gap (n := 5000) (by decide)
  obtain ⟨-, -, a, m, -, fits, small⟩ :=
    (paged.fitsWell (by decide) best).gap ⟨0, 5000, gap, by decide⟩
  omega

end Process

end Fos.UserHeap
