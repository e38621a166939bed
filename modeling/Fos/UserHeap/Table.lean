import Fos.UserHeap.Bounds

/-!
# The sums of the heap table

What the table says about addresses and page counts after any calls for whole pages, wherever
the blocks lie: the sums are those of `uint32` arithmetic, and the heap may be left.

A block placed in a hole of several freed entries takes its pages from the first of them, whose
rest may be negative.  So the page counts of the entries say nothing; what is kept is their sum
up to each entry (`Placed`), and that a run of freed entries between two live ones does not add
up to less than 0 (`Balanced`).

* `exec_step`: what a call for whole pages does; `Tabled.step`: it keeps the sums;
* `tableInvariant`: what they mean for the entries one by one, after any calls.
-/

namespace Fos.UserHeap

/-- The address of the page `p` of the heap. -/
def pageAddress (p : Int) : Nat := uint32 (userHeapStart + pageSize * p)

theorem uint32_add (z w : Int) : uint32 ((uint32 z : Int) + w) = uint32 (z + w) := by
  unfold uint32
  omega

theorem pageAddress_add (p q : Int) :
    uint32 ((pageAddress p : Int) + q * pageSize) = pageAddress (p + q) := by
  rw [pageAddress, uint32_add, pageAddress]
  congr 1
  ring

/-! ## Where the entries start -/

/-- The entries lie one after the other from page `p` on. -/
def Placed : Int → List HeapEntry → Prop
  | _, [] => True
  | p, e :: es => e.address = pageAddress p ∧ Placed (p + e.numOfPages) es

theorem placed_append {p : Int} {es es' : List HeapEntry} :
    Placed p (es ++ es') ↔ Placed p es ∧ Placed (p + pagesOf es) es' := by
  induction es generalizing p with
  | nil => simp [Placed]
  | cons e es ih => rw [List.cons_append, Placed, Placed, ih, pagesOf_cons, add_assoc, and_assoc]

/-- The place of an entry is the sum of the page counts before it. -/
theorem Placed.at {es : List HeapEntry} (placed : Placed 0 es) {i : Nat} {e : HeapEntry}
    (entry : es[i]? = some e) : e.address = pageAddress (pagesOf (es.take i)) := by
  obtain ⟨lt, rfl⟩ := List.getElem?_eq_some_iff.mp entry
  have cut := (List.take_append_drop i es).symm
  rw [List.drop_eq_getElem_cons lt] at cut
  rw [cut, placed_append, Placed, zero_add] at placed
  exact placed.2.1

/-! ## Runs of freed entries -/

/-- Live entries have pages, and no run of freed entries adds up to less than 0, the first one
together with `c`. -/
def Balanced : Int → List HeapEntry → Prop
  | c, [] => 0 ≤ c
  | c, e :: es =>
    if e.changed then 0 ≤ c ∧ 0 < e.numOfPages ∧ Balanced 0 es else Balanced (c + e.numOfPages) es

variable {c : Int} {e : HeapEntry} {es pre run post : List HeapEntry}

theorem balanced_live (live : e.changed = true) :
    Balanced c (e :: es) ↔ 0 ≤ c ∧ 0 < e.numOfPages ∧ Balanced 0 es := by
  rw [Balanced, if_pos live]

theorem balanced_freed (free : e.changed = false) :
    Balanced c (e :: es) ↔ Balanced (c + e.numOfPages) es := by
  rw [Balanced, free]
  rfl

/-- More pages in front do no harm. -/
theorem Balanced.mono {c' : Int} (balanced : Balanced c es) (le : c ≤ c') : Balanced c' es := by
  induction es generalizing c c' with
  | nil => exact le_trans balanced le
  | cons e es ih =>
    cases free : e.changed with
    | true =>
      rw [balanced_live free] at balanced ⊢
      exact ⟨le_trans balanced.1 le, balanced.2⟩
    | false =>
      rw [balanced_freed free] at balanced ⊢
      exact ih balanced (by omega)

/-- A run of freed entries. -/
theorem balanced_run (freed : ∀ e ∈ run, e.changed = false) :
    Balanced c (run ++ es) ↔ Balanced (c + pagesOf run) es := by
  induction run generalizing c with
  | nil => simp
  | cons e run ih =>
    rw [List.cons_append, balanced_freed (freed e (by simp)),
      ih fun x mem => freed x (by simp [mem]),
      pagesOf_cons, add_assoc]

/-- A live entry is the end of what is before it. -/
theorem balanced_cut (live : e.changed = true) :
    Balanced c (pre ++ e :: post) ↔ Balanced c (pre ++ [e]) ∧ Balanced 0 post := by
  induction pre generalizing c with
  | nil =>
    rw [List.nil_append, List.nil_append, balanced_live live, balanced_live live]
    simp [Balanced, and_assoc]
  | cons x pre ih =>
    rw [List.cons_append, List.cons_append]
    cases free : x.changed with
    | true => rw [balanced_live free, balanced_live free, ih, and_assoc, and_assoc]
    | false => rw [balanced_freed free, balanced_freed free, ih]

/-- The entries after a live one, or all entries, are balanced by themselves. -/
theorem balanced_after (ends : ∀ e ∈ pre.getLast?, e.changed = true) :
    Balanced 0 (pre ++ post) ↔ Balanced 0 pre ∧ Balanced 0 post := by
  rcases pre.eq_nil_or_concat with rfl | ⟨init, e, rfl⟩
  · simp [Balanced]
  · rw [List.concat_eq_append] at ends ⊢
    rw [List.append_assoc, List.singleton_append]
    exact balanced_cut (ends e (by simp))

theorem Balanced.live (balanced : Balanced c es) (mem : e ∈ es) (live : e.changed = true) :
    0 < e.numOfPages := by
  obtain ⟨pre, post, rfl⟩ := List.append_of_mem mem
  have upTo := ((balanced_cut live).mp balanced).1
  clear balanced mem
  induction pre generalizing c with
  | nil => exact ((balanced_live live).mp upTo).2.1
  | cons x pre ih =>
    rw [List.cons_append] at upTo
    cases free : x.changed with
    | true => exact ih ((balanced_live free).mp upTo).2.2
    | false => exact ih ((balanced_freed free).mp upTo)

/-- A live entry comes behind the others. -/
theorem Balanced.snoc (balanced : Balanced c es) (live : e.changed = true)
    (pos : 0 < e.numOfPages) : Balanced c (es ++ [e]) := by
  induction es generalizing c with
  | nil => exact (balanced_live live).mpr ⟨balanced, pos, le_refl _⟩
  | cons x es ih =>
    rw [List.cons_append]
    cases free : x.changed with
    | true =>
      rw [balanced_live free] at balanced ⊢
      exact ⟨balanced.1, balanced.2.1, ih balanced.2.2⟩
    | false =>
      rw [balanced_freed free] at balanced ⊢
      exact ih balanced

/-- A live entry becomes a part of a run, which may join two others. -/
theorem Balanced.release (balanced : Balanced c (pre ++ e :: post)) (live : e.changed = true) :
    Balanced c (pre ++ { e with changed := false } :: post) := by
  induction pre generalizing c with
  | nil =>
    obtain ⟨nonneg, pos, rest⟩ := (balanced_live live).mp balanced
    rw [List.nil_append, balanced_freed rfl]
    exact rest.mono (by simp only; omega)
  | cons x pre ih =>
    rw [List.cons_append] at balanced ⊢
    cases free : x.changed with
    | true =>
      rw [balanced_live free] at balanced ⊢
      exact ⟨balanced.1, balanced.2.1, ih balanced.2.2⟩
    | false =>
      rw [balanced_freed free] at balanced ⊢
      exact ih balanced

/-- The first entry `r` of a hole is split into a live block and a rest.  Only the sum of the
hole says that the rest of it is not negative. -/
theorem Balanced.split {r block rest : HeapEntry} (balanced : Balanced 0 es)
    (hole : Hole es pre (r :: run) e post) (live : block.changed = true)
    (free : rest.changed = false) (pos : 0 < block.numOfPages)
    (fits : block.numOfPages ≤ pagesOf (r :: run))
    (split : rest.numOfPages = r.numOfPages - block.numOfPages) :
    Balanced 0 (pre ++ block :: rest :: (run ++ e :: post)) := by
  rw [hole.append, List.append_assoc, balanced_after hole.cut.ends,
    balanced_run hole.cut.freed, balanced_live hole.live] at balanced
  obtain ⟨before, -, after⟩ := balanced
  rw [balanced_after hole.cut.ends, balanced_live live, balanced_freed free,
    balanced_run fun x mem => hole.cut.freed x (by simp [mem]), balanced_live hole.live]
  refine ⟨before, le_refl _, pos, ?_, after⟩
  rw [pagesOf_cons] at fits
  omega

/-- The entries `run` are freed, and no further entry before or behind them is. -/
structure MaximalRun (es pre run post : List HeapEntry) : Prop where
  append : es = pre ++ run ++ post
  freed : ∀ e ∈ run, e.changed = false
  before : ∀ e ∈ pre.getLast?, e.changed = true
  after : ∀ e ∈ post.head?, e.changed = true

theorem Balanced.maximalRun (balanced : Balanced 0 es) (maximal : MaximalRun es pre run post) :
    0 ≤ pagesOf run := by
  have tail := balanced
  rw [maximal.append, List.append_assoc, balanced_after maximal.before,
    balanced_run maximal.freed, zero_add] at tail
  cases post with
  | nil => exact tail.2
  | cons e post => exact ((balanced_live (maximal.after e (by simp))).mp tail.2).1

/-! ## Calls -/

/-- Requests are for whole pages. -/
def WholePages : HeapOp → Prop
  | .malloc size => 0 < size ∧ pageSize ∣ size
  | .free _ => True

/-- What a call for whole pages does to the variables. -/
inductive TableStep (h : UserHeap) : UserHeap → Prop
  | null : TableStep h h
  | append (num : Nat) : 0 < num → num ≤ heapPages → h.sizeofarray < heapTableSize →
    TableStep h { h with
      lastAddres := uint32 (h.lastAddres + num * pageSize)
      entries := h.entries ++ [{ address := h.lastAddres, changed := true, numOfPages := num }] }
  | split (num : Nat) {pre run post : List HeapEntry} {r e : HeapEntry} :
    Hole h.entries pre (r :: run) e post → 0 < num → (num : Int) ≤ pagesOf (r :: run) →
    pagesOf (r :: run) < 4000 → h.sizeofarray < heapTableSize →
    TableStep h { h with
      entries := pre ++ { r with numOfPages := num, changed := true } ::
        { address := uint32
            ((uint32 (e.address - pagesOf (r :: run) * pageSize) : Int) + num * pageSize)
          changed := false
          numOfPages := r.numOfPages - num } :: (run ++ e :: post) }
  | release {pre post : List HeapEntry} {e : HeapEntry} : h.entries = pre ++ e :: post →
    e.changed = true →
    TableStep h { h with
      changes := h.changes + 1
      entries := pre ++ { e with changed := false } :: post }

variable {h h' : UserHeap} {size : Nat}

theorem numOf_le_heapPages (small : size ≤ userHeapMax - userHeapStart) :
    numOf size ≤ heapPages := by
  have lt := numOf_lt size
  simp only [heapPages, userHeapMax, userHeapStart, pageSize] at *
  omega

theorem appendBlock_step (pos : 0 < size) (small : size ≤ userHeapMax - userHeapStart) {p : Nat}
    {calls : List HeapCall} (run : h.appendBlock size = some (p, calls, h')) : TableStep h h' := by
  rw [appendBlock] at run
  split at run
  · rename_i room
    cases run
    exact .append (numOf size) (Process.numOf_pos pos) (numOf_le_heapPages small) room
  · cases run

theorem splitHole_step (pos : 0 < size) (whole : pageSize ∣ size) {fit : Fit} {p : Nat}
    {calls : List HeapCall} (hole : Hole h.entries pre run e post)
    (fits : (numOf size : Int) ≤ pagesOf run) (below : pagesOf run < 4000)
    (index : fit.index = pre.length) (lastindex : fit.lastindex = pre.length + run.length)
    (start : fit.minAddresss = uint32 (e.address - pagesOf run * pageSize))
    (split : h.splitHole size fit = some (p, calls, h')) : TableStep h h' := by
  have room : h.sizeofarray < heapTableSize := by
    by_contra full
    rw [splitHole, if_neg full] at split
    cases split
  have num := Process.numOf_pos pos
  cases run with
  | nil =>
    rw [pagesOf_nil] at fits
    omega
  | cons r run =>
    have table : h.entries = pre ++ r :: (run ++ e :: post) := by rw [hole.append]; simp
    have bytes : (size : Int) = numOf size * pageSize := by exact_mod_cast (numOf_of_dvd whole).symm
    rw [splitHole_eq room table index (by simp [index, lastindex]), start, bytes] at split
    cases split
    exact .split (numOf size) hole num fits below room

/-- Every call for whole pages is one of these. -/
theorem exec_step {op : HeapOp} (whole : WholePages op) (run : h.exec op = some h') :
    TableStep h h' := by
  cases op with
  | malloc size =>
    obtain ⟨⟨p, calls, h''⟩, called, rfl⟩ := Option.map_eq_some_iff.mp run
    rcases h.malloc_places size with null | ⟨small, append | ⟨fit, pre, hole_run, e, post, split,
      hole, fits, below, index, lastindex, start⟩⟩
    · rw [null] at called
      cases called
      exact .null
    · exact appendBlock_step whole.1 small (append.symm.trans called)
    · exact splitHole_step whole.1 whole.2 hole fits below index lastindex start
        (split.symm.trans called)
  | free va =>
    cases run
    rcases h.free_cases va with ⟨-, run⟩ | ⟨pre, e, post, table, -, live, run⟩
    · rw [run]
      exact .null
    · rw [run]
      exact .release table live

/-! ## What every call keeps -/

/-- The sums of the table. -/
structure Tabled (h : UserHeap) : Prop where
  placed : Placed 0 h.entries
  last : h.lastAddres = pageAddress (pagesOf h.entries)
  balanced : Balanced 0 h.entries

theorem tabled_initial : Tabled initial := ⟨trivial, rfl, le_refl _⟩

theorem Tabled.step (tabled : Tabled h) (step : TableStep h h') : Tabled h' := by
  obtain ⟨placed, last, balanced⟩ := tabled
  cases step with
  | null => exact ⟨placed, last, balanced⟩
  | append num pos =>
    refine ⟨?_, ?_, balanced.snoc rfl (Int.natCast_pos.mpr pos)⟩
    · rw [placed_append, zero_add]
      exact ⟨placed, last, trivial⟩
    · simp only [pagesOf_append, pagesOf_cons, pagesOf_nil, add_zero]
      rw [← pageAddress_add, ← last]
  | @split num pre run post r e hole pos fits below room =>
    have table : h.entries = pre ++ r :: (run ++ e :: post) := by rw [hole.append]; simp
    rw [table, placed_append, Placed, placed_append, Placed, zero_add] at placed
    obtain ⟨before, r_address, inside, e_address, after⟩ := placed
    -- the address that the scan computes back from the end of the hole is that of its first entry
    have back : uint32 (e.address - pagesOf (r :: run) * pageSize) = pageAddress (pagesOf pre) := by
      rw [e_address, sub_eq_add_neg, ← neg_mul, pageAddress_add, pagesOf_cons]
      congr 1
      ring
    have onwards : pagesOf pre + num + (r.numOfPages - num) = pagesOf pre + r.numOfPages := by ring
    refine ⟨?_, ?_, balanced.split hole rfl rfl (Int.natCast_pos.mpr pos) fits rfl⟩
    · rw [placed_append, Placed, Placed, placed_append, Placed, zero_add, back, onwards]
      exact ⟨before, r_address, pageAddress_add (pagesOf pre) num, inside, e_address, after⟩
    · rw [last, table]
      congr 1
      simp only [pagesOf_append, pagesOf_cons]
      ring
  | @release pre post e table live =>
    rw [table] at placed last balanced
    refine ⟨?_, ?_, balanced.release live⟩
    · rw [placed_append, Placed] at placed ⊢
      exact placed
    · simpa using last

/-- A split takes less than 4000 pages from an entry, so that no page count leaves the range of
an `int`. -/
structure Counted (h : UserHeap) : Prop where
  room : h.sizeofarray ≤ heapTableSize
  counts : ∀ e ∈ h.entries, -4000 * (h.sizeofarray : Int) ≤ e.numOfPages ∧ e.numOfPages ≤ heapPages

theorem Counted.step (counted : Counted h) (step : TableStep h h') : Counted h' := by
  obtain ⟨room, counts⟩ := counted
  cases step with
  | null => exact ⟨room, counts⟩
  | append num pos le free =>
    have length : ∀ new : HeapEntry, (h.entries ++ [new]).length = h.sizeofarray + 1 :=
      fun _ => List.length_append
    refine ⟨(length _).trans_le free, fun x mem => ?_⟩
    rw [sizeofarray, length]
    rcases List.mem_append.mp mem with old | new
    · have bounds := counts x old
      omega
    · rw [List.mem_singleton.mp new]
      simp only
      omega
  | @split num pre run post r e hole pos fits below free =>
    have table : h.entries = pre ++ r :: (run ++ e :: post) := by rw [hole.append]; simp
    have length : ∀ block rest : HeapEntry,
        (pre ++ block :: rest :: (run ++ e :: post)).length = h.sizeofarray + 1 := by
      intro block rest
      rw [sizeofarray, table]
      simp only [List.length_append, List.length_cons]
      omega
    rw [table] at counts
    have first := counts r (by simp)
    refine ⟨(length _ _).trans_le free, fun x mem => ?_⟩
    rw [sizeofarray, length]
    simp only [List.mem_append, List.mem_cons] at mem
    rcases mem with old | rfl | rfl | old
    · have bounds := counts x (by simp [old])
      omega
    · simp only [heapPages, userHeapMax, userHeapStart, pageSize] at *
      omega
    · simp only at *
      omega
    · have bounds := counts x (by simp [old])
      omega
  | @release pre post e table live =>
    have length : (pre ++ { e with changed := false } :: post).length = h.sizeofarray := by
      rw [sizeofarray, table]
      simp only [List.length_append, List.length_cons]
    rw [table] at counts
    refine ⟨length.trans_le room, fun x mem => ?_⟩
    rw [sizeofarray, length]
    simp only [List.mem_append, List.mem_cons] at mem
    rcases mem with old | rfl | old
    · exact counts x (by simp [old])
    · exact counts e (by simp)
    · exact counts x (by simp [old])

/-! ## Runs -/

/-- The variables after the calls `ops`, if these do not write the arrays past their end. -/
def runOps (ops : List HeapOp) : Option UserHeap := ops.foldlM exec initial

/-- What every call keeps holds after all of them. -/
theorem foldlM_exec {P : UserHeap → Prop} (step : ∀ h h', P h → TableStep h h' → P h')
    {ops : List HeapOp} (start : P h) (whole : ∀ op ∈ ops, WholePages op)
    (run : ops.foldlM exec h = some h') : P h' := by
  induction ops generalizing h with
  | nil =>
    cases run
    exact start
  | cons op ops ih =>
    rw [List.foldlM_cons] at run
    obtain ⟨h₁, called, rest⟩ := Option.bind_eq_some_iff.mp run
    exact ih (step h h₁ start (exec_step (whole op (by simp)) called))
      (fun x mem => whole x (by simp [mem])) rest

/-- The page counts are those of the source, where they are `int`. -/
theorem int32_numOfPages {ops : List HeapOp} (whole : ∀ op ∈ ops, WholePages op)
    (run : runOps ops = some h) (mem : e ∈ h.entries) : int32 e.numOfPages = e.numOfPages := by
  have counted : Counted h := foldlM_exec (fun _ _ counted => counted.step)
    ⟨Nat.zero_le _, by simp [initial]⟩ whole run
  have room := counted.room
  have counts := counted.counts e mem
  simp only [heapTableSize, heapPages, userHeapMax, userHeapStart, pageSize] at *
  exact int32_of_small (by omega) (by omega)

/-- What the table says entry by entry and run by run. -/
structure TableInvariant (h : UserHeap) : Prop where
  address : ∀ i e, h.entries[i]? = some e →
    e.address = uint32 (userHeapStart + pageSize * pagesOf (h.entries.take i))
  last : h.lastAddres = uint32 (userHeapStart + pageSize * pagesOf h.entries)
  live : ∀ e ∈ h.entries, e.changed = true → 0 < e.numOfPages
  holes : ∀ pre run post, MaximalRun h.entries pre run post → 0 ≤ pagesOf run

theorem Tabled.invariant (tabled : Tabled h) : TableInvariant h where
  address _ _ entry := tabled.placed.at entry
  last := tabled.last
  live _ mem live := tabled.balanced.live mem live
  holes _ _ _ maximal := tabled.balanced.maximalRun maximal

/-- Two pages are freed one by one and taken together: the rest of the first one is -1 page. -/
def negativeOps : List HeapOp :=
  [.malloc 4096, .malloc 4096, .malloc 4096, .free 0x80000000, .free 0x80001000, .malloc 8192]

/-- The variables after these calls. -/
def negativeHeap : UserHeap :=
  { lastAddres := 0x80003000, changes := 2
    entries := [⟨0x80000000, true, 2⟩, ⟨0x80002000, false, -1⟩, ⟨0x80001000, false, 1⟩,
      ⟨0x80002000, true, 1⟩] }

theorem runOps_negative : runOps negativeOps = some negativeHeap := by decide +kernel

theorem whole_negative : ∀ op ∈ negativeOps, WholePages op := by
  simp [negativeOps, WholePages, pageSize]

/-- **The heap table** after any calls for whole pages that stay inside the arrays: the addresses
and `last_addres` are the sums of the page counts, live entries have pages, and no run of freed
entries has less than 0 of them.  A single entry may. -/
theorem tableInvariant :
    (∀ ops h, (∀ op ∈ ops, WholePages op) → runOps ops = some h → TableInvariant h) ∧
      ∃ ops h, (∀ op ∈ ops, WholePages op) ∧ runOps ops = some h ∧
        ∃ e ∈ h.entries, e.numOfPages < 0 := by
  refine ⟨fun ops h whole run => ?_, negativeOps, negativeHeap, whole_negative, runOps_negative,
    ⟨0x80002000, false, -1⟩, by decide, by decide⟩
  exact (foldlM_exec (fun _ _ tabled => tabled.step) tabled_initial whole run).invariant

theorem tableInvariant_negative : TableInvariant negativeHeap :=
  tableInvariant.1 negativeOps negativeHeap whole_negative runOps_negative

end Fos.UserHeap
