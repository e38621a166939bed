import Fos.UserHeap.Model
import Mathlib.Algebra.BigOperators.Group.List.Basic
import Mathlib.Data.List.Induction
import Mathlib.Tactic.Linarith
import Mathlib.Tactic.Ring

/-!
# The table of the user heap as a layout

Reading the entries from the left, each one starts where the page counts before it
add up to.  `Walk q p es q' p'` is such a reading that enters `es` at page `p`, with
the last live block before it ending at page `q`, and leaves it at `p'` and `q'`.
Live blocks follow one another (`q ≤ p` at each of them); inside a run of freed
entries the position may go back, but never below `q` by the end of the run.

* `scan_best`: the scan of `malloc` finds a smallest hole that fits, among the holes
  below 4000 pages;
* `malloc_laid`, `free_laid`: a call keeps the layout, adding or deleting one live
  record, provided that `malloc` is `Sound`.
-/

namespace Fos.UserHeap

/-- The pages of the heap. -/
abbrev heapPages : Nat := (userHeapMax - userHeapStart) / pageSize

/-! ## Holes of the table -/

/-- The pages of a run of entries. -/
def pagesOf (run : List HeapEntry) : Int := (run.map HeapEntry.numOfPages).sum

@[simp] theorem pagesOf_nil : pagesOf [] = 0 := rfl

@[simp] theorem pagesOf_cons (e : HeapEntry) (run : List HeapEntry) :
    pagesOf (e :: run) = e.numOfPages + pagesOf run := by
  simp [pagesOf]

@[simp] theorem pagesOf_append (run run' : List HeapEntry) :
    pagesOf (run ++ run') = pagesOf run + pagesOf run' := by
  simp [pagesOf]

/-- The entries `es` are cut after a live entry: `pre` and the freed entries `run`. -/
structure Cut (es pre run : List HeapEntry) : Prop where
  append : es = pre ++ run
  ends : ∀ e ∈ pre.getLast?, e.changed = true
  freed : ∀ e ∈ run, e.changed = false

/-- Such a cut is unique. -/
theorem Cut.unique {es pre run pre' run' : List HeapEntry} (cut : Cut es pre run)
    (cut' : Cut es pre' run') : pre = pre' ∧ run = run' := by
  have both := cut.append.symm.trans cut'.append
  rcases List.append_eq_append_iff.mp both with ⟨mid, rfl, rfl⟩ | ⟨mid, rfl, rfl⟩
  · rcases mid.eq_nil_or_concat with rfl | ⟨init, e, rfl⟩
    · simp
    · have live := cut'.ends e (by simp)
      have free := cut.freed e (by simp)
      rw [live] at free
      cases free
  · rcases mid.eq_nil_or_concat with rfl | ⟨init, e, rfl⟩
    · simp
    · have live := cut.ends e (by simp)
      have free := cut'.freed e (by simp)
      rw [live] at free
      cases free

theorem Cut.snoc_freed {es pre run : List HeapEntry} (cut : Cut es pre run) {e : HeapEntry}
    (free : e.changed = false) : Cut (es ++ [e]) pre (run ++ [e]) := by
  refine ⟨by rw [cut.append, List.append_assoc], cut.ends, fun x hx => ?_⟩
  rcases List.mem_append.mp hx with hx | hx
  · exact cut.freed x hx
  · rw [List.mem_singleton.mp hx]
    exact free

theorem Cut.snoc_live (es : List HeapEntry) {e : HeapEntry} (live : e.changed = true) :
    Cut (es ++ [e]) (es ++ [e]) [] :=
  ⟨by simp, by simp [live], by simp⟩

/-- Every table has a cut. -/
theorem exists_cut (es : List HeapEntry) : ∃ pre run, Cut es pre run := by
  induction es using List.reverseRecOn with
  | nil => exact ⟨[], [], rfl, by simp, by simp⟩
  | append_singleton es e ih =>
    obtain ⟨pre, run, cut⟩ := ih
    cases free : e.changed with
    | false => exact ⟨pre, run ++ [e], cut.snoc_freed free⟩
    | true => exact ⟨es ++ [e], [], Cut.snoc_live es free⟩

/-- A hole of the table: the freed entries `run` between `pre` and the live entry `e`. -/
structure Hole (es pre run : List HeapEntry) (e : HeapEntry) (post : List HeapEntry) : Prop where
  append : es = pre ++ run ++ e :: post
  cut : Cut (pre ++ run) pre run
  live : e.changed = true

theorem Hole.snoc {es pre run post : List HeapEntry} {e : HeapEntry}
    (hole : Hole es pre run e post) (x : HeapEntry) : Hole (es ++ [x]) pre run e (post ++ [x]) :=
  { hole with append := by rw [hole.append]; simp }

/-- The holes of a longer table are those of the table, and the one before a new live
entry. -/
theorem Hole.of_snoc {es pre run post : List HeapEntry} {e x : HeapEntry}
    (hole : Hole (es ++ [x]) pre run e post) :
    (∃ post', post = post' ++ [x] ∧ Hole es pre run e post') ∨
      (post = [] ∧ e = x ∧ Cut es pre run) := by
  have append := hole.append
  rcases post.eq_nil_or_concat with rfl | ⟨init, y, rfl⟩
  · obtain ⟨rfl, last⟩ := List.append_inj' append rfl
    simp only [List.cons.injEq, and_true] at last
    exact Or.inr ⟨rfl, last.symm, hole.cut⟩
  · rw [List.concat_eq_append, ← List.cons_append, ← List.append_assoc] at append
    obtain ⟨front, last⟩ := List.append_inj' append rfl
    simp only [List.cons.injEq, and_true] at last
    subst last
    exact Or.inl ⟨init, by simp, ⟨front, hole.cut, hole.live⟩⟩

/-- What the scan has found among the holes of `es`: a smallest one that fits. -/
structure Best (num : Nat) (es : List HeapEntry) (min : Int) (fit : Option Fit) : Prop where
  least : ∀ {pre run e post}, Hole es pre run e post → num ≤ pagesOf run → min ≤ pagesOf run
  none : fit = none → min = 4000
  some : ∀ t, fit = some t → min < 4000 ∧ (num : Int) ≤ min ∧
    ∃ pre run e post, Hole es pre run e post ∧ pagesOf run = min ∧ t.index = pre.length ∧
      t.lastindex = pre.length + run.length ∧
      t.minAddresss = uint32 (e.address - min * pageSize)

/-- Induction along the scan: `t` describes the entries `es` that were visited. -/
theorem scan_best {num : Nat} {t : Scan} {es rest pre run : List HeapEntry}
    (cut : Cut es pre run) (count : t.count = pagesOf run) (f : t.f = run.length)
    (best : Best num es t.min t.fit) :
    Best num (es ++ rest) (scan num t es.length rest).min (scan num t es.length rest).fit := by
  induction rest generalizing t es pre run with
  | nil => simpa [scan] using best
  | cons x rest ih =>
    have length : es.length + 1 = (es ++ [x]).length := by simp
    rw [scan, length, List.append_cons]
    have kept : ∀ {u : Fit}, (∃ pre run e post, Hole es pre run e post ∧ pagesOf run = t.min ∧
        u.index = pre.length ∧ u.lastindex = pre.length + run.length ∧
        u.minAddresss = uint32 (e.address - t.min * pageSize)) →
        ∃ pre run e post, Hole (es ++ [x]) pre run e post ∧ pagesOf run = t.min ∧
        u.index = pre.length ∧ u.lastindex = pre.length + run.length ∧
        u.minAddresss = uint32 (e.address - t.min * pageSize) := by
      rintro u ⟨pre, run, e, post, hole, found⟩
      exact ⟨pre, run, e, post ++ [x], hole.snoc x, found⟩
    cases free : x.changed with
    | false =>
      have visited : t.visit num es.length x =
          { t with count := t.count + x.numOfPages, f := t.f + 1 } := by simp [Scan.visit, free]
      rw [visited]
      refine ih (cut.snoc_freed free) (by simp [count]) (by simp [f]) ⟨?_, best.none, ?_⟩
      · intro pre run e post hole fits
        rcases hole.of_snoc with ⟨post', -, hole'⟩ | ⟨-, rfl, -⟩
        · exact best.least hole' fits
        · rw [hole.live] at free
          cases free
      · intro u found
        obtain ⟨small, fits, at_⟩ := best.some u found
        exact ⟨small, fits, kept at_⟩
    | true =>
      -- the hole before `x`, which may be empty
      have hole : Hole (es ++ [x]) pre run x [] :=
        ⟨by rw [cut.append], ⟨rfl, cut.ends, cut.freed⟩, free⟩
      have others : ∀ {pre' run' e' post'}, Hole (es ++ [x]) pre' run' e' post' →
          num ≤ pagesOf run' → t.min ≤ pagesOf run' ∨ pagesOf run' = t.count := by
        intro pre' run' e' post' hole' fits
        rcases hole'.of_snoc with ⟨post', -, old⟩ | ⟨-, -, cut'⟩
        · exact Or.inl (best.least old fits)
        · rw [(cut'.unique cut).2, count]
          exact Or.inr rfl
      by_cases better : t.count < t.min ∧ (num : Int) ≤ t.count
      · have visited : t.visit num es.length x =
            { count := 0, f := 0, min := t.count
              fit := some ⟨es.length - t.f, es.length,
                uint32 (x.address - t.count * pageSize)⟩ } := by
          simp [Scan.visit, free, better]
        rw [visited]
        refine ih (Cut.snoc_live es free) rfl rfl ⟨?_, by simp, ?_⟩
        · intro pre' run' e' post' hole' fits
          rcases others hole' fits with small | same
          · exact le_trans better.1.le small
          · exact same.ge
        · intro u found
          simp only [Option.some.injEq] at found
          subst found
          have small : t.min ≤ 4000 := by
            cases fit : t.fit with
            | none => exact (best.none fit).le
            | some u => exact (best.some u fit).1.le
          refine ⟨lt_of_lt_of_le better.1 small, better.2, pre, run, x, [], hole, count.symm,
            ?_, ?_, rfl⟩
          · simp [cut.append, f]
          · simp [cut.append]
      · have visited : t.visit num es.length x = { t with count := 0, f := 0 } := by
          simp [Scan.visit, free, better]
        rw [visited]
        refine ih (Cut.snoc_live es free) rfl rfl ⟨?_, best.none, ?_⟩
        · intro pre' run' e' post' hole' fits
          rcases others hole' fits with small | same
          · exact small
          · rw [not_and_or, not_lt, not_le] at better
            rcases better with large | misfit
            · exact same ▸ large
            · omega
        · intro u found
          obtain ⟨small, fits, at_⟩ := best.some u found
          exact ⟨small, fits, kept at_⟩

/-- The scan of the whole table. -/
theorem scan_start_best (num : Nat) (es : List HeapEntry) :
    Best num es (scan num .start 0 es).min (scan num .start 0 es).fit := by
  have cut : Cut [] [] [] := ⟨rfl, by simp, by simp⟩
  have nothing : Best num [] Scan.start.min Scan.start.fit := by
    refine ⟨fun hole => ?_, fun _ => rfl, fun t found => ?_⟩
    · have append := hole.append
      simp at append
    · cases found
  exact scan_best cut rfl rfl nothing

/-! ## Walks -/

/-- The entries lie one after the other from page `p` on; the last live block before
them ends at page `q`. -/
inductive Walk : Int → Int → List HeapEntry → Int → Int → Prop
  | nil {q p : Int} : Walk q p [] q p
  | live {q p q' p' : Int} {e : HeapEntry} {es : List HeapEntry} :
    0 ≤ p → (e.address : Int) = userHeapStart + p * pageSize → e.changed = true → q ≤ p →
    0 ≤ e.numOfPages → Walk (p + e.numOfPages) (p + e.numOfPages) es q' p' →
    Walk q p (e :: es) q' p'
  | freed {q p q' p' : Int} {e : HeapEntry} {es : List HeapEntry} :
    0 ≤ p → (e.address : Int) = userHeapStart + p * pageSize → e.changed = false →
    Walk q (p + e.numOfPages) es q' p' → Walk q p (e :: es) q' p'

theorem Walk.append {q p q₁ p₁ q₂ p₂ : Int} {es es' : List HeapEntry} (walk : Walk q p es q₁ p₁)
    (walk' : Walk q₁ p₁ es' q₂ p₂) : Walk q p (es ++ es') q₂ p₂ := by
  induction walk with
  | nil => exact walk'
  | live pos address live le len _ ih => exact .live pos address live le len (ih walk')
  | freed pos address free _ ih => exact .freed pos address free (ih walk')

theorem Walk.split {q p q₂ p₂ : Int} {es es' : List HeapEntry}
    (walk : Walk q p (es ++ es') q₂ p₂) : ∃ q₁ p₁, Walk q p es q₁ p₁ ∧ Walk q₁ p₁ es' q₂ p₂ := by
  induction es generalizing q p with
  | nil => exact ⟨q, p, .nil, walk⟩
  | cons e es ih =>
    cases walk with
    | live pos address live le len rest =>
      obtain ⟨q₁, p₁, front, back⟩ := ih rest
      exact ⟨q₁, p₁, .live pos address live le len front, back⟩
    | freed pos address free rest =>
      obtain ⟨q₁, p₁, front, back⟩ := ih rest
      exact ⟨q₁, p₁, .freed pos address free front, back⟩

/-- The end of the last live block only moves on. -/
theorem Walk.le {q p q' p' : Int} {es : List HeapEntry} (walk : Walk q p es q' p') : q ≤ q' := by
  induction walk with
  | nil => exact le_refl _
  | live _ _ _ le len _ ih => omega
  | freed _ _ _ _ ih => exact ih

/-- A walk over freed entries adds their page counts. -/
theorem Walk.run {q p q' p' : Int} {run : List HeapEntry} (walk : Walk q p run q' p')
    (freed : ∀ e ∈ run, e.changed = false) : q' = q ∧ p' = p + pagesOf run := by
  induction walk with
  | nil => simp
  | live _ _ live =>
    rw [freed _ (by simp)] at live
    cases live
  | freed _ _ _ _ ih =>
    obtain ⟨same, moved⟩ := ih fun e he => freed e (by simp [he])
    exact ⟨same, by rw [moved, pagesOf_cons]; omega⟩

/-- The freed entries of a walk do not look at the live blocks before them. -/
theorem Walk.rebase {q q₁ p q' p' : Int} {run : List HeapEntry} (walk : Walk q p run q' p')
    (freed : ∀ e ∈ run, e.changed = false) : Walk q₁ p run q₁ p' := by
  induction walk with
  | nil => exact .nil
  | live _ _ live =>
    rw [freed _ (by simp)] at live
    cases live
  | freed pos address free _ ih =>
    exact .freed pos address free (ih fun e he => freed e (by simp [he]))

/-- A live block that ends earlier is no obstacle. -/
theorem Walk.lower {q q₁ p q' p' : Int} {es : List HeapEntry} (walk : Walk q p es q' p')
    (lower : q₁ ≤ q) : ∃ q₂, q₂ ≤ q' ∧ Walk q₁ p es q₂ p' := by
  induction walk with
  | nil => exact ⟨q₁, lower, .nil⟩
  | live pos address live le len rest _ =>
    exact ⟨_, le_refl _, .live pos address live (le_trans lower le) len rest⟩
  | freed pos address free _ ih =>
    obtain ⟨q₂, le, rest⟩ := ih lower
    exact ⟨q₂, le, .freed pos address free rest⟩

/-- After a live entry, or before any entry, the walk stands where the last live block
ends. -/
theorem Walk.ends {q p : Int} {pre : List HeapEntry} (walk : Walk 0 0 pre q p)
    (ends : ∀ e ∈ pre.getLast?, e.changed = true) : q = p := by
  rcases pre.eq_nil_or_concat with rfl | ⟨init, e, rfl⟩
  · cases walk
    rfl
  · rw [List.concat_eq_append] at walk ends
    obtain ⟨q₁, p₁, -, last⟩ := walk.split
    cases last with
    | live _ _ _ _ _ rest =>
      cases rest
      rfl
    | freed _ _ free =>
      rw [ends e (by simp)] at free
      cases free

/-- Around a hole: `pre` ends at page `b`, where the hole starts. -/
theorem Walk.hole {es pre run post : List HeapEntry} {e : HeapEntry} {q p : Int}
    (walk : Walk 0 0 es q p) (hole : Hole es pre run e post) :
    ∃ b, Walk 0 0 pre b b ∧ Walk b b run b (b + pagesOf run) ∧ 0 ≤ pagesOf run ∧
      0 ≤ b ∧ (e.address : Int) = userHeapStart + (b + pagesOf run) * pageSize ∧
      0 ≤ e.numOfPages ∧ Walk (b + pagesOf run + e.numOfPages) (b + pagesOf run + e.numOfPages)
        post q p := by
  rw [hole.append] at walk
  obtain ⟨q₁, p₁, front, back⟩ := walk.split
  obtain ⟨b, b', before, inside⟩ := front.split
  obtain rfl := before.ends hole.cut.ends
  obtain ⟨rfl, rfl⟩ := inside.run hole.cut.freed
  cases back with
  | live pos address _ le len rest =>
    have start : 0 ≤ q₁ := before.le
    exact ⟨q₁, before, inside, by omega, start, address, len, rest⟩
  | freed _ _ free =>
    rw [hole.live] at free
    cases free

/-! ## Calls -/

/-- The address and the page count of every live block. -/
def records (es : List HeapEntry) : List (Nat × Int) :=
  (es.filter (·.changed)).map fun e => (e.address, e.numOfPages)

@[simp] theorem records_append (es es' : List HeapEntry) :
    records (es ++ es') = records es ++ records es' := by
  simp [records]

theorem records_cons_live {e : HeapEntry} (live : e.changed = true) (es : List HeapEntry) :
    records (e :: es) = (e.address, e.numOfPages) :: records es := by
  simp [records, live]

theorem records_cons_freed {e : HeapEntry} (free : e.changed = false) (es : List HeapEntry) :
    records (e :: es) = records es := by
  simp [records, free]

theorem records_run {run : List HeapEntry} (freed : ∀ e ∈ run, e.changed = false) :
    records run = [] := by
  simpa [records] using freed

/-- The table is a walk from the start of the heap that ends at `last_addres`, inside
the heap. -/
structure Laid (h : UserHeap) (q p : Int) : Prop where
  walk : Walk 0 0 h.entries q p
  le : q ≤ p
  last : (h.lastAddres : Int) = userHeapStart + p * pageSize
  inside : p ≤ heapPages

theorem laid_initial : Laid initial 0 0 :=
  ⟨.nil, le_refl _, by simp [initial], by decide⟩

/-- Some hole below 4000 pages is large enough. -/
def HoleFits (h : UserHeap) (size : Nat) : Prop :=
  ∃ pre run e post, Hole h.entries pre run e post ∧ (numOf size : Int) ≤ pagesOf run ∧
    pagesOf run < 4000

/-- The request is larger than the heap or, once a block has been freed, fits in no hole that the
scan takes and is larger than the rest of the heap.  The rest is a `uint32`, and wraps if
`last_addres` is past the end. -/
def TurnsDown (h : UserHeap) (size : Nat) : Prop :=
  size > userHeapMax - userHeapStart ∨
    (h.changes ≠ 0 ∧ ¬ h.HoleFits size ∧ size > uint32 ((userHeapMax : Int) - h.lastAddres))

/-- `malloc` returns NULL. -/
def Refuses (h : UserHeap) (size : Nat) : Prop :=
  size > userHeapMax - userHeapStart ∨
    (h.changes ≠ 0 ∧ ¬ h.HoleFits size ∧ size + h.lastAddres > userHeapMax)

/-- The requests that `malloc` handles well: the arrays have room, a block that is
placed before the first `free` ends inside the heap, and a block that is placed in a
hole is a positive number of whole pages. -/
def Sound (h : UserHeap) (size : Nat) : Prop :=
  h.Refuses size ∨
    (h.sizeofarray < heapTableSize ∧
      (h.changes = 0 → h.lastAddres + numOf size * pageSize ≤ userHeapMax) ∧
      (h.changes ≠ 0 → h.HoleFits size → 0 < size ∧ pageSize ∣ size))

theorem le_numOf (size : Nat) : size ≤ numOf size * pageSize := by
  simp only [numOf, pageSize] at *
  split <;> omega

theorem numOf_lt (size : Nat) : numOf size * pageSize < size + pageSize := by
  simp only [numOf, pageSize] at *
  split <;> omega

theorem numOf_of_dvd {size : Nat} (whole : pageSize ∣ size) : numOf size * pageSize = size := by
  simp only [numOf, pageSize] at *
  split <;> omega

/-- Placing a block after all others. -/
theorem Laid.appendBlock {h : UserHeap} {q p : Int} (laid : Laid h q p) {size : Nat}
    (room : h.sizeofarray < heapTableSize)
    (fits : h.lastAddres + numOf size * pageSize ≤ userHeapMax) :
    ∃ h', h.appendBlock size = some (h.lastAddres, [.allocateMem h.lastAddres size], h') ∧
      Laid h' (p + numOf size) (p + numOf size) ∧ h'.changes = h.changes ∧
      records h'.entries = records h.entries ++ [(h.lastAddres, (numOf size : Int))] := by
  have last := laid.last
  have start : 0 ≤ p := le_trans laid.walk.le laid.le
  have moved : (uint32 (h.lastAddres + numOf size * pageSize) : Int) =
      h.lastAddres + numOf size * pageSize := by
    simp only [userHeapMax, pageSize] at *
    exact uint32_of_nonneg (by omega) (by omega)
  refine ⟨{ h with
      lastAddres := uint32 (h.lastAddres + numOf size * pageSize)
      entries := h.entries ++
        [{ address := h.lastAddres, changed := true, numOfPages := numOf size }] },
    by rw [UserHeap.appendBlock, if_pos room], ⟨?_, le_refl _, ?_, ?_⟩, rfl, ?_⟩
  · exact laid.walk.append (.live start last rfl laid.le (by simp) .nil)
  · rw [moved, last]
    ring
  · simp only [heapPages, userHeapMax, userHeapStart, pageSize] at *
    omega
  · simp [records]

/-- The loop that shifts the arrays, and the two assignments after it. -/
theorem set_insertIdx {α : Type} (pre post : List α) (x block rest : α) :
    ((pre ++ x :: post).set pre.length block).insertIdx (pre.length + 1) rest =
      pre ++ block :: rest :: post := by
  induction pre with
  | nil => rfl
  | cons a pre ih => simpa using ih

/-- The first entry of a hole becomes the block, and the rest comes after it. -/
theorem splitHole_eq {h : UserHeap} {size : Nat} {fit : Fit} {pre post : List HeapEntry}
    {r : HeapEntry} (room : h.sizeofarray < heapTableSize) (table : h.entries = pre ++ r :: post)
    (index : fit.index = pre.length) (lt : fit.index < fit.lastindex) :
    h.splitHole size fit = some (fit.minAddresss, [.allocateMem fit.minAddresss size],
      { h with entries := pre ++ { r with numOfPages := numOf size, changed := true } ::
          { address := uint32 (fit.minAddresss + size), changed := false
            numOfPages := r.numOfPages - numOf size } :: post }) := by
  have entry : h.entries[fit.index]? = some r := by rw [table, index]; simp
  rw [UserHeap.splitHole, if_pos room, entry]
  simp only [if_pos lt]
  rw [table, index, set_insertIdx]

/-- Placing a block in a hole that starts at page `b`. -/
theorem Laid.splitHole {h : UserHeap} {q p : Int} (laid : Laid h q p) {size : Nat}
    (room : h.sizeofarray < heapTableSize) (positive : 0 < size) (whole : pageSize ∣ size)
    {pre run post : List HeapEntry} {e : HeapEntry} (hole : Hole h.entries pre run e post)
    (fits : (numOf size : Int) ≤ pagesOf run) {fit : Fit} (index : fit.index = pre.length)
    (lastindex : fit.lastindex = pre.length + run.length)
    (start : fit.minAddresss = uint32 (e.address - pagesOf run * pageSize)) :
    ∃ b h', (fit.minAddresss : Int) = userHeapStart + b * pageSize ∧ 0 ≤ b ∧
      (e.address : Int) = userHeapStart + (b + pagesOf run) * pageSize ∧
      h.splitHole size fit = some (fit.minAddresss, [.allocateMem fit.minAddresss size], h') ∧
      Laid h' q p ∧ h'.changes = h.changes ∧
      (records h'.entries).Perm ((fit.minAddresss, (numOf size : Int)) :: records h.entries) := by
  obtain ⟨b, before, inside, nonneg, start_b, address, len, after⟩ := laid.walk.hole hole
  have exact_ := numOf_of_dvd whole
  have num_pos : 0 < numOf size := by
    rcases Nat.eq_zero_or_pos (numOf size) with zero | pos
    · rw [zero] at exact_
      omega
    · exact pos
  have inHeap : b + pagesOf run ≤ heapPages :=
    le_trans (by have := after.le; omega) (le_trans laid.le laid.inside)
  have minAddress : (fit.minAddresss : Int) = userHeapStart + b * pageSize := by
    simp only [heapPages, userHeapMax, userHeapStart, pageSize] at *
    rw [start, uint32_of_nonneg (by omega) (by omega)]
    omega
  have restAddress : (uint32 (fit.minAddresss + size) : Int) =
      userHeapStart + (b + numOf size) * pageSize := by
    simp only [heapPages, userHeapMax, userHeapStart, pageSize] at *
    rw [uint32_of_nonneg (by omega) (by omega)]
    omega
  -- the hole has a first entry, which the block takes over
  cases run with
  | nil =>
    rw [pagesOf_nil] at fits
    omega
  | cons r run =>
    have r_address : r.address = fit.minAddresss := by
      cases inside with
      | live _ _ live =>
        rw [hole.cut.freed r (by simp)] at live
        cases live
      | freed _ address => exact Int.natCast_inj.mp (address.trans minAddress.symm)
    let block : HeapEntry := { r with numOfPages := numOf size, changed := true }
    let rest : HeapEntry :=
      { address := uint32 (fit.minAddresss + size), changed := false
        numOfPages := r.numOfPages - numOf size }
    have freed : ∀ x ∈ run, x.changed = false := fun x hx => hole.cut.freed x (by simp [hx])
    have table : h.entries = pre ++ r :: (run ++ e :: post) := by rw [hole.append]; simp
    refine ⟨b, { h with entries := pre ++ block :: rest :: (run ++ e :: post) }, minAddress,
      start_b, address, ?_, ⟨?_, laid.le, laid.last, laid.inside⟩, rfl, ?_⟩
    · exact splitHole_eq room table index (by simp [index, lastindex])
    · -- the block ends inside the old hole, whose other entries keep their places
      have tail : Walk (b + numOf size) (b + r.numOfPages) run (b + numOf size)
          (b + pagesOf (r :: run)) := by
        cases inside with
        | live _ _ live =>
          rw [hole.cut.freed r (by simp)] at live
          cases live
        | freed _ _ _ walk => exact walk.rebase freed
      have next : Walk (b + numOf size) (b + pagesOf (r :: run)) (e :: post) q p :=
        .live (by omega) address hole.live (by omega) len after
      have split : b + numOf size + rest.numOfPages = b + r.numOfPages := by
        simp only [rest]
        ring
      refine before.append
        (.live start_b ?_ rfl (le_refl _) (by simp [block]) (.freed ?_ ?_ rfl ?_))
      · simpa [block, r_address] using minAddress
      · simp only [block]
        omega
      · simpa [rest, block] using restAddress
      · simp only [block]
        rw [split]
        exact tail.append next
    · rw [table]
      simp only [records_append, records_cons_live (e := block) rfl,
        records_cons_freed (e := rest) rfl, records_cons_freed (hole.cut.freed r (by simp))]
      simp only [block, r_address]
      exact List.perm_middle

/-- The scan comes back with a hole exactly when one fits. -/
theorem Best.none_iff {h : UserHeap} {size : Nat} {min : Int} {fit : Option Fit}
    (best : Best (numOf size) h.entries min fit) : fit = Option.none ↔ ¬ h.HoleFits size := by
  constructor
  · rintro nothing ⟨pre, run, e, post, hole, fits, small⟩
    have least := best.least hole fits
    rw [best.none nothing] at least
    omega
  · intro misfit
    cases found : fit with
    | none => rfl
    | some t =>
      obtain ⟨small, fits, pre, run, e, post, hole, pages, -⟩ := best.some t found
      exact absurd ⟨pre, run, e, post, hole, pages ▸ fits, pages ▸ small⟩ misfit

theorem Laid.lastAddres_le {h : UserHeap} {q p : Int} (laid : Laid h q p) :
    userHeapStart ≤ h.lastAddres ∧ h.lastAddres ≤ userHeapMax := by
  have start := laid.walk.le
  have le := laid.le
  have last := laid.last
  have inside := laid.inside
  simp only [heapPages, userHeapMax, userHeapStart, pageSize] at *
  omega

/-- The limit check of the second append path. -/
theorem Laid.limit_iff {h : UserHeap} {q p : Int} (laid : Laid h q p) (size : Nat) :
    size > uint32 ((userHeapMax : Int) - h.lastAddres) ↔ size + h.lastAddres > userHeapMax := by
  have bounds := laid.lastAddres_le
  have rest : (uint32 ((userHeapMax : Int) - h.lastAddres) : Int) =
      (userHeapMax : Int) - h.lastAddres := by
    simp only [userHeapMax, userHeapStart] at *
    exact uint32_of_nonneg (by omega) (by omega)
  omega

theorem Laid.turnsDown_iff {h : UserHeap} {q p : Int} (laid : Laid h q p) (size : Nat) :
    h.TurnsDown size ↔ h.Refuses size := by
  rw [TurnsDown, Refuses, laid.limit_iff]

/-- When it returns NULL, `malloc` does nothing else. -/
theorem malloc_turnsDown {h : UserHeap} {size : Nat} (down : h.TurnsDown size) :
    h.malloc size = some (0, [], h) := by
  rw [malloc]
  rcases down with large | ⟨freed, misfit, large⟩
  · rw [if_pos large]
  · split
    · rfl
    · rw [(scan_start_best (numOf size) h.entries).none_iff.mpr misfit]

theorem Laid.malloc_refuses {h : UserHeap} {q p : Int} (laid : Laid h q p) {size : Nat}
    (refuses : h.Refuses size) : h.malloc size = some (0, [], h) :=
  malloc_turnsDown ((laid.turnsDown_iff size).mpr refuses)

/-- Without a hole that fits, a block goes after all others. -/
theorem Laid.malloc_append {h : UserHeap} {q p : Int} (laid : Laid h q p) {size : Nat}
    (accepts : ¬ h.Refuses size) (no_hole : h.changes = 0 ∨ ¬ h.HoleFits size) :
    h.malloc size = h.appendBlock size := by
  rw [Refuses, not_or] at accepts
  rw [malloc, if_neg accepts.1]
  split
  · rfl
  · rename_i freed
    have misfit := no_hole.resolve_left freed
    rw [(scan_start_best (numOf size) h.entries).none_iff.mpr misfit]
    simp only
    rw [if_neg]
    rw [laid.limit_iff]
    exact fun large => accepts.2 ⟨freed, misfit, large⟩

/-- With one, it goes to a smallest hole, which is below 4000 pages. -/
theorem malloc_hole {h : UserHeap} {size : Nat} (small : size ≤ userHeapMax - userHeapStart)
    (freed : h.changes ≠ 0) (fits : h.HoleFits size) :
    ∃ fit pre run e post, h.malloc size = h.splitHole size fit ∧
      Hole h.entries pre run e post ∧ (numOf size : Int) ≤ pagesOf run ∧ pagesOf run < 4000 ∧
      (∀ {pre' run' e' post'}, Hole h.entries pre' run' e' post' → numOf size ≤ pagesOf run' →
        pagesOf run ≤ pagesOf run') ∧
      fit.index = pre.length ∧ fit.lastindex = pre.length + run.length ∧
      fit.minAddresss = uint32 (e.address - pagesOf run * pageSize) := by
  have best := scan_start_best (numOf size) h.entries
  cases found : (scan (numOf size) .start 0 h.entries).fit with
  | none => exact absurd fits (best.none_iff.mp found)
  | some fit =>
    obtain ⟨below, enough, pre, run, e, post, hole, pages, index, lastindex, start⟩ :=
      best.some fit found
    rw [← pages] at below enough start
    refine ⟨fit, pre, run, e, post, ?_, hole, enough, below, fun hole' fits' => ?_, index,
      lastindex, start⟩
    · rw [malloc, if_neg (by omega), if_neg freed, found]
    · rw [pages]
      exact best.least hole' fits'

/-- What `malloc` does, whatever the table is like. -/
theorem malloc_places (h : UserHeap) (size : Nat) :
    h.malloc size = some (0, [], h) ∨ size ≤ userHeapMax - userHeapStart ∧
      (h.malloc size = h.appendBlock size ∨
        ∃ fit pre run e post, h.malloc size = h.splitHole size fit ∧
          Hole h.entries pre run e post ∧ (numOf size : Int) ≤ pagesOf run ∧ pagesOf run < 4000 ∧
          fit.index = pre.length ∧ fit.lastindex = pre.length + run.length ∧
          fit.minAddresss = uint32 (e.address - pagesOf run * pageSize)) := by
  rcases h.malloc_paths size with null | ⟨small, append | ⟨fit, found, split⟩⟩
  · exact Or.inl null
  · exact Or.inr ⟨small, Or.inl append⟩
  · obtain ⟨below, enough, pre, run, e, post, hole, pages, index, lastindex, start⟩ :=
      (scan_start_best (numOf size) h.entries).some fit found
    rw [← pages] at below enough start
    exact Or.inr ⟨small, Or.inr ⟨fit, pre, run, e, post, split, hole, enough, below, index,
      lastindex, start⟩⟩

/-- **A sound `malloc`** returns NULL or adds one live record to the layout. -/
theorem Laid.malloc {h : UserHeap} {q p : Int} (laid : Laid h q p) {size : Nat}
    (sound : h.Sound size) :
    (h.Refuses size ∧ h.malloc size = some (0, [], h)) ∨
    ∃ ptr h' q' p', ¬ h.Refuses size ∧
      h.malloc size = some (ptr, [.allocateMem ptr size], h') ∧ ptr ≠ 0 ∧ Laid h' q' p' ∧
      h'.changes = h.changes ∧
      (records h'.entries).Perm ((ptr, (numOf size : Int)) :: records h.entries) := by
  by_cases refuses : h.Refuses size
  · exact Or.inl ⟨refuses, laid.malloc_refuses refuses⟩
  obtain ⟨room, first, whole⟩ := sound.resolve_left refuses
  have bounds := laid.lastAddres_le
  refine Or.inr ?_
  by_cases hole : h.changes ≠ 0 ∧ h.HoleFits size
  · have small : size ≤ userHeapMax - userHeapStart := by
      by_contra large
      exact refuses (Or.inl (not_le.mp large))
    obtain ⟨fit, pre, run, e, post, run_eq, hole_at, enough, -, -, index, lastindex, start⟩ :=
      malloc_hole small hole.1 hole.2
    obtain ⟨b, h', address, b_nonneg, -, split, laid', changes, perm⟩ :=
      laid.splitHole room (whole hole.1 hole.2).1 (whole hole.1 hole.2).2 hole_at enough index
        lastindex start
    refine ⟨fit.minAddresss, h', q, p, refuses, run_eq.trans split, ?_, laid', changes, perm⟩
    simp only [userHeapStart, pageSize] at address
    omega
  · have no_hole : h.changes = 0 ∨ ¬ h.HoleFits size := by
      rw [not_and_or, not_not] at hole
      exact hole
    have fits : h.lastAddres + numOf size * pageSize ≤ userHeapMax := by
      rcases no_hole with never | misfit
      · exact first never
      · -- the limit check is for the size in bytes, but the heap ends at a page boundary
        by_cases never : h.changes = 0
        · exact first never
        · have small : ¬ size + h.lastAddres > userHeapMax :=
            fun large => refuses (Or.inr ⟨never, misfit, large⟩)
          have last := laid.last
          have up := numOf_lt size
          simp only [userHeapMax, userHeapStart, pageSize] at *
          omega
    obtain ⟨h', append, laid', changes, appended⟩ := laid.appendBlock room fits
    refine ⟨h.lastAddres, h', _, _, refuses, (laid.malloc_append refuses no_hole).trans append,
      ?_, laid', changes, ?_⟩
    · simp only [userHeapStart] at bounds
      omega
    · rw [appended]
      exact List.perm_append_singleton _ _

/-- `free` takes the first live entry of the address for a part of a hole, if there is one. -/
theorem free_cases (h : UserHeap) (va : Nat) :
    ((∀ e ∈ h.entries, e.address = va → e.changed = false) ∧ h.free va = ([], h)) ∨
    ∃ pre e post, h.entries = pre ++ e :: post ∧ e.address = va ∧ e.changed = true ∧
      h.free va = ([.freeMem va (uint32 (e.numOfPages * pageSize))],
        { h with
          changes := h.changes + 1
          entries := pre ++ { e with changed := false } :: post }) := by
  cases found : h.entries.findIdx? fun e => e.address = va ∧ e.changed = true with
  | none =>
    refine Or.inl ⟨fun e mem address => ?_, by rw [UserHeap.free, found]⟩
    have absent := List.findIdx?_eq_none_iff.mp found e mem
    simpa [address] using absent
  | some index =>
    obtain ⟨lt, here, -⟩ := List.findIdx?_eq_some_iff_getElem.mp found
    simp only [decide_eq_true_eq] at here
    obtain ⟨pre, e, post, table, length, e_eq⟩ : ∃ pre e post,
        h.entries = pre ++ e :: post ∧ pre.length = index ∧ h.entries[index] = e :=
      ⟨h.entries.take index, h.entries[index], h.entries.drop (index + 1), by simp,
        by simp [lt.le], rfl⟩
    rw [e_eq] at here
    have entry : h.entries[index]? = some e := by rw [List.getElem?_eq_getElem lt, e_eq]
    have set : h.entries.set index { e with changed := false } =
        pre ++ { e with changed := false } :: post := by
      rw [table, ← length]
      simp
    refine Or.inr ⟨pre, e, post, table, here.1, here.2, ?_⟩
    rw [UserHeap.free, found]
    simp only [entry]
    rw [set]

/-- **`free`** of a live block's address deletes a live record of that address; of any
other address it does nothing. -/
theorem Laid.free {h : UserHeap} {q p : Int} (laid : Laid h q p) (va : Nat) :
    ((∀ n, (va, n) ∉ records h.entries) ∧ h.free va = ([], h)) ∨
    ∃ n h' q', h.free va = ([.freeMem va (uint32 (n * pageSize))], h') ∧ Laid h' q' p ∧
      h'.changes = h.changes + 1 ∧ (records h.entries).Perm ((va, n) :: records h'.entries) := by
  rcases h.free_cases va with ⟨none, run⟩ | ⟨pre, e, post, table, address, live, run⟩
  · refine Or.inl ⟨fun n member => ?_, run⟩
    obtain ⟨e, he, eq⟩ := List.mem_map.mp member
    obtain ⟨mem, live⟩ := List.mem_filter.mp he
    rw [none e mem (congrArg Prod.fst eq)] at live
    cases live
  · let freed : HeapEntry := { e with changed := false }
    have walk := laid.walk
    rw [table] at walk
    obtain ⟨q₁, p₁, before, rest⟩ := walk.split
    obtain ⟨q₂, le₂, walk'⟩ : ∃ q₂, q₂ ≤ q ∧ Walk q₁ p₁ (freed :: post) q₂ p := by
      cases rest with
      | live pos at_ _ le len rest =>
        obtain ⟨q₂, le₂, rest⟩ := rest.lower (show q₁ ≤ _ by omega)
        exact ⟨q₂, le₂, .freed pos at_ rfl rest⟩
      | freed _ _ free =>
        rw [live] at free
        cases free
    refine Or.inr ⟨e.numOfPages, { h with
      changes := h.changes + 1, entries := pre ++ freed :: post }, q₂, run,
      ⟨before.append walk', le_trans le₂ laid.le, laid.last, laid.inside⟩, rfl, ?_⟩
    rw [table]
    simp only [records_append, records_cons_live live, address,
      records_cons_freed (e := freed) rfl]
    exact List.perm_middle

end Fos.UserHeap
