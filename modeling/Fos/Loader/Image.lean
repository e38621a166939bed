import Fos.Loader.Contents

/-!
# The pages of a segment

`env_create` writes a segment to the page file in four pieces: the first page, the pages up
to the last one with bytes of the file, this one, and pages of zeroes.

* `ProgramSegment.stored`: the pages in the order in which they are written;
* `Holds.writeSegment`: the kernel writes these;
* `Fits.stored_own`, `Fits.stored_other`: the bytes that the pages of the segment have then,
  and what becomes of the pages of others.
-/

namespace Fos

open Exec

variable {s s' : Kernel} {e n va : Nat} {c c' : Contents} {E : Stop → Kernel → Prop}

/-! ## Pages that are added one after the other -/

/-- The pages `l` are stored in the page file, in this order. -/
def Contents.addAll (c : Contents) (l : List (Nat × Page)) : Contents :=
  l.foldl (fun c x => c.setFile x.1 x.2) c

theorem Contents.addAll_append (c : Contents) (l l' : List (Nat × Page)) :
    c.addAll (l ++ l') = (c.addAll l).addAll l' := List.foldl_append ..

@[simp] theorem Contents.addAll_frames (c : Contents) (l : List (Nat × Page)) :
    (c.addAll l).frames = c.frames := by
  induction l generalizing c with
  | nil => rfl
  | cons x l ih => exact ih (c.setFile x.1 x.2)

theorem Contents.addAll_file_of_notMem {l : List (Nat × Page)} {q : Nat}
    (out : q ∉ l.map Prod.fst) : (c.addAll l).file q = c.file q := by
  induction l generalizing c with
  | nil => rfl
  | cons x l ih =>
    rw [List.map_cons, List.mem_cons, not_or] at out
    refine (ih out.2).trans ?_
    exact Function.update_of_ne out.1 ..

/-- The page stored last counts. -/
theorem Contents.addAll_file {l l' : List (Nat × Page)} {q : Nat} {p : Page}
    (out : q ∉ l'.map Prod.fst) : (c.addAll (l ++ (q, p) :: l')).file q = some p := by
  rw [Contents.addAll_append]
  refine (Contents.addAll_file_of_notMem (c := (c.addAll l).setFile q p) out).trans ?_
  exact Function.update_self ..

namespace Holds

/-- `pf_add_env_page` with the check of its result. -/
theorem addChecked {data : Page} {Q : Unit → Kernel → Prop} (holds : Holds e n c s)
    (lt : va < userTop)
    (done : ∀ s', Holds e (n - 2) (c.setFile (va / pageSize) data) s' → Q () s')
    (stops : n < 2 → ∀ x s', E x s') :
    wp (pfAddEnvPage e va data) (fun r s' => wp (checkPageFile r) Q E s') E s := by
  apply holds.add lt
  · intro s₁ holds₁
    rw [checkPageFile, wp_ite, if_neg (by decide)]
    exact done s₁ holds₁
  · intro s₁ none _
    rw [checkPageFile, wp_ite, if_pos rfl]
    exact stops (by omega) _ _
  · exact fun s₁ few => stops few _ _

/-- A page of zeroes is added. -/
theorem addZeroes {Q : Unit → Kernel → Prop} (holds : Holds e n c s) (lt : va < userTop)
    (done : ∀ s', Holds e (n - 2) (c.setFile (va / pageSize) zeroes) s' → Q () s')
    (stops : n < 2 → ∀ x s', E x s') :
    wp (pfAddEmptyEnvPage e va true) (fun r s' => wp (checkPageFile r) Q E s') E s := by
  have zero : s.mem zeroPage = zeroes := by
    obtain ⟨v, loading, -⟩ := holds
    rw [← loading.zero]
    exact loading.rep.mem loading.rep.zeroPage
  simp only [pfAddEmptyEnvPage, if_true, wp_bind, wp_get, zero]
  exact holds.addChecked lt done stops

/-- A loop that stores a page in each pass. -/
theorem addLoop {k : Nat} {body : Nat → Prog Unit} {q : Nat → Nat} {p : Nat → Page}
    {Q : Unit → Kernel → Prop}
    (pass : ∀ i < k, ∀ n c s, Holds e n c s → (n < 2 → ∀ x s', E x s') →
      wp (body i) (fun _ s' => Holds e (n - 2) (c.setFile (q i) (p i)) s') E s)
    (holds : Holds e n c s) (stops : n < 2 * k → ∀ x s', E x s')
    (done : ∀ s', Holds e (n - 2 * k) (c.addAll ((List.range k).map fun i => (q i, p i))) s' →
      Q () s') : wp ((List.range k).forM body) Q E s := by
  refine wp_forM (fun rest s' => ∃ before, List.range k = before ++ rest ∧
    Holds e (n - 2 * before.length) (c.addAll (before.map fun i => (q i, p i))) s') ?_ ?_ ?_
  · rintro i rest s₁ ⟨before, split_, holds₁⟩
    have length : before.length < k := by
      have all := congrArg List.length split_
      simp only [List.length_range, List.length_append, List.length_cons] at all
      omega
    have lt : i < k := List.mem_range.mp (split_ ▸ by simp)
    refine wp_mono (pass i lt _ _ _ holds₁ fun few => stops (by omega)) (fun _ s₂ holds₂ => ?_)
      fun _ _ h => h
    refine ⟨before ++ [i], by simp [split_], ?_⟩
    rw [List.map_append, Contents.addAll_append, List.length_append, List.length_singleton,
      Nat.mul_add, Nat.mul_one, ← Nat.sub_sub]
    exact holds₂
  · rintro s₁ ⟨before, split_, holds₁⟩
    rw [List.append_nil] at split_
    rw [← split_, List.length_range] at holds₁
    exact done s₁ holds₁
  · exact ⟨[], rfl, holds⟩

end Holds

/-! ## Writing a segment to the page file -/

namespace ProgramSegment

variable (seg : ProgramSegment)

/-- The segment ends below the page of the stack. -/
structure Fits : Prop where
  file : seg.sizeInFile ≤ seg.sizeInMemory
  below : seg.virtualAddress + seg.sizeInMemory ≤ ustackTop - pageSize

instance : Decidable seg.Fits :=
  decidable_of_iff (seg.sizeInFile ≤ seg.sizeInMemory ∧
    seg.virtualAddress + seg.sizeInMemory ≤ ustackTop - pageSize)
    ⟨fun fits => ⟨fits.1, fits.2⟩, fun fits => ⟨fits.file, fits.below⟩⟩

/-- The bytes of the first page. -/
def first : Nat := roundUp seg.virtualAddress - seg.virtualAddress

/-- Where the first page with zeroes only is. -/
def startRemaining : Nat := roundUp ((seg.virtualAddress + seg.sizeInFile) % word32)

def startLast : Nat := roundDown ((seg.virtualAddress + seg.sizeInFile) % word32)

/-- The pages between the first and the last one with bytes of the file. -/
def middle : Nat := (seg.startLast - roundUp seg.virtualAddress) / pageSize

/-- The pages with zeroes only. -/
def rest : Nat :=
  roundUp (uint32 ((seg.virtualAddress + seg.sizeInMemory : Int) - seg.startRemaining)) / pageSize

/-- The pages that the segment is written as, in order. -/
def stored : List (Nat × Page) :=
  (roundDown seg.virtualAddress / pageSize, tempPageOf seg.ptrStart
    (seg.virtualAddress - roundDown seg.virtualAddress) seg.first) ::
  ((List.range seg.middle).map fun i => ((roundUp seg.virtualAddress + i * pageSize) / pageSize,
    pageOfBytes fun k => seg.ptrStart (seg.first + i * pageSize + k))) ++
  (seg.startLast / pageSize, tempPageOf
    (fun k => seg.ptrStart (seg.first + seg.middle * pageSize + k)) 0
    ((seg.virtualAddress + seg.sizeInFile) % word32 - seg.startLast)) ::
  (List.range seg.rest).map fun i =>
    ((seg.startRemaining + i * pageSize) % word32 / pageSize, zeroes)

variable {seg}

theorem Fits.startLast (fits : seg.Fits) : seg.startLast =
    (seg.virtualAddress + seg.sizeInFile) / pageSize * pageSize := by
  have file := fits.file
  have below := fits.below
  simp only [ProgramSegment.startLast, roundDown, ustackTop, pageSize, word32] at *
  omega

theorem Fits.roundUp (fits : seg.Fits) : Fos.roundUp seg.virtualAddress =
    (seg.virtualAddress + pageSize - 1) / pageSize * pageSize := by
  have below := fits.below
  simp only [Fos.roundUp, roundDown, ustackTop, pageSize, word32] at *
  omega

theorem Fits.startRemaining (fits : seg.Fits) : seg.startRemaining =
    (seg.virtualAddress + seg.sizeInFile + pageSize - 1) / pageSize * pageSize := by
  have file := fits.file
  have below := fits.below
  simp only
    [ProgramSegment.startRemaining, Fos.roundUp, roundDown, ustackTop, pageSize, word32] at *
  omega

theorem Fits.rest (fits : seg.Fits) : seg.rest =
    (seg.virtualAddress + seg.sizeInMemory + pageSize - 1) / pageSize -
      seg.startRemaining / pageSize := by
  have file := fits.file
  have below := fits.below
  have start := fits.startRemaining
  rw [ProgramSegment.rest]
  generalize seg.startRemaining = r at start ⊢
  simp only [Fos.roundUp, roundDown, uint32, ustackTop, pageSize, word32] at *
  omega

/-! The pages that are written are below `USER_TOP`. -/

theorem Fits.first_lt (fits : seg.Fits) : roundDown seg.virtualAddress < userTop := by
  have below := fits.below
  simp only [roundDown, userTop, ustackTop, pageSize] at *
  omega

theorem Fits.middle_lt {i : Nat} (fits : seg.Fits) (lt : i < seg.middle) :
    Fos.roundUp seg.virtualAddress + i * pageSize < userTop := by
  have file := fits.file
  have below := fits.below
  have up := fits.roundUp
  rw [ProgramSegment.middle, fits.startLast, up] at lt
  rw [up]
  simp only [userTop, ustackTop, pageSize] at *
  omega

theorem Fits.last_lt (fits : seg.Fits) : seg.startLast < userTop := by
  have file := fits.file
  have below := fits.below
  rw [fits.startLast]
  simp only [userTop, ustackTop, pageSize] at *
  omega

theorem Fits.rest_lt {i : Nat} (fits : seg.Fits) (lt : i < seg.rest) :
    (seg.startRemaining + i * pageSize) % word32 < userTop := by
  have file := fits.file
  have below := fits.below
  have remaining := fits.startRemaining
  rw [fits.rest, remaining] at lt
  rw [remaining]
  simp only [userTop, ustackTop, pageSize, word32] at *
  omega

end ProgramSegment

namespace Holds

theorem writeSegment {seg : ProgramSegment} (holds : Holds e n c s) (fits : seg.Fits)
    (stops : n < 2 * seg.stored.length → ∀ x s', E x s') :
    wp (writeSegment e seg)
      (fun _ s' => Holds e (n - 2 * seg.stored.length) (c.addAll seg.stored) s') E s := by
  have length : seg.stored.length = seg.middle + seg.rest + 2 := by
    simp only [ProgramSegment.stored, List.length_cons, List.length_append, List.length_map,
      List.length_range]
    omega
  rw [length] at stops ⊢
  have self : ∀ (t : Kernel) (p : Page), (t.setPage tempPage p).mem tempPage = p := fun t p => by
    simp [Kernel.setPage]
  simp only [Fos.writeSegment, wp_bind, wp_writePage, wp_get, self]
  have written := holds.writeTemp (tempPageOf seg.ptrStart
    (seg.virtualAddress - roundDown seg.virtualAddress) seg.first)
  refine written.addChecked fits.first_lt (fun s₁ holds₁ => ?_) fun few => stops (by omega)
  refine holds₁.addLoop (k := seg.middle)
    (q := fun i => (roundUp seg.virtualAddress + i * pageSize) / pageSize)
    (p := fun i => pageOfBytes fun k => seg.ptrStart (seg.first + i * pageSize + k))
    (fun i lt m c' t holds' stops' => ?_) (fun few => stops (by omega)) fun s₂ holds₂ => ?_
  · rw [wp_bind]
    exact holds'.addChecked (fits.middle_lt lt) (fun _ h => h) stops'
  have written₂ := holds₂.writeTemp (tempPageOf
    (fun k => seg.ptrStart (seg.first + seg.middle * pageSize + k)) 0
      ((seg.virtualAddress + seg.sizeInFile) % word32 - seg.startLast))
  refine written₂.addChecked fits.last_lt (fun s₃ holds₃ => ?_) fun few => stops (by omega)
  refine holds₃.addLoop (k := seg.rest)
    (q := fun i => (seg.startRemaining + i * pageSize) % word32 / pageSize) (p := fun _ => zeroes)
    (fun i lt m c' t holds' stops' => ?_) (fun few => stops (by omega)) fun s₄ holds₄ => ?_
  · rw [wp_bind]
    exact holds'.addZeroes (fits.rest_lt lt) (fun _ h => h) stops'
  have frames :
      n - 2 - 2 * seg.middle - 2 - 2 * seg.rest = n - 2 * (seg.middle + seg.rest + 2) := by
    omega
  rw [frames] at holds₄
  have same : c.addAll seg.stored = ((c.setFile (roundDown seg.virtualAddress / pageSize)
      (tempPageOf seg.ptrStart (seg.virtualAddress - roundDown seg.virtualAddress)
      seg.first)).addAll
        _).addAll (_ :: _) := Contents.addAll_append ..
  rw [same]
  exact holds₄

end Holds


/-! ## What is in the page file then -/

/-- The page that all that are stored under a number agree on. -/
theorem Contents.addAll_file_of_mem {l : List (Nat × Page)} {q : Nat} {p : Page}
    (mem : q ∈ l.map Prod.fst) (same : ∀ x ∈ l, x.1 = q → x.2 = p) :
    (c.addAll l).file q = some p := by
  induction l generalizing c with
  | nil => cases mem
  | cons x l ih =>
    by_cases later : q ∈ l.map Prod.fst
    · exact ih later fun y mem' => same y (List.mem_cons_of_mem _ mem')
    · have here : q = x.1 := by
        rw [List.map_cons, List.mem_cons] at mem
        exact mem.resolve_right later
      refine (Contents.addAll_file_of_notMem later).trans ?_
      rw [← same x (List.mem_cons_self ..) here.symm, here]
      exact Function.update_self ..

theorem byte_tempPageOf (src : Nat → BitVec 8) (offset count : Nat) {k : Nat} (lt : k < pageSize) :
    (tempPageOf src offset count).byte k =
      if offset ≤ k ∧ k < offset + count then src (k - offset) else 0 :=
  byte_pageOfBytes _ lt

theorem tempPageOf_zero (src : Nat → BitVec 8) (offset : Nat) :
    tempPageOf src offset 0 = zeroes := by
  refine Page.ext_byte fun k lt => ?_
  rw [byte_tempPageOf _ _ _ lt, byte_zeroes, if_neg (by omega)]

namespace ProgramSegment

/-- The page `q` is one of those of the segment. -/
def Occupies (seg : ProgramSegment) (q : Nat) : Prop :=
  seg.virtualAddress / pageSize ≤ q ∧ q * pageSize < seg.virtualAddress + seg.sizeInMemory

/-- The bytes of the file end in the first page, which the segment does not begin. -/
def Short (seg : ProgramSegment) : Prop :=
  seg.virtualAddress % pageSize ≠ 0 ∧
    seg.virtualAddress % pageSize + seg.sizeInFile < pageSize

instance (seg : ProgramSegment) : Decidable seg.Short := inferInstanceAs (Decidable (_ ∧ _))

/-- The byte at the offset `k` of the segment. -/
def imageByte (seg : ProgramSegment) (k : Nat) : BitVec 8 :=
  if k < seg.sizeInFile then seg.ptrStart k else 0

/-- The byte that the segment itself stores for the offset `k`. -/
def storedByte (seg : ProgramSegment) (k : Nat) : BitVec 8 :=
  if seg.Short ∧ k < seg.sizeInFile then seg.ptrStart (pageSize + k) else seg.imageByte k

/-- The page behind the segment gets zeroes if the segment and its file end there. -/
def Extra (seg : ProgramSegment) (q : Nat) : Prop :=
  seg.virtualAddress + seg.sizeInFile = q * pageSize ∧ seg.sizeInMemory = seg.sizeInFile

/-- The first page that the segment begins. -/
def upNo (seg : ProgramSegment) : Nat := (seg.virtualAddress + pageSize - 1) / pageSize

/-- The page in which the bytes of the file end. -/
def lastNo (seg : ProgramSegment) : Nat := (seg.virtualAddress + seg.sizeInFile) / pageSize

/-- The first page of zeroes only. -/
def restNo (seg : ProgramSegment) : Nat :=
  (seg.virtualAddress + seg.sizeInFile + pageSize - 1) / pageSize

/-- The end of the pages. -/
def endNo (seg : ProgramSegment) : Nat :=
  (seg.virtualAddress + seg.sizeInMemory + pageSize - 1) / pageSize

def firstPage (seg : ProgramSegment) : Page :=
  tempPageOf seg.ptrStart (seg.virtualAddress % pageSize)
    (seg.upNo * pageSize - seg.virtualAddress)

def middlePage (seg : ProgramSegment) (i : Nat) : Page :=
  pageOfBytes fun k => seg.ptrStart (seg.upNo * pageSize - seg.virtualAddress + i * pageSize + k)

def lastPage (seg : ProgramSegment) : Page :=
  tempPageOf (fun k => seg.ptrStart (seg.upNo * pageSize - seg.virtualAddress +
    (seg.lastNo - seg.upNo) * pageSize + k)) 0
    (seg.virtualAddress + seg.sizeInFile - seg.lastNo * pageSize)

/-- Where the pages are. -/
theorem numbers (seg : ProgramSegment) :
    seg.virtualAddress ≤ seg.upNo * pageSize ∧
      seg.upNo * pageSize < seg.virtualAddress + pageSize ∧
      seg.lastNo * pageSize ≤ seg.virtualAddress + seg.sizeInFile ∧
      seg.virtualAddress + seg.sizeInFile < seg.lastNo * pageSize + pageSize ∧
      seg.virtualAddress + seg.sizeInFile ≤ seg.restNo * pageSize ∧
      seg.restNo * pageSize < seg.virtualAddress + seg.sizeInFile + pageSize ∧
      seg.virtualAddress + seg.sizeInMemory ≤ seg.endNo * pageSize ∧
      seg.endNo * pageSize < seg.virtualAddress + seg.sizeInMemory + pageSize := by
  simp only [upNo, lastNo, restNo, endNo, pageSize]
  omega

theorem firstPage_zero (seg : ProgramSegment) (none : seg.upNo * pageSize ≤ seg.virtualAddress) :
    seg.firstPage = zeroes := by
  rw [firstPage, Nat.sub_eq_zero_of_le none]
  exact tempPageOf_zero ..

theorem lastPage_zero (seg : ProgramSegment)
    (none : seg.virtualAddress + seg.sizeInFile ≤ seg.lastNo * pageSize) :
    seg.lastPage = zeroes := by
  rw [lastPage, Nat.sub_eq_zero_of_le none]
  exact tempPageOf_zero ..

variable {seg : ProgramSegment} {q : Nat}

/-- The pages of the segment by their numbers. -/
theorem Fits.stored_eq (fits : seg.Fits) : seg.stored =
    ((seg.virtualAddress / pageSize, seg.firstPage) ::
      (List.range (seg.lastNo - seg.upNo)).map fun i => (seg.upNo + i, seg.middlePage i)) ++
    (seg.lastNo, seg.lastPage) ::
      (List.range (seg.endNo - seg.restNo)).map fun i => (seg.restNo + i, zeroes) := by
  have file := fits.file
  have below := fits.below
  have up : Fos.roundUp seg.virtualAddress = seg.upNo * pageSize := fits.roundUp
  have last : seg.startLast = seg.lastNo * pageSize := fits.startLast
  have remaining : seg.startRemaining = seg.restNo * pageSize := fits.startRemaining
  have wraps : (seg.virtualAddress + seg.sizeInFile) % word32 =
      seg.virtualAddress + seg.sizeInFile := by
    apply Nat.mod_eq_of_lt
    simp only [ustackTop, pageSize, word32] at *
    omega
  have down :
      seg.virtualAddress - roundDown seg.virtualAddress = seg.virtualAddress % pageSize := by
    rw [roundDown]
    have le := Nat.mod_le seg.virtualAddress pageSize
    omega
  have middle : seg.middle = seg.lastNo - seg.upNo := by
    rw [ProgramSegment.middle, last, up, ← Nat.sub_mul, Nat.mul_div_cancel _ (by decide)]
  have rest : seg.rest = seg.endNo - seg.restNo := by
    rw [fits.rest, remaining, Nat.mul_div_cancel _ (by decide), endNo]
  have first : seg.first = seg.upNo * pageSize - seg.virtualAddress := by
    rw [ProgramSegment.first, up]
  have downNo : roundDown seg.virtualAddress / pageSize = seg.virtualAddress / pageSize := by
    simp only [roundDown, pageSize]
    omega
  have number : ∀ n i, (n * pageSize + i * pageSize) / pageSize = n + i := fun n i => by
    rw [← Nat.add_mul, Nat.mul_div_cancel _ (by decide)]
  have zeroesNo : ((List.range (seg.endNo - seg.restNo)).map fun i =>
      ((seg.restNo * pageSize + i * pageSize) % word32 / pageSize, zeroes)) =
        (List.range (seg.endNo - seg.restNo)).map fun i => (seg.restNo + i, zeroes) := by
    refine List.map_congr_left fun i mem => ?_
    have lt := List.mem_range.mp mem
    have numbers := seg.numbers
    have small : (seg.restNo * pageSize + i * pageSize) % word32 =
        seg.restNo * pageSize + i * pageSize := by
      apply Nat.mod_eq_of_lt
      simp only [ustackTop, pageSize, word32] at *
      omega
    rw [small, number]
  rw [stored, last, up, remaining, middle, rest, down, first, downNo, wraps,
    Nat.mul_div_cancel _ (by decide), zeroesNo]
  simp only [number]
  rfl

/-- The pages of others stay, but for one of zeroes. -/
theorem Fits.stored_other (fits : seg.Fits) (c : Contents) (out : ¬ seg.Occupies q) :
    (seg.Extra q → (c.addAll seg.stored).file q = some zeroes) ∧
      (¬ seg.Extra q → (c.addAll seg.stored).file q = c.file q) := by
  have file := fits.file
  rw [fits.stored_eq]
  simp only [Occupies, not_and_or, not_le, not_lt, Extra] at *
  constructor
  · rintro ⟨ends, same⟩
    have here : seg.lastNo = q := by
      rw [lastNo, ends, Nat.mul_div_cancel _ (by decide)]
    have none : seg.endNo - seg.restNo = 0 := by
      rw [endNo, restNo, same, Nat.sub_self]
    have page : seg.lastPage = zeroes := seg.lastPage_zero (by rw [here, ends])
    rw [none, page, here]
    exact Contents.addAll_file (by simp)
  · intro extra
    apply Contents.addAll_file_of_notMem
    simp only [List.map_append, List.map_cons, List.map_map, List.mem_append, List.mem_cons,
      List.mem_map, List.mem_range, Function.comp, not_or, not_exists, not_and]
    refine ⟨⟨?_, fun i lt eq => ?_⟩, ?_, fun i lt eq => ?_⟩
    all_goals
      simp only [lastNo, upNo, restNo, endNo, pageSize] at *
      omega

/-- A page of zeroes is stored last. -/
theorem Fits.stored_zeroes (fits : seg.Fits) (c : Contents) (rest : seg.restNo ≤ q)
    (lt : q < seg.endNo) : (c.addAll seg.stored).file q = some zeroes := by
  have file := fits.file
  have numbers := seg.numbers
  rw [fits.stored_eq]
  apply Contents.addAll_file_of_mem
  · simp only [List.map_append, List.map_cons, List.map_map, List.mem_append, List.mem_cons,
      List.mem_map, List.mem_range, Function.comp]
    exact Or.inr (Or.inr ⟨q - seg.restNo, by omega, Nat.add_sub_cancel' rest⟩)
  · rintro ⟨q', p⟩ mem rfl
    simp only [List.mem_append, List.mem_cons, List.mem_map, List.mem_range, Prod.mk.injEq] at mem
    rcases mem with (⟨first, rfl⟩ | ⟨i, lt', here, -⟩) | ⟨last, rfl⟩ | ⟨i, -, -, rfl⟩
    · exact seg.firstPage_zero (by simp only [pageSize] at *; omega)
    · simp only [pageSize] at *
      omega
    · exact seg.lastPage_zero (by simp only [pageSize] at *; omega)
    · rfl

/-- The page in which the bytes of the file end. -/
theorem Fits.stored_last (fits : seg.Fits) (c : Contents) (lt : seg.lastNo < seg.restNo) :
    (c.addAll seg.stored).file seg.lastNo = some seg.lastPage := by
  rw [fits.stored_eq]
  apply Contents.addAll_file
  simp only [List.map_map, List.mem_map, List.mem_range, Function.comp, not_exists, not_and]
  intro i _
  omega

/-- A page in the middle. -/
theorem Fits.stored_middle (fits : seg.Fits) (c : Contents) (up : seg.upNo ≤ q)
    (lt : q < seg.lastNo) :
    (c.addAll seg.stored).file q = some (seg.middlePage (q - seg.upNo)) := by
  have numbers := seg.numbers
  rw [fits.stored_eq, Contents.addAll_append, Contents.addAll_file_of_notMem]
  · refine Contents.addAll_file_of_mem (c := c.setFile (seg.virtualAddress / pageSize)
      seg.firstPage) ?_ ?_
    · simp only [List.map_map, List.mem_map, List.mem_range, Function.comp]
      exact ⟨q - seg.upNo, by omega, Nat.add_sub_cancel' up⟩
    · intro x mem here
      obtain ⟨i, -, rfl⟩ := List.mem_map.mp mem
      rw [← here, Nat.add_sub_cancel_left]
  · simp only [List.map_cons, List.map_map, List.mem_cons, List.mem_map, List.mem_range,
      Function.comp, not_or, not_exists, not_and]
    refine ⟨by omega, fun i _ => ?_⟩
    simp only [pageSize] at numbers
    omega

/-- The first page, if the bytes of the file go on behind it. -/
theorem Fits.stored_first (fits : seg.Fits) (c : Contents)
    (up : seg.virtualAddress / pageSize < seg.upNo)
    (last : seg.virtualAddress / pageSize < seg.lastNo) :
    (c.addAll seg.stored).file (seg.virtualAddress / pageSize) = some seg.firstPage := by
  have numbers := seg.numbers
  rw [fits.stored_eq, Contents.addAll_append, Contents.addAll_file_of_notMem]
  · refine Contents.addAll_file (l := []) ?_
    simp only [List.map_map, List.mem_map, List.mem_range, Function.comp, not_exists, not_and]
    intro i _
    omega
  · simp only [List.map_cons, List.map_map, List.mem_cons, List.mem_map, List.mem_range,
      Function.comp, not_or, not_exists, not_and]
    refine ⟨by omega, fun i _ => ?_⟩
    simp only [pageSize] at numbers last
    omega

/-- A page of the segment holds its bytes, or those of a page further on. -/
theorem Fits.stored_own (fits : seg.Fits) (c : Contents) {k : Nat} (lt : k < seg.sizeInMemory) :
    ∃ p, (c.addAll seg.stored).file ((seg.virtualAddress + k) / pageSize) = some p ∧
      p.byte ((seg.virtualAddress + k) % pageSize) = seg.storedByte k := by
  have file := fits.file
  have numbers := seg.numbers
  have small : (seg.virtualAddress + k) % pageSize < pageSize := Nat.mod_lt _ (by decide)
  have start : seg.virtualAddress / pageSize ≤ (seg.virtualAddress + k) / pageSize :=
    Nat.div_le_div_right (Nat.le_add_right ..)
  have split_ := (Nat.div_add_mod' (seg.virtualAddress + k) pageSize).symm
  have split' := (Nat.div_add_mod' seg.virtualAddress pageSize).symm
  generalize (seg.virtualAddress + k) / pageSize = q at split_ start ⊢
  generalize (seg.virtualAddress + k) % pageSize = j at split_ small ⊢
  have short : seg.Short ↔ seg.lastNo < seg.upNo := by
    simp only [Short, upNo, lastNo, pageSize]
    omega
  by_cases rest : seg.restNo ≤ q
  · -- a page of zeroes
    refine ⟨zeroes, fits.stored_zeroes c rest (by simp only [pageSize] at *; omega), ?_⟩
    have behind : ¬ k < seg.sizeInFile := by
      simp only [pageSize] at *
      omega
    rw [byte_zeroes, storedByte, if_neg (not_and_of_not_right _ behind), imageByte, if_neg behind]
  by_cases last : q = seg.lastNo
  · -- the last page with bytes of the file
    subst last
    refine ⟨seg.lastPage, fits.stored_last c (by omega), ?_⟩
    rw [lastPage, byte_tempPageOf _ _ _ small, storedByte, imageByte, Nat.sub_zero]
    by_cases inFile : k < seg.sizeInFile
    · rw [if_pos (by omega), if_pos inFile]
      by_cases before : seg.lastNo < seg.upNo
      · rw [if_pos ⟨short.mpr before, inFile⟩]
        congr 1
        simp only [pageSize] at *
        omega
      · rw [if_neg fun h => before (short.mp h.1)]
        congr 1
        simp only [pageSize] at *
        omega
    · rw [if_neg (by omega), if_neg (not_and_of_not_right _ inFile), if_neg inFile]
  have lt_last : q < seg.lastNo := by
    simp only [pageSize] at *
    omega
  have inFile : k < seg.sizeInFile := by
    simp only [pageSize] at *
    omega
  have long : ¬ seg.Short := by
    rw [short]
    simp only [pageSize] at *
    omega
  rw [storedByte, if_neg (not_and_of_not_left _ long), imageByte, if_pos inFile]
  by_cases up : seg.upNo ≤ q
  · -- a page in the middle
    refine ⟨_, fits.stored_middle c up lt_last, ?_⟩
    rw [middlePage, byte_pageOfBytes _ small]
    congr 1
    simp only [pageSize] at *
    omega
  · -- the first page
    have here : seg.virtualAddress / pageSize = q := by
      simp only [pageSize] at *
      omega
    refine ⟨seg.firstPage, here ▸ fits.stored_first c (by omega) (by omega), ?_⟩
    have inPage : seg.virtualAddress % pageSize ≤ j ∧
        j < seg.virtualAddress % pageSize + (seg.upNo * pageSize - seg.virtualAddress) := by
      simp only [pageSize] at *
      omega
    rw [firstPage, byte_tempPageOf _ _ _ small, if_pos inPage]
    congr 1
    simp only [pageSize] at *
    omega

end ProgramSegment

end Fos
