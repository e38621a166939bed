import Fos.Loader.Image

/-!
# Loading the segments of a program

`env_create` copies the first pages of a segment to memory, writes the whole segment to the
page file, and goes on with the next.

* `ProgramSegment.Copied`: what is in memory after the first half, `Holds.copySegment`;
* `Loads`: what the loop over the segments leaves, `Holds.loadSegments`.
-/

namespace Fos

open Exec

variable {s s' : Kernel} {e n va base count : Nat} {c c' : Contents} {b : Nat → BitVec 8}

/-! ## Writing bytes -/

/-- The bytes at `base` and behind it, in the pages that are in memory. -/
def Contents.storeBytes (c : Contents) (base count : Nat) (b : Nat → BitVec 8) : Contents :=
  { c with
    frames := fun q => (c.frames q).map fun p => pageOfBytes fun j =>
      if base ≤ q * pageSize + j ∧ q * pageSize + j < base + count
      then b (q * pageSize + j - base) else p.byte j }

theorem Contents.storeBytes_zero : c.storeBytes base 0 b = c := by
  refine Contents.ext rfl (funext fun q => ?_)
  show (c.frames q).map _ = c.frames q
  cases c.frames q with
  | none => rfl
  | some p =>
    refine congrArg some (Page.ext_byte fun j lt => ?_)
    rw [byte_pageOfBytes _ lt, if_neg (by omega)]

/-- One more byte. -/
theorem Contents.storeBytes_succ {i : Nat} {p : Page}
    (here : (c.storeBytes base i b).frames ((base + i) / pageSize) = some p) :
    (c.storeBytes base i b).setFrame ((base + i) / pageSize)
      (p.setByte ((base + i) % pageSize) (b i)) = c.storeBytes base (i + 1) b := by
  refine Contents.ext rfl (funext fun q => ?_)
  have parts := Nat.div_add_mod' (base + i) pageSize
  have small : (base + i) % pageSize < pageSize := Nat.mod_lt _ (by decide)
  show Function.update (c.storeBytes base i b).frames _ _ q = (c.frames q).map _
  rw [Function.update_apply]
  split
  · rename_i same
    rw [← same] at here parts
    obtain ⟨p₀, there, rfl⟩ := Option.map_eq_some_iff.mp here
    rw [there, Option.map_some]
    refine congrArg some (Page.ext_byte fun j lt => ?_)
    rw [Page.byte_setByte _ _ small lt, byte_pageOfBytes _ lt, byte_pageOfBytes _ lt]
    by_cases at_ : j = (base + i) % pageSize
    · rw [if_pos at_, if_pos (by omega)]
      congr 1
      omega
    · rw [if_neg at_]
      have bounds : base ≤ q * pageSize + j ∧ q * pageSize + j < base + i ↔
          base ≤ q * pageSize + j ∧ q * pageSize + j < base + (i + 1) := by omega
      simp only [bounds]
  · rename_i other
    show (c.frames q).map _ = _
    cases c.frames q with
    | none => rfl
    | some p₀ =>
      refine congrArg some (Page.ext_byte fun j lt => ?_)
      rw [byte_pageOfBytes _ lt, byte_pageOfBytes _ lt]
      have bounds : base ≤ q * pageSize + j ∧ q * pageSize + j < base + i ↔
          base ≤ q * pageSize + j ∧ q * pageSize + j < base + (i + 1) := by
        have elsewhere : q * pageSize + j ≠ base + i := fun eq => other (by
          rw [← eq, Nat.mul_comm, Nat.mul_add_div (by decide), Nat.div_eq_of_lt lt, Nat.add_zero])
        omega
      simp only [bounds]

/-- A byte that is written. -/
theorem Contents.byte_storeBytes {q j : Nat} {p : Page} (lt : j < pageSize)
    (here : (c.storeBytes base count b).frames q = some p) : ∃ p₀, c.frames q = some p₀ ∧
      p.byte j = if base ≤ q * pageSize + j ∧ q * pageSize + j < base + count
        then b (q * pageSize + j - base) else p₀.byte j := by
  obtain ⟨p₀, there, rfl⟩ := Option.map_eq_some_iff.mp here
  exact ⟨p₀, there, byte_pageOfBytes _ lt⟩

/-- The pages without one of the bytes stay. -/
theorem Contents.storeBytes_other {q : Nat}
    (out : (q + 1) * pageSize ≤ base ∨ base + count ≤ q * pageSize) :
    (c.storeBytes base count b).frames q = c.frames q := by
  show (c.frames q).map _ = c.frames q
  cases c.frames q with
  | none => rfl
  | some p =>
    refine congrArg some (Page.ext_byte fun j lt => ?_)
    rw [byte_pageOfBytes _ lt, if_neg]
    rw [Nat.add_mul] at out
    omega

namespace Holds

theorem storeByte {x : BitVec 8} {Q : Unit → Kernel → Prop} (holds : Holds e n c s)
    (lt : va < userTop)
    (done : ∀ p s', c.frames (va / pageSize) = some p →
      Holds e n (c.setFrame (va / pageSize) (p.setByte (va % pageSize) x)) s' → Q () s') :
    wp (storeByte va x) Q (fun _ _ => True) s := by
  simp only [Fos.storeByte, wp_bind]
  apply holds.kernelFrame lt
  · intro f p s₁ here there writes
    simp only [wp_get, wp_writePage, there]
    exact done p _ here (writes _)
  · trivial

/-- A loop that writes bytes. -/
theorem storeLoop (holds : Holds e n c s) (lt : base + count ≤ userTop) :
    wp ((List.range count).forM fun k => Fos.storeByte (base + k) (b k))
      (fun _ s' => Holds e n (c.storeBytes base count b) s') (fun _ _ => True) s := by
  refine wp_forM (fun rest s' => ∃ i, rest = List.range' i (count - i) ∧ i ≤ count ∧
    Holds e n (c.storeBytes base i b) s') ?_ ?_ ?_
  · rintro k rest s₁ ⟨i, list, le, holds₁⟩
    have more : i < count := by
      by_contra none
      rw [show count - i = 0 by omega] at list
      cases list
    rw [show count - i = count - (i + 1) + 1 by omega, List.range'_succ] at list
    obtain ⟨rfl, rfl⟩ := List.cons.inj list
    refine holds₁.storeByte (by omega) fun p s₂ here holds₂ => ?_
    rw [Contents.storeBytes_succ here] at holds₂
    exact ⟨k + 1, rfl, more, holds₂⟩
  · rintro s₁ ⟨i, list, le, holds₁⟩
    have all : i = count := by
      by_contra more
      have length := congrArg List.length list
      rw [List.length_nil, List.length_range'] at length
      omega
    rwa [all] at holds₁
  · exact ⟨0, by rw [List.range_eq_range', Nat.sub_zero], Nat.zero_le _,
      by rwa [Contents.storeBytes_zero]⟩

/-! ## Loading pages -/

/-- A page gets a frame. -/
theorem loadPage {last : Nat} (holds : Holds e n c s) (lt : va < userTop) :
    wp (loadPage e va last) (fun _ s' => ∃ p, Holds e (n - 2) (c.setFrame (va / pageSize) p) s')
      (fun _ _ => True) s := by
  simp only [Fos.loadPage, wp_bind]
  apply holds.map lt
  · intro p s₁ holds₁
    simp only [wp_getEnv, checkElement, wp_ite, wp_pure, wp_throw, wp_modifyEnv]
    split
    · refine (holds₁.setElement lt (c.setFrame_here _ _)).addToLists fun s₂ holds₂ => ?_
      refine holds₂.nextWSIndex fun s₃ holds₃ => ?_
      have table := holds₃.setEnv (Env.addTable va) (fun _ => rfl) (fun _ => rfl) (fun _ => rfl)
        (fun _ => rfl) (fun _ => rfl) fun _ => rfl
      split
      · simp only [wp_bind, wp_modifyEnv, wp_getEnv, wp_ite, wp_panic, wp_pure]
        split
        · trivial
        · exact ⟨p, table⟩
      · exact ⟨p, holds₃⟩
    · trivial
  · exact fun _ _ => trivial

end Holds

/-- Only pages from `first` on, `k` of them, are loaded. -/
structure Contents.Mapped (c c' : Contents) (first k : Nat) : Prop where
  file : c'.file = c.file
  frames : ∀ q, ¬ (first ≤ q ∧ q < first + k) → c'.frames q = c.frames q

theorem Holds.loadPages {first stop remaining last : Nat} (holds : Holds e 0 c s)
    (lt : stop * pageSize ≤ userTop) :
    wp (loadPages e (stop * pageSize) remaining (first * pageSize) last)
      (fun r s' => (r.1 = 0 ∨ first + r.1 ≤ stop) ∧ ∃ c', c.Mapped c' first r.1 ∧ Holds e 0 c' s')
      (fun _ _ => True) s := by
  induction remaining generalizing first last c s with
  | zero => exact ⟨Or.inl rfl, c, ⟨rfl, fun _ _ => rfl⟩, holds⟩
  | succ remaining ih =>
    rw [Fos.loadPages, wp_ite]
    split
    · rename_i more
      have before : first < stop := Nat.lt_of_mul_lt_mul_right more
      have next : (first * pageSize + pageSize) % word32 = (first + 1) * pageSize := by
        have le := Nat.mul_le_mul_right pageSize before
        rw [Nat.succ_mul] at le
        rw [Nat.succ_mul]
        exact Nat.mod_eq_of_lt ((le.trans lt).trans_lt (by decide))
      simp only [wp_bind, next]
      refine wp_mono (holds.loadPage (more.trans_le lt)) ?_ fun _ _ h => h
      rintro last' s₁ ⟨p, holds₁⟩
      rw [Nat.mul_div_cancel _ (by decide)] at holds₁
      refine wp_mono (ih holds₁) ?_ fun _ _ h => h
      rintro ⟨k, last''⟩ s₂ ⟨bound, c₂, mapped, holds₂⟩
      refine ⟨Or.inr ?_, c₂, ⟨mapped.file, fun q out => ?_⟩, holds₂⟩
      · rcases bound with rfl | bound
        · exact before
        · simp only at bound ⊢
          omega
      · simp only at out
        have ne : q ≠ first := by omega
        rw [mapped.frames q (by simp only; omega)]
        exact Contents.setFrame_other ne
    · exact ⟨Or.inl rfl, c, ⟨rfl, fun _ _ => rfl⟩, holds⟩

/-! ## A segment in memory -/

/-- The pages of the segment that are in memory now have its bytes. -/
structure ProgramSegment.Copied (seg : ProgramSegment) (c c' : Contents) : Prop where
  file : c'.file = c.file
  frames : ∀ q, ¬ seg.Occupies q → c'.frames q = c.frames q
  bytes : ∀ k < seg.sizeInMemory, c.frames ((seg.virtualAddress + k) / pageSize) = none →
    ∀ p, c'.frames ((seg.virtualAddress + k) / pageSize) = some p →
      p.byte ((seg.virtualAddress + k) % pageSize) = seg.imageByte k

variable {seg : ProgramSegment}

/-- Loading the first `k` pages, and then writing the bytes up to the end of the last one. -/
theorem ProgramSegment.copied {k limit copied : Nat}
    (bound : k = 0 ∨ seg.virtualAddress / pageSize + k ≤ seg.endNo)
    (mapped : c.Mapped c' (seg.virtualAddress / pageSize) k)
    (ends : limit = (seg.virtualAddress / pageSize + k) * pageSize)
    (copies : copied = min limit (seg.virtualAddress + seg.sizeInFile) - seg.virtualAddress) :
    seg.Copied c ((c'.storeBytes seg.virtualAddress copied seg.ptrStart).storeBytes
      (seg.virtualAddress + copied) (limit - (seg.virtualAddress + copied)) fun _ => 0) := by
  have numbers := seg.numbers
  have parts := Nat.div_add_mod' seg.virtualAddress pageSize
  have small : seg.virtualAddress % pageSize < pageSize := Nat.mod_lt _ (by decide)
  refine ⟨mapped.file, fun q out => ?_, fun j lt none p here => ?_⟩
  · simp only [ProgramSegment.Occupies, not_and_or, not_le, not_lt] at out
    have outside : (q + 1) * pageSize ≤ seg.virtualAddress ∨
        seg.virtualAddress + copied ≤ q * pageSize ∧ limit ≤ q * pageSize := by
      simp only [pageSize] at *
      omega
    rw [Contents.storeBytes_other, Contents.storeBytes_other, mapped.frames]
    · simp only [pageSize] at *
      omega
    · exact outside.imp_right And.left
    · simp only [pageSize] at *
      omega
  · have inPage : (seg.virtualAddress + j) % pageSize < pageSize := Nat.mod_lt _ (by decide)
    have parts' := Nat.div_add_mod' (seg.virtualAddress + j) pageSize
    obtain ⟨p₁, there, byte⟩ := Contents.byte_storeBytes inPage here
    obtain ⟨p₀, loaded, byte₁⟩ := Contents.byte_storeBytes inPage there
    rw [parts'] at byte byte₁
    have inside : (seg.virtualAddress + j) / pageSize < seg.virtualAddress / pageSize + k := by
      by_contra behind
      rw [mapped.frames _ (by omega), none] at loaded
      cases loaded
    have before : seg.virtualAddress + j < limit := by
      simp only [pageSize] at *
      omega
    rw [byte, byte₁, ProgramSegment.imageByte]
    by_cases inFile : j < seg.sizeInFile
    · rw [if_neg (by omega), if_pos (by omega), if_pos inFile, Nat.add_sub_cancel_left]
    · rw [if_pos (by omega), if_neg inFile]

/-! The addresses of the pages that are loaded. -/

theorem roundDown_eq (va : Nat) : roundDown va = va / pageSize * pageSize := by
  have parts := Nat.div_add_mod' va pageSize
  rw [roundDown]
  omega

theorem ProgramSegment.Fits.endVaddr (fits : seg.Fits) :
    Fos.roundUp ((seg.virtualAddress + seg.sizeInMemory) % word32) = seg.endNo * pageSize := by
  have below := fits.below
  simp only [Fos.roundUp, roundDown, ProgramSegment.endNo, ustackTop, pageSize, word32] at *
  omega

theorem ProgramSegment.Fits.end_le (fits : seg.Fits) : seg.endNo * pageSize ≤ userTop := by
  have below := fits.below
  have numbers := seg.numbers
  simp only [ustackTop, userTop, pageSize] at *
  omega

/-- Where `k` pages end. -/
theorem ProgramSegment.Fits.limit {k : Nat} (fits : seg.Fits)
    (bound : k = 0 ∨ seg.virtualAddress / pageSize + k ≤ seg.endNo) :
    (seg.virtualAddress / pageSize * pageSize + k * pageSize) % word32 =
        (seg.virtualAddress / pageSize + k) * pageSize ∧
      (seg.virtualAddress / pageSize + k) * pageSize ≤ userTop := by
  have room : (seg.virtualAddress / pageSize + k) * pageSize ≤ userTop := by
    rcases bound with rfl | bound
    · rw [Nat.add_zero]
      exact (Nat.div_mul_le_self ..).trans (Nat.le_add_right _ seg.sizeInMemory |>.trans
        (fits.below.trans (by decide)))
    · exact (Nat.mul_le_mul_right _ bound).trans fits.end_le
  refine ⟨?_, room⟩
  rw [← Nat.add_mul]
  exact Nat.mod_eq_of_lt (room.trans_lt (by decide))

/-- The first half of a pass of the loop over the segments. -/
theorem Holds.copySegment {remaining last : Nat} (holds : Holds e 0 c s) (fits : seg.Fits) :
    wp (programSegmentAllocMapCopyWorkingset e seg remaining last)
      (fun _ s' => ∃ c', seg.Copied c c' ∧ Holds e 0 c' s') (fun _ _ => True) s := by
  have file := fits.file
  have below := fits.below
  have fileLimit : (seg.virtualAddress + seg.sizeInFile) % word32 =
      seg.virtualAddress + seg.sizeInFile := by
    apply Nat.mod_eq_of_lt
    simp only [ustackTop, pageSize, word32] at *
    omega
  simp only [programSegmentAllocMapCopyWorkingset, wp_bind, wp_getEnv, fits.endVaddr, roundDown_eq,
    fileLimit]
  refine wp_mono (holds.loadPages fits.end_le) ?_ fun _ _ h => h
  rintro ⟨k, last'⟩ s₁ ⟨bound, c₁, mapped, holds₁⟩
  change k = 0 ∨ seg.virtualAddress / pageSize + k ≤ seg.endNo at bound
  obtain ⟨limit, room⟩ := fits.limit bound
  simp only [limit]
  have copied := ProgramSegment.copied bound mapped rfl rfl
  generalize (seg.virtualAddress / pageSize + k) * pageSize = limit at copied room ⊢
  refine wp_mono (holds₁.storeLoop ?_) (fun _ s₂ holds₂ => ?_) fun _ _ h => h
  · simp only [ustackTop, userTop, pageSize] at *
    omega
  refine wp_mono (holds₂.storeLoop (b := fun _ => 0) ?_) (fun _ s₃ holds₃ => ?_) fun _ _ h => h
  · simp only [ustackTop, userTop, pageSize] at *
    omega
  exact ⟨_, copied, holds₃⟩

/-! ## All segments -/

/-- Two segments have no page in common. -/
def ProgramSegment.Apart (seg seg' : ProgramSegment) : Prop :=
  ∀ q, ¬ (seg.Occupies q ∧ seg'.Occupies q)

/-- The first ends before the first page of the second, or the other way round. -/
theorem ProgramSegment.apart_iff {seg seg' : ProgramSegment} : seg.Apart seg' ↔
    min (seg.virtualAddress + seg.sizeInMemory) (seg'.virtualAddress + seg'.sizeInMemory) ≤
      max (seg.virtualAddress / pageSize) (seg'.virtualAddress / pageSize) * pageSize := by
  constructor
  · intro apart
    by_contra lt
    have below := lt_min_iff.mp (Nat.lt_of_not_le lt)
    exact apart _ ⟨⟨le_max_left .., below.1⟩, ⟨le_max_right .., below.2⟩⟩
  · rintro le q ⟨⟨ge, lt⟩, ⟨ge', lt'⟩⟩
    have above := Nat.mul_le_mul_right pageSize (max_le ge ge')
    exact absurd (lt_min lt lt') (Nat.not_lt_of_le (le.trans above))

instance (seg seg' : ProgramSegment) : Decidable (seg.Apart seg') :=
  decidable_of_iff _ ProgramSegment.apart_iff.symm

theorem ProgramSegment.occupies_div {k : Nat} (lt : k < seg.sizeInMemory) :
    seg.Occupies ((seg.virtualAddress + k) / pageSize) := by
  refine ⟨Nat.div_le_div_right (Nat.le_add_right ..), ?_⟩
  exact (Nat.div_mul_le_self ..).trans_lt (by omega)

/-- What the loop over the segments leaves. -/
structure Loads (segs : List ProgramSegment) (c c' : Contents) : Prop where
  file : c'.file = (c.addAll (segs.flatMap ProgramSegment.stored)).file
  frames : ∀ q, (∀ seg ∈ segs, ¬ seg.Occupies q) → c'.frames q = c.frames q
  bytes : ∀ seg ∈ segs, ∀ k < seg.sizeInMemory,
    c.frames ((seg.virtualAddress + k) / pageSize) = none →
    ∀ p, c'.frames ((seg.virtualAddress + k) / pageSize) = some p →
      p.byte ((seg.virtualAddress + k) % pageSize) = seg.imageByte k

theorem Contents.addAll_congr (l : List (Nat × Page)) (same : c.file = c'.file) :
    (c.addAll l).file = (c'.addAll l).file := by
  induction l generalizing c c' with
  | nil => exact same
  | cons x l ih =>
    refine ih ?_
    show Function.update c.file x.1 (some x.2) = Function.update c'.file x.1 (some x.2)
    rw [same]

/-- One segment more. -/
theorem Loads.cons {segs : List ProgramSegment} {c₁ c₂ : Contents} (copied : seg.Copied c c₁)
    (loads : Loads segs (c₁.addAll seg.stored) c₂) (apart : ∀ seg' ∈ segs, seg.Apart seg') :
    Loads (seg :: segs) c c₂ := by
  refine ⟨?_, fun q out => ?_, fun seg' mem k lt none p here => ?_⟩
  · rw [loads.file, List.flatMap_cons, Contents.addAll_append]
    exact Contents.addAll_congr _ (Contents.addAll_congr _ copied.file)
  · rw [loads.frames q fun seg' mem => out seg' (List.mem_cons_of_mem _ mem),
      Contents.addAll_frames, copied.frames q (out seg (List.mem_cons_self ..))]
  · have occupies := ProgramSegment.occupies_div lt
    rcases List.mem_cons.mp mem with rfl | mem
    · rw [loads.frames _ fun seg'' mem'' there => apart seg'' mem'' _ ⟨occupies, there⟩,
        Contents.addAll_frames] at here
      exact copied.bytes k lt none p here
    · refine loads.bytes seg' mem k lt ?_ p here
      rw [Contents.addAll_frames, copied.frames _ fun there => apart seg' mem _ ⟨there, occupies⟩,
        none]

theorem Holds.loadSegments {segs : List ProgramSegment} {remaining last : Nat}
    (holds : Holds e 0 c s) (fits : ∀ seg ∈ segs, seg.Fits)
    (apart : segs.Pairwise ProgramSegment.Apart) :
    wp (loadSegments e segs remaining last)
      (fun _ s' => ∃ c', Loads segs c c' ∧ Holds e 0 c' s') (fun _ _ => True) s := by
  induction segs generalizing remaining last c s with
  | nil => exact ⟨c, ⟨rfl, fun _ _ => rfl, fun _ mem => by cases mem⟩, holds⟩
  | cons seg segs ih =>
    obtain ⟨first, others⟩ := List.pairwise_cons.mp apart
    have fit := fits seg (List.mem_cons_self ..)
    simp only [Fos.loadSegments, wp_bind]
    refine wp_mono (holds.copySegment fit) ?_ fun _ _ h => h
    rintro ⟨k, last'⟩ s₁ ⟨c₁, copied, holds₁⟩
    refine wp_mono (holds₁.writeSegment fit fun _ _ _ => trivial) ?_ fun _ _ h => h
    intro _ s₂ holds₂
    rw [Nat.zero_sub] at holds₂
    refine wp_mono (ih holds₂ (fun seg' mem => fits seg' (List.mem_cons_of_mem _ mem)) others) ?_
      fun _ _ h => h
    rintro _ s₃ ⟨c₃, loads, holds₃⟩
    exact ⟨c₃, .cons copied loads first, holds₃⟩

/-! ## The page file in the end -/

/-- Segments leave the pages of others alone, but for pages of zeroes. -/
theorem Contents.stored_others {segs : List ProgramSegment} {q : Nat} (c : Contents)
    (fits : ∀ seg ∈ segs, seg.Fits) (out : ∀ seg ∈ segs, ¬ seg.Occupies q) :
    ((∃ seg ∈ segs, seg.Extra q) →
      (c.addAll (segs.flatMap ProgramSegment.stored)).file q = some zeroes) ∧
    ((∀ seg ∈ segs, ¬ seg.Extra q) →
      (c.addAll (segs.flatMap ProgramSegment.stored)).file q = c.file q) := by
  induction segs generalizing c with
  | nil => exact ⟨fun ⟨_, mem, _⟩ => (by cases mem), fun _ => rfl⟩
  | cons seg segs ih =>
    obtain ⟨cleared, kept⟩ := ih (c.addAll seg.stored)
      (fun seg' mem => fits seg' (List.mem_cons_of_mem _ mem))
      fun seg' mem => out seg' (List.mem_cons_of_mem _ mem)
    obtain ⟨cleared', kept'⟩ := (fits seg (List.mem_cons_self ..)).stored_other c
      (out seg (List.mem_cons_self ..))
    rw [List.flatMap_cons, Contents.addAll_append]
    constructor
    · intro extra
      by_cases later : ∃ seg' ∈ segs, seg'.Extra q
      · exact cleared later
      · obtain ⟨seg', mem, extra⟩ := extra
        rcases List.mem_cons.mp mem with rfl | mem
        · rw [kept fun seg'' mem'' there => later ⟨seg'', mem'', there⟩]
          exact cleared' extra
        · exact absurd ⟨seg', mem, extra⟩ later
    · intro extra
      rw [kept fun seg' mem => extra seg' (List.mem_cons_of_mem _ mem)]
      exact kept' (extra seg (List.mem_cons_self ..))

/-- A page of a segment has what the segment has stored there, or zeroes of a later one. -/
theorem Loads.page {before after : List ProgramSegment} {k : Nat}
    (loads : Loads (before ++ seg :: after) c c')
    (fits : ∀ seg' ∈ before ++ seg :: after, seg'.Fits)
    (apart : (before ++ seg :: after).Pairwise ProgramSegment.Apart) (lt : k < seg.sizeInMemory) :
    ∃ p, c'.file ((seg.virtualAddress + k) / pageSize) = some p ∧
      ((∃ later ∈ after, later.Extra ((seg.virtualAddress + k) / pageSize)) → p = zeroes) ∧
      ((∀ later ∈ after, ¬ later.Extra ((seg.virtualAddress + k) / pageSize)) →
        p.byte ((seg.virtualAddress + k) % pageSize) = seg.storedByte k) := by
  have others := (List.pairwise_append.mp apart).2.1
  have occupies := ProgramSegment.occupies_div lt
  obtain ⟨own, here, byte⟩ := (fits seg (by simp)).stored_own
    (c.addAll (before.flatMap ProgramSegment.stored)) lt
  have fits' : ∀ later ∈ after, later.Fits := fun later mem => fits later (by simp [mem])
  obtain ⟨cleared, kept⟩ := Contents.stored_others
    ((c.addAll (before.flatMap ProgramSegment.stored)).addAll seg.stored) fits'
    fun later mem there => (List.pairwise_cons.mp others).1 later mem _ ⟨occupies, there⟩
  rw [loads.file, List.flatMap_append, List.flatMap_cons, Contents.addAll_append,
    Contents.addAll_append]
  by_cases extra : ∃ later ∈ after, later.Extra ((seg.virtualAddress + k) / pageSize)
  · refine ⟨zeroes, cleared extra, fun _ => rfl, fun none => ?_⟩
    obtain ⟨later, mem, there⟩ := extra
    exact absurd there (none later mem)
  · have none : ∀ later ∈ after, ¬ later.Extra ((seg.virtualAddress + k) / pageSize) :=
      fun later mem there => extra ⟨later, mem, there⟩
    exact ⟨own, (kept none).trans here, fun some => absurd some extra, fun _ => byte⟩

end Fos
