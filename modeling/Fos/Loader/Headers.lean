import Fos.Memory.Environment
import Mathlib.Data.UInt

/-!
# The program headers of an image

`PROGRAM_SEGMENT_FIRST`, `PROGRAM_SEGMENT_NEXT` and the loop `PROGRAM_SEGMENT_FOREACH` of
`kern/user_environment.c`, over the headers of `inc/elf.h` in memory.

* `loadsFrom`: the records of the headers of type `PT_LOAD` from an index on;
* `seek_eq`: the code that `FIRST` and `NEXT` share finds the first of them;
* `programSegments`: all of them; `programSegmentForeach_loads`: the loop runs its body once for
  each, in order, and ends;
* `foreach_loadSegments`: with the body of `env_create` it is `loadSegments`.
-/

namespace Fos

/-! ## Headers in memory -/

/-- The bytes at the kernel's addresses. -/
abbrev Ram := UInt32 → UInt8

/-- A `uint16`, which may lie at any address. -/
def Ram.uint16 (mem : Ram) (a : UInt32) : UInt16 :=
  (mem a).toUInt16 ||| (mem (a + 1)).toUInt16 <<< 8

/-- A `uint32`. -/
def Ram.uint32 (mem : Ram) (a : UInt32) : UInt32 :=
  (mem a).toUInt32 ||| (mem (a + 1)).toUInt32 <<< 8 ||| (mem (a + 2)).toUInt32 <<< 16 |||
    (mem (a + 3)).toUInt32 <<< 24

/-- `ELF_MAGIC`. -/
abbrev elfMagic : UInt32 := 0x464C457F

/-- `ELF_PROG_LOAD`. -/
abbrev elfProgLoad : UInt32 := 1

/-- The members of `struct Elf` that are read. -/
structure Elf where
  eMagic : UInt32
  ePhoff : UInt32
  ePhnum : UInt16

/-- `*(struct Elf *)a`. -/
def Ram.elf (mem : Ram) (a : UInt32) : Elf :=
  { eMagic := mem.uint32 a, ePhoff := mem.uint32 (a + 28), ePhnum := mem.uint16 (a + 44) }

/-- The members of `struct Proghdr` that are read. -/
structure Proghdr where
  pType : UInt32
  pOffset : UInt32
  pVa : UInt32
  pFilesz : UInt32
  pMemsz : UInt32

/-- `ph[index]`, for entries of 32 bytes. -/
def Ram.proghdr (mem : Ram) (ph index : UInt32) : Proghdr :=
  let a := ph + 32 * index
  { pType := mem.uint32 a, pOffset := mem.uint32 (a + 4), pVa := mem.uint32 (a + 8)
    pFilesz := mem.uint32 (a + 16), pMemsz := mem.uint32 (a + 20) }

/-! ## The iterator -/

/-- `struct ProgramSegment`, with all its members as the numbers they are. -/
structure SegmentRecord where
  ptrStart : UInt32
  sizeInFile : UInt32
  sizeInMemory : UInt32
  virtualAddress : UInt32
  segmentId : UInt32
  deriving DecidableEq

/-- The `while` loop over the headers of other types.  The header is looked at before its index
is compared with `e_phnum`, so that the one behind the table is read too. -/
def skipHeaders (mem : Ram) (ph : UInt32) (ePhnum : UInt16) (segmentId : UInt32) : UInt32 :=
  if (mem.proghdr ph segmentId).pType ≠ elfProgLoad ∧ segmentId < ePhnum.toUInt32 then
    skipHeaders mem ph ePhnum (segmentId + 1)
  else segmentId
termination_by ePhnum.toNat - segmentId.toNat
decreasing_by
  have below : segmentId.toNat < ePhnum.toNat := by
    rename_i h
    simpa using UInt32.lt_iff_toNat_lt.mp h.2
  have small : ePhnum.toNat < 2 ^ 16 := ePhnum.toNat_lt
  have next : (segmentId + 1).toNat = segmentId.toNat + 1 := by
    rw [UInt32.toNat_add]
    exact Nat.mod_eq_of_lt (by simp; omega)
  omega

/-- What `PROGRAM_SEGMENT_FIRST` and `PROGRAM_SEGMENT_NEXT` do alike: they go on from
`segment_id` to a header to load, and fill the record in.  `index` is an `int`. -/
def seek (mem : Ram) (seg : SegmentRecord) (ptrProgramStart : UInt32) :
    Prog (Option SegmentRecord) :=
  let pELFHDR := mem.elf ptrProgramStart
  if pELFHDR.eMagic ≠ elfMagic then panic "Matafa2nash 3ala Keda"
  else
    let ph := ptrProgramStart + pELFHDR.ePhoff
    let index := skipHeaders mem ph pELFHDR.ePhnum seg.segmentId
    if int32 index.toNat < pELFHDR.ePhnum.toNat then
      let header := mem.proghdr ph index
      return some
        { ptrStart := ptrProgramStart + header.pOffset
          sizeInMemory := header.pMemsz
          sizeInFile := header.pFilesz
          virtualAddress := header.pVa
          segmentId := index }
    else return none

/-- `PROGRAM_SEGMENT_NEXT(seg, ptr_program_start)`. -/
def programSegmentNext (mem : Ram) (seg : SegmentRecord) (ptrProgramStart : UInt32) :
    Prog (Option SegmentRecord) :=
  seek mem { seg with segmentId := seg.segmentId + 1 } ptrProgramStart

/-- `PROGRAM_SEGMENT_FIRST(ptr_program_start)`; `seg` is what its local variable holds when it
is entered. -/
def programSegmentFirst (mem : Ram) (seg : SegmentRecord) (ptrProgramStart : UInt32) :
    Prog SegmentRecord := do
  match ← seek mem { seg with segmentId := 0 } ptrProgramStart with
  | some seg => return seg
  | none => return { seg with segmentId := -1 }

section Foreach

variable {σ : Type} (mem : Ram) (ptrProgramStart : UInt32) (body : σ → SegmentRecord → Prog σ)

/-- The `for` of `PROGRAM_SEGMENT_FOREACH`, from `Seg` on and with the variables `s` that the
body changes; it spins when the given number of passes is used up. -/
def segmentPasses : Nat → Option SegmentRecord → σ → Prog σ
  | 0, _, _ => throw .spins
  | _ + 1, none, s => return s
  | fuel + 1, some seg, s => do
    let s ← body s seg
    segmentPasses fuel (← programSegmentNext mem seg ptrProgramStart) s

/-- `PROGRAM_SEGMENT_FOREACH(Seg, ptr_program_start) body`. -/
def programSegmentForeach (seg : SegmentRecord) (fuel : Nat) (s : σ) : Prog σ := do
  let tmp ← programSegmentFirst mem seg ptrProgramStart
  let first := if tmp.segmentId = -1 then none else some tmp
  segmentPasses mem ptrProgramStart body fuel first s

end Foreach

/-! ## The headers to load -/

section Loads

variable (mem : Ram) (ptrProgramStart : UInt32)

/-- The number of headers. -/
def Ram.phnum : Nat := (mem.elf ptrProgramStart).ePhnum.toNat

/-- The header with the index `i`. -/
def Ram.header (i : Nat) : Proghdr :=
  mem.proghdr (ptrProgramStart + (mem.elf ptrProgramStart).ePhoff) (UInt32.ofNat i)

/-- The record of the header with the index `i`. -/
def Ram.record (i : Nat) : SegmentRecord :=
  let header := mem.header ptrProgramStart i
  { ptrStart := ptrProgramStart + header.pOffset
    sizeInFile := header.pFilesz
    sizeInMemory := header.pMemsz
    virtualAddress := header.pVa
    segmentId := UInt32.ofNat i }

/-- The records of the headers to load from the index `k` on. -/
def loadsFrom (k : Nat) : List SegmentRecord :=
  ((List.range' k (mem.phnum ptrProgramStart - k)).filter fun i =>
    (mem.header ptrProgramStart i).pType = elfProgLoad).map (mem.record ptrProgramStart)

/-- The records of all headers to load. -/
def programSegments : List SegmentRecord :=
  ((List.range (mem.phnum ptrProgramStart)).filter fun i =>
    (mem.header ptrProgramStart i).pType = elfProgLoad).map (mem.record ptrProgramStart)

variable {mem : Ram} {ptrProgramStart : UInt32} {k : Nat} {seg : SegmentRecord}

theorem loadsFrom_zero : loadsFrom mem ptrProgramStart 0 = programSegments mem ptrProgramStart := by
  rw [loadsFrom, Nat.sub_zero, ← List.range_eq_range']
  rfl

theorem loadsFrom_end (ge : mem.phnum ptrProgramStart ≤ k) :
    loadsFrom mem ptrProgramStart k = [] := by
  rw [loadsFrom, Nat.sub_eq_zero_of_le ge]
  rfl

/-- The header with the index `k` comes first, if it is one to load. -/
theorem loadsFrom_step (lt : k < mem.phnum ptrProgramStart) :
    loadsFrom mem ptrProgramStart k =
      if (mem.header ptrProgramStart k).pType = elfProgLoad then
        mem.record ptrProgramStart k :: loadsFrom mem ptrProgramStart (k + 1)
      else loadsFrom mem ptrProgramStart (k + 1) := by
  have count : mem.phnum ptrProgramStart - k = mem.phnum ptrProgramStart - (k + 1) + 1 := by omega
  rw [loadsFrom, count, List.range'_succ, List.filter_cons]
  by_cases load : (mem.header ptrProgramStart k).pType = elfProgLoad
  · simp [load, loadsFrom]
  · simp [load, loadsFrom]

/-- The first record to load, and those behind it. -/
theorem loadsFrom_cons {rest : List SegmentRecord}
    (loads : loadsFrom mem ptrProgramStart k = seg :: rest) :
    ∃ i < mem.phnum ptrProgramStart, seg = mem.record ptrProgramStart i ∧
      rest = loadsFrom mem ptrProgramStart (i + 1) := by
  induction left : mem.phnum ptrProgramStart - k generalizing k with
  | zero =>
    rw [loadsFrom_end (Nat.sub_eq_zero_iff_le.mp left)] at loads
    cases loads
  | succ left ih =>
    have lt : k < mem.phnum ptrProgramStart := by omega
    rw [loadsFrom_step lt] at loads
    split at loads
    · obtain ⟨rfl, rfl⟩ := List.cons.inj loads
      exact ⟨k, lt, rfl, rfl⟩
    · exact ih loads (by omega)

theorem mem_programSegments : seg ∈ programSegments mem ptrProgramStart ↔
    ∃ i < mem.phnum ptrProgramStart, (mem.header ptrProgramStart i).pType = elfProgLoad ∧
      seg = mem.record ptrProgramStart i := by
  simp only [programSegments, List.mem_map, List.mem_filter, List.mem_range, decide_eq_true_eq,
    and_assoc, eq_comm (b := seg)]

/-! ## The loops -/

theorem phnum_lt (mem : Ram) (ptrProgramStart : UInt32) : mem.phnum ptrProgramStart < 2 ^ 16 :=
  (mem.elf ptrProgramStart).ePhnum.toNat_lt

theorem toNat_segmentId (le : k ≤ mem.phnum ptrProgramStart) : (UInt32.ofNat k).toNat = k := by
  have small := phnum_lt mem ptrProgramStart
  rw [UInt32.toNat_ofNat']
  exact Nat.mod_eq_of_lt (by omega)

/-- The indices ascend. -/
theorem pairwise_programSegments : (programSegments mem ptrProgramStart).Pairwise
    fun seg seg' => seg.segmentId < seg'.segmentId := by
  rw [programSegments, List.pairwise_map]
  refine (List.pairwise_lt_range.filter _).imp_of_mem fun {i j} mem_i mem_j lt => ?_
  have lt_i := List.mem_range.mp (List.mem_filter.mp mem_i).1
  have lt_j := List.mem_range.mp (List.mem_filter.mp mem_j).1
  rw [UInt32.lt_iff_toNat_lt, Ram.record, Ram.record, toNat_segmentId lt_i.le,
    toNat_segmentId lt_j.le]
  exact lt

theorem segmentId_succ : UInt32.ofNat k + 1 = UInt32.ofNat (k + 1) := (UInt32.ofNat_add k 1).symm

theorem segmentId_lt (le : k ≤ mem.phnum ptrProgramStart) :
    UInt32.ofNat k < (mem.elf ptrProgramStart).ePhnum.toUInt32 ↔ k < mem.phnum ptrProgramStart := by
  rw [UInt32.lt_iff_toNat_lt, toNat_segmentId le, UInt16.toNat_toUInt32]
  rfl

/-- The `while` loop ends at the first header to load, or behind the last header. -/
theorem skipHeaders_eq (le : k ≤ mem.phnum ptrProgramStart) :
    ∃ j ≤ mem.phnum ptrProgramStart,
      skipHeaders mem (ptrProgramStart + (mem.elf ptrProgramStart).ePhoff)
        (mem.elf ptrProgramStart).ePhnum (UInt32.ofNat k) = UInt32.ofNat j ∧
      loadsFrom mem ptrProgramStart k = loadsFrom mem ptrProgramStart j ∧
      (j < mem.phnum ptrProgramStart → (mem.header ptrProgramStart j).pType = elfProgLoad) := by
  induction left : mem.phnum ptrProgramStart - k generalizing k with
  | zero =>
    have here : ¬ k < mem.phnum ptrProgramStart := by omega
    refine ⟨k, le, ?_, rfl, fun lt => absurd lt here⟩
    rw [skipHeaders, if_neg fun h => here ((segmentId_lt le).mp h.2)]
  | succ left ih =>
    have lt : k < mem.phnum ptrProgramStart := by omega
    by_cases load : (mem.header ptrProgramStart k).pType = elfProgLoad
    · refine ⟨k, le, ?_, rfl, fun _ => load⟩
      rw [skipHeaders, if_neg fun h => h.1 load]
    · obtain ⟨j, le', run, loads, stops⟩ := ih lt (by omega)
      refine ⟨j, le', ?_, ?_, stops⟩
      · rw [skipHeaders, if_pos ⟨load, (segmentId_lt le).mpr lt⟩, segmentId_succ, run]
      · rw [loadsFrom_step lt, if_neg load, loads]

variable (magic : (mem.elf ptrProgramStart).eMagic = elfMagic)
include magic

/-- The next record to load, or null. -/
theorem seek_eq (seg : SegmentRecord) (le : k ≤ mem.phnum ptrProgramStart) :
    seek mem { seg with segmentId := UInt32.ofNat k } ptrProgramStart =
      pure (loadsFrom mem ptrProgramStart k).head? := by
  obtain ⟨j, le', run, loads, stops⟩ := skipHeaders_eq le
  have small := phnum_lt mem ptrProgramStart
  have inTable : int32 (UInt32.ofNat j).toNat < (mem.elf ptrProgramStart).ePhnum.toNat ↔
      j < mem.phnum ptrProgramStart := by
    rw [toNat_segmentId le', int32_of_small (by omega) (by omega)]
    exact Int.ofNat_lt
  simp only [seek, magic, ne_eq, not_true_eq_false, if_false, run, loads]
  by_cases lt : j < mem.phnum ptrProgramStart
  · rw [if_pos (inTable.mpr lt), loadsFrom_step lt, if_pos (stops lt)]
    rfl
  · rw [if_neg fun h => lt (inTable.mp h), loadsFrom_end (not_lt.mp lt)]
    rfl

variable {σ : Type} {body : σ → SegmentRecord → Prog σ} {fuel : Nat} {s : σ}

/-- The loop from a record to load on. -/
theorem segmentPasses_eq (le : k ≤ mem.phnum ptrProgramStart)
    (enough : (loadsFrom mem ptrProgramStart k).length < fuel) :
    segmentPasses mem ptrProgramStart body fuel (loadsFrom mem ptrProgramStart k).head? s =
      (loadsFrom mem ptrProgramStart k).foldlM body s := by
  induction loads : loadsFrom mem ptrProgramStart k generalizing k fuel s with
  | nil =>
    obtain ⟨fuel, rfl⟩ := Nat.exists_eq_succ_of_ne_zero (Nat.ne_zero_of_lt enough)
    rfl
  | cons seg rest ih =>
    obtain ⟨i, lt, rfl, rfl⟩ := loadsFrom_cons loads
    obtain ⟨fuel, rfl⟩ := Nat.exists_eq_succ_of_ne_zero (Nat.ne_zero_of_lt enough)
    rw [loads, List.length_cons] at enough
    have next : programSegmentNext mem (mem.record ptrProgramStart i) ptrProgramStart =
        pure (loadsFrom mem ptrProgramStart (i + 1)).head? := by
      rw [programSegmentNext, Ram.record, segmentId_succ]
      exact seek_eq magic _ lt
    simp only [List.head?_cons, segmentPasses, next, pure_bind, List.foldlM_cons]
    refine bind_congr fun s => ?_
    exact ih lt (Nat.lt_of_succ_lt_succ enough) rfl

/-- The whole loop. -/
theorem programSegmentForeach_eq
    (enough : (programSegments mem ptrProgramStart).length < fuel) :
    programSegmentForeach mem ptrProgramStart body seg fuel s =
      (programSegments mem ptrProgramStart).foldlM body s := by
  rw [← loadsFrom_zero] at enough ⊢
  rw [← segmentPasses_eq magic (Nat.zero_le _) enough]
  have found := seek_eq magic seg (Nat.zero_le _)
  rw [programSegmentForeach, programSegmentFirst,
    show (0 : UInt32) = UInt32.ofNat 0 from rfl, found]
  cases loads : loadsFrom mem ptrProgramStart 0 with
  | nil => rfl
  | cons first rest =>
    obtain ⟨i, lt, rfl, -⟩ := loadsFrom_cons loads
    have small := phnum_lt mem ptrProgramStart
    have real : (mem.record ptrProgramStart i).segmentId ≠ -1 := by
      intro same
      have number := congrArg UInt32.toNat same
      rw [Ram.record, toNat_segmentId lt.le] at number
      exact absurd number (by simp; omega)
    simp only [List.head?_cons, pure_bind, if_neg real]

/-- **`PROGRAM_SEGMENT_FOREACH` enumerates the segments to load**: it runs its body on
`programSegments` and ends, and these are the records of the headers of type `PT_LOAD` below
`e_phnum`, in ascending order and without repetitions. -/
theorem programSegmentForeach_loads
    (enough : (programSegments mem ptrProgramStart).length < fuel) :
    programSegmentForeach mem ptrProgramStart body seg fuel s =
        (programSegments mem ptrProgramStart).foldlM body s ∧
      (∀ seg, seg ∈ programSegments mem ptrProgramStart ↔ ∃ i < mem.phnum ptrProgramStart,
        (mem.header ptrProgramStart i).pType = elfProgLoad ∧ seg = mem.record ptrProgramStart i) ∧
      (programSegments mem ptrProgramStart).Pairwise
        fun seg seg' => seg.segmentId < seg'.segmentId :=
  ⟨programSegmentForeach_eq magic enough, fun _ => mem_programSegments, pairwise_programSegments⟩

end Loads

/-- A table of a `PT_PHDR` header and a `PT_LOAD` header, behind the ELF header at address 0. -/
def twoHeaders : Ram := fun a =>
  ([(0, 0x7F), (1, 0x45), (2, 0x4C), (3, 0x46), (28, 52), (44, 2), (52, 6), (84, 1), (89, 0x10),
    (94, 0x80), (100, 3), (105, 0x10)].lookup a).getD 0

/-- The second header is the segment. -/
theorem loads_twoHeaders :
    programSegmentForeach twoHeaders 0 (fun l seg => pure (l ++ [seg])) ⟨0, 0, 0, 0, 0⟩ 2 [] =
      pure [⟨0x1000, 3, 0x1000, 0x800000, 1⟩] := by
  have segments : programSegments twoHeaders 0 = [⟨0x1000, 3, 0x1000, 0x800000, 1⟩] := by decide
  have enough : (programSegments twoHeaders 0).length < 2 := by rw [segments]; decide
  have run : programSegmentForeach twoHeaders 0 (fun l seg => pure (l ++ [seg])) ⟨0, 0, 0, 0, 0⟩ 2
      [] = (programSegments twoHeaders 0).foldlM (fun l seg => pure (l ++ [seg])) [] :=
    (programSegmentForeach_loads (by decide) enough).1
  rw [run, segments]
  rfl

/-! ## The loop of `env_create` -/

/-- The bytes of a segment where the record says. -/
def SegmentRecord.segment (mem : Ram) (seg : SegmentRecord) : ProgramSegment :=
  { ptrStart := fun k => (mem (seg.ptrStart + UInt32.ofNat k)).toBitVec
    sizeInFile := seg.sizeInFile.toNat
    sizeInMemory := seg.sizeInMemory.toNat
    virtualAddress := seg.virtualAddress.toNat }

/-- The program `name` with its image at `ptr_program_start`. -/
def Ram.userProgram (mem : Ram) (name : String) (ptrProgramStart : UInt32) : UserProgram :=
  { name := name
    elfMagic := (mem.elf ptrProgramStart).eMagic = elfMagic
    segments := (programSegments mem ptrProgramStart).map (·.segment mem) }

/-- The body that `env_create` gives to `PROGRAM_SEGMENT_FOREACH`; it changes
`remaining_ws_pages` and `lastTableNumber`. -/
def loadSegment (mem : Ram) (e : Nat) (s : Nat × Nat) (seg : SegmentRecord) : Prog (Nat × Nat) := do
  let (allocatedPages, lastTableNumber) ←
    programSegmentAllocMapCopyWorkingset e (seg.segment mem) s.1 s.2
  writeSegment e (seg.segment mem)
  return (s.1 - allocatedPages, lastTableNumber)

theorem foldlM_loadSegment (mem : Ram) (e : Nat) (segs : List SegmentRecord) (s : Nat × Nat) :
    (do let _ ← segs.foldlM (loadSegment mem e) s) =
      loadSegments e (segs.map (·.segment mem)) s.1 s.2 := by
  induction segs generalizing s with
  | nil => rfl
  | cons seg segs ih =>
    simp only [List.foldlM_cons, loadSegment, bind_assoc, pure_bind, List.map_cons, loadSegments]
    refine bind_congr fun r => bind_congr fun _ => ?_
    exact ih (s.1 - r.1, r.2)

/-- The loop of `env_create` is the one over the segments of its program, and panics for an image
that is none. -/
theorem foreach_loadSegments (mem : Ram) (name : String) (ptrProgramStart : UInt32)
    (seg : SegmentRecord) (e remainingWSPages lastTableNumber : Nat) {fuel : Nat}
    (enough : (programSegments mem ptrProgramStart).length < fuel) :
    (do let _ ← programSegmentForeach mem ptrProgramStart (loadSegment mem e) seg fuel
          (remainingWSPages, lastTableNumber)) =
      if (mem.userProgram name ptrProgramStart).elfMagic then
        loadSegments e (mem.userProgram name ptrProgramStart).segments remainingWSPages
          lastTableNumber
      else panic "Matafa2nash 3ala Keda" := by
  by_cases magic : (mem.elf ptrProgramStart).eMagic = elfMagic
  · have elf : (mem.userProgram name ptrProgramStart).elfMagic = true := decide_eq_true magic
    rw [if_pos elf, programSegmentForeach_eq magic enough]
    exact foldlM_loadSegment mem e _ _
  · have elf : (mem.userProgram name ptrProgramStart).elfMagic = false := decide_eq_false magic
    rw [elf, programSegmentForeach, programSegmentFirst, seek, if_pos magic]
    rfl

end Fos
