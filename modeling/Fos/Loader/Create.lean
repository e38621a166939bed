import Fos.Loader.Load
import Fos.Memory.Abandoned

/-!
# The image of a program

* `ProgramSegment.HasByte`: a byte of a segment is in the page file, and in memory;
* `Intact`: no segment spoils its own first page or a page of a segment before it;
* `Sound.loads_image`: exactly then `env_create` has loaded the program.
-/

namespace Fos

open Exec Linked

variable {s s' : Kernel} {v : View} {e n va : Nat} {c c' : Contents} {seg : ProgramSegment}

namespace Holds

/-! ## The end of `env_create` -/

theorem clearModified (holds : Holds e n c s) :
    wp (clearModified e) (fun _ s' => Holds e n c s') (fun _ _ => True) s := by
  simp only [Fos.clearModified, wp_bind, wp_getEnv]
  refine wp_forM (fun rest s' => (∀ k ∈ rest, k < (s'.globals.envs e).pageWSMaxSize) ∧
    Holds e n c s') ?_ (fun _ inv => inv.2) ⟨fun k mem => List.mem_range.mp mem, holds⟩
  rintro k rest s₁ ⟨bound, holds₁⟩
  have left : ∀ k ∈ rest, k < (s₁.globals.envs e).pageWSMaxSize := fun k mem =>
    bound k (List.mem_cons_of_mem _ mem)
  rw [wp_bind, wp_getEnv, wp_ite]
  split
  · rename_i taken
    refine holds₁.clearEntry (bound k (List.mem_cons_self ..)) taken fun s₂ same holds₂ => ?_
    rw [same]
    exact ⟨left, holds₂⟩
  · exact ⟨left, holds₁⟩

theorem resetPresent (holds : Holds e n c s) :
    wp (resetPresent e) (fun _ s' => Holds e n c s') (fun _ _ => True) s := by
  simp only [Fos.resetPresent, wp_bind, listFirst, wp_getEnv, wp_pure]
  refine wp_mono (holds.wsForeach fun _ k s₁ holds₁ => ?_) (fun _ _ h => h) fun _ _ h => h
  simp only [wp_bind, virtualAddress, wp_getEnv, wp_pure]
  exact holds₁.clearPresent (holds₁.user k) (fun _ h => h) fun _ => trivial

/-- A page gets a frame, whatever is done then. -/
theorem mapPage {next : Prog Unit} {Q : Unit → Kernel → Prop} (holds : Holds e n c s)
    (lt : va < userTop)
    (done : ∀ p s', Holds e (n - 2) (c.setFrame (va / pageSize) p) s' →
      wp next Q (fun _ _ => True) s') :
    wp (do
      let pp ← allocateFrame
      loadtimeMapFrame (← envPageDirectory e) pp va (permUser ||| permWriteable)
      next) Q (fun _ _ => True) s := by
  simp only [wp_bind]
  exact holds.map lt done fun _ _ => trivial

/-- Only the page of the stack is new. -/
theorem createStack (holds : Holds e 0 c s) :
    wp (createStack e) (fun _ s' => ∃ c', (∀ q, q ≠ (ustackTop - pageSize) / pageSize →
      c'.file q = c.file q ∧ c'.frames q = c.frames q) ∧ Holds e 0 c' s') (fun _ _ => True) s := by
  have lt : ustackTop - pageSize < userTop := by decide
  unfold Fos.createStack
  generalize ustackTop - pageSize = stackVa at lt ⊢
  refine holds.mapPage lt fun p s₁ holds₁ => ?_
  rw [wp_bind]
  apply holds₁.kernelFrame lt
  · intro f p' s₂ _ _ writes
    have holds₂ := writes zeroes
    rw [Contents.setFrame_setFrame] at holds₂
    rw [wp_bind, wp_writePage, wp_bind, wp_getEnv, wp_bind, wp_getEnv, wp_ite]
    split
    · rw [wp_bind, wp_modifyEnv, wp_bind, wp_getEnv, wp_bind]
      refine (holds₂.setElement lt (c.setFrame_here _ _)).addToLists fun s₃ holds₃ => ?_
      rw [wp_bind]
      refine holds₃.nextWSIndex fun s₄ holds₄ => ?_
      simp only [pfAddEmptyEnvPage, if_true, wp_bind, wp_get, wp_pure]
      apply holds₄.add lt
      · intro s₅ holds₅
        exact ⟨(c.setFrame _ zeroes).setFile _ (s₄.mem zeroPage), fun q ne =>
          ⟨Contents.setFile_other ne, Contents.setFrame_other ne⟩, holds₅⟩
      · intro s₅ _ holds₅
        exact ⟨c.setFrame _ zeroes, fun q ne => ⟨rfl, Contents.setFrame_other ne⟩, holds₅⟩
      · exact fun _ _ => trivial
    · trivial
  · trivial

end Holds

/-! ## The image -/

/-- The byte at the offset `k` of the segment is in the page file, and in memory if its page
has a frame. -/
structure ProgramSegment.HasByte (seg : ProgramSegment) (s : Kernel) (e k : Nat) : Prop where
  stored : s.pageFileEntry e (seg.virtualAddress + k) ≠ 0
  file : (s.filePage e (seg.virtualAddress + k)).byte ((seg.virtualAddress + k) % pageSize) =
    seg.imageByte k
  frame : s.pageEntry e (seg.virtualAddress + k) ≠ 0 →
    (s.mem (frameOf (s.pageEntry e (seg.virtualAddress + k)))).byte
      ((seg.virtualAddress + k) % pageSize) = seg.imageByte k

/-- All segments are loaded. -/
def HasImage (s : Kernel) (e : Nat) (segs : List ProgramSegment) : Prop :=
  ∀ seg ∈ segs, ∀ k < seg.sizeInMemory, seg.HasByte s e k

theorem Holds.hasByte_iff {k : Nat} (holds : Holds e n c s)
    (lt : seg.virtualAddress + k < userTop) : seg.HasByte s e k ↔
      (∃ p, c.file ((seg.virtualAddress + k) / pageSize) = some p ∧
        p.byte ((seg.virtualAddress + k) % pageSize) = seg.imageByte k) ∧
      ∀ p, c.frames ((seg.virtualAddress + k) / pageSize) = some p →
        p.byte ((seg.virtualAddress + k) % pageSize) = seg.imageByte k := by
  rw [holds.filePage lt, holds.pageEntry lt]
  constructor
  · intro byte
    rw [if_pos byte.stored]
    refine ⟨⟨_, rfl, byte.file⟩, fun p here => ?_⟩
    split at here
    · rename_i entry
      obtain rfl := Option.some.inj here
      exact byte.frame entry
    · cases here
  · rintro ⟨⟨p, stored, byte⟩, frame⟩
    split at stored
    · rename_i entry
      obtain rfl := Option.some.inj stored
      exact ⟨entry, byte, fun page => frame _ (if_pos page)⟩
    · cases stored

/-- The image does not depend on the address space that is in use. -/
theorem HasImage.lcr3 (pa : Nat) {segs : List ProgramSegment} :
    HasImage (s.setGlobals { s.globals with cr3 := pa }) e segs ↔ HasImage s e segs :=
  ⟨fun image seg mem k lt => let ⟨stored, file, frame⟩ := image seg mem k lt; ⟨stored, file, frame⟩,
    fun image seg mem k lt => let ⟨stored, file, frame⟩ := image seg mem k lt;
    ⟨stored, file, frame⟩⟩

/-- No segment has its bytes end in a first page that it does not begin, and none ends at the
page of a segment before it, unless that makes no difference to the bytes. -/
def Intact (segs : List ProgramSegment) : Prop :=
  ∀ before seg after, segs = before ++ seg :: after → ∀ k < seg.sizeInMemory,
    ((∃ later ∈ after, later.Extra ((seg.virtualAddress + k) / pageSize)) → seg.imageByte k = 0) ∧
    ((∀ later ∈ after, ¬ later.Extra ((seg.virtualAddress + k) / pageSize)) →
      seg.storedByte k = seg.imageByte k)

/-- What the loop over the segments leaves is the image. -/
theorem Loads.image_iff {segs : List ProgramSegment}
    (loads : Loads segs ⟨fun _ => none, fun _ => none⟩ c) (fits : ∀ seg ∈ segs, seg.Fits)
    (apart : segs.Pairwise ProgramSegment.Apart)
    (same : ∀ q, q ≠ (ustackTop - pageSize) / pageSize →
      c'.file q = c.file q ∧ c'.frames q = c.frames q)
    (holds : Holds e n c' s) : HasImage s e segs ↔ Intact segs := by
  have inPage : ∀ seg ∈ segs, ∀ k < seg.sizeInMemory, seg.virtualAddress + k < userTop ∧
      (seg.virtualAddress + k) / pageSize ≠ (ustackTop - pageSize) / pageSize := by
    intro seg mem k lt
    have below := (fits seg mem).below
    simp only [ustackTop, userTop, pageSize] at *
    omega
  have each : ∀ before seg after, segs = before ++ seg :: after → ∀ k < seg.sizeInMemory,
      (seg.HasByte s e k ↔
        ((∃ later ∈ after, later.Extra ((seg.virtualAddress + k) / pageSize)) →
          seg.imageByte k = 0) ∧
        ((∀ later ∈ after, ¬ later.Extra ((seg.virtualAddress + k) / pageSize)) →
          seg.storedByte k = seg.imageByte k)) := by
    rintro before seg after rfl k lt
    have mem : seg ∈ before ++ seg :: after := by simp
    obtain ⟨p, here, cleared, kept⟩ := loads.page fits apart lt
    rw [holds.hasByte_iff (inPage seg mem k lt).1, (same _ (inPage seg mem k lt).2).1,
      (same _ (inPage seg mem k lt).2).2, here]
    have bytes := loads.bytes seg mem k lt rfl
    constructor
    · rintro ⟨⟨p', stored, byte⟩, -⟩
      obtain rfl := Option.some.inj stored
      refine ⟨fun some => ?_, fun none => (kept none).symm.trans byte⟩
      rw [cleared some, byte_zeroes] at byte
      exact byte.symm
    · rintro ⟨zero, own⟩
      refine ⟨⟨p, rfl, ?_⟩, bytes⟩
      by_cases extra : ∃ later ∈ after, later.Extra ((seg.virtualAddress + k) / pageSize)
      · rw [cleared extra, byte_zeroes, zero extra]
      · have none : ∀ later ∈ after, ¬ later.Extra ((seg.virtualAddress + k) / pageSize) :=
          fun later mem there => extra ⟨later, mem, there⟩
        rw [kept none, own none]
  constructor
  · intro image before seg after split_ k lt
    exact (each before seg after split_ k lt).mp (image seg (split_ ▸ by simp) k lt)
  · intro intact seg mem k lt
    obtain ⟨before, after, split_⟩ := List.append_of_mem mem
    exact (each before seg after split_ k lt).mpr (intact before seg after split_ k lt)

/-- Every run of `env_create` that returns. -/
theorem Sound.envCreate_wp {program : UserProgram} {size second : Nat} (sound : Sound s v)
    (zero : s.mem zeroPage = zeroes) (free : s.globals.envs e = Env.zero)
    (fits : ∀ seg ∈ program.segments, seg.Fits)
    (apart : program.segments.Pairwise ProgramSegment.Apart) :
    wp (envCreate e program size second)
      (fun _ s' => HasImage s' e program.segments ↔ Intact program.segments)
      (fun _ _ => True) s := by
  have page : v.page .zeroPage = zeroes := by
    rw [← zero, sound.rep.mem sound.rep.zeroPage]
  simp only [envCreate, wp_bind, wp_get]
  refine sound.newSpace_holds (n := 0) (Q := fun pa _ s₁ => wp (if program.elfMagic then do
      loadSegments e program.segments (uint32 (size - 1)) 0xFFFFFFFF
      clearModified e
      createStack e
      resetPresent e
      Fos.lcr3 pa
    else panic "Matafa2nash 3ala Keda") _ _ s₁) page free (Nat.zero_le _) (Nat.zero_le _)
    (Or.inr fun _ => trivial) ?_ fun _ _ => trivial
  intro pa s₁ holds₁
  rw [wp_ite]
  split
  · simp only [wp_bind]
    refine wp_mono (holds₁.loadSegments fits apart) ?_ fun _ _ h => h
    rintro _ s₂ ⟨c₂, loads, holds₂⟩
    refine wp_mono holds₂.clearModified (fun _ s₃ holds₃ => ?_) fun _ _ h => h
    refine wp_mono holds₃.createStack ?_ fun _ _ h => h
    rintro _ s₄ ⟨c₄, same, holds₄⟩
    refine wp_mono holds₄.resetPresent (fun _ s₅ holds₅ => ?_) fun _ _ h => h
    exact (HasImage.lcr3 pa).trans (loads.image_iff fits apart same holds₅)
  · trivial

/-- **The loader produces the image** of a program if and only if no segment spoils its first
page or a page of a segment before it. -/
theorem Sound.loads_image {program : UserProgram} {size second : Nat} (sound : Sound s v)
    (zero : s.mem zeroPage = zeroes) (free : s.globals.envs e = Env.zero)
    (fits : ∀ seg ∈ program.segments, seg.Fits)
    (apart : program.segments.Pairwise ProgramSegment.Apart)
    (run : envCreate e program size second s = .ok () s') :
    HasImage s' e program.segments ↔ Intact program.segments :=
  (wp_ok run).mp (sound.envCreate_wp zero free fits apart)

/-! ## Programs of one byte and of two segments -/

/-- A program whose file has one byte, which is for the address `va`. -/
def byteProgram (va : Nat) : UserProgram where
  name := "a"
  elfMagic := true
  segments := [⟨fun k => if k = 0 then 1 else 0, 1, 1, va⟩]

theorem envCreate_small (program : UserProgram) (size : Nat)
    (ends : stopOf (envCreate 0 program size 0 bootKernel) = none) :
    ∃ s', envCreate 0 program size 0 smallMachine.boot = .ok () s' := by
  rw [boot_smallMachine]
  cases run : envCreate 0 program size 0 bootKernel with
  | ok a s' => exact ⟨s', rfl⟩
  | error x s' =>
    rw [run] at ends
    cases ends

theorem clearPage_zeroes : Machine.clearPage zeroes = zeroes := by
  have zero : ∀ i < pageSize, Page.setByte zeroes i 0 = zeroes := by
    intro i small
    refine Page.ext_byte fun k lt => ?_
    rw [Page.byte_setByte _ _ small lt, byte_zeroes, ite_self]
  have all : ∀ l : List Nat, (∀ i ∈ l, i < pageSize) →
      l.foldl (fun p i => p.setByte i 0) zeroes = zeroes := by
    intro l small
    induction l with
    | nil => rfl
    | cons i l ih =>
      rw [List.foldl_cons, zero i (small i (List.mem_cons_self ..)),
        ih fun k mem => small k (List.mem_cons_of_mem _ mem)]
  unfold Machine.clearPage
  exact all _ fun i mem => (List.mem_range.mp mem).trans (by decide)

/-- `smallMachine` may create an environment. -/
theorem boot_starts :
    smallMachine.boot.mem zeroPage = zeroes ∧ smallMachine.boot.globals.envs 0 = Env.zero := by
  rw [boot_smallMachine]
  have same : bootKernel.mem zeroPage = smallMachine.start.mem zeroPage := rfl
  refine ⟨?_, rfl⟩
  rw [same, Machine.start_zeroPage]
  exact clearPage_zeroes

theorem byteProgram_fits (va : Nat) (below : va + 1 ≤ ustackTop - pageSize) :
    (∀ seg ∈ (byteProgram va).segments, seg.Fits) ∧
      (byteProgram va).segments.Pairwise ProgramSegment.Apart := by
  refine ⟨fun seg mem => ?_, List.pairwise_singleton ..⟩
  obtain rfl := List.mem_singleton.mp mem
  exact ⟨Nat.le_refl 1, below⟩

/-- A segment of one byte is loaded if and only if it begins its page. -/
theorem intact_byteProgram {va : Nat} (inPage : va % pageSize + 1 < pageSize) :
    Intact (byteProgram va).segments ↔ va % pageSize = 0 := by
  constructor
  · intro intact
    have own := (intact [] _ [] rfl 0 Nat.one_pos).2 fun _ mem => by cases mem
    by_contra inside
    rw [ProgramSegment.storedByte, if_pos ⟨⟨inside, inPage⟩, Nat.one_pos⟩] at own
    exact absurd own (show ¬ (0 : BitVec 8) = 1 by decide)
  · intro start before seg after split_ k lt
    obtain ⟨rfl, rfl, rfl⟩ : before = [] ∧ seg = _ ∧ after = [] := by
      cases before with
      | nil =>
        obtain ⟨rfl, rfl⟩ := List.cons.inj split_
        exact ⟨rfl, rfl, rfl⟩
      | cons x before => simp [byteProgram] at split_
    refine ⟨?_, fun _ => if_neg fun h => h.1.1 start⟩
    rintro ⟨_, mem, _⟩
    cases mem

/-- Segments are loaded if they begin their first pages or have bytes of the file behind them, and
have bytes in memory that are not in the file. -/
theorem intact_of_bss {segs : List ProgramSegment} (long : ∀ seg ∈ segs, ¬ seg.Short)
    (bss : ∀ seg ∈ segs, seg.sizeInMemory ≠ seg.sizeInFile) : Intact segs := by
  rintro before seg after rfl k -
  have none : ∀ later ∈ after, ¬ later.Extra ((seg.virtualAddress + k) / pageSize) :=
    fun later mem extra => bss later (by simp [mem]) extra.2
  refine ⟨fun ⟨later, mem, extra⟩ => absurd extra (none later mem), fun _ => ?_⟩
  rw [ProgramSegment.storedByte, if_neg fun short => long seg (by simp) short.1]

/-- Two segments: one is in two pages and has two bytes in the first, and the other one has a page
of zeroes only. -/
def twoSegments : UserProgram where
  name := "a"
  elfMagic := true
  segments := [⟨fun k => BitVec.ofNat 8 (k + 1), 5, 0x20, 0x800FFE⟩,
    ⟨fun k => BitVec.ofNat 8 (k + 0x40), 1, 0x1001, 0x803000⟩]

/-- They are loaded, the first page of them into memory as well. -/
theorem image_twoSegments : ∃ s', envCreate 0 twoSegments 2 0 smallMachine.boot = .ok () s' ∧
    HasImage s' 0 twoSegments.segments := by
  obtain ⟨s', run⟩ := envCreate_small twoSegments 2 (by decide +kernel)
  obtain ⟨zero, free⟩ := boot_starts
  exact ⟨s', run, (smallMachine.sound_boot.loads_image zero free (by decide) (by decide) run).mpr
    (intact_of_bss (by decide) (by decide))⟩

/-- A byte further on in its page is not: the page file has the byte a page behind it. -/
theorem image_spoilt : ¬ ∀ (s s' : Kernel) (v : View) (e : Nat) (program : UserProgram)
    (size second : Nat), Sound s v → s.mem zeroPage = zeroes → s.globals.envs e = Env.zero →
    (∀ seg ∈ program.segments, seg.Fits) → program.segments.Pairwise ProgramSegment.Apart →
    envCreate e program size second s = .ok () s' → HasImage s' e program.segments := by
  intro loaded
  obtain ⟨s', run⟩ := envCreate_small (byteProgram 0x800010) 1 (by decide +kernel)
  obtain ⟨zero, free⟩ := boot_starts
  obtain ⟨fits, apart⟩ := byteProgram_fits 0x800010 (by decide)
  have image := loaded _ s' _ 0 _ 1 0 smallMachine.sound_boot zero free fits apart run
  have intact := ((wp_ok run).mp
    (smallMachine.sound_boot.envCreate_wp zero free fits apart)).mp image
  exact absurd ((intact_byteProgram (by decide)).mp intact) (by decide)

end Fos
