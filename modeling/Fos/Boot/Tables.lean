import Mathlib.Logic.Function.Basic
import Fos.Boot.Model
import Fos.Memory.FrameSpecs

/-!
# The page tables at boot

* `Booting`: the directory and the words of the tables that were written so far; a word that
  was not written is what memory held before;
* `Booting.getTable_wp`, `Booting.mapPages_wp`, `Booting.mapNew_wp`, `Booting.tables_wp`: what
  the kernel adds to them.

A table that does not lie in memory stops the kernel when it is used again, so the rules say
what happens unless memory ends before the frame `last`.
-/

namespace Fos

open Exec

/-- Frames for `size` bytes. -/
def framesFor (size : Nat) : Nat := (size + pageSize - 1) / pageSize

/-- The words written to the page tables, by directory entry and index. -/
abbrev Written := Fin 1024 → Fin 1024 → Option Word

/-- `ram` is what memory held at first, `d` the frame of the directory with the entries `D`,
`p` the first frame that was not handed out. -/
structure Booting (ram : Nat → Page) (n d envs p : Nat) (D : Page) (M : Written)
    (s : BootState) : Prop where
  frames : s.numberOfFrames = n
  free : roundUp s.ptrFreeMem = kernelBase + p * pageSize
  started : s.ptrFreeMem ≠ 0
  ptrPageDirectory : s.ptrPageDirectory = kernelBase + d * pageSize
  physPageDirectory : s.physPageDirectory = d * pageSize
  envs : s.envs = envs
  above : d < p
  dir : s.mem d = D
  table : ∀ i, frameOf (D i) ≠ 0 → frameOf (D i) ≠ d → d < frameOf (D i) ∧ frameOf (D i) < p
  word : ∀ i, frameOf (D i) ≠ 0 → frameOf (D i) ≠ d → ∀ j,
    s.mem (frameOf (D i)) j = (M i j).getD (ram (frameOf (D i)) j)
  inj : ∀ i i', frameOf (D i) ≠ 0 → frameOf (D i) ≠ d → frameOf (D i) = frameOf (D i') → i = i'
  blank : ∀ i, frameOf (D i) = 0 → ∀ j, M i j = none
  fresh : ∀ f, p ≤ f → s.mem f = ram f

section Pointers

@[simp] theorem pointerFrame_base {f : Nat} (lt : f < 65536) :
    pointerFrame (kernelBase + f * pageSize) = f := by
  simp only [pointerFrame, kernelVirtualArea, word32, kernelBase, pageSize]
  omega

theorem roundUp_base (p size : Nat) (lt : p + framesFor size < 65536) :
    roundUp ((kernelBase + p * pageSize + size) % word32) =
      kernelBase + (p + framesFor size) * pageSize := by
  simp only [roundUp, roundDown, framesFor, word32, kernelBase, pageSize] at *
  omega

theorem pdx_page {a : Nat} (lt : a < 1048576) : (pdx (a * pageSize)).val = a / 1024 := by
  simp only [pdx, pageSize, ptSize]
  omega

theorem ptx_page (a : Nat) : (ptx (a * pageSize)).val = a % 1024 := by
  simp only [ptx, pageSize]
  omega

end Pointers

/-! ## Rules for the primitives -/

section Primitives

variable {s : BootState} {E : Stop → BootState → Prop} {ptr : Nat} {i : Fin 1024} {w : Word}

@[simp] theorem wp_readAt {Q : Word → BootState → Prop} :
    wp (readAt ptr i) Q E s ↔ Q (s.mem (pointerFrame ptr) i) s := Iff.rfl

@[simp] theorem wp_writeAt {Q : Unit → BootState → Prop} :
    wp (writeAt ptr i w) Q E s ↔ Q () (s.setWord (pointerFrame ptr) i w) := Iff.rfl

@[simp] theorem wp_memsetZero {Q : Unit → BootState → Prop} {size : Nat} :
    wp (memsetZero ptr size) Q E s ↔ Q () { s with mem := clearWords s.mem ptr size } := Iff.rfl

theorem staticKernelPhysicalAddress_wp {Q : Nat → BootState → Prop} {x : Nat}
    (done : Q x s) : wp (staticKernelPhysicalAddress (kernelBase + x)) Q E s := by
  rw [staticKernelPhysicalAddress, wp_ite, if_neg (Nat.not_lt.mpr (Nat.le_add_right ..)), wp_pure,
    Nat.add_sub_cancel_left]
  exact done

theorem kernelVirtualAddress_wp {Q : Nat → BootState → Prop} {f : Nat} (small : f < 65536)
    (done : f < s.numberOfFrames → Q (kernelBase + f * pageSize) s)
    (stops : s.numberOfFrames ≤ f → ∀ e, E e s) :
    wp (kernelVirtualAddress (f * pageSize)) Q E s := by
  have frame : ppn (f * pageSize) = f := Nat.mul_div_cancel _ (by decide)
  have same : (f * pageSize + kernelBase) % word32 = kernelBase + f * pageSize := by
    simp only [word32, kernelBase, pageSize]
    omega
  simp only [kernelVirtualAddress, wp_bind, wp_get, wp_ite, wp_pure, wp_throw, frame, same]
  split
  · rename_i outside
    exact stops outside _
  · rename_i inside
    exact done (not_le.mp inside)

end Primitives

section Rules

variable {ram : Nat → Page} {n d envs p last : Nat} {D : Page} {M : Written} {s s' : BootState}
  {img : Image}

/-- More memory is handed out, and only there has memory changed. -/
theorem Booting.grow {p' : Nat} (inv : Booting ram n d envs p D M s) (le : p ≤ p')
    (frames : s'.numberOfFrames = s.numberOfFrames)
    (free : roundUp s'.ptrFreeMem = kernelBase + p' * pageSize) (started : s'.ptrFreeMem ≠ 0)
    (ptr : s'.ptrPageDirectory = s.ptrPageDirectory)
    (phys : s'.physPageDirectory = s.physPageDirectory) (vars : s'.envs = s.envs)
    (same : ∀ f, f < p ∨ p' ≤ f → s'.mem f = s.mem f) : Booting ram n d envs p' D M s' where
  frames := frames.trans inv.frames
  free := free
  started := started
  ptrPageDirectory := ptr.trans inv.ptrPageDirectory
  physPageDirectory := phys.trans inv.physPageDirectory
  envs := vars.trans inv.envs
  above := inv.above.trans_le le
  dir := (same d (.inl inv.above)).trans inv.dir
  table i pos own := ⟨(inv.table i pos own).1, (inv.table i pos own).2.trans_le le⟩
  word i pos own j := by
    rw [same _ (.inl (inv.table i pos own).2)]
    exact inv.word i pos own j
  inj := inv.inj
  blank := inv.blank
  fresh f ge := (same f (.inr ge)).trans (inv.fresh f (le.trans ge))

/-- An entry of the directory that keeps its frame, or comes to refer to the directory. -/
theorem Booting.setDir {i : Fin 1024} {w : Word} (inv : Booting ram n d envs p D M s)
    (refers : frameOf w = frameOf (D i) ∨ frameOf (D i) = 0 ∧ frameOf w = d) :
    Booting ram n d envs p (Function.update D i w) M (s.setWord d i w) := by
  have old : ∀ k, frameOf (Function.update D i w k) ≠ 0 → frameOf (Function.update D i w k) ≠ d →
      frameOf (Function.update D i w k) = frameOf (D k) := by
    intro k pos own
    rcases eq_or_ne k i with rfl | ne
    · rw [Function.update_self] at *
      exact refers.resolve_right fun self => own self.2
    · rw [Function.update_of_ne ne]
  refine { inv with dir := ?_, table := ?_, word := ?_, inj := ?_, blank := ?_, fresh := ?_ }
  · simp [BootState.setWord, inv.dir]
  · intro k pos own
    have same := old k pos own
    rw [same] at pos own ⊢
    exact inv.table k pos own
  · intro k pos own j
    have same := old k pos own
    rw [same] at pos own ⊢
    simpa [BootState.setWord, Function.update_of_ne own] using inv.word k pos own j
  · intro k k' pos own eq
    have eq₀ := old k pos own
    have eq₁ := old k' (eq ▸ pos) (eq ▸ own)
    exact inv.inj k k' (eq₀ ▸ pos) (eq₀ ▸ own) (eq₀.symm.trans (eq.trans eq₁))
  · intro k zero
    rcases eq_or_ne k i with rfl | ne
    · rw [Function.update_self] at zero
      rcases refers with same | ⟨zero', -⟩
      · exact inv.blank k (same ▸ zero)
      · exact inv.blank k zero'
    · rw [Function.update_of_ne ne] at zero
      exact inv.blank k zero
  · intro f ge
    have ne : f ≠ d := (inv.above.trans_le ge).ne'
    simpa [BootState.setWord, Function.update_of_ne ne] using inv.fresh f ge

/-- An entry of the directory gets more permissions. -/
theorem Booting.orEntry {perm : Word} (inv : Booting ram n d envs p D M s) (i : Fin 1024)
    (low : IsPerm perm) :
    Booting ram n d envs p (Function.update D i (D i ||| perm)) M (s.setWord d i (D i ||| perm)) :=
  inv.setDir (.inl (frameOf_or _ low))

/-- The entry of a new table: `PERM_PRESENT | PERM_WRITEABLE`. -/
def tableEntry (f : Nat) : Word := constructEntry (f * pageSize) (permPresent ||| permWriteable)

theorem frameOf_tableEntry {f : Nat} (lt : f < 65536) : frameOf (tableEntry f) = f :=
  frameOf_constructEntry (by omega) (by decide)

/-- `boot_allocate_space` after the first time. -/
theorem Booting.allocate_wp {Q : Nat → BootState → Prop} {E : Stop → BootState → Prop} (size : Nat)
    (inv : Booting ram n d envs p D M s)
    (done : Q (kernelBase + p * pageSize)
      { s with ptrFreeMem := (kernelBase + p * pageSize + size) % word32 }) :
    wp (bootAllocateSpace img size) Q E s := by
  simp only [bootAllocateSpace, wp_bind, wp_get, wp_ite, if_neg inv.started, wp_pure, wp_modify,
    inv.free]
  exact done

/-- A new table takes the next frame. -/
theorem Booting.newTable {i : Fin 1024} (inv : Booting ram n d envs p D M s)
    (lt : p + 1 < 65536) (none : frameOf (D i) = 0) :
    Booting ram n d envs (p + 1) (Function.update D i (tableEntry p)) M
      ({ s with ptrFreeMem := (kernelBase + p * pageSize + pageSize) % word32 }.setWord d i
        (tableEntry p)) := by
  have frame : frameOf (tableEntry p) = p := frameOf_tableEntry (by omega)
  have grown : Booting ram n d envs (p + 1) D M
      { s with ptrFreeMem := (kernelBase + p * pageSize + pageSize) % word32 } := by
    have free := roundUp_base p pageSize lt
    refine inv.grow (Nat.le_succ p) rfl free ?_ rfl rfl rfl fun _ _ => rfl
    show (kernelBase + p * pageSize + pageSize) % word32 ≠ 0
    simp only [kernelBase, pageSize, word32]
    omega
  have other : ∀ k ≠ i, Function.update D i (tableEntry p) k = D k := fun k ne =>
    Function.update_of_ne ne _ _
  have self : Function.update D i (tableEntry p) i = tableEntry p := Function.update_self ..
  have ne_d : p ≠ d := inv.above.ne'
  have pos : p ≠ 0 := (Nat.zero_le d |>.trans_lt inv.above).ne'
  refine { grown with dir := ?_, table := ?_, word := ?_, inj := ?_, blank := ?_, fresh := ?_ }
  · simp [BootState.setWord, inv.dir]
  · intro k pos' own
    rcases eq_or_ne k i with rfl | ne
    · rw [self, frame]
      exact ⟨inv.above, Nat.lt_succ_self p⟩
    · rw [other k ne] at *
      exact grown.table k pos' own
  · intro k pos' own j
    rcases eq_or_ne k i with rfl | ne
    · rw [self, frame, inv.blank k none j]
      simpa [BootState.setWord, Function.update_of_ne ne_d] using congrFun (inv.fresh p le_rfl) j
    · rw [other k ne] at *
      simpa [BootState.setWord, Function.update_of_ne own] using inv.word k pos' own j
  · intro k k' pos' own eq
    by_cases at_k : k = i <;> by_cases at_k' : k' = i
    · exact at_k.trans at_k'.symm
    · rw [at_k, self, frame, other k' at_k'] at eq
      have lt := (inv.table k' (eq ▸ pos) (eq ▸ ne_d)).2
      omega
    · rw [at_k', self, frame, other k at_k] at eq
      rw [other k at_k] at pos' own
      have lt := (inv.table k pos' own).2
      omega
    · rw [other k at_k, other k' at_k'] at eq
      rw [other k at_k] at pos' own
      exact inv.inj k k' pos' own eq
  · intro k zero
    rcases eq_or_ne k i with rfl | ne
    · rw [self, frame] at zero
      exact absurd zero pos
    · rw [other k ne] at zero
      exact inv.blank k zero
  · intro f ge
    have ne : f ≠ d := (inv.above.trans (Nat.lt_of_succ_le ge)).ne'
    simpa [BootState.setWord, Function.update_of_ne ne] using
      inv.fresh f ((Nat.le_succ p).trans ge)

/-- The table for an address: the one that is there, or a new one. -/
theorem Booting.getTable_wp {Q : Nat → BootState → Prop} (va : Nat)
    (inv : Booting ram n d envs p D M s) (own : frameOf (D (pdx va)) ≠ d) (le : p ≤ last + 1)
    (small : last + 2 < 65536)
    (old : frameOf (D (pdx va)) ≠ 0 → Q (kernelBase + frameOf (D (pdx va)) * pageSize) s)
    (new : frameOf (D (pdx va)) = 0 → p ≤ last ∧
      ∀ s', Booting ram n d envs (p + 1) (Function.update D (pdx va) (tableEntry p)) M s' →
        Q (kernelBase + p * pageSize) s') :
    wp (bootGetPageTable img (kernelBase + d * pageSize) va true) Q (fun _ _ => n ≤ last) s := by
  have above := inv.above
  have frame : pointerFrame (kernelBase + d * pageSize) = d := pointerFrame_base (by omega)
  have read : s.mem d (pdx va) = D (pdx va) := congrFun inv.dir _
  simp only [bootGetPageTable, wp_bind, wp_readAt, frame, read, extractAddress_eq]
  by_cases zero : frameOf (D (pdx va)) = 0
  · obtain ⟨le', made⟩ := new zero
    refine kernelVirtualAddress_wp (by omega) (fun _ => ?_) fun outside _ => ?_
    · simp only [zero, Nat.zero_mul, if_true, wp_bind]
      apply inv.allocate_wp
      apply staticKernelPhysicalAddress_wp
      simp only [wp_writeAt, wp_pure, frame]
      exact made _ (inv.newTable (by omega) zero)
    · rw [zero, inv.frames] at outside
      omega
  · have lt := (inv.table _ zero own).2
    refine kernelVirtualAddress_wp (by omega) (fun _ => ?_) fun outside _ => ?_
    · have pos : frameOf (D (pdx va)) * 4096 ≠ 0 := Nat.mul_ne_zero zero (by decide)
      simp only [if_neg pos, wp_pure]
      exact old zero
    · rw [inv.frames] at outside
      omega

/-! ## Mapping a range -/

/-- The page number of a directory entry and an index. -/
def pageAt (i j : Fin 1024) : Nat := i * 1024 + j

theorem pageAt_page {a : Nat} (lt : a < 1048576) (i j : Fin 1024) :
    pageAt i j = a ↔ i = pdx (a * pageSize) ∧ j = ptx (a * pageSize) := by
  rw [Fin.ext_iff, Fin.ext_iff, pdx_page lt, ptx_page, pageAt]
  omega

/-- `k` pages from the page number `a` on are mapped to the frames from `f` on. -/
def Written.map (M : Written) (a k f : Nat) (perm : Word) : Written := fun i j =>
  if a ≤ pageAt i j ∧ pageAt i j < a + k then
    some (constructEntry ((f + (pageAt i j - a)) * pageSize) perm)
  else
    M i j

theorem Written.map_zero (M : Written) (a f : Nat) (perm : Word) : M.map a 0 f perm = M := by
  funext i j
  rw [Written.map, if_neg]
  omega

theorem Written.map_succ (M : Written) (a k f : Nat) (perm : Word) :
    (M.map a 1 f perm).map (a + 1) k (f + 1) perm = M.map a (k + 1) f perm := by
  funext i j
  simp only [Written.map]
  by_cases first : pageAt i j = a
  · rw [if_neg (by omega), if_pos (by omega), if_pos (by omega)]
  · by_cases later : a + 1 ≤ pageAt i j ∧ pageAt i j < a + 1 + k
    · rw [if_pos later, if_pos (by omega),
        show f + 1 + (pageAt i j - (a + 1)) = f + (pageAt i j - a) by omega]
    · rw [if_neg later, if_neg (by omega), if_neg (by omega)]

/-- One word of a table. -/
theorem Booting.setEntry {a f : Nat} {perm : Word} (inv : Booting ram n d envs p D M s)
    (lt : a < 1048576) (pos : frameOf (D (pdx (a * pageSize))) ≠ 0)
    (own : frameOf (D (pdx (a * pageSize))) ≠ d) :
    Booting ram n d envs p D (M.map a 1 f perm) (s.setWord (frameOf (D (pdx (a * pageSize))))
      (ptx (a * pageSize)) (constructEntry (f * pageSize) perm)) := by
  have here : ∀ i j, a ≤ pageAt i j ∧ pageAt i j < a + 1 ↔
      i = pdx (a * pageSize) ∧ j = ptx (a * pageSize) := by
    intro i j
    rw [← pageAt_page lt]
    omega
  obtain ⟨above, below⟩ := inv.table _ pos own
  refine { inv with dir := ?_, word := ?_, blank := ?_, fresh := ?_ }
  · simpa [BootState.setWord, Function.update_of_ne above.ne] using inv.dir
  · intro i pos' own' j
    have old := inv.word i pos' own' j
    by_cases same : frameOf (D i) = frameOf (D (pdx (a * pageSize)))
    · have eq := inv.inj i _ pos' own' same
      subst eq
      by_cases at_j : j = ptx (a * pageSize)
      · have page := (pageAt_page lt (pdx (a * pageSize)) j).mpr ⟨rfl, at_j⟩
        rw [Written.map, if_pos ((here _ j).mpr ⟨rfl, at_j⟩), page]
        simp [BootState.setWord, at_j]
      · rw [Written.map, if_neg fun inside => at_j ((here _ j).mp inside).2, ← old]
        simp [BootState.setWord, at_j]
    · rw [Written.map, if_neg fun inside => same (congrArg (frameOf ∘ D) ((here i j).mp inside).1),
        ← old]
      simp [BootState.setWord, Function.update_of_ne same]
  · intro i zero j
    rw [Written.map, if_neg fun inside => pos (((here i j).mp inside).1 ▸ zero)]
    exact inv.blank i zero j
  · intro g ge
    have ne : g ≠ frameOf (D (pdx (a * pageSize))) := (below.trans_le ge).ne'
    simpa [BootState.setWord, Function.update_of_ne ne] using inv.fresh g ge

section Mapping

variable {Q : Unit → BootState → Prop} {perm : Word} {a f k : Nat}

/-- The word that a pass of `boot_map_range` writes, and its next pass. -/
theorem Booting.mapPage_wp {t : Nat} (inv : Booting ram n d envs p D M s) (lt : a < 1048576)
    (low : last + 2 < 65536) (le : p ≤ last + 1) (table : frameOf (D (pdx (a * pageSize))) = t)
    (pos : t ≠ 0) (own : t ≠ d)
    (rest : ∀ s', Booting ram n d envs p D (M.map a 1 f (perm ||| permPresent)) s' →
      wp (bootMapPages img (kernelBase + d * pageSize) perm k ((a + 1) * pageSize % word32)
        ((f + 1) * pageSize % word32)) Q (fun _ _ => n ≤ last) s') :
    wp (do
      writeAt (kernelBase + t * pageSize) (ptx (a * pageSize))
        (constructEntry (f * pageSize) (perm ||| permPresent))
      bootMapPages img (kernelBase + d * pageSize) perm k ((a * pageSize + pageSize) % word32)
        ((f * pageSize + pageSize) % word32)) Q (fun _ _ => n ≤ last) s := by
  subst table
  have below := (inv.table _ pos own).2
  have frame : pointerFrame (kernelBase + frameOf (D (pdx (a * pageSize))) * pageSize) =
      frameOf (D (pdx (a * pageSize))) := pointerFrame_base (by omega)
  simp only [wp_bind, wp_writeAt, frame, ← Nat.succ_mul]
  exact rest _ (inv.setEntry lt pos own)

/-- `boot_map_range` where the tables are there. -/
theorem Booting.mapPages_wp (inv : Booting ram n d envs p D M s) (lt : a + k ≤ 1048576)
    (small : f + k ≤ 1048576) (low : last + 2 < 65536) (le : p ≤ last + 1)
    (tables : ∀ b, a ≤ b → b < a + k → frameOf (D (pdx (b * pageSize))) ≠ 0 ∧
      frameOf (D (pdx (b * pageSize))) ≠ d)
    (done : ∀ s', Booting ram n d envs p D (M.map a k f (perm ||| permPresent)) s' → Q () s') :
    wp (bootMapPages img (kernelBase + d * pageSize) perm k (a * pageSize % word32)
      (f * pageSize % word32)) Q (fun _ _ => n ≤ last) s := by
  induction k generalizing a f M s with
  | zero =>
    rw [Written.map_zero] at done
    exact done s inv
  | succ k ih =>
    obtain ⟨pos, own⟩ := tables a le_rfl (by omega)
    have page : a * pageSize % word32 = a * pageSize :=
      Nat.mod_eq_of_lt (by simp only [pageSize, word32]; omega)
    have frame : f * pageSize % word32 = f * pageSize :=
      Nat.mod_eq_of_lt (by simp only [pageSize, word32]; omega)
    rw [page, frame, bootMapPages, wp_bind]
    refine inv.getTable_wp _ own le low (fun _ => ?_) fun zero => absurd zero pos
    refine inv.mapPage_wp (by omega) low le rfl pos own fun s₁ inv₁ => ?_
    refine ih inv₁ (by omega) (by omega) (fun b ge lt => tables b (by omega) (by omega))
      fun s' inv' => done s' ?_
    rw [Written.map_succ] at inv'
    exact inv'

/-- `boot_map_range` of pages of one table that is not there. -/
theorem Booting.mapNew_wp {i : Fin 1024} (inv : Booting ram n d envs p D M s)
    (lt : a + (k + 1) ≤ 1048576) (small : f + (k + 1) ≤ 1048576) (low : last + 2 < 65536)
    (le : p ≤ last) (pos : d ≠ 0)
    (table : ∀ b, a ≤ b → b < a + (k + 1) → pdx (b * pageSize) = i) (zero : frameOf (D i) = 0)
    (done : ∀ s', Booting ram n d envs (p + 1) (Function.update D i (tableEntry p))
      (M.map a (k + 1) f (perm ||| permPresent)) s' → Q () s') :
    wp (bootMapPages img (kernelBase + d * pageSize) perm (k + 1) (a * pageSize % word32)
      (f * pageSize % word32)) Q (fun _ _ => n ≤ last) s := by
  have first := table a le_rfl (by omega)
  have page : a * pageSize % word32 = a * pageSize :=
    Nat.mod_eq_of_lt (by simp only [pageSize, word32]; omega)
  have frame : f * pageSize % word32 = f * pageSize :=
    Nat.mod_eq_of_lt (by simp only [pageSize, word32]; omega)
  have entry : frameOf (Function.update D i (tableEntry p) i) = p := by
    rw [Function.update_self]
    exact frameOf_tableEntry (by omega)
  have above := inv.above
  rw [page, frame, bootMapPages, wp_bind]
  refine inv.getTable_wp _ (by rw [first, zero]; exact pos.symm) (by omega) low
    (fun there => absurd (first ▸ zero) there) fun _ => ⟨le, fun s₁ inv₁ => ?_⟩
  rw [first] at inv₁
  have own : ∀ b, a ≤ b → b < a + (k + 1) →
      frameOf (Function.update D i (tableEntry p) (pdx (b * pageSize))) = p := fun b ge lt => by
    rw [table b ge lt, entry]
  refine inv₁.mapPage_wp (by omega) low (by omega) (own a le_rfl (by omega)) (by omega)
    (by omega) fun s₂ inv₂ => ?_
  refine inv₂.mapPages_wp (by omega) (by omega) low (by omega) (fun b ge lt => ?_)
    fun s' inv' => done s' ?_
  · rw [own b (by omega) (by omega)]
    omega
  · rw [Written.map_succ] at inv'
    exact inv'

end Mapping

/-! ## The tables for `[KERNEL_BASE, 2^32)` -/

/-- `k` new tables in the frames from `p` on, for the entries from `i₀` on. -/
def freshTables (D : Page) (i₀ k p : Nat) : Page := fun i =>
  if i₀ ≤ i ∧ i < i₀ + k then tableEntry (p + (i - i₀)) else D i

theorem freshTables_succ (D : Page) {i₀ : Nat} (k p : Nat) (lt : i₀ < 1024) :
    freshTables (Function.update D ⟨i₀, lt⟩ (tableEntry p)) (i₀ + 1) k (p + 1) =
      freshTables D i₀ (k + 1) p := by
  funext i
  simp only [freshTables, Function.update_apply, Fin.ext_iff]
  by_cases first : i.val = i₀
  · rw [if_neg (by omega), if_pos first, if_pos (by omega), first, Nat.sub_self, Nat.add_zero]
  · rw [if_neg first]
    by_cases later : i₀ + 1 ≤ i.val ∧ i.val < i₀ + 1 + k
    · rw [if_pos later, if_pos (by omega),
        show p + 1 + (i.val - (i₀ + 1)) = p + (i.val - i₀) by omega]
    · rw [if_neg later, if_neg (by omega)]

theorem Booting.tables_wp {Q : Unit → BootState → Prop} {k i₀ : Nat}
    (inv : Booting ram n d envs p D M s) (lt : i₀ + k ≤ 1024) (low : last + 2 < 65536)
    (le : p + k ≤ last + 1) (pos : d ≠ 0)
    (none : ∀ i : Fin 1024, i₀ ≤ i → i < i₀ + k → frameOf (D i) = 0)
    (done : ∀ s', Booting ram n d envs (p + k) (freshTables D i₀ k p) M s' → Q () s') :
    wp (bootTables img (kernelBase + d * pageSize) k (i₀ * ptSize)) Q (fun _ _ => n ≤ last) s := by
  induction k generalizing i₀ p D s with
  | zero =>
    have same : freshTables D i₀ 0 p = D := by
      funext i
      rw [freshTables, if_neg]
      omega
    rw [same] at done
    exact done s inv
  | succ k ih =>
    have at_ : pdx (i₀ * ptSize) = ⟨i₀, by omega⟩ := by
      apply Fin.ext
      show i₀ * ptSize / ptSize % 1024 = i₀
      rw [Nat.mul_div_cancel _ (by decide)]
      exact Nat.mod_eq_of_lt (by omega)
    have zero := none ⟨i₀, by omega⟩ le_rfl (Nat.lt_add_of_pos_right (Nat.succ_pos k))
    rw [bootTables, wp_bind]
    refine inv.getTable_wp _ (by rw [at_, zero]; exact pos.symm) (by omega) low
      (fun there => absurd (at_ ▸ zero) there) fun _ => ⟨by omega, fun s₁ inv₁ => ?_⟩
    rw [at_] at inv₁
    rw [← Nat.succ_mul]
    refine ih inv₁ (by omega) (by omega) (fun i ge lt' => ?_) fun s' inv' => done s' ?_
    · have ne : i ≠ ⟨i₀, by omega⟩ := fun eq => by
        rw [eq] at ge
        exact absurd ge (Nat.not_succ_le_self _)
      rw [Function.update_of_ne ne]
      exact none i (by omega) (by omega)
    · rw [freshTables_succ, Nat.add_assoc, Nat.add_comm 1 k] at inv'
      exact inv'

/-! ## Arrays -/

theorem clearWords_of {mem : Nat → Page} {size f : Nat} (small : p < 65536)
    (out : f < p ∨ p + framesFor size ≤ f) :
    clearWords mem (kernelBase + p * pageSize) size f = mem f := by
  funext i
  rw [clearWords, pointerFrame_base small, if_neg]
  simp only [framesFor, pageSize] at *
  omega

/-- An array behind what was handed out, cleared. -/
theorem Booting.array {size : Nat} (inv : Booting ram n d envs p D M s)
    (lt : p + framesFor size < 65536) (frames : s'.numberOfFrames = s.numberOfFrames)
    (free : s'.ptrFreeMem = (kernelBase + p * pageSize + size) % word32)
    (ptr : s'.ptrPageDirectory = s.ptrPageDirectory)
    (phys : s'.physPageDirectory = s.physPageDirectory) (vars : s'.envs = s.envs)
    (mem : s'.mem = clearWords s.mem (kernelBase + p * pageSize) size) :
    Booting ram n d envs (p + framesFor size) D M s' := by
  have free' := roundUp_base p size lt
  refine inv.grow (Nat.le_add_right ..) frames
    (by rw [free, free']) ?_ ptr phys vars fun f out => ?_
  · rw [free]
    simp only [framesFor, kernelBase, pageSize, word32] at *
    omega
  · rw [mem, clearWords_of (by omega) out]

end Rules

end Fos
