import Fos.Boot.Tables

/-!
# The kernel's address space

* `KernelSpace`: the part of the address space from `USER_TOP` on, as `inc/memlayout.h`
  describes it;
* `initializeKernelVM_wp`: what `initialize_kernel_VM` leaves in memory;
* `kernelSpace_iff`: when that is the address space described.
-/

namespace Fos

open Exec

/-- Where an access goes: a frame, and whether the user may use it and it may be written. -/
structure Mapping where
  frame : Nat
  user : Bool
  writeable : Bool

/-- The walk of the page tables from the directory in the frame `dir`. -/
def lookup (mem : Nat → Page) (dir va : Nat) : Option Mapping :=
  let pde := mem dir (pdx va)
  let pte := mem (frameOf pde) (ptx va)
  if present pde ∧ present pte then
    some ⟨frameOf pte, user pde && user pte, writeable pde && writeable pte⟩
  else
    none

/-- The pages from `USER_TOP` on: all physical memory at `KERNEL_BASE`, the boot stack, and
`envs` for users to read. -/
def Image.documented (img : Image) (envs va : Nat) : Option Mapping :=
  if kernelBase ≤ va then
    some ⟨ppn (va - kernelBase), false, true⟩
  else if kernelStackTop - kernelStackSize ≤ va ∧ va < kernelStackTop then
    some ⟨ppn (img.ptrStackBottom - kernelBase + (va - (kernelStackTop - kernelStackSize))),
      false, true⟩
  else if uenvs ≤ va ∧ va < roundUp (uenvs + envsSize) then
    some ⟨ppn (envs - kernelBase + (va - uenvs)), true, false⟩
  else
    none

/-- A present entry with the frame and the permissions of `m`. -/
structure MapsTo (entry : Word) (m : Mapping) : Prop where
  present : present entry
  frame : frameOf entry = m.frame
  user : user entry = m.user
  writeable : writeable entry = m.writeable

/-- The address space that `inc/memlayout.h` describes: `VPT` and `UVPT` are the page
directory, and every other page is mapped as documented or not at all.  A page is not mapped if
there is no table for it or its entry is absent, that is not present: zero, or with other bits
only. -/
structure KernelSpace (img : Image) (s : BootState) : Prop where
  kernelTables : MapsTo (s.mem (ppn s.cr3) (pdx vpt)) ⟨ppn s.cr3, false, true⟩
  userTables : MapsTo (s.mem (ppn s.cr3) (pdx uvpt)) ⟨ppn s.cr3, true, false⟩
  pages : ∀ va, userTop ≤ va → va < word32 → pdx va ≠ pdx vpt → pdx va ≠ pdx uvpt →
    lookup s.mem (ppn s.cr3) va = img.documented s.envs va

/-! ## The frames that are handed out -/

namespace Image

variable (img : Image) (n : Nat)

/-- The frame of the page directory. -/
def pageDirectory : Nat := ppn (roundUp img.endOfKernel - kernelBase)

/-- The frame of the boot stack. -/
def stackFrame : Nat := ppn (img.ptrStackBottom - kernelBase)

/-- The frame of the table for the boot stack. -/
def stackTable : Nat := img.pageDirectory + 1

/-- The first frame of `envs`: after the tables for `[KERNEL_BASE, 2^32)`, `frames_info` and
`disk_frames_info`. -/
def envsFrame : Nat :=
  img.pageDirectory + 2 + 64 + framesFor (n * sizeofFrameInfo) + framesFor diskArraySize

/-- The frame of the table for `envs`, the last one that is handed out. -/
def envsTable : Nat := img.envsFrame n + framesFor envsSize

/-- The entries of the directory before `envs` is mapped. -/
def listing : Page :=
  Function.update (Function.update
    (freshTables (Function.update zeroes (pdx (kernelStackTop - 1)) (tableEntry img.stackTable))
      960 64 (img.pageDirectory + 2))
    (pdx vpt) (constructEntry (img.pageDirectory * pageSize) (permPresent ||| permWriteable)))
    (pdx uvpt) (BitVec.ofNat 32 (img.pageDirectory * pageSize) ||| permUser ||| permPresent)

/-- The entries of the directory. -/
def directory : Page :=
  Function.update img.listing (pdx uenvs)
    (tableEntry (img.envsTable n) ||| (permUser ||| (permPresent &&& ~~~permWriteable)))

/-- The words of the tables that are written. -/
def written : Written :=
  ((Written.map (fun _ _ => none) 982008 8 img.stackFrame (permWriteable ||| permPresent)).map
    977920 238 (img.envsFrame n) (permUser ||| permPresent)).map
    983040 65536 0 (permWriteable ||| permPresent)

variable {n}

theorem roundUp_end : roundUp img.endOfKernel = kernelBase + img.pageDirectory * pageSize := by
  have linked := img.linked
  have stack := img.stack
  have room := img.room
  simp only [pageDirectory, roundUp, roundDown, ppn, kernelStackSize, kernelBase, word32,
    pageSize] at *
  omega

theorem pageDirectory_bounds : 264 ≤ img.pageDirectory ∧ img.pageDirectory ≤ 32768 := by
  have linked := img.linked
  have stack := img.stack
  have room := img.room
  simp only [pageDirectory, roundUp, roundDown, ppn, kernelStackSize, kernelBase, word32,
    pageSize] at *
  omega

theorem stack_eq : img.ptrStackBottom = kernelBase + img.stackFrame * pageSize := by
  have linked := img.linked
  have aligned := img.aligned
  simp only [stackFrame, ppn, kernelBase, pageSize] at *
  omega

theorem stackFrame_le : img.stackFrame + 8 ≤ 32768 := by
  have stack := img.stack
  have room := img.room
  have eq := img.stack_eq
  simp only [kernelStackSize, kernelBase, pageSize] at *
  omega

theorem envsTable_eq : img.envsTable n = img.envsFrame n + 238 := by
  rw [envsTable]
  rfl

theorem envsFrame_eq :
    img.envsFrame n = img.pageDirectory + 846 + framesFor (n * sizeofFrameInfo) := by
  have disk : framesFor diskArraySize = 780 := rfl
  rw [envsFrame, disk]
  omega

theorem envsTable_le (le : n ≤ 65536) : img.envsTable n + 2 < 65536 := by
  have bounds := img.pageDirectory_bounds
  have array : framesFor (n * sizeofFrameInfo) ≤ 384 := by
    simp only [framesFor, sizeofFrameInfo, pageSize]
    omega
  rw [envsTable_eq, envsFrame_eq]
  omega

end Image

theorem detectMemory_le {extLo other : BitVec 16} {n : Nat}
    (memory : detectMemory extLo other = some n) : n ≤ 65536 := by
  have bound : ∀ maxpa : Nat,
      (if maxpa > kernelVirtualArea then none else some (maxpa / pageSize)) = some n →
        n ≤ 65536 := by
    intro maxpa eq
    by_cases large : maxpa > kernelVirtualArea
    · rw [if_pos large] at eq
      cases eq
    · rw [if_neg large] at eq
      have pages := Option.some.inj eq
      simp only [kernelVirtualArea, word32, kernelBase, pageSize] at *
      omega
  exact bound _ memory

/-! ## The directory and the tables -/

theorem pdx_vpt : (pdx vpt).val = 959 := rfl

theorem pdx_uvpt : (pdx uvpt).val = 957 := rfl

theorem pdx_uenvs : (pdx uenvs).val = 955 := rfl

theorem pdx_stackTop : (pdx (kernelStackTop - 1)).val = 958 := rfl

theorem pdx_kernelBase : (pdx kernelBase).val = 960 := rfl

namespace Image

variable {img : Image} {n : Nat} {i j : Fin 1024}

theorem listing_apply (i : Fin 1024) : img.listing i =
    if i.val = 957 then
      BitVec.ofNat 32 (img.pageDirectory * pageSize) ||| permUser ||| permPresent
    else if i.val = 959 then
      constructEntry (img.pageDirectory * pageSize) (permPresent ||| permWriteable)
    else if 960 ≤ i.val ∧ i.val < 1024 then tableEntry (img.pageDirectory + 2 + (i.val - 960))
    else if i.val = 958 then tableEntry img.stackTable
    else 0 := by
  simp only [listing, freshTables, Function.update_apply, Fin.ext_iff, pdx_vpt, pdx_uvpt,
    pdx_stackTop, zeroes]

theorem directory_apply (i : Fin 1024) : img.directory n i =
    if i.val = 955 then
      tableEntry (img.envsTable n) ||| (permUser ||| (permPresent &&& ~~~permWriteable))
    else img.listing i := by
  simp only [directory, Function.update_apply, Fin.ext_iff, pdx_uenvs]

theorem directory_base (ge : 960 ≤ i.val) :
    img.directory n i = tableEntry (img.pageDirectory + 2 + (i.val - 960)) := by
  rw [directory_apply, if_neg (by omega), listing_apply, if_neg (by omega), if_neg (by omega),
    if_pos ⟨ge, i.isLt⟩]

theorem directory_stack (at_ : i.val = 958) : img.directory n i = tableEntry img.stackTable := by
  rw [directory_apply, if_neg (by omega), listing_apply, if_neg (by omega), if_neg (by omega),
    if_neg (by omega), if_pos at_]

theorem directory_envs (at_ : i.val = 955) : img.directory n i =
    tableEntry (img.envsTable n) ||| (permUser ||| (permPresent &&& ~~~permWriteable)) := by
  rw [directory_apply, if_pos at_]

theorem directory_unused (out : i.val < 955 ∨ i.val = 956) : img.directory n i = 0 := by
  rw [directory_apply, if_neg (by omega), listing_apply, if_neg (by omega), if_neg (by omega),
    if_neg (by omega), if_neg (by omega)]

theorem written_base (ge : 960 ≤ i.val) : img.written n i j =
    some (constructEntry ((pageAt i j - 983040) * pageSize) (permWriteable ||| permPresent)) := by
  have page : 983040 ≤ pageAt i j ∧ pageAt i j < 983040 + 65536 := by
    rw [pageAt]
    omega
  rw [written, Written.map, if_pos page, Nat.zero_add]

theorem written_envs (at_ : i.val = 955) : img.written n i j =
    if j.val < 238 then
      some (constructEntry ((img.envsFrame n + j) * pageSize) (permUser ||| permPresent))
    else none := by
  have page : pageAt i j = 977920 + j := by rw [pageAt, at_]
  rw [written, Written.map, if_neg (by omega), Written.map, page]
  by_cases lt : j.val < 238
  · rw [if_pos (by omega), if_pos lt, Nat.add_sub_cancel_left]
  · rw [if_neg (by omega), if_neg lt, Written.map, if_neg (by omega)]

theorem written_stack (at_ : i.val = 958) : img.written n i j =
    if 1016 ≤ j.val then
      some (constructEntry ((img.stackFrame + (j - 1016)) * pageSize)
        (permWriteable ||| permPresent))
    else none := by
  have page : pageAt i j = 980992 + j := by rw [pageAt, at_]
  rw [written, Written.map, if_neg (by omega), Written.map, if_neg (by omega), Written.map, page]
  by_cases ge : 1016 ≤ j.val
  · rw [if_pos (by omega), if_pos ge, show 980992 + j.val - 982008 = j.val - 1016 by omega]
  · rw [if_neg (by omega), if_neg ge]

end Image

/-! ## The run -/

section Run

variable {ram : Nat → Page} {n d envs p last : Nat} {D : Page} {M : Written} {s s' : BootState}
  {img : Image} {E : Stop → BootState → Prop}

/-- What `turn_on_paging` leaves: the directory's entries from the 64th on and all other memory
are as they were. -/
structure Paged (d : Nat) (s s' : BootState) : Prop where
  physPageDirectory : s'.physPageDirectory = s.physPageDirectory
  envs : s'.envs = s.envs
  mem : ∀ f ≠ d, s'.mem f = s.mem f
  dir : ∀ i : Fin 1024, 64 ≤ i.val → s'.mem d i = s.mem d i

theorem Paged.write (paged : Paged d s s') {j : Nat} (lt : j < 64) (w : Word) :
    Paged d s (s'.setWord d (Fin.ofNat 1024 j) w) where
  physPageDirectory := paged.physPageDirectory
  envs := paged.envs
  mem f ne := by simpa [BootState.setWord, Function.update_of_ne ne] using paged.mem f ne
  dir i ge := by
    have ne : i ≠ Fin.ofNat 1024 j := fun eq => by
      have val := congrArg Fin.val eq
      rw [Fin.val_ofNat, Nat.mod_eq_of_lt (by omega)] at val
      omega
    show Function.update s'.mem d (Function.update (s'.mem d) (Fin.ofNat 1024 j) w) d i = _
    rw [Function.update_self, Function.update_of_ne ne]
    exact paged.dir i ge

theorem mem_lowEntries {j ptr : Nat} :
    j ∈ lowEntries ptr ↔ j < (pdx ptr).val - (pdx kernelBase).val := by
  unfold lowEntries
  exact List.mem_range

theorem lowEntries_lt {j ptr : Nat} (mem : j ∈ lowEntries ptr) : j < 64 := by
  have lt := mem_lowEntries.mp mem
  have below := (pdx ptr).isLt
  have base := pdx_kernelBase
  omega

theorem basePages_lt {k : Nat} (mem : k ∈ basePages) : k < 65536 := by
  have pages : kernelVirtualArea / pageSize = 65536 := by decide
  unfold basePages at mem
  have lt := List.mem_range.mp mem
  omega

theorem turnOnPaging_wp {Q : Unit → BootState → Prop}
    (ptr : s.ptrPageDirectory = kernelBase + d * pageSize) (small : d < 65536)
    (done : ∀ s', Paged d s s' → s'.cr3 = s.physPageDirectory → Q () s') :
    wp turnOnPaging Q E s := by
  have frame : pointerFrame s.ptrPageDirectory = d := by rw [ptr, pointerFrame_base small]
  have low : ∀ j ∈ lowEntries s.ptrFreeMem, j < 64 := fun j => lowEntries_lt
  simp only [turnOnPaging, wp_bind, wp_get]
  refine wp_forM (fun rest s₁ => (∀ j ∈ rest, j < 64) ∧ Paged d s s₁) ?_ ?_
    ⟨low, rfl, rfl, fun _ _ => rfl, fun _ _ => rfl⟩
  · rintro j rest s₁ ⟨low, paged⟩
    simp only [wp_bind, wp_readAt, wp_writeAt, frame]
    exact ⟨fun i mem => low i (List.mem_cons_of_mem j mem),
      paged.write (low j List.mem_cons_self) _⟩
  · rintro s₁ ⟨-, paged⟩
    simp only [wp_modify]
    refine wp_forM (fun rest s₂ => (∀ j ∈ rest, j < 64) ∧ Paged d s s₂ ∧
      s₂.cr3 = s.physPageDirectory) ?_ (fun s₂ inv => done s₂ inv.2.1 inv.2.2)
      ⟨low, ⟨paged.physPageDirectory, paged.envs, paged.mem, paged.dir⟩, paged.physPageDirectory⟩
    rintro j rest s₂ ⟨low, paged₂, cr3⟩
    simp only [wp_writeAt, frame]
    exact ⟨fun i mem => low i (List.mem_cons_of_mem j mem),
      paged₂.write (low j List.mem_cons_self) _, cr3⟩

/-- A page that is mapped. -/
theorem Booting.checkVa2pa_wp {Q : Nat → BootState → Prop} {va t : Nat} {w : Word}
    (inv : Booting ram n d envs p D M s) (small : p < 65536) (entry : present (D (pdx va)) = true)
    (table : frameOf (D (pdx va)) = t) (pos : t ≠ 0) (own : t ≠ d)
    (here : M (pdx va) (ptx va) = some w) (there : present w = true)
    (done : Q (frameOf w * pageSize) s) (stops : n ≤ t → ∀ e, E e s) :
    wp (checkVa2pa (kernelBase + d * pageSize) va) Q E s := by
  subst table
  have below := (inv.table _ pos own).2
  have above := inv.above
  have frame : pointerFrame (kernelBase + d * pageSize) = d := pointerFrame_base (by omega)
  have read : s.mem d (pdx va) = D (pdx va) := congrFun inv.dir _
  have table : pointerFrame (kernelBase + frameOf (D (pdx va)) * pageSize) = frameOf (D (pdx va)) :=
    pointerFrame_base (by omega)
  have word : s.mem (frameOf (D (pdx va))) (ptx va) = w := by
    rw [inv.word _ pos own, here, Option.getD_some]
  simp only [checkVa2pa, wp_bind, wp_readAt, frame, read, wp_ite, entry, Bool.true_eq_false,
    if_false, extractAddress_eq]
  refine kernelVirtualAddress_wp (by omega) (fun _ => ?_) fun outside => ?_
  · simp only [table, word, there, Bool.true_eq_false, if_false, wp_pure]
    exact done
  · rw [inv.frames] at outside
    exact stops outside

theorem wp_bootAssert {Q : Unit → BootState → Prop} {a : Prop} [Decidable a] (holds : a)
    (done : Q () s) : wp (bootAssert a) Q E s := by
  rw [bootAssert, wp_ite, if_pos holds]
  exact done

/-- The entry of `f` with the permissions `perm`. -/
theorem mapsTo_constructEntry {f : Nat} {perm : Word} (lt : f < 1048576) (low : IsPerm perm)
    (there : present perm = true) :
    MapsTo (constructEntry (f * pageSize) perm) ⟨f, user perm, writeable perm⟩ where
  present := (getLsbD_constructEntry f perm (by decide)).trans there
  frame := frameOf_constructEntry lt low
  user := getLsbD_constructEntry f perm (by decide)
  writeable := getLsbD_constructEntry f perm (by decide)

theorem mapsTo_tableEntry {f : Nat} (lt : f < 65536) :
    MapsTo (tableEntry f) ⟨f, false, true⟩ :=
  mapsTo_constructEntry (lt.trans (by decide)) (by decide) (by decide)

theorem Image.directory_mustBeSet (le : n ≤ 65536) (i : Fin 1024) :
    if mustBeSet i then img.directory n i ≠ 0 else img.directory n i = 0 := by
  have bounds := img.pageDirectory_bounds
  have last := img.envsTable_le le
  have set : mustBeSet i = true ↔ i.val = 955 ∨ 957 ≤ i.val := by
    simp only [mustBeSet, Bool.or_eq_true, decide_eq_true_eq, Fin.ext_iff, Fin.le_def, pdx_vpt,
      pdx_uvpt, pdx_stackTop, pdx_uenvs, pdx_kernelBase]
    omega
  split
  · rename_i must
    have tables : ∀ f < 65536, tableEntry f ≠ 0 := fun f lt =>
      ne_zero_of_present (mapsTo_tableEntry lt).present
    have self : frameOf (constructEntry (img.pageDirectory * pageSize)
        (permPresent ||| permWriteable)) = img.pageDirectory :=
      frameOf_constructEntry (by omega) (by decide)
    rw [set] at must
    rw [Image.directory_apply, Image.listing_apply]
    split_ifs with envs uvpt vpt base stack
    · refine ne_zero_of_frameOf ?_
      rw [frameOf_or _ (by decide), frameOf_tableEntry (by omega), Image.envsTable_eq]
      omega
    · refine ne_zero_of_frameOf ?_
      rw [frameOf_or _ (by decide), frameOf_or _ (by decide), frameOf_ofNat (by omega)]
      omega
    · refine ne_zero_of_frameOf ?_
      omega
    · exact tables _ (by omega)
    · exact tables _ (by rw [Image.stackTable]; omega)
    · omega
  · rename_i may
    rw [set] at may
    exact Image.directory_unused (by omega)

/-- `check_boot_pgdir` succeeds. -/
theorem Booting.checkBootPgdir_wp {Q : Unit → BootState → Prop} (le : n ≤ 65536)
    (inv : Booting ram n img.pageDirectory envs (img.envsTable n + 1) (img.directory n)
      (img.written n) s) (done : Q () s) :
    wp (checkBootPgdir img) Q (fun _ _ => n ≤ img.envsTable n) s := by
  have bounds := img.pageDirectory_bounds
  have last := img.envsTable_le le
  have above := img.envsTable_eq (n := n)
  have first := img.envsFrame_eq (n := n)
  have stackFrame := img.stackFrame_le
  have frame : pointerFrame s.ptrPageDirectory = img.pageDirectory := by
    rw [inv.ptrPageDirectory, pointerFrame_base (by omega)]
  have pages : ∀ k ∈ basePages, k < 65536 := fun k => basePages_lt
  simp only [checkBootPgdir, wp_bind, wp_get]
  generalize List.finRange 1024 = is
  refine wp_forM (fun rest s₁ => (∀ k ∈ rest, k < 65536) ∧ s₁ = s) ?_ ?_ ⟨pages, rfl⟩
  · rintro k rest _ ⟨low, rfl⟩
    have lt := low k List.mem_cons_self
    have at_ : (pdx (kernelBase + k * pageSize)).val = 960 + k / 1024 := by
      simp only [pdx, kernelBase, pageSize, ptSize]
      omega
    have at_page : pageAt (pdx (kernelBase + k * pageSize)) (ptx (kernelBase + k * pageSize)) =
        983040 + k := by
      rw [pageAt, at_]
      simp only [ptx, kernelBase, pageSize]
      omega
    have table := mapsTo_tableEntry (f := img.pageDirectory + 2 + k / 1024) (by omega)
    have entry : img.directory n (pdx (kernelBase + k * pageSize)) =
        tableEntry (img.pageDirectory + 2 + k / 1024) := by
      rw [Image.directory_base (by omega), at_, Nat.add_sub_cancel_left]
    have word : img.written n (pdx (kernelBase + k * pageSize)) (ptx (kernelBase + k * pageSize)) =
        some (constructEntry (k * pageSize) (permWriteable ||| permPresent)) := by
      rw [Image.written_base (by omega), at_page, Nat.add_sub_cancel_left]
    have maps : MapsTo (constructEntry (k * pageSize) (permWriteable ||| permPresent)) _ :=
      mapsTo_constructEntry (by omega) (by decide) (by decide)
    rw [inv.ptrPageDirectory, wp_bind]
    have at_table : frameOf (img.directory n (pdx (kernelBase + k * pageSize))) =
        img.pageDirectory + 2 + k / 1024 := by rw [entry, table.frame]
    refine inv.checkVa2pa_wp (by omega) (by rw [entry]; exact table.present) at_table (by omega)
      (by omega) word maps.present ?_ ?_
    · rw [maps.frame]
      exact wp_bootAssert rfl ⟨fun i mem => low i (List.mem_cons_of_mem k mem), rfl⟩
    · intro outside _
      omega
  · rintro s ⟨-, rfl⟩
    have stackPages : ∀ k ∈ List.range 8, k < 8 := fun k mem => List.mem_range.mp mem
    generalize List.range 8 = ks at stackPages ⊢
    refine wp_forM (fun rest s₁ => (∀ k ∈ rest, k < 8) ∧ s₁ = s) ?_ ?_ ⟨stackPages, rfl⟩
    · rintro k rest _ ⟨low, rfl⟩
      have lt := low k List.mem_cons_self
      have at_ : (pdx (kernelStackTop - kernelStackSize + k * pageSize)).val = 958 := by
        simp only [pdx, kernelStackTop, kernelStackSize, vpt, pageSize, ptSize]
        omega
      have at_ptx : (ptx (kernelStackTop - kernelStackSize + k * pageSize)).val = 1016 + k := by
        simp only [ptx, kernelStackTop, kernelStackSize, vpt, pageSize]
        omega
      have table := mapsTo_tableEntry (f := img.stackTable) (by rw [Image.stackTable]; omega)
      have entry : img.directory n (pdx (kernelStackTop - kernelStackSize + k * pageSize)) =
          tableEntry img.stackTable := Image.directory_stack at_
      have word : img.written n (pdx (kernelStackTop - kernelStackSize + k * pageSize))
            (ptx (kernelStackTop - kernelStackSize + k * pageSize)) =
          some (constructEntry ((img.stackFrame + k) * pageSize)
            (permWriteable ||| permPresent)) := by
        rw [Image.written_stack at_, if_pos (by omega), at_ptx, Nat.add_sub_cancel_left]
      have maps : MapsTo (constructEntry ((img.stackFrame + k) * pageSize)
          (permWriteable ||| permPresent)) _ :=
        mapsTo_constructEntry (by omega) (by decide) (by decide)
      have at_table : frameOf (img.directory n (pdx (kernelStackTop - kernelStackSize +
          k * pageSize))) = img.pageDirectory + 1 := by rw [entry, table.frame, Image.stackTable]
      rw [inv.ptrPageDirectory, wp_bind, img.stack_eq]
      apply staticKernelPhysicalAddress_wp
      rw [wp_bind]
      refine inv.checkVa2pa_wp (by omega) (by rw [entry]; exact table.present) at_table
        (by omega) (by omega) word maps.present ?_ ?_
      · rw [maps.frame]
        exact wp_bootAssert (Nat.add_mul ..)
          ⟨fun i mem => low i (List.mem_cons_of_mem k mem), rfl⟩
      · intro outside _
        omega
    · rintro s ⟨-, rfl⟩
      refine wp_forM (fun _ s₁ => s₁ = s) ?_ (fun _ eq => eq ▸ done) rfl
      rintro i rest s rfl
      have read : s.mem (pointerFrame s.ptrPageDirectory) i = img.directory n i := by
        rw [frame, inv.dir]
      simp only [wp_bind, wp_readAt]
      refine wp_bootAssert ?_ rfl
      rw [read]
      exact Image.directory_mustBeSet le i

theorem bootMapRange_eq {dir va size pa a f k : Nat} (perm : Word) (page : va = a * pageSize)
    (frame : pa = f * pageSize) (passes : (size + pageSize - 1) / pageSize = k)
    (lt : a < 1048576) (small : f < 1048576) : bootMapRange img dir va size pa perm =
      bootMapPages img dir perm k (a * pageSize % word32) (f * pageSize % word32) := by
  have page' : a * pageSize % word32 = a * pageSize :=
    Nat.mod_eq_of_lt (by simp only [pageSize, word32]; omega)
  have frame' : f * pageSize % word32 = f * pageSize :=
    Nat.mod_eq_of_lt (by simp only [pageSize, word32]; omega)
  rw [bootMapRange, passes, page', frame', page, frame]

/-- `boot_allocate_space` for the first time. -/
theorem bootAllocateSpace_first_wp {Q : Nat → BootState → Prop} {size : Nat}
    (first : s.ptrFreeMem = 0)
    (done : Q (roundUp img.endOfKernel)
      { s with ptrFreeMem := (roundUp img.endOfKernel + size) % word32 }) :
    wp (bootAllocateSpace img size) Q E s := by
  simp only [bootAllocateSpace, wp_bind, wp_get, wp_ite, if_pos first, wp_modify, wp_pure]
  exact done

/-- The directory is made. -/
theorem bootDirectory_wp {Q : Nat → BootState → Prop} (frames : s.numberOfFrames = n)
    (first : s.ptrFreeMem = 0)
    (done : ∀ s', Booting s.mem n img.pageDirectory s.envs (img.pageDirectory + 1) zeroes
      (fun _ _ => none) s' → Q (kernelBase + img.pageDirectory * pageSize) s') :
    wp (bootDirectory img) Q E s := by
  have bounds := img.pageDirectory_bounds
  have none : ∀ i, frameOf (zeroes i) = 0 := fun _ => frameOf_zero
  have one : framesFor pageSize = 1 := by decide
  have free := roundUp_base img.pageDirectory pageSize (by omega)
  rw [one] at free
  have cleared : clearWords s.mem (kernelBase + img.pageDirectory * pageSize) pageSize
      img.pageDirectory = zeroes := by
    funext i
    rw [clearWords, pointerFrame_base (by omega), if_pos]
    · rfl
    · rw [Nat.sub_self, Nat.zero_mul, Nat.zero_add, pageSize]
      exact ⟨le_rfl, by omega⟩
  rw [bootDirectory, wp_bind, bootArray, wp_bind]
  refine bootAllocateSpace_first_wp first ?_
  rw [img.roundUp_end, wp_bind, wp_memsetZero, wp_pure, wp_bind]
  refine staticKernelPhysicalAddress_wp ?_
  rw [wp_bind, wp_modify, wp_pure]
  refine done _ ⟨frames, free, ?_, rfl, rfl, rfl, Nat.lt_succ_self _, cleared,
    fun i pos => absurd (none i) pos, fun i pos => absurd (none i) pos,
    fun i _ pos => absurd (none i) pos, fun _ _ _ => rfl,
    fun f ge => clearWords_of (by omega) (.inr (by omega))⟩
  show (kernelBase + img.pageDirectory * pageSize + pageSize) % word32 ≠ 0
  simp only [kernelBase, pageSize, word32]
  omega

/-- An array is made. -/
theorem Booting.bootArray_wp {Q : Nat → BootState → Prop} {size : Nat}
    (inv : Booting ram n d envs p D M s) (lt : p + framesFor size < 65536)
    (done : ∀ s', Booting ram n d envs (p + framesFor size) D M s' →
      Q (kernelBase + p * pageSize) s') : wp (bootArray img size) Q E s := by
  rw [bootArray, wp_bind]
  refine inv.allocate_wp size ?_
  rw [wp_bind, wp_memsetZero, wp_pure]
  exact done _ (inv.array lt rfl rfl rfl rfl rfl rfl)

/-- `VPT` and `UVPT` become the directory. -/
theorem Booting.setupListing_wp {Q : Unit → BootState → Prop}
    (inv : Booting ram n d envs p D M s) (small : d < 65536)
    (vptFree : frameOf (D (pdx vpt)) = 0) (uvptFree : frameOf (D (pdx uvpt)) = 0)
    (done : ∀ s', Booting ram n d envs p (Function.update
      (Function.update D (pdx vpt) (constructEntry (d * pageSize) (permPresent ||| permWriteable)))
      (pdx uvpt) (BitVec.ofNat 32 (d * pageSize) ||| permUser ||| permPresent)) M s' → Q () s') :
    wp setupListing Q E s := by
  have frame : pointerFrame (kernelBase + d * pageSize) = d := pointerFrame_base small
  have ne : pdx uvpt ≠ pdx vpt := fun eq => absurd (congrArg Fin.val eq) (by decide)
  have first : frameOf (constructEntry (d * pageSize) (permPresent ||| permWriteable)) = d :=
    frameOf_constructEntry (by omega) (by decide)
  have second : frameOf (BitVec.ofNat 32 (d * pageSize) ||| permUser ||| permPresent) = d := by
    rw [frameOf_or _ (by decide), frameOf_or _ (by decide), frameOf_ofNat (by omega)]
  rw [setupListing, wp_bind, wp_get, inv.ptrPageDirectory, wp_bind]
  refine staticKernelPhysicalAddress_wp ?_
  rw [wp_bind, wp_writeAt, wp_writeAt, frame]
  refine done _ ((inv.setDir (.inr ⟨vptFree, first⟩)).setDir (.inr ⟨?_, second⟩))
  rw [Function.update_of_ne ne]
  exact uvptFree

/-- The boot stack is mapped by a table of its own. -/
theorem Booting.mapBootStack_wp {Q : Unit → BootState → Prop} (le : n ≤ 65536)
    (inv : Booting ram n img.pageDirectory envs (img.pageDirectory + 1) zeroes (fun _ _ => none) s)
    (done : ∀ s', Booting ram n img.pageDirectory envs (img.pageDirectory + 2)
      (Function.update zeroes (pdx (kernelStackTop - 1)) (tableEntry img.stackTable))
      (Written.map (fun _ _ => none) 982008 8 img.stackFrame (permWriteable ||| permPresent)) s' →
        Q () s') :
    wp (mapBootStack img (kernelBase + img.pageDirectory * pageSize)) Q
      (fun _ _ => n ≤ img.envsTable n) s := by
  have bounds := img.pageDirectory_bounds
  have last := img.envsTable_le le
  have above := img.envsTable_eq (n := n)
  have array := img.envsFrame_eq (n := n)
  have stackFrame := img.stackFrame_le
  rw [mapBootStack, wp_bind, img.stack_eq]
  refine staticKernelPhysicalAddress_wp ?_
  rw [bootMapRange_eq permWriteable
    (show kernelStackTop - kernelStackSize = 982008 * pageSize by decide) rfl
    (show (kernelStackSize + pageSize - 1) / pageSize = 8 by decide) (by omega) (by omega)]
  refine inv.mapNew_wp (i := pdx (kernelStackTop - 1)) (by omega) (by omega) (by omega)
    (by omega) (by omega) (fun b ge lt => ?_) frameOf_zero done
  rw [Fin.ext_iff, pdx_page (by omega), pdx_stackTop]
  omega

theorem bootTables_eq (dir : Nat) : bootTables img dir (kernelVirtualArea / ptSize) kernelBase =
    bootTables img dir 64 (960 * ptSize) := by
  rw [show kernelVirtualArea / ptSize = 64 by decide, show kernelBase = 960 * ptSize by decide]

theorem Booting.setEnvs (inv : Booting ram n d envs p D M s) (envs' : Nat) :
    Booting ram n d envs' p D M { s with envs := envs' } := { inv with envs := rfl }

theorem Booting.bootFrameArrays_wp {Q : Unit → BootState → Prop}
    (inv : Booting ram n d envs p D M s)
    (lt : p + framesFor (n * sizeofFrameInfo) + framesFor diskArraySize < 65536)
    (done : ∀ s', Booting ram n d envs
      (p + framesFor (n * sizeofFrameInfo) + framesFor diskArraySize) D M s' → Q () s') :
    wp (bootFrameArrays img) Q E s := by
  rw [bootFrameArrays, wp_bind, wp_get, inv.frames, wp_bind]
  refine inv.bootArray_wp (by omega) fun s₁ inv₁ => ?_
  rw [wp_bind, wp_modify, wp_bind]
  refine Booting.bootArray_wp { inv₁ with } (by omega) fun s₂ inv₂ => ?_
  rw [wp_modify]
  exact done _ { inv₂ with }

/-- `envs` is mapped by a table of its own, and the entry lets users in. -/
theorem Booting.mapEnvs_wp {Q : Unit → BootState → Prop} (le : n ≤ 65536)
    (inv : Booting ram n img.pageDirectory envs (img.envsFrame n) img.listing M s)
    (done : ∀ s', Booting ram n img.pageDirectory (kernelBase + img.envsFrame n * pageSize)
      (img.envsTable n + 1) (img.directory n)
      (M.map 977920 238 (img.envsFrame n) (permUser ||| permPresent)) s' → Q () s') :
    wp (mapEnvs img (kernelBase + img.pageDirectory * pageSize)) Q
      (fun _ _ => n ≤ img.envsTable n) s := by
  have bounds := img.pageDirectory_bounds
  have last := img.envsTable_le le
  have above := img.envsTable_eq (n := n)
  have array := img.envsFrame_eq (n := n)
  have size : framesFor envsSize = 238 := by decide
  have frame : pointerFrame (kernelBase + img.pageDirectory * pageSize) = img.pageDirectory :=
    pointerFrame_base (by omega)
  have unused : frameOf (img.listing (pdx uenvs)) = 0 := by
    rw [Image.listing_apply, pdx_uenvs]
    exact frameOf_zero
  rw [mapEnvs, wp_bind]
  refine inv.bootArray_wp (by omega) fun s₁ inv₁ => ?_
  rw [wp_bind, wp_modify, wp_bind]
  have inv₁' := inv₁.setEnvs (kernelBase + img.envsFrame n * pageSize)
  generalize { s₁ with envs := kernelBase + img.envsFrame n * pageSize } = t at inv₁' ⊢
  refine staticKernelPhysicalAddress_wp ?_
  rw [wp_bind, bootMapRange_eq permUser (show uenvs = 977920 * pageSize by decide) rfl
    (show (envsSize + pageSize - 1) / pageSize = 238 by decide) (by omega) (by omega)]
  refine inv₁'.mapNew_wp (i := pdx uenvs) (by omega) (by omega)
    (by omega) (by omega) (by omega) (fun b ge lt => ?_) unused fun s₂ inv₂ => ?_
  · rw [Fin.ext_iff, pdx_page (by omega), pdx_uenvs]
    omega
  rw [wp_bind, wp_readAt, wp_writeAt, frame, inv₂.dir]
  have low : IsPerm (permUser ||| (permPresent &&& ~~~permWriteable)) := by decide
  have entry := inv₂.orEntry (pdx uenvs) low
  rw [Function.update_idem] at entry
  rw [Function.update_self] at entry ⊢
  exact done _ entry

/-- All physical memory is mapped by the tables that are there, and the kernel switches to
them. -/
theorem Booting.finish_wp {Q : Unit → BootState → Prop} (le : n ≤ 65536)
    (inv : Booting ram n img.pageDirectory envs (img.envsTable n + 1) (img.directory n)
      (((Written.map (fun _ _ => none) 982008 8 img.stackFrame (permWriteable ||| permPresent)).map
        977920 238 (img.envsFrame n) (permUser ||| permPresent))) s)
    (done : ∀ s₁, Booting ram n img.pageDirectory envs (img.envsTable n + 1) (img.directory n)
        (img.written n) s₁ → ∀ s', Paged img.pageDirectory s₁ s' →
      s'.cr3 = s₁.physPageDirectory → Q () s') :
    wp (do
      bootMapRange img (kernelBase + img.pageDirectory * pageSize) kernelBase
        (word32 - 1 - kernelBase) 0 permWriteable
      checkBootPgdir img
      turnOnPaging) Q (fun _ _ => n ≤ img.envsTable n) s := by
  have bounds := img.pageDirectory_bounds
  have last := img.envsTable_le le
  have above := img.envsTable_eq (n := n)
  have array := img.envsFrame_eq (n := n)
  rw [wp_bind, bootMapRange_eq permWriteable (show kernelBase = 983040 * pageSize by decide)
    (Nat.zero_mul pageSize).symm
    (show (word32 - 1 - kernelBase + pageSize - 1) / pageSize = 65536 by decide) (by omega)
    (by omega)]
  refine inv.mapPages_wp (by omega) (by omega) (by omega) (by omega) (fun b ge lt => ?_)
    fun s₁ inv₁ => ?_
  · have at_b : 960 ≤ (pdx (b * pageSize)).val := by
      rw [pdx_page (by omega)]
      omega
    rw [Image.directory_base at_b, frameOf_tableEntry (by omega)]
    omega
  rw [wp_bind]
  refine Booting.checkBootPgdir_wp le inv₁ ?_
  exact turnOnPaging_wp inv₁.ptrPageDirectory (by omega) (done s₁ inv₁)

/-- `initialize_kernel_VM` in a memory that the last table is in. -/
theorem initializeKernelVM_wp {Q : Unit → BootState → Prop} (le : n ≤ 65536)
    (frames : s.numberOfFrames = n) (first : s.ptrFreeMem = 0)
    (done : ∀ s₁, Booting s.mem n img.pageDirectory
        (kernelBase + img.envsFrame n * pageSize) (img.envsTable n + 1) (img.directory n)
        (img.written n) s₁ →
      ∀ s', Paged img.pageDirectory s₁ s' → s'.cr3 = s₁.physPageDirectory → Q () s') :
    wp (initializeKernelVM img) Q (fun _ _ => n ≤ img.envsTable n) s := by
  have bounds := img.pageDirectory_bounds
  have last := img.envsTable_le le
  have above := img.envsTable_eq (n := n)
  have array := img.envsFrame_eq (n := n)
  have disk : framesFor diskArraySize = 780 := by decide
  rw [initializeKernelVM, wp_bind]
  refine bootDirectory_wp frames first fun s₁ inv₁ => ?_
  rw [wp_bind]
  refine inv₁.mapBootStack_wp le fun s₂ inv₂ => ?_
  rw [wp_bind, bootTables_eq]
  refine inv₂.tables_wp (by omega) (by omega) (by omega) (by omega) (fun i ge lt => ?_)
    fun s₃ inv₃ => ?_
  · have ne : i ≠ pdx (kernelStackTop - 1) := fun eq => by
      rw [eq, pdx_stackTop] at ge
      omega
    rw [Function.update_of_ne ne]
    exact frameOf_zero
  rw [wp_bind]
  refine inv₃.bootFrameArrays_wp (by omega) fun s₄ inv₄ => ?_
  rw [wp_bind]
  refine inv₄.setupListing_wp (by omega) ?_ ?_ fun s₅ inv₅ => ?_
  · rw [freshTables, if_neg, Function.update_of_ne]
    · exact frameOf_zero
    · exact fun eq => absurd (congrArg Fin.val eq) (by decide)
    · rw [pdx_vpt]
      omega
  · rw [freshTables, if_neg, Function.update_of_ne]
    · exact frameOf_zero
    · exact fun eq => absurd (congrArg Fin.val eq) (by decide)
    · rw [pdx_uvpt]
      omega
  rw [wp_bind]
  refine Booting.mapEnvs_wp le inv₅ fun s₆ inv₆ => ?_
  exact inv₆.finish_wp le done

end Run

/-! ## The address space that is left -/

/-- The words of memory under the entries of the two small tables that are never written do not
look like entries: they are zero, or at least not present. -/
structure Image.Blank (img : Image) (n : Nat) (ram : Nat → Page) : Prop where
  stack : ∀ j : Fin 1024, j.val < 1016 → present (ram img.stackTable j) = false
  envs : ∀ j : Fin 1024, 238 ≤ j.val → present (ram (img.envsTable n) j) = false

/-- The page tables when `initialize_kernel_VM` returns. -/
structure Booted (img : Image) (n : Nat) (ram : Nat → Page) (s : BootState) : Prop where
  cr3 : ppn s.cr3 = img.pageDirectory
  envs : s.envs = kernelBase + img.envsFrame n * pageSize
  dir : ∀ i : Fin 1024, 64 ≤ i.val → s.mem img.pageDirectory i = img.directory n i
  word : ∀ i, frameOf (img.directory n i) ≠ 0 → frameOf (img.directory n i) ≠ img.pageDirectory →
    ∀ j, s.mem (frameOf (img.directory n i)) j =
      (img.written n i j).getD (ram (frameOf (img.directory n i)) j)

section Space

variable {img : Image} {n : Nat} {ram : Nat → Page} {s s' : BootState}

theorem initializeKernelVM_ends (img : Image) (le : n ≤ 65536) (frames : s.numberOfFrames = n)
    (first : s.ptrFreeMem = 0) : wp (initializeKernelVM img) (fun _ s' => Booted img n s.mem s')
      (fun _ _ => n ≤ img.envsTable n) s := by
  refine initializeKernelVM_wp le frames first fun s₁ inv s' paged cr3 => ?_
  refine ⟨?_, paged.envs.trans inv.envs, fun i ge => ?_, fun i pos own j => ?_⟩
  · rw [cr3, inv.physPageDirectory]
    exact Nat.mul_div_cancel _ (by decide)
  · rw [paged.dir i ge, inv.dir]
  · rw [paged.mem _ own]
    exact inv.word i pos own j

/-- Where the walk goes through a table of the kernel. -/
theorem Booted.lookup_eq {va t : Nat} {u w : Bool} (booted : Booted img n ram s)
    (high : 64 ≤ (pdx va).val) (entry : MapsTo (img.directory n (pdx va)) ⟨t, u, w⟩) (pos : t ≠ 0)
    (own : t ≠ img.pageDirectory) {pte : Word}
    (word : (img.written n (pdx va) (ptx va)).getD (ram t (ptx va)) = pte) :
    lookup s.mem (ppn s.cr3) va =
      if present pte then some ⟨frameOf pte, u && user pte, w && writeable pte⟩ else none := by
  have frame := entry.frame
  have read := booted.word (pdx va) (by rw [frame]; exact pos) (by rw [frame]; exact own) (ptx va)
  rw [frame] at read
  simp only [lookup, booted.cr3, booted.dir _ high, frame, read, word, entry.present, true_and,
    entry.user, entry.writeable]

theorem addresses (va : Nat) (lt : va < word32) :
    va = (pdx va).val * ptSize + (ptx va).val * pageSize + va % pageSize := by
  simp only [pdx, ptx, ptSize, pageSize, word32] at *
  omega

/-- All physical memory is where it belongs. -/
theorem Booted.lookup_base {va : Nat} (booted : Booted img n ram s)
    (ge : kernelBase ≤ va) (lt : va < word32) :
    lookup s.mem (ppn s.cr3) va = img.documented s.envs va := by
  have bounds := img.pageDirectory_bounds
  have at_ := addresses va lt
  have offset : va % pageSize < pageSize := Nat.mod_lt _ (by decide)
  have high : 960 ≤ (pdx va).val := by
    simp only [pdx, kernelBase, ptSize, word32] at *
    omega
  have page : pageAt (pdx va) (ptx va) - 983040 = ppn (va - kernelBase) := by
    simp only [pageAt, ppn, kernelBase, ptSize, pageSize] at *
    omega
  have table := mapsTo_tableEntry (f := img.pageDirectory + 2 + ((pdx va).val - 960)) (by omega)
  rw [← Image.directory_base high] at table
  have frame : ppn (va - kernelBase) < 1048576 := by
    simp only [ppn, kernelBase, pageSize, word32] at *
    omega
  have maps : MapsTo (constructEntry (ppn (va - kernelBase) * pageSize)
      (permWriteable ||| permPresent)) ⟨ppn (va - kernelBase), false, true⟩ :=
    mapsTo_constructEntry frame (by decide) (by decide)
  have word : (img.written n (pdx va) (ptx va)).getD (ram (img.pageDirectory + 2 +
      ((pdx va).val - 960)) (ptx va)) =
      constructEntry (ppn (va - kernelBase) * pageSize) (permWriteable ||| permPresent) := by
    rw [Image.written_base high, Option.getD_some, page]
  rw [booted.lookup_eq (by omega) table (by omega) (by omega) word, if_pos maps.present,
    maps.frame, maps.user, maps.writeable, Image.documented, if_pos ge]
  rfl

theorem Image.documented_stack {envs va : Nat} (at_ : (pdx va).val = 958) (lt : va < word32) :
    img.documented envs va =
      if 1016 ≤ (ptx va).val then some ⟨img.stackFrame + ((ptx va).val - 1016), false, true⟩
      else none := by
  have address := addresses va lt
  have offset : va % pageSize < pageSize := Nat.mod_lt _ (by decide)
  have top : roundUp (uenvs + envsSize) = 4006535168 := by decide
  have stack := img.stack_eq
  rw [at_] at address
  have frame : 1016 ≤ (ptx va).val → ppn (img.ptrStackBottom - kernelBase +
      (va - (kernelStackTop - kernelStackSize))) = img.stackFrame + ((ptx va).val - 1016) := by
    simp only [ppn, kernelBase, kernelStackTop, kernelStackSize, vpt, ptSize, pageSize] at *
    omega
  have below := (ptx va).isLt
  rw [documented, top]
  by_cases mapped : 1016 ≤ (ptx va).val
  · rw [frame mapped]
    simp only [kernelBase, kernelStackTop, kernelStackSize, vpt, ptSize, pageSize] at *
    rw [if_neg (by omega), if_pos (by omega), if_pos mapped]
  · simp only [kernelBase, uenvs, userTop, kernelStackTop, kernelStackSize, vpt, ptSize,
      pageSize] at *
    rw [if_neg (by omega), if_neg (by omega), if_neg (by omega), if_neg mapped]

theorem Image.documented_envs {e va : Nat} (at_ : (pdx va).val = 955) (lt : va < word32) :
    img.documented (kernelBase + e * pageSize) va =
      if (ptx va).val < 238 then some ⟨e + (ptx va).val, true, false⟩ else none := by
  have address := addresses va lt
  have offset : va % pageSize < pageSize := Nat.mod_lt _ (by decide)
  have top : roundUp (uenvs + envsSize) = 4006535168 := by decide
  rw [at_] at address
  have frame : ppn (kernelBase + e * pageSize - kernelBase + (va - uenvs)) = e + (ptx va).val := by
    simp only [ppn, kernelBase, uenvs, userTop, ptSize, pageSize] at *
    omega
  rw [documented, top, frame]
  simp only [kernelBase, uenvs, userTop, kernelStackTop, kernelStackSize, vpt, ptSize,
    pageSize] at *
  rw [if_neg (by omega), if_neg (by omega)]
  by_cases mapped : (ptx va).val < 238
  · rw [if_pos (by omega), if_pos mapped]
  · rw [if_neg (by omega), if_neg mapped]

theorem Image.documented_unused {envs va : Nat} (at_ : (pdx va).val = 956) (lt : va < word32) :
    img.documented envs va = none := by
  have address := addresses va lt
  have offset : va % pageSize < pageSize := Nat.mod_lt _ (by decide)
  have top : roundUp (uenvs + envsSize) = 4006535168 := by decide
  rw [documented, top]
  rw [at_] at address
  have below := (ptx va).isLt
  simp only [kernelBase, uenvs, userTop, kernelStackTop, kernelStackSize, vpt, ptSize,
    pageSize] at *
  rw [if_neg (by omega), if_neg (by omega), if_neg (by omega)]

/-- The pages of the boot stack's table. -/
theorem Booted.lookup_stack {va : Nat} (booted : Booted img n ram s) (at_ : (pdx va).val = 958)
    (lt : va < word32) : lookup s.mem (ppn s.cr3) va = img.documented s.envs va ↔
      ((ptx va).val < 1016 → present (ram img.stackTable (ptx va)) = false) := by
  have bounds := img.pageDirectory_bounds
  have stackFrame := img.stackFrame_le
  have below :
      img.stackTable < 65536 ∧ img.stackTable ≠ 0 ∧ img.stackTable ≠ img.pageDirectory := by
    rw [Image.stackTable]
    omega
  have table := mapsTo_tableEntry below.1
  rw [← Image.directory_stack (n := n) at_] at table
  have walk := booted.lookup_eq (by omega) table below.2.1 below.2.2 rfl
  rw [Image.written_stack at_] at walk
  rw [walk, Image.documented_stack at_ lt]
  by_cases mapped : 1016 ≤ (ptx va).val
  · have maps : MapsTo (constructEntry ((img.stackFrame + ((ptx va).val - 1016)) * pageSize)
        (permWriteable ||| permPresent)) ⟨_, false, true⟩ :=
      mapsTo_constructEntry (by omega) (by decide) (by decide)
    rw [if_pos mapped, if_pos mapped, Option.getD_some, if_pos maps.present, maps.frame, maps.user,
      maps.writeable]
    exact iff_of_true rfl fun low => absurd mapped (not_le.mpr low)
  · rw [if_neg mapped, if_neg mapped, Option.getD_none]
    cases there : present (ram img.stackTable (ptx va)) with
    | false => simp
    | true => simp [not_le.mp mapped]

/-- The pages of the table for `envs`. -/
theorem Booted.lookup_envs {va : Nat} (booted : Booted img n ram s) (le : n ≤ 65536)
    (at_ : (pdx va).val = 955) (lt : va < word32) :
    lookup s.mem (ppn s.cr3) va = img.documented s.envs va ↔
      (238 ≤ (ptx va).val → present (ram (img.envsTable n) (ptx va)) = false) := by
  have bounds := img.pageDirectory_bounds
  have last := img.envsTable_le le
  have above := img.envsTable_eq (n := n)
  have array := img.envsFrame_eq (n := n)
  have entry := mapsTo_tableEntry (f := img.envsTable n) (by omega)
  have table : MapsTo (img.directory n (pdx va)) ⟨img.envsTable n, true, true⟩ := by
    rw [Image.directory_envs at_]
    have bit : ∀ k < 12, (tableEntry (img.envsTable n) |||
        (permUser ||| (permPresent &&& ~~~permWriteable))).getLsbD k =
          (permPresent ||| permWriteable ||| permUser).getLsbD k := by
      intro k lt
      have low : (tableEntry (img.envsTable n)).getLsbD k = _ :=
        getLsbD_constructEntry (img.envsTable n) _ lt
      rw [BitVec.getLsbD_or, low, ← BitVec.getLsbD_or]
      rfl
    refine ⟨bit 0 (by decide), ?_, bit 2 (by decide), bit 1 (by decide)⟩
    rw [frameOf_or _ (by decide), entry.frame]
  have walk := booted.lookup_eq (by omega) table (by omega) (by omega) rfl
  rw [Image.written_envs at_] at walk
  rw [walk, booted.envs, Image.documented_envs at_ lt]
  by_cases mapped : (ptx va).val < 238
  · have maps : MapsTo (constructEntry ((img.envsFrame n + (ptx va).val) * pageSize)
        (permUser ||| permPresent)) ⟨_, true, false⟩ :=
      mapsTo_constructEntry (by omega) (by decide) (by decide)
    rw [if_pos mapped, if_pos mapped, Option.getD_some, if_pos maps.present, maps.frame, maps.user,
      maps.writeable]
    exact iff_of_true rfl fun high => absurd mapped (not_lt.mpr high)
  · rw [if_neg mapped, if_neg mapped, Option.getD_none]
    cases there : present (ram (img.envsTable n) (ptx va)) with
    | false => simp
    | true => simp [not_lt.mp mapped]

/-- No table is there. -/
theorem Booted.lookup_unused {va : Nat} (booted : Booted img n ram s)
    (at_ : (pdx va).val = 956) (lt : va < word32) :
    lookup s.mem (ppn s.cr3) va = img.documented s.envs va := by
  have entry : s.mem (ppn s.cr3) (pdx va) = 0 := by
    rw [booted.cr3, booted.dir _ (by omega), Image.directory_unused (.inr at_)]
  rw [Image.documented_unused at_ lt]
  simp [lookup, entry]

theorem Booted.space_iff_blank (booted : Booted img n ram s) (le : n ≤ 65536) :
    KernelSpace img s ↔ img.Blank n ram := by
  have bounds := img.pageDirectory_bounds
  constructor
  · intro space
    constructor
    · intro j low
      have at_ : (pdx (958 * ptSize + j * pageSize)).val = 958 := by
        simp only [pdx, ptSize, pageSize]
        omega
      have at_ptx : ptx (958 * ptSize + j * pageSize) = j := by
        apply Fin.ext
        simp only [ptx, ptSize, pageSize]
        omega
      have lt : 958 * ptSize + j * pageSize < word32 := by
        simp only [ptSize, pageSize, word32]
        omega
      have same := space.pages _ (by simp only [userTop, ptSize]; omega) lt
        (fun eq => by simp [eq, pdx_vpt] at at_) (fun eq => by simp [eq, pdx_uvpt] at at_)
      rw [booted.lookup_stack at_ lt, at_ptx] at same
      exact same low
    · intro j high
      have at_ : (pdx (955 * ptSize + j * pageSize)).val = 955 := by
        simp only [pdx, ptSize, pageSize]
        omega
      have at_ptx : ptx (955 * ptSize + j * pageSize) = j := by
        apply Fin.ext
        simp only [ptx, ptSize, pageSize]
        omega
      have lt : 955 * ptSize + j * pageSize < word32 := by
        simp only [ptSize, pageSize, word32]
        omega
      have same := space.pages _ (by simp only [userTop, ptSize]; omega) lt
        (fun eq => by simp [eq, pdx_vpt] at at_) (fun eq => by simp [eq, pdx_uvpt] at at_)
      rw [booted.lookup_envs le at_ lt, at_ptx] at same
      exact same high
  · intro blank
    have kernel : img.directory n (pdx vpt) =
        constructEntry (img.pageDirectory * pageSize) (permPresent ||| permWriteable) := by
      rw [Image.directory_apply, Image.listing_apply, pdx_vpt]
      rfl
    have users : img.directory n (pdx uvpt) =
        constructEntry (img.pageDirectory * pageSize) (permUser ||| permPresent) := by
      rw [Image.directory_apply, Image.listing_apply, pdx_uvpt, if_neg (by decide), if_pos rfl,
        BitVec.or_assoc]
      rfl
    refine ⟨?_, ?_, fun va ge lt notVpt notUvpt => ?_⟩
    · rw [booted.cr3, booted.dir _ (by rw [pdx_vpt]; omega), kernel]
      exact mapsTo_constructEntry (by omega) (by decide) (by decide)
    · rw [booted.cr3, booted.dir _ (by rw [pdx_uvpt]; omega), users]
      exact mapsTo_constructEntry (by omega) (by decide) (by decide)
    · by_cases base : kernelBase ≤ va
      · exact booted.lookup_base base lt
      · rw [ne_eq, Fin.ext_iff, pdx_vpt] at notVpt
        rw [ne_eq, Fin.ext_iff, pdx_uvpt] at notUvpt
        have at_ : (pdx va).val = 955 ∨ (pdx va).val = 956 ∨ (pdx va).val = 958 := by
          simp only [pdx, userTop, kernelBase, ptSize] at *
          omega
        rcases at_ with at_ | at_ | at_
        · exact (booted.lookup_envs le at_ lt).mpr (blank.envs _)
        · exact booted.lookup_unused at_ lt
        · exact (booted.lookup_stack at_ lt).mpr (blank.stack _)

/-- When memory reaches past the last table, the kernel gets through. -/
theorem initializeKernelVM_returns (img : Image) (ram : Nat → Page) (le : n ≤ 65536)
    (enough : img.envsTable n < n) :
    ∃ s', initializeKernelVM img (.start ram n) = .ok () s' ∧ Booted img n ram s' := by
  obtain ⟨s, start⟩ : ∃ s, s = BootState.start ram n := ⟨_, rfl⟩
  have frames : s.numberOfFrames = n := by rw [start, BootState.start]
  have first : s.ptrFreeMem = 0 := by rw [start, BootState.start]
  have ends := initializeKernelVM_ends img le frames first
  obtain ⟨_, s', run, booted⟩ := wp_returns (wp_mono ends (fun _ _ booted => booted)
    fun _ _ small => absurd enough (not_lt.mpr small))
  subst start
  exact ⟨s', run, booted⟩

/-- After `initialize_kernel_VM` the kernel's address space is the documented one exactly when
memory held no present entries under the unused parts of the two tables that are not filled. -/
theorem kernelSpace_iff {extLo other : BitVec 16} (memory : detectMemory extLo other = some n)
    (run : initializeKernelVM img (.start ram n) = .ok () s') :
    KernelSpace img s' ↔ img.Blank n ram := by
  have le := detectMemory_le memory
  obtain ⟨s, start⟩ : ∃ s, s = BootState.start ram n := ⟨_, rfl⟩
  have frames : s.numberOfFrames = n := by rw [start, BootState.start]
  have first : s.ptrFreeMem = 0 := by rw [start, BootState.start]
  have ends := initializeKernelVM_ends img le frames first
  rw [← start] at run
  have booted := (wp_ok run).mp ends
  subst start
  exact Booted.space_iff_blank booted le

end Space

/-! ## A kernel of one megabyte in 32 megabytes of memory -/

def smallImage : Image :=
  ⟨0xF0200000, 0xF0110000, by decide, by decide, by decide, by decide⟩

theorem smallImage_fits : smallImage.envsTable 8192 < 8192 := by decide

/-- Memory that holds zeroes. -/
theorem kernelSpace_zeroes : ∃ s', initializeKernelVM smallImage (.start (fun _ => zeroes) 8192) =
    .ok () s' ∧ KernelSpace smallImage s' := by
  obtain ⟨s', run, -⟩ :=
    initializeKernelVM_returns smallImage (fun _ => zeroes) (by decide) smallImage_fits
  have memory : detectMemory 0 256 = some 8192 := by decide
  exact ⟨s', run,
    (kernelSpace_iff memory run).mpr ⟨fun _ _ => present_zero, fun _ _ => present_zero⟩⟩

/-- Memory that holds ones. -/
theorem kernelSpace_ones : ¬ ∀ (img : Image) (ram : Nat → Page) (extLo other : BitVec 16) (n : Nat)
    (s' : BootState), detectMemory extLo other = some n →
      initializeKernelVM img (.start ram n) = .ok () s' → KernelSpace img s' := by
  intro documented
  obtain ⟨s', run, booted⟩ := initializeKernelVM_returns smallImage
    (fun _ _ => BitVec.allOnes 32) (by decide) smallImage_fits
  have memory : detectMemory 0 256 = some 8192 := by decide
  have space := documented smallImage _ 0 256 8192 s' memory run
  have blank := ((booted.space_iff_blank (by decide)).mp space).stack 0 (by decide)
  exact absurd blank (by decide)

end Fos
