import Mathlib.Data.Nat.Bitwise
import Fos.Memlayout

/-!
# Page table entries

Words as they lie in page directories and page tables, the permission bits of
`inc/mmu.h`, and the macros that take addresses and entries apart.

* `frameOf_or`, `frameOf_andNot`, `frameOf_constructEntry`: permission bits do not
  touch the frame number;
* `pdx_ptx`: a page-aligned address is its two indices.
-/

namespace Fos

/-- A `uint32` in memory. -/
abbrev Word := BitVec 32

/-- The contents of a frame. -/
abbrev Page := Fin 1024 → Word

/-- `memset(page, 0, PAGE_SIZE)`. -/
def zeroes : Page := fun _ => 0

def permPresent : Word := 0x001
def permWriteable : Word := 0x002
def permUser : Word := 0x004
def permUsed : Word := 0x020
def permModified : Word := 0x040
def permAvailable : Word := 0xE00

/-- `PDX(la)`. -/
def pdx (la : Nat) : Fin 1024 := ⟨la / ptSize % 1024, Nat.mod_lt _ (by decide)⟩

/-- `PTX(la)`. -/
def ptx (la : Nat) : Fin 1024 := ⟨la / pageSize % 1024, Nat.mod_lt _ (by decide)⟩

/-- `ROUNDDOWN(a, PAGE_SIZE)`. -/
def roundDown (a : Nat) : Nat := a - a % pageSize

/-- `ROUNDUP(a, PAGE_SIZE)`, which wraps around. -/
def roundUp (a : Nat) : Nat := roundDown ((a + pageSize - 1) % word32)

/-- `CONSTRUCT_ENTRY(phys_frame_address, permissions)`. -/
def constructEntry (physFrameAddress : Nat) (permissions : Word) : Word :=
  BitVec.ofNat 32 physFrameAddress ||| permissions

/-- `EXTRACT_ADDRESS(entry)`. -/
def extractAddress (entry : Word) : Nat := (entry &&& ~~~0xFFF#32).toNat

/-- `PPN(pa)`. -/
def ppn (pa : Nat) : Nat := pa / pageSize

/-- The frame that an entry refers to. -/
def frameOf (entry : Word) : Nat := entry.toNat / 4096

/-! ## Permission bits -/

/-- The bits of a permission constant lie below the frame number. -/
def IsPerm (p : Word) : Prop := p.toNat < 4096

instance (p : Word) : Decidable (IsPerm p) := inferInstanceAs (Decidable (_ < _))

/-- `PERM_PRESENT` is set. -/
def present (w : Word) : Bool := w.getLsbD 0

/-- `PERM_WRITEABLE` is set. -/
def writeable (w : Word) : Bool := w.getLsbD 1

/-- `PERM_USER` is set. -/
def user (w : Word) : Bool := w.getLsbD 2

/-- `PERM_MODIFIED` is set. -/
def modified (w : Word) : Bool := w.getLsbD 6

@[simp] theorem present_zero : present 0#32 = false := by decide

theorem ne_zero_of_present {w : Word} (h : present w = true) : w ≠ 0 := by
  rintro rfl
  exact absurd h (by decide)

/-- Testing one bit with a mask. -/
theorem and_eq_bit {w p : Word} {k : Nat} (bit : p = BitVec.twoPow 32 k) (lt : k < 32) :
    w &&& p = p ↔ w.getLsbD k = true := by
  subst bit
  constructor
  · intro eq
    have at_k := congrArg (·.getLsbD k) eq
    simpa [lt] using at_k
  · intro set
    apply BitVec.eq_of_getLsbD_eq
    intro i _
    rcases eq_or_ne k i with rfl | ne
    · simp [set]
    · simp [ne]

theorem and_ne_bit {w p : Word} {k : Nat} (bit : p = BitVec.twoPow 32 k) (lt : k < 32) :
    w &&& p ≠ 0 ↔ w.getLsbD k = true := by
  rw [← and_eq_bit bit lt]
  subst bit
  constructor
  · intro ne
    apply BitVec.eq_of_getLsbD_eq
    intro i _
    rcases eq_or_ne k i with rfl | ne'
    · by_contra clear
      apply ne
      apply BitVec.eq_of_getLsbD_eq
      intro j _
      rcases eq_or_ne k j with rfl | ne''
      · simp_all
      · simp [ne'']
    · simp [ne']
  · intro eq zero
    have at_k := congrArg (·.getLsbD k) (eq.symm.trans zero)
    simp [lt] at at_k

theorem and_present (w : Word) : w &&& permPresent = permPresent ↔ present w = true :=
  and_eq_bit (k := 0) (by decide) (by decide)

theorem and_present_ne (w : Word) : w &&& permPresent ≠ 0 ↔ present w = true :=
  and_ne_bit (k := 0) (by decide) (by decide)

theorem and_modified (w : Word) : w &&& permModified ≠ 0 ↔ modified w = true :=
  and_ne_bit (k := 6) (by decide) (by decide)

/-! ## Frame numbers -/

theorem frameOf_zero : frameOf 0 = 0 := by decide

theorem ne_zero_of_frameOf {w : Word} (frame : frameOf w ≠ 0) : w ≠ 0 := by
  rintro rfl
  exact frame frameOf_zero

theorem testBit_frameOf (w : Word) (i : Nat) : (frameOf w).testBit i = w.getLsbD (i + 12) := by
  rw [frameOf, show 4096 = 2 ^ 12 from rfl, Nat.testBit_div_two_pow, ← BitVec.testBit_toNat]

theorem IsPerm.getLsbD {p : Word} (perm : IsPerm p) (i : Nat) : p.getLsbD (i + 12) = false := by
  rw [← testBit_frameOf, frameOf, Nat.div_eq_of_lt perm, Nat.zero_testBit]

theorem frameOf_or (w : Word) {p : Word} (perm : IsPerm p) : frameOf (w ||| p) = frameOf w := by
  apply Nat.eq_of_testBit_eq
  intro i
  rw [testBit_frameOf, testBit_frameOf, BitVec.getLsbD_or, perm.getLsbD, Bool.or_false]

theorem frameOf_andNot (w : Word) {p : Word} (perm : IsPerm p) :
    frameOf (w &&& ~~~p) = frameOf w := by
  apply Nat.eq_of_testBit_eq
  intro i
  rw [testBit_frameOf, testBit_frameOf, BitVec.getLsbD_and, BitVec.getLsbD_not, perm.getLsbD]
  by_cases lt : i + 12 < 32
  · simp [lt]
  · simp [lt, BitVec.getLsbD_of_ge w (i + 12) (by omega)]

theorem frameOf_ofNat {f : Nat} (lt : f < 1048576) : frameOf (BitVec.ofNat 32 (f * 4096)) = f := by
  rw [frameOf, BitVec.toNat_ofNat, Nat.mod_eq_of_lt (by omega), Nat.mul_div_cancel _ (by decide)]

theorem frameOf_constructEntry {f : Nat} {p : Word} (lt : f < 1048576) (perm : IsPerm p) :
    frameOf (constructEntry (f * 4096) p) = f := by
  rw [constructEntry, frameOf_or _ perm, frameOf_ofNat lt]

theorem extractAddress_eq (w : Word) : extractAddress w = frameOf w * 4096 := by
  have frame : frameOf (w &&& ~~~0xFFF#32) = frameOf w := frameOf_andNot w (by decide)
  have low : (w &&& ~~~0xFFF#32).toNat % 4096 = 0 := by
    apply Nat.eq_of_testBit_eq
    intro i
    rw [show 4096 = 2 ^ 12 from rfl, Nat.testBit_mod_two_pow, Nat.zero_testBit]
    by_cases lt : i < 12
    · rw [BitVec.testBit_toNat, BitVec.getLsbD_and, BitVec.getLsbD_not]
      have ones : ∀ i < 12, (0xFFF#32).getLsbD i = true := by decide
      simp [ones i lt]
    · simp [lt]
  rw [← frame, extractAddress, frameOf]
  omega

theorem ppn_extractAddress (w : Word) : ppn (extractAddress w) = frameOf w := by
  rw [extractAddress_eq, ppn, Nat.mul_div_cancel _ (by decide)]

/-! ## Addresses -/

/-- An address below 2^32 at the start of a page. -/
structure Aligned (va : Nat) : Prop where
  page : va % pageSize = 0
  lt : va < word32

instance (va : Nat) : Decidable (Aligned va) :=
  decidable_of_iff (va % pageSize = 0 ∧ va < word32)
    ⟨fun aligned => ⟨aligned.1, aligned.2⟩, fun aligned => ⟨aligned.page, aligned.lt⟩⟩

theorem roundDown_aligned {va : Nat} (lt : va < word32) : Aligned (roundDown va) := by
  simp only [roundDown, pageSize, word32] at *
  constructor <;> simp only [pageSize, word32] <;> omega

theorem Aligned.roundDown {va : Nat} (h : Aligned va) : Fos.roundDown va = va := by
  rw [Fos.roundDown, h.page, Nat.sub_zero]

/-- A page-aligned address is its two indices. -/
theorem pdx_ptx {va : Nat} (h : Aligned va) :
    va = (pdx va).val * ptSize + (ptx va).val * pageSize := by
  have page := h.page
  have lt := h.lt
  simp only [pdx, ptx, ptSize, pageSize, word32] at *
  omega

theorem Aligned.inj {va va' : Nat} (h : Aligned va) (h' : Aligned va') (pd : pdx va = pdx va')
    (pt : ptx va = ptx va') : va = va' := by
  rw [pdx_ptx h, pdx_ptx h', pd, pt]

/-- A page of an address space: its indices in the page directory and the page table. -/
abbrev PageNo := Fin 1024 × Fin 1024

/-- The page that an address is in. -/
def pageNo (va : Nat) : PageNo := (pdx va, ptx va)

theorem Aligned.pageNo_inj {va va' : Nat} (h : Aligned va) (h' : Aligned va')
    (eq : pageNo va = pageNo va') : va = va' :=
  h.inj h' (congrArg Prod.fst eq) (congrArg Prod.snd eq)

end Fos
