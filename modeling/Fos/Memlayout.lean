import Mathlib.Algebra.GroupWithZero.Nat
import Mathlib.Data.Nat.Basic
import Mathlib.Tactic.Common

/-!
# Address-space constants

The constants of `inc/mmu.h`, `inc/memlayout.h` and
`inc/environment_definitions.h` that the models use, and the address arithmetic
of `PDX`, `PTX`, `ROUNDDOWN` and `ROUNDUP` on 32-bit addresses.
-/

namespace Fos

/-- The number of values of a `uint32`. -/
abbrev word32 : Nat := 4294967296

/-- `PAGE_SIZE`. -/
abbrev pageSize : Nat := 4096

/-- `PTSIZE`: the bytes mapped by a page directory entry. -/
abbrev ptSize : Nat := 4194304

/-- `__PWS_MAX_SIZE`. -/
abbrev pwsMaxSize : Nat := 5000

/-- `__TWS_MAX_SIZE`. -/
abbrev twsMaxSize : Nat := 50

/-- `USER_HEAP_START`. -/
abbrev userHeapStart : Nat := 0x80000000

/-- `USER_HEAP_MAX`. -/
abbrev userHeapMax : Nat := 0xA0000000

/-- `KERNEL_BASE`. -/
abbrev kernelBase : Nat := 0xF0000000

/-- `USER_TOP`. -/
abbrev userTop : Nat := 0xEEC00000

/-- `USTACKTOP`. -/
abbrev ustackTop : Nat := 0xEEBFE000

/-- `sizeof(struct WorkingSetElement)`: the address, the empty flag and the two links. -/
abbrev sizeofWorkingSetElement : Nat := 16

/-- `USER_PAGES_WS_MAX`.  The product is one of 32-bit values and wraps. -/
abbrev userPagesWSMax : Nat :=
  userHeapMax + sizeofWorkingSetElement * userTop % word32 / pageSize

/-- `USTACKBOTTOM`. -/
abbrev ustackBottom : Nat := (userPagesWSMax + pageSize - 1) / pageSize * pageSize

/-- Without the wrap the stack would end 14 MB higher. -/
example : ustackBottom = 0xA00EC000 := by decide

/-- `PHYS_IO_MEM`. -/
abbrev physIOMem : Nat := 0x0A0000

/-- `PHYS_EXTENDED_MEM`. -/
abbrev physExtendedMem : Nat := 0x100000

/-- `VPT` and `UVPT`: where a page directory maps itself. -/
abbrev vpt : Nat := 0xEFC00000

@[inherit_doc vpt] abbrev uvpt : Nat := 0xEF400000

/-- A page directory and a page table have entries. -/
instance neZero_entries : NeZero 1024 := ⟨by decide⟩

/-- A value as a `uint32`. -/
def uint32 (z : Int) : Nat := (z % 4294967296).toNat

/-- A value as an `int`. -/
def int32 (z : Int) : Int := (z + 2147483648) % 4294967296 - 2147483648

theorem int32_of_small {z : Int} (lo : -2147483648 ≤ z) (hi : z < 2147483648) : int32 z = z := by
  unfold int32
  omega

theorem uint32_of_nonneg {z : Int} (lo : 0 ≤ z) (hi : z < 4294967296) : (uint32 z : Int) = z := by
  unfold uint32
  omega

/-- `sizeof(struct Env)`: 68 bytes of `Trapframe`, the two links, the scalar members,
`__PWS_MAX_SIZE` and `__TWS_MAX_SIZE` working-set elements of 16 bytes, a program name
of 64 bytes and three list heads of 16 bytes. -/
abbrev sizeofEnv : Nat :=
  68 + 8 + 11 * 4 + pwsMaxSize * 16 + twsMaxSize * 16 + 10 * 4 + 64 + 4 * 4 + 3 * 16 + 2 * 4

/-- `NENV`: the environments that fit in a quarter of a page table's range. -/
abbrev nenv : Nat := ptSize / 4 / sizeofEnv

/-- The slots of `envs`: `sizeof(struct Env)` is 81096, so there are twelve. -/
example : sizeofEnv = 81096 ∧ nenv = 12 := by decide

end Fos
