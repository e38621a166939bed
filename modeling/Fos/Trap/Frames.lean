import Fos.System.Orderly
import Fos.Trap.Model

/-!
# The saved frames of the environments

The frames lie apart in `envs`, so that no write to one of them changes another, and above the
kernel stack, so that no interrupt does.

* `Board.Placed`, `Board.frame_congr`: where the frames are;
* `Board.frame_setField`, `Board.frame_scribble`, ...: what writes do to them;
* `Board.frame_interrupt`: interrupts leave them alone.
-/

namespace Fos

open X86

variable {b b' : Board} {e e' i : Nat}

/-- `envs` lies in the kernel. -/
structure Board.Placed (b : Board) : Prop where
  ge : kernelBase ≤ b.kernel.globals.envsAddress
  le : b.kernel.globals.envsAddress + nenv * sizeofEnv ≤ word32

/-- Where a byte of a frame is. -/
theorem Board.Placed.toNat_byte (placed : b.Placed) (slot : e < nenv) (lt : i < sizeofTrapframe) :
    (b.envTf e + BitVec.ofNat 32 i).toNat = b.kernel.globals.envsAddress + sizeofEnv * e + i := by
  have le := placed.le
  have size : sizeofEnv = 81096 := rfl
  have number : nenv = 12 := by decide
  rw [number] at slot
  simp only [number, size, word32, sizeofTrapframe] at le lt ⊢
  rw [Board.envTf, Fos.envTf, ← BitVec.ofNat_add, BitVec.toNat_ofNat, size]
  omega

/-- A frame depends on its own bytes only. -/
theorem Board.frame_congr (address : b'.envTf e = b.envTf e) (same : ∀ i < sizeofTrapframe,
    b'.mem (b.envTf e + BitVec.ofNat 32 i) = b.mem (b.envTf e + BitVec.ofNat 32 i)) :
    b'.frame e = b.frame e := by
  rw [Board.frame, address]
  exact read_moved same

/-- A byte of one frame is not one of another. -/
theorem Board.Placed.apart (placed : b.Placed) (slot : e < nenv) (slot' : e' < nenv) (ne : e' ≠ e)
    (lt : i < sizeofTrapframe) :
    sizeofTrapframe ≤ (b.envTf e' + BitVec.ofNat 32 i - b.envTf e).toNat := by
  have here := placed.toNat_byte slot' lt
  have there := placed.toNat_byte slot (i := 0) (by decide)
  have le := placed.le
  have size : sizeofEnv = 81096 := rfl
  have number : nenv = 12 := by decide
  rw [BitVec.add_zero] at there
  rw [number] at slot slot'
  simp only [number, size, word32, sizeofTrapframe] at here there le lt ⊢
  rw [BitVec.toNat_sub, here, there]
  rcases Nat.lt_or_gt_of_ne ne with before | after
  · rw [Nat.mod_eq_of_lt (by omega)]
    omega
  · omega

/-- Writes to the frame of one environment leave the others alone. -/
theorem Board.Placed.frame_elsewhere (placed : b.Placed) (slot : e < nenv) (slot' : e' < nenv)
    (ne : e' ≠ e) {mem : Mem}
    (elsewhere : ∀ x, sizeofTrapframe ≤ (x - b.envTf e).toNat → mem x = b.mem x) :
    (b.setMem mem).frame e' = b.frame e' :=
  Board.frame_congr rfl fun _ lt => elsewhere _ (placed.apart slot slot' ne lt)

/-- What the kernel writes elsewhere. -/
theorem Board.frame_scribble (slot : e < nenv) (scratch : Mem) (keep : BitVec 32 → Bool)
    (keeps : ∀ x, b.inFrames x = true → keep x = true) :
    (b.scribble scratch keep).frame e = b.frame e := by
  refine Board.frame_congr rfl fun i lt => if_pos (keeps _ ?_)
  rw [Board.inFrames, List.any_eq_true]
  refine ⟨e, List.mem_range.mpr slot, decide_eq_true ?_⟩
  rw [toNat_add_ofNat_sub _ (by simp only [sizeofTrapframe] at lt; omega)]
  exact lt

/-- An interrupt leaves the frames alone. -/
theorem Board.Placed.frame_interrupt (placed : b.Placed) (slot : e < nenv) {s : State} {n : Nat}
    (le : n ≤ kernelStackTop) (elsewhere : ∀ x,
      n ≤ (x - (BitVec.ofNat 32 kernelStackTop - BitVec.ofNat 32 n)).toNat → s.mem x = b.mem x) :
    (b.setState s).frame e = b.frame e := by
  refine Board.frame_congr rfl fun i lt => elsewhere _ ?_
  have byte := placed.toNat_byte slot lt
  have ge := placed.ge
  simp only [kernelStackTop, vpt, kernelBase] at le ge ⊢
  bv_omega

/-- The frames lie in the kernel. -/
theorem Board.Placed.inFrames_ge (placed : b.Placed) {x : BitVec 32}
    (inside : b.inFrames x = true) :
    kernelBase ≤ x.toNat := by
  rw [Board.inFrames, List.any_eq_true] at inside
  obtain ⟨e, mem, lt⟩ := inside
  have byte := placed.toNat_byte (List.mem_range.mp mem) (of_decide_eq_true lt)
  rw [BitVec.ofNat_toNat, BitVec.setWidth_eq, BitVec.add_comm, BitVec.sub_add_cancel] at byte
  rw [byte]
  have ge := placed.ge
  omega

end Fos
