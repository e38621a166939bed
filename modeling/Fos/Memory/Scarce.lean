import Fos.Memory.Boot
import Fos.Memory.Tables

/-!
# Making memory scarce

`scarce_memory` of `kern/utilities.c` takes frames until less than a given percentage of the
frames is free.

* `scarceMemory`: the function, with its unsigned arithmetic;
* `Reserved`: only the frames that are needed for that are taken;
* `reserved_iff`: when it is so.
-/

namespace Fos

open Exec Linked

/-- The frames that `scarce_memory` wants to have allocated, of `numberOfFrames`. -/
def totalSizeTobeAllocated (percentage numberOfFrames : Nat) : Nat :=
  let share := uint32 (100 - percentage : Int) * numberOfFrames % word32
  share / 100 + if share % 100 > 0 then 1 else 0

/-- `size_tobe_allocated`. -/
def sizeTobeAllocated (percentage : Nat) (s : Kernel) : Nat :=
  let sizeOfAlreadyAllocated :=
    uint32 (s.globals.numberOfFrames - s.freeFrameList.size.toNat : Int)
  uint32 (totalSizeTobeAllocated percentage s.globals.numberOfFrames - sizeOfAlreadyAllocated : Int)

/-- `scarce_memory()`; `percentage` is `memory_scarce_threshold_percentage`.  The loop also
makes the pass for `i == size_tobe_allocated`. -/
def scarceMemory (percentage : Nat) : Prog Unit := do
  let size := sizeTobeAllocated percentage (← get)
  (List.range (size + 1)).forM fun _ => do
    let _ ← allocateFrame

/-! ## What it should do -/

/-- Fewer than `percentage` percent of the frames are free. -/
def IsScarce (percentage numberOfFrames free : Nat) : Prop :=
  100 * free < percentage * numberOfFrames

/-- `scarce_memory` returns, so that no frame is asked for when none is free, memory is scarce
then, and it was not before the last frame was taken. -/
def Reserved (percentage : Nat) (s : Kernel) (free : List Nat) : Prop :=
  ∃ s' m, scarceMemory percentage s = .ok () s' ∧ m ≤ free.length ∧
    s'.freeFrameList.Rep s'.frameLinks (free.drop m) ∧
    IsScarce percentage s.globals.numberOfFrames (free.length - m) ∧
    ∀ k < m, ¬ IsScarce percentage s.globals.numberOfFrames (free.length - k)

/-! ## What it does -/

variable {s : Kernel} {free : List Nat} {p : Nat}

/-- Allocating frames one after the other. -/
theorem allocateFrames_wp {xs : List Nat} {Q : Unit → Kernel → Prop} {E : Stop → Kernel → Prop}
    (rep : s.freeFrameList.Rep s.frameLinks free)
    (done : ∀ s', xs.length ≤ free.length → s'.globals = s.globals →
      s'.freeFrameList.Rep s'.frameLinks (free.drop xs.length) → Q () s')
    (full : ∀ s', free.length < xs.length → E outOfMemory s') :
    wp (xs.forM fun _ => do let _ ← allocateFrame) Q E s := by
  induction xs generalizing s free with
  | nil => exact done s (Nat.zero_le _) rfl rep
  | cons x xs ih =>
    rw [wp_forM_cons, wp_bind]
    apply allocateFrame_listed_wp rep
    · rintro f rest rfl
      refine ih (takeFrame_rep rep) (fun s' le same rep' => ?_) fun s' lt => ?_
      · exact done s' (Nat.succ_le_succ le) same rep'
      · exact full s' (Nat.succ_lt_succ lt)
    · rintro rfl
      exact full s (Nat.succ_pos _)

/-- All frames but `percentage` percent, rounded up. -/
theorem totalSizeTobeAllocated_eq {n : Nat} (small : n < 2 ^ 20) (lt : p ≤ 99) :
    totalSizeTobeAllocated p n = n - p * n / 100 := by
  have rest : uint32 (100 - p : Int) = 100 - p := by
    rw [uint32]
    omega
  have share : (100 - p) * n = 100 * n - p * n := Nat.sub_mul ..
  have bound : p * n ≤ 99 * n := Nat.mul_le_mul_right n lt
  have fits : (100 * n - p * n) % word32 = 100 * n - p * n := by
    apply Nat.mod_eq_of_lt
    simp only [word32]
    omega
  simp only [totalSizeTobeAllocated, rest, share, fits]
  split <;> omega

/-- The frames to take, less one, are those above the share that is to stay free. -/
theorem sizeTobeAllocated_eq (rep : s.freeFrameList.Rep s.frameLinks free)
    (small : s.globals.numberOfFrames < 2 ^ 20) (le : free.length ≤ s.globals.numberOfFrames)
    (lt : p ≤ 99) : sizeTobeAllocated p s =
      uint32 (free.length - (p * s.globals.numberOfFrames / 100 : Nat) : Int) := by
  have size := rep.size_toNat (by omega)
  have bound : p * s.globals.numberOfFrames ≤ 99 * s.globals.numberOfFrames :=
    Nat.mul_le_mul_right _ lt
  rw [sizeTobeAllocated, size, totalSizeTobeAllocated_eq small lt, uint32, uint32, uint32]
  omega

/-- `scarce_memory` stops at the share that is to stay free, less one frame, or asks for a
frame when none is left. -/
theorem scarceMemory_wp {Q : Unit → Kernel → Prop} {E : Stop → Kernel → Prop}
    (rep : s.freeFrameList.Rep s.frameLinks free)
    (small : s.globals.numberOfFrames < 2 ^ 20) (le : free.length ≤ s.globals.numberOfFrames)
    (lt : p ≤ 99) (done : ∀ s' m, p * s.globals.numberOfFrames / 100 + m = free.length + 1 →
      0 < m → m ≤ free.length → s'.globals = s.globals →
      s'.freeFrameList.Rep s'.frameLinks (free.drop m) → Q () s')
    (full : ∀ s', p * s.globals.numberOfFrames / 100 = 0 ∨
      free.length < p * s.globals.numberOfFrames / 100 → E outOfMemory s') :
    wp (scarceMemory p) Q E s := by
  have size := sizeTobeAllocated_eq rep small le lt
  have bound : p * s.globals.numberOfFrames ≤ 99 * s.globals.numberOfFrames :=
    Nat.mul_le_mul_right _ lt
  simp only [scarceMemory, wp_bind, wp_get, size]
  apply allocateFrames_wp rep <;> rw [List.length_range]
  · intro s' enough same rep'
    refine done s' _ ?_ (Nat.succ_pos _) enough same rep'
    rw [uint32] at enough ⊢
    omega
  · intro s' few
    apply full
    rw [uint32] at few
    omega

/-- `scarce_memory` takes the frames that are needed, and no frame when none is free, just
when the percentage is of a whole number of frames, and that many are free. -/
theorem reserved_iff (rep : s.freeFrameList.Rep s.frameLinks free)
    (small : s.globals.numberOfFrames < 2 ^ 20) (le : free.length ≤ s.globals.numberOfFrames)
    (pos : 1 ≤ p) (lt : p ≤ 99) : Reserved p s free ↔
      0 < s.globals.numberOfFrames ∧ p * s.globals.numberOfFrames % 100 = 0 ∧
      p * s.globals.numberOfFrames ≤ 100 * free.length := by
  have run := scarceMemory_wp (s := s)
    (Q := fun _ s' => ∃ m, p * s.globals.numberOfFrames / 100 + m = free.length + 1 ∧
      0 < m ∧ m ≤ free.length ∧ s'.freeFrameList.Rep s'.frameLinks (free.drop m))
    (E := fun _ _ => p * s.globals.numberOfFrames / 100 = 0 ∨
      free.length < p * s.globals.numberOfFrames / 100)
    rep small le lt (fun s' m eq some enough _ rep' => ⟨m, eq, some, enough, rep'⟩)
    fun s' few => few
  simp only [Reserved, IsScarce]
  constructor
  · rintro ⟨s', m, ends, enough, rep', scarce, needed⟩
    rw [wp_ok ends] at run
    obtain ⟨m', eq, some, enough', rep''⟩ := run
    -- The lists that remain are one list, so that the two numbers of frames are one.
    have length : free.length - m = free.length - m' := by
      rw [← List.length_drop, ← List.length_drop]
      rw [← rep'.size_toNat (by rw [List.length_drop]; omega),
        rep''.size_toNat (by rw [List.length_drop]; omega)]
    have last := needed (m - 1) (by omega)
    have n_pos : s.globals.numberOfFrames ≠ 0 := by
      intro none
      rw [none] at eq
      omega
    generalize p * s.globals.numberOfFrames = share at *
    exact ⟨Nat.pos_of_ne_zero n_pos, by omega, by omega⟩
  · rintro ⟨n_pos, whole, enough⟩
    have share_pos : 0 < p * s.globals.numberOfFrames := Nat.mul_pos pos n_pos
    generalize p * s.globals.numberOfFrames = share at *
    obtain ⟨⟨⟩, s', ends, m, eq, some, le', rep'⟩ := wp_returns (wp_mono run (fun _ _ h => h)
      fun _ _ few => by omega)
    exact ⟨s', m, ends, le', rep', by omega, fun k lt => by omega⟩

/-- `smallMachine` frees 669 frames. -/
theorem smallMachine_frames : smallMachine.boot.freeFrameList.Rep smallMachine.boot.frameLinks
    smallMachine.bootView.free ∧ smallMachine.bootView.free.length = 669 ∧
    smallMachine.boot.globals.numberOfFrames = 1024 := by
  refine ⟨smallMachine.rep_boot.freeList, ?_, ?_⟩
  · have all : smallMachine.bootView.free.length = 157 + (1024 - 512) := by
      simp [Machine.bootView, Machine.freshFrames, smallMachine]
    exact all
  · rw [smallMachine.rep_boot.globals]
    rfl

/-- A quarter of the frames of `smallMachine` are left free, less one. -/
theorem reserved_quarter : Reserved 25 smallMachine.boot smallMachine.bootView.free := by
  obtain ⟨rep, length, number⟩ := smallMachine_frames
  refine (reserved_iff rep ?_ ?_ (by decide) (by decide)).mpr ?_ <;> rw [number]
  · decide
  · rw [length]
    decide
  · rw [length]
    decide

/-- On a second call memory is that scarce, and `scarce_memory` does not return. -/
theorem second_scarceMemory : ∃ s free, scarceMemory 25 smallMachine.boot = .ok () s ∧
    s.globals.numberOfFrames = 1024 ∧ s.freeFrameList.Rep s.frameLinks free ∧
    free.length = 255 ∧ IsScarce 25 1024 255 ∧ ¬ Reserved 25 s free := by
  obtain ⟨rep, length, number⟩ := smallMachine_frames
  have first : wp (scarceMemory 25) (fun _ s => s.globals.numberOfFrames = 1024 ∧
      s.freeFrameList.Rep s.frameLinks (smallMachine.bootView.free.drop 414))
      (fun _ _ => False) smallMachine.boot := by
    refine scarceMemory_wp rep ?_ ?_ (by decide) ?_ ?_ <;> rw [number]
    · decide
    · rw [length]
      decide
    · intro s m eq _ _ same rep'
      rw [length] at eq
      obtain rfl : m = 414 := by omega
      rw [same]
      exact ⟨number, rep'⟩
    · rw [length]
      omega
  obtain ⟨⟨⟩, s, ends, number', rep'⟩ := wp_returns first
  have length' : (smallMachine.bootView.free.drop 414).length = 255 := by
    rw [List.length_drop, length]
  refine ⟨s, _, ends, number', rep', length', show 100 * 255 < 25 * 1024 by decide, ?_⟩
  rintro ⟨s', m, ends', -⟩
  have second : wp (scarceMemory 25) (fun _ _ => False) (fun _ _ => True) s := by
    refine scarceMemory_wp rep' ?_ ?_ (by decide) ?_ ?_ <;> rw [number']
    · decide
    · rw [length']
      decide
    · intro s m eq some
      rw [length'] at eq
      omega
    · exact fun _ _ => trivial
  rwa [wp_ok ends'] at second

end Fos
