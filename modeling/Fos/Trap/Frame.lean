import Fos.X86.Machine

/-!
# Trap frames

`kern/trapentry.S`, `idt_init` of `kern/trap.c` and `env_pop_tf` of `kern/user_environment.c`:
the registers of whatever is interrupted are pushed as a `struct Trapframe`, of which `trap` gets
the address, and popped from one.

* `Trapframe`, `Trapframe.read`: the structure and its place in memory;
* `trapHandler`, `allTraps`, `idtInit`, `envPopTf`: the code;
* `frame_user`, `frame_kernel`: the frame of an interrupt holds the interrupted registers;
* `int_frame_iff`: which `int` instructions do;
* `run_envPopTf`: leaving through a frame loads the registers that it holds.
-/

namespace Fos

open X86

/-! ## The structure -/

/-- `GD_KT`, `GD_KD`, `GD_UT`, `GD_UD`: the segments. -/
abbrev gdKt : BitVec 16 := 0x08

@[inherit_doc gdKt] abbrev gdKd : BitVec 16 := 0x10

@[inherit_doc gdKt] abbrev gdUt : BitVec 16 := 0x18

@[inherit_doc gdKt] abbrev gdUd : BitVec 16 := 0x20

/-- `T_DBLFLT`, `T_PGFLT`, `IRQ0_Clock`, `T_SYSCALL`. -/
abbrev tDblflt : Nat := 8

@[inherit_doc tDblflt] abbrev tPgflt : Nat := 14

@[inherit_doc tDblflt] abbrev irq0Clock : Nat := 32

@[inherit_doc tDblflt] abbrev tSyscall : Nat := 48

/-- `struct PushRegs`. -/
structure PushRegs where
  regEdi : BitVec 32
  regEsi : BitVec 32
  regEbp : BitVec 32
  regOesp : BitVec 32
  regEbx : BitVec 32
  regEdx : BitVec 32
  regEcx : BitVec 32
  regEax : BitVec 32

/-- `struct Trapframe`, less its paddings. -/
structure Trapframe where
  tfRegs : PushRegs
  tfEs : BitVec 16
  tfDs : BitVec 16
  tfTrapno : BitVec 32
  tfErr : BitVec 32
  tfEip : BitVec 32
  tfCs : BitVec 16
  tfEflags : BitVec 32
  tfEsp : BitVec 32
  tfSs : BitVec 16

/-- `SIZEOF_STRUCT_TRAPFRAME`. -/
abbrev sizeofTrapframe : Nat := 0x44

/-- The structure of seventeen words. -/
def Trapframe.ofWords (word : Fin 17 → BitVec 32) : Trapframe where
  tfRegs :=
    { regEdi := word 0
      regEsi := word 1
      regEbp := word 2
      regOesp := word 3
      regEbx := word 4
      regEdx := word 5
      regEcx := word 6
      regEax := word 7 }
  tfEs := (word 8).setWidth 16
  tfDs := (word 9).setWidth 16
  tfTrapno := word 10
  tfErr := word 11
  tfEip := word 12
  tfCs := (word 13).setWidth 16
  tfEflags := word 14
  tfEsp := word 15
  tfSs := (word 16).setWidth 16

/-- The structure at an address. -/
def Trapframe.read (m : Mem) (a : BitVec 32) : Trapframe :=
  .ofWords fun i => m.word (a + BitVec.ofNat 32 (4 * i))

/-- The registers that a frame holds. -/
def Trapframe.cpu (tf : Trapframe) : Cpu where
  eax := tf.tfRegs.regEax
  ecx := tf.tfRegs.regEcx
  edx := tf.tfRegs.regEdx
  ebx := tf.tfRegs.regEbx
  esp := tf.tfEsp
  ebp := tf.tfRegs.regEbp
  esi := tf.tfRegs.regEsi
  edi := tf.tfRegs.regEdi
  eip := tf.tfEip
  eflags := tf.tfEflags
  cs := tf.tfCs
  ds := tf.tfDs
  es := tf.tfEs
  ss := tf.tfSs

/-- The frame of a program that is interrupted with the registers `c`. -/
def Trapframe.of (c : Cpu) (oesp trapno err : BitVec 32) : Trapframe where
  tfRegs :=
    { regEdi := c.edi
      regEsi := c.esi
      regEbp := c.ebp
      regOesp := oesp
      regEbx := c.ebx
      regEdx := c.edx
      regEcx := c.ecx
      regEax := c.eax }
  tfEs := c.es
  tfDs := c.ds
  tfTrapno := trapno
  tfErr := err
  tfEip := c.eip
  tfCs := c.cs
  tfEflags := c.eflags
  tfEsp := c.esp
  tfSs := c.ss

@[simp] theorem cpu_of (c : Cpu) (oesp trapno err : BitVec 32) :
    (Trapframe.of c oesp trapno err).cpu = c := rfl

/-- The registers as `_alltraps` pushes them. -/
def regWords (c : Cpu) (oesp : BitVec 32) : List (BitVec 32) :=
  [c.edi, c.esi, c.ebp, oesp, c.ebx, c.edx, c.ecx, c.eax, c.es.setWidth 32, c.ds.setWidth 32]

/-- What is on the stack when `trap` is called, above the address of it: the registers of what was
interrupted, as far as an interrupt of ring 0 pushes them. -/
def savedWords (c : Cpu) (oesp trapno err : BitVec 32) : List (BitVec 32) :=
  regWords c oesp ++ [trapno, err, c.eip, c.cs.setWidth 32, c.eflags]

/-- The words of a frame, with paddings of zero. -/
def Trapframe.words (tf : Trapframe) : List (BitVec 32) :=
  savedWords tf.cpu tf.tfRegs.regOesp tf.tfTrapno tf.tfErr ++ [tf.tfEsp, tf.tfSs.setWidth 32]

theorem setWidth_setWidth (w : BitVec 16) : (w.setWidth 32).setWidth 16 = w := by
  rw [BitVec.setWidth_setWidth_of_le w (by decide), BitVec.setWidth_eq]

/-- The words in memory are the structure. -/
theorem read_of_saved {m : Mem} {a oesp trapno err esp ss : BitVec 32} {c : Cpu}
    (holds : X86.Holds m a (savedWords c oesp trapno err ++ [esp, ss])) :
    Trapframe.read m a =
      { Trapframe.of c oesp trapno err with tfEsp := esp, tfSs := ss.setWidth 16 } := by
  have words : (fun i : Fin 17 => m.word (a + BitVec.ofNat 32 (4 * i))) =
      (savedWords c oesp trapno err ++ [esp, ss]).get :=
    funext fun i => holds.getElem i.isLt
  have fields : Trapframe.ofWords (savedWords c oesp trapno err ++ [esp, ss]).get =
      { Trapframe.of c oesp trapno err with
        tfEs := (c.es.setWidth 32).setWidth 16
        tfDs := (c.ds.setWidth 32).setWidth 16
        tfCs := (c.cs.setWidth 32).setWidth 16
        tfEsp := esp
        tfSs := ss.setWidth 16 } := rfl
  rw [Trapframe.read, words, fields, setWidth_setWidth, setWidth_setWidth, setWidth_setWidth]
  rfl

/-- What a frame without the stack pointer says. -/
theorem read_of_kernel {m : Mem} {a oesp trapno err : BitVec 32} {c : Cpu}
    (holds : X86.Holds m a (savedWords c oesp trapno err)) : ∃ tf, Trapframe.read m a = tf ∧
      tf.tfTrapno = trapno ∧ tf.tfCs = c.cs ∧ tf.tfEip = c.eip :=
  ⟨_, read_of_saved (holds_append.mpr ⟨holds, rfl, rfl, trivial⟩), rfl, rfl, rfl⟩

theorem read_of_holds {m : Mem} {a : BitVec 32} {tf : Trapframe} (holds : X86.Holds m a tf.words) :
    Trapframe.read m a = tf := by
  rw [read_of_saved holds, setWidth_setWidth]
  rfl

/-- A structure that has been cleared. -/
theorem read_of_zeroes {m : Mem} {a : BitVec 32} (holds : X86.Holds m a (List.replicate 17 0)) :
    Trapframe.read m a = .ofWords fun _ => 0 := by
  refine congrArg Trapframe.ofWords (funext fun k => ?_)
  have lt : (k : Nat) < (List.replicate 17 (0 : BitVec 32)).length := k.isLt
  rw [holds.getElem lt]
  exact List.getElem_replicate lt

/-- The structure depends on its own bytes only. -/
theorem read_moved {m m' : Mem} {a b : BitVec 32} (same : ∀ i < sizeofTrapframe,
    m' (b + BitVec.ofNat 32 i) = m (a + BitVec.ofNat 32 i)) :
    Trapframe.read m' b = Trapframe.read m a := by
  refine congrArg Trapframe.ofWords (funext fun k => word_moved fun i lt => ?_)
  rw [BitVec.add_assoc, BitVec.add_assoc, ← BitVec.ofNat_add]
  exact same (4 * k + i) (by simp only [sizeofTrapframe]; omega)

/-- A structure that is assigned. -/
theorem read_copy (m : Mem) (a b : BitVec 32) :
    Trapframe.read (m.copy a b sizeofTrapframe) a = Trapframe.read m b := by
  refine read_moved fun i lt => ?_
  rw [Mem.copy, toNat_add_ofNat_sub a (by simp only [sizeofTrapframe] at lt; omega), if_pos lt,
    add_sub_self]

/-- Writing one of the words. -/
theorem read_setWord (m : Mem) (a w : BitVec 32) (k : Fin 17) :
    Trapframe.read (m.setWord (a + BitVec.ofNat 32 (4 * k)) w) a =
      .ofWords (Function.update (fun i => m.word (a + BitVec.ofNat 32 (4 * i))) k w) := by
  refine congrArg Trapframe.ofWords (funext fun j => ?_)
  by_cases same : j = k
  · rw [same, word_setWord, Function.update_self]
  · rw [Function.update_of_ne same]
    have ne : (j : Nat) ≠ k := fun eq => same (Fin.ext eq)
    exact word_setWord_of_apart m a w (by omega) (by omega)

/-! ## The code -/

/-- `_alltraps` as far as `call trap`, which does not return; the frame is then at the address on
the top of the stack. -/
def allTraps : List Instr :=
  [.pushSeg .ds, .pushSeg .es, .pushal, .movAx gdKd, .movSegAx .ds, .movSegAx .es, .pushEsp]

/-- `TRAPHANDLER(name, num)`. -/
def trapHandler (num : BitVec 32) : List Instr := .pushl num :: allTraps

/-- `TRAPHANDLER_NOEC(name, num)`. -/
def trapHandlerNoec (num : BitVec 32) : List Instr := .pushl 0 :: .pushl num :: allTraps

/-- `SETGATE(idt[num], istrap, GD_KT, &name, dpl)`. -/
def setGate (istrap : Bool) (dpl : BitVec 16) (code : List Instr) : Option Gate :=
  some ⟨gdKt, istrap, dpl, code⟩

/-- `idt_init`. -/
def idtInit : Nat → Option Gate
  | 14 => setGate false 0 (trapHandler 14)
  | 48 => setGate false 3 (trapHandlerNoec 48)
  | 8 => setGate false 0 (trapHandler 8)
  | 0 => setGate false 3 (trapHandlerNoec 0)
  | 1 => setGate true 3 (trapHandlerNoec 1)
  | 2 => setGate false 3 (trapHandlerNoec 2)
  | 3 => setGate true 3 (trapHandlerNoec 3)
  | 4 => setGate true 3 (trapHandlerNoec 4)
  | 5 => setGate false 3 (trapHandlerNoec 5)
  | 6 => setGate false 3 (trapHandlerNoec 6)
  | 7 => setGate false 3 (trapHandlerNoec 7)
  | 10 => setGate false 3 (trapHandler 10)
  | 11 => setGate false 3 (trapHandler 11)
  | 12 => setGate false 3 (trapHandler 12)
  | 13 => setGate false 3 (trapHandler 13)
  | 16 => setGate false 3 (trapHandlerNoec 16)
  | 17 => setGate false 3 (trapHandler 17)
  | 18 => setGate false 3 (trapHandlerNoec 18)
  | 19 => setGate false 3 (trapHandlerNoec 19)
  | n => if 32 ≤ n ∧ n < 48 then setGate false 3 (trapHandlerNoec (BitVec.ofNat 32 n)) else none

/-- `env_pop_tf(tf)`. -/
def envPopTf (tf : BitVec 32) : List Instr :=
  [.movEsp tf, .popal, .popSeg .es, .popSeg .ds, .addEsp 8, .iret]

/-- The exceptions with which the processor pushes an error code. -/
def pushesError (n : Nat) : Bool := n ∈ [8, 10, 11, 12, 13, 14, 17]

theorem idtInit_le {n : Nat} {gate : Gate} (set : idtInit n = some gate) : n ≤ 48 := by
  unfold idtInit at set
  split at set
  case h_20 =>
    split at set
    · omega
    · cases set
  all_goals decide

/-- The handlers agree with the processor about it. -/
theorem idtInit_code {n : Nat} {gate : Gate} (set : idtInit n = some gate) :
    gate.sel = gdKt ∧ gate.code = if pushesError n then trapHandler (BitVec.ofNat 32 n)
      else trapHandlerNoec (BitVec.ofNat 32 n) := by
  unfold idtInit at set
  split at set
  case h_20 =>
    split at set
    · cases set
      refine ⟨rfl, (if_neg ?_).symm⟩
      simp only [pushesError, List.mem_cons, List.not_mem_nil, decide_eq_true_eq, or_false]
      omega
    · cases set
  all_goals
    cases set
    exact ⟨rfl, rfl⟩

/-! ## Entering -/

variable {s s' s₀ : State} {ts : Taskstate} {gate : Gate} {err : Option (BitVec 32)}
  {ws : List (BitVec 32)} {num : BitVec 32}

/-- `_alltraps` after `pushal` pushes the address of what is on the stack. -/
theorem pushed_loadSegs (imm : BitVec 16) (pushed : Pushed s₀ s ws)
    (fits : 4 * (ws.length + 1) ≤ 2 ^ 32) :
    Pushed s₀ (s.run [.movAx imm, .movSegAx .ds, .movSegAx .es, .pushEsp]) (s.cpu.esp :: ws) :=
  (pushed.cpu (c := (s.run [.movAx imm, .movSegAx .ds, .movSegAx .es]).cpu) rfl).push _ fits

/-- `_alltraps` pushes the registers, and their address. -/
theorem pushed_allTraps (pushed : Pushed s₀ s ws) (fits : 4 * (ws.length + 11) ≤ 2 ^ 32) :
    Pushed s₀ (s.run allTraps)
      ((s.cpu.esp - 40#32) :: (regWords s.cpu (s.cpu.esp - 8#32) ++ ws)) := by
  have segs := (pushed.push (s.cpu.ds.setWidth 32)).push (s.cpu.es.setWidth 32)
  have same := ((SameRegs.refl s.cpu).push (s.cpu.ds.setWidth 32)).push (s.cpu.es.setWidth 32)
  have esp : ((s.push (s.cpu.ds.setWidth 32)).push (s.cpu.es.setWidth 32)).cpu.esp =
      s.cpu.esp - 8#32 := by
    show s.cpu.esp - 4#32 - 4#32 = _
    bv_omega
  have regs := segs.pushal (by simp only [List.length_cons]; omega)
  have frame := pushed_loadSegs gdKd regs (by simp only [List.length_cons]; omega)
  rw [esp_pushal, same.edi, same.esi, same.ebp, same.ebx, same.edx, same.ecx, same.eax, esp,
    show s.cpu.esp - 8#32 - 32#32 = s.cpu.esp - 40#32 by bv_omega] at frame
  rw [allTraps, run_cons, run_cons, run_cons, Instr.exec, Instr.exec, Instr.exec, Cpu.seg, Cpu.seg,
    show (s.push (s.cpu.ds.setWidth 32)).cpu.es = s.cpu.es from rfl]
  exact frame

/-- On top of what is pushed before them are the registers of what was interrupted. -/
theorem pushed_regs {c : Cpu} (same : SameRegs c s.cpu) (pushed : Pushed s₀ s ws)
    (small : ws.length ≤ 7) : ∃ oesp, Pushed s₀ (s.run allTraps)
      (((s.run allTraps).cpu.esp + 4#32) :: (regWords c oesp ++ ws)) := by
  have all := pushed_allTraps pushed (by omega)
  have esp : (s.run allTraps).cpu.esp + 4#32 = s.cpu.esp - 40#32 := by
    have down : (s.run allTraps).cpu.esp = s.cpu.esp - 44#32 :=
      (pushed_allTraps (Pushed.refl s) (by decide)).esp
    rw [down]
    bv_omega
  rw [regWords, same.edi, same.esi, same.ebp, same.ebx, same.edx, same.ecx, same.eax, same.es,
    same.ds, ← esp] at all
  exact ⟨_, all⟩

/-- The stack when `trap` is called, after an interrupt that is taken on the stack `ws`. -/
theorem pushed_handler {n : Nat} (set : idtInit n = some gate) (agrees : err.isSome = pushesError n)
    (stack : Pushed s₀ (s.interruptStack ts) ws) (small : ws.length ≤ 2) :
    ∃ oesp, Pushed s₀ ((s.interrupt ts gate err).run gate.code)
      ((((s.interrupt ts gate err).run gate.code).cpu.esp + 4#32) ::
        (savedWords s.cpu oesp (BitVec.ofNat 32 n) (err.getD 0) ++ ws)) := by
  have same := sameRegs_interrupt s ts gate err
  have frame := stack.interrupt gate err (by omega)
  rw [(idtInit_code set).2, ← agrees]
  simp only [savedWords, List.append_assoc]
  have length : ∀ w w₁ w₂ w₃ w₄ : BitVec 32, ([w, w₁, w₂, w₃, w₄] ++ ws).length ≤ 7 := by
    simp only [List.length_append, List.length_cons, List.length_nil]
    omega
  cases err with
  | none =>
    have number := (frame.push 0).push (BitVec.ofNat 32 n)
    rw [Option.isSome_none, if_neg Bool.false_ne_true, trapHandlerNoec, run_cons, run_cons]
    exact pushed_regs ((same.push _).push _) number (length _ _ _ _ _)
  | some w =>
    have number := frame.push (BitVec.ofNat 32 n)
    rw [Option.isSome_some, if_pos rfl, trapHandler, run_cons]
    exact pushed_regs (same.push _) number (length _ _ _ _ _)

/-- `trap` runs in ring 0. -/
theorem cs_handler {n : Nat} (set : idtInit n = some gate) :
    ((s.interrupt ts gate err).run gate.code).cpu.cs = gdKt := by
  have keeps : ∀ s : State, (s.run allTraps).cpu.cs = s.cpu.cs := fun s => by
    simp only [allTraps, run_cons, run_nil, Instr.exec, Cpu.setSeg, cs_push, cs_pushal]
  have sel : (s.interrupt ts gate err).cpu.cs = gdKt := (idtInit_code set).1
  rw [(idtInit_code set).2]
  split
  · rw [trapHandler, run_cons, keeps]
    exact sel
  · rw [trapHandlerNoec, run_cons, run_cons, keeps]
    exact sel

/-- An interrupt of the kernel stays on its stack. -/
theorem ss_handler {n : Nat} (set : idtInit n = some gate) (inner : ring s.cpu.cs = 0) :
    ((s.interrupt ts gate err).run gate.code).cpu.ss = s.cpu.ss := by
  have keeps : ∀ s : State, (s.run allTraps).cpu.ss = s.cpu.ss := fun s => by
    simp only [allTraps, run_cons, run_nil, Instr.exec, Cpu.setSeg, ss_push, ss_pushal]
  have stack : (s.interrupt ts gate err).cpu.ss = s.cpu.ss := by
    rw [ss_interrupt, interruptStack_inner inner]
  rw [(idtInit_code set).2]
  split
  · rw [trapHandler, run_cons, keeps]
    exact stack
  · rw [trapHandlerNoec, run_cons, run_cons, keeps]
    exact stack

/-- **The frame of an interrupt of a user program holds its registers**, under the stack pointer
of the task state segment; nothing else is written but the address of the frame. -/
theorem frame_user {n : Nat} (set : idtInit n = some gate) (agrees : err.isSome = pushesError n)
    (outer : ring s.cpu.cs ≠ 0) (ends : (s.interrupt ts gate err).run gate.code = s') :
    ∃ oesp, Trapframe.read s'.mem (s'.mem.word s'.cpu.esp) =
        .of s.cpu oesp (BitVec.ofNat 32 n) (err.getD 0) ∧
      s'.mem.word s'.cpu.esp = ts.esp0 - 68#32 ∧
      ∀ x, 72 ≤ (x - (ts.esp0 - 72#32)).toNat → s'.mem x = s.mem x := by
  obtain ⟨oesp, pushed⟩ := pushed_handler set agrees (pushed_interruptStack ts outer) (by simp)
  rw [ends] at pushed
  obtain ⟨esp, ⟨top, frame⟩, elsewhere⟩ := pushed
  refine ⟨oesp, ?_, ?_, fun x out => elsewhere x ?_⟩
  · rw [top]
    exact read_of_holds frame
  · rw [top, esp]
    show ts.esp0 - 72#32 + 4#32 = _
    bv_omega
  · rw [esp]
    exact out

/-- **An interrupt of the kernel saves its registers under its stack pointer**: what is above is
not written, and the frame ends where the stack was. -/
theorem frame_kernel {n : Nat} (set : idtInit n = some gate) (agrees : err.isSome = pushesError n)
    (inner : ring s.cpu.cs = 0) (ends : (s.interrupt ts gate err).run gate.code = s') :
    ∃ oesp, X86.Holds s'.mem (s'.mem.word s'.cpu.esp)
        (savedWords s.cpu oesp (BitVec.ofNat 32 n) (err.getD 0)) ∧
      s'.mem.word s'.cpu.esp = s.cpu.esp - 60#32 ∧
      ∀ x, 64 ≤ (x - (s.cpu.esp - 64#32)).toNat → s'.mem x = s.mem x := by
  have stack : Pushed s (s.interruptStack ts) [] := by
    rw [interruptStack_inner inner]
    exact .refl s
  obtain ⟨oesp, pushed⟩ := pushed_handler set agrees stack (by simp)
  rw [ends] at pushed
  obtain ⟨esp, ⟨top, frame⟩, elsewhere⟩ := pushed
  rw [List.append_nil] at frame
  refine ⟨oesp, ?_, ?_, fun x out => elsewhere x ?_⟩
  · rw [top]
    exact frame
  · rw [top, esp]
    show s.cpu.esp - 64#32 + 4#32 = _
    bv_omega
  · rw [esp]
    exact out

/-- `int n` of a user program through a gate whose handler expects an error code, which `int` does
not push: what lies above the frame is taken for the rest of it. -/
theorem frame_int {n : Nat} (set : idtInit n = some gate) (expects : pushesError n = true)
    (outer : ring s.cpu.cs ≠ 0) (ends : (s.interrupt ts gate none).run gate.code = s') :
    ∃ tf, Trapframe.read s'.mem (s'.mem.word s'.cpu.esp) = tf ∧ tf.tfErr = s.cpu.eip ∧
      tf.tfEip = s.cpu.cs.setWidth 32 ∧ tf.tfCs = s.cpu.eflags.setWidth 16 ∧
      tf.tfEflags = s.cpu.esp ∧ tf.tfEsp = s.cpu.ss.setWidth 32 := by
  have frame := (pushed_interruptStack ts outer).interrupt gate none
  have number := frame.push (BitVec.ofNat 32 n)
  obtain ⟨oesp, regs⟩ := pushed_regs ((sameRegs_interrupt s ts gate none).push _) number (by simp)
  rw [(idtInit_code set).2, if_pos expects, trapHandler, run_cons, Instr.exec] at ends
  rw [ends] at regs
  obtain ⟨-, ⟨top, holds⟩, -⟩ := regs
  refine ⟨_, rfl, ?_⟩
  rw [top]
  exact ⟨holds.getElem (i := 11) (show 11 < 16 by decide),
    holds.getElem (i := 12) (show 12 < 16 by decide),
    (congrArg (BitVec.setWidth 16) (holds.getElem (i := 13) (show 13 < 16 by decide)) :),
    holds.getElem (i := 14) (show 14 < 16 by decide),
    holds.getElem (i := 15) (show 15 < 16 by decide)⟩

/-- **`int n` of user programs**: through a gate that is open to them the frame holds their
registers exactly if the handler does not expect an error code. -/
theorem int_frame_iff {n : Nat} (ts : Taskstate) (set : idtInit n = some gate)
    (opened : gate.dpl = 3) :
    (∀ s s' : State, ring s.cpu.cs ≠ 0 → (s.interrupt ts gate none).run gate.code = s' →
      (Trapframe.read s'.mem (s'.mem.word s'.cpu.esp)).cpu = s.cpu) ↔ n ∉ [10, 11, 12, 13, 17] := by
  have expects : pushesError n = true ↔ n ∈ [10, 11, 12, 13, 17] := by
    rw [pushesError, decide_eq_true_iff]
    refine ⟨fun mem => ?_, fun mem => ?_⟩
    · -- the gates of the other two are not open
      have double : n ≠ 8 := by
        rintro rfl
        cases set
        exact absurd opened (by decide)
      have page : n ≠ 14 := by
        rintro rfl
        cases set
        exact absurd opened (by decide)
      simp only [List.mem_cons, List.not_mem_nil, or_false] at mem ⊢
      omega
    · simp only [List.mem_cons, List.not_mem_nil, or_false] at mem ⊢
      omega
  rw [← expects, Bool.not_eq_true]
  refine ⟨fun saves => ?_, fun agrees s s' outer ends => ?_⟩
  · by_contra wants
    rw [Bool.not_eq_false] at wants
    -- a program at the address 0
    let s : State :=
      { cpu :=
          { eax := 0, ecx := 0, edx := 0, ebx := 0, esp := 0, ebp := 0, esi := 0, edi := 0, eip := 0
            eflags := 0, cs := gdUt ||| 3, ds := 0, es := 0, ss := 0 }
        mem := fun _ => 0 }
    obtain ⟨s', ends⟩ : ∃ s', (s.interrupt ts gate none).run gate.code = s' := ⟨_, rfl⟩
    have outer : ring s.cpu.cs ≠ 0 := by decide
    obtain ⟨tf, read, -, eip, -⟩ := frame_int set wants outer ends
    have kept := congrArg Cpu.eip (saves s s' outer ends)
    rw [read] at kept
    have segment : s.cpu.cs.setWidth 32 = s.cpu.eip := eip.symm.trans kept
    exact absurd segment (by decide)
  · have none : (none : Option (BitVec 32)).isSome = pushesError n := agrees.symm
    obtain ⟨oesp, frame, -⟩ := frame_user set none outer ends
    rw [frame, cpu_of]

/-- `int 13` does not save what it interrupts, `int 3` does. -/
theorem int_frame_thirteen :
    (¬ ∀ s s' : State, ring s.cpu.cs ≠ 0 →
      (s.interrupt ⟨0, gdKd⟩ ⟨gdKt, false, 3, trapHandler 13⟩ none).run (trapHandler 13) = s' →
      (Trapframe.read s'.mem (s'.mem.word s'.cpu.esp)).cpu = s.cpu) ∧
    ∀ s s' : State, ring s.cpu.cs ≠ 0 →
      (s.interrupt ⟨0, gdKd⟩ ⟨gdKt, true, 3, trapHandlerNoec 3⟩ none).run (trapHandlerNoec 3) = s' →
      (Trapframe.read s'.mem (s'.mem.word s'.cpu.esp)).cpu = s.cpu :=
  ⟨fun saves => absurd ((int_frame_iff ⟨0, gdKd⟩ (n := 13) rfl rfl).mp saves) (by decide),
    (int_frame_iff ⟨0, gdKd⟩ (n := 3) rfl rfl).mpr (by decide)⟩

/-! ## Leaving -/

/-- `env_pop_tf` loads the registers that a frame holds: all of them into another ring, and all but
the stack into the same. -/
theorem run_envPopTf (s : State) (a : BitVec 32) : s.run (envPopTf a) =
    if ring (Trapframe.read s.mem a).tfCs = ring s.cpu.cs then
      { s with cpu := { (Trapframe.read s.mem a).cpu with esp := a + 60#32, ss := s.cpu.ss } }
    else { s with cpu := (Trapframe.read s.mem a).cpu } := by
  simp only [envPopTf, run_cons, run_nil, Instr.exec, State.popal, State.pop, State.iret,
    Cpu.setSeg, BitVec.add_assoc, BitVec.reduceAdd]
  rw [show s.mem.word a = s.mem.word (a + 0#32) by rw [BitVec.add_zero]]
  rfl

/-- **The kernel goes on with the registers with which it was interrupted**, if what it did
meanwhile left the frame as it was. -/
theorem resume_kernel {oesp trapno err : BitVec 32} {c : Cpu}
    (frame : X86.Holds s'.mem (c.esp - 60#32) (savedWords c oesp trapno err))
    (inner : ring c.cs = ring s'.cpu.cs) (ss : s'.cpu.ss = c.ss) :
    s'.run (envPopTf (c.esp - 60#32)) = { s' with cpu := c } := by
  have read := read_of_saved (holds_append.mpr ⟨frame, rfl, rfl, trivial⟩)
  rw [run_envPopTf, read]
  refine (if_pos inner).trans ?_
  rw [BitVec.sub_add_cancel, ss]
  rfl

end Fos
