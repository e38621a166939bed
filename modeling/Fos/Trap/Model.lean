import Fos.Boot.Model
import Fos.System.Model
import Fos.Trap.Frame

/-!
# Traps and context switches

`trap` and what it calls, over the registers and the memory in which they are saved.  The frames
`env_tf` of the environments lie in `envs`, at the start of each structure; the rest of what the
kernel does is done by the programs of the memory manager.

* `Board`: the processor, the memory of the kernel, and the kernel's state;
* `Trap.trapDispatch`, `Trap.syscall`, `Trap.trap`, `Trap.envRun`: the code.
-/

namespace Fos

open X86

/-- `USER_LIMIT`. -/
abbrev userLimit : Nat := kernelStackTop - ptSize

/-- `FL_IF`. -/
abbrev flIF : BitVec 32 := 0x200

/-- The state: that of the memory manager, the registers, the kernel's part of the address space
with its stack and `envs`, `CR2`, and `bypassInstrLength`. -/
structure Board where
  kernel : Kernel
  cpu : Cpu
  mem : Mem
  cr2 : BitVec 32
  bypassInstrLength : BitVec 8

/-- Why a trap ends: a stop of the kernel, `env_pop_tf`, or the prompt. -/
inductive Exit where
  | stop (s : Stop)
  | popped
  | prompt
  deriving DecidableEq

/-- Code that handles traps; it ends in an `Exit` unless it returns. -/
abbrev Trap := EStateM Exit Board

/-- The task state segment that `idt_init` sets up. -/
def taskstate : Taskstate := ⟨BitVec.ofNat 32 kernelStackTop, gdKd⟩

/-- `&envs[e].env_tf`. -/
def envTf (envs e : Nat) : BitVec 32 := BitVec.ofNat 32 (envs + sizeofEnv * e)

namespace Board

/-- The registers and the memory. -/
def state (b : Board) : State := ⟨b.cpu, b.mem⟩

def setState (b : Board) (s : State) : Board := { b with cpu := s.cpu, mem := s.mem }

def setMem (b : Board) (m : Mem) : Board := { b with mem := m }

def setKernel (b : Board) (k : Kernel) : Board := { b with kernel := k }

/-- The address of the frame of an environment. -/
def envTf (b : Board) (e : Nat) : BitVec 32 := Fos.envTf b.kernel.globals.envsAddress e

/-- The frame of an environment. -/
def frame (b : Board) (e : Nat) : Trapframe := .read b.mem (b.envTf e)

/-- What the variables of the kernel and its stack come to hold.  Of what it keeps, no byte
changes. -/
def scribble (b : Board) (scratch : Mem) (keep : BitVec 32 → Bool) : Board :=
  b.setMem fun x => if keep x then b.mem x else scratch x

/-- The bytes of the frames. -/
def inFrames (b : Board) (x : BitVec 32) : Bool :=
  (List.range nenv).any fun e => (x - b.envTf e).toNat < sizeofTrapframe

end Board

/-- Running a program of the memory manager. -/
def onKernel {α : Type} (p : Prog α) : Trap α := fun b =>
  match p b.kernel with
  | .ok a k => .ok a (b.setKernel k)
  | .error x k => .error (.stop x) (b.setKernel k)

/-- What handlers find out: the environment that the scheduler picks, what the kernel leaves in its
variables and on its stack, and, for `env_create`, the structure that is free, the program of the
name with its entry point, and the new `env_id`. -/
structure Service where
  next : Option Nat
  scratch : Mem
  slot : Nat
  program : UserProgram
  entry : BitVec 32
  envId : BitVec 32

namespace Trap

/-- `env_pop_tf(tf)`. -/
def envPopTf (tf : BitVec 32) : Trap Unit := do
  modify fun b => b.setState (b.state.run (Fos.envPopTf tf))
  throw .popped

/-- `env_run(e)`. -/
def envRun (e : Nat) : Trap Unit := do
  onKernel (Fos.envRun e)
  envPopTf ((← get).envTf e)

/-- `fos_scheduler()`, once it has picked the next environment. -/
def fosScheduler (w : Service) : Trap Unit :=
  match w.next with
  | some nextEnv => envRun nextEnv
  | none => do
    onKernel Event.prompt.prog
    throw .prompt

/-- `complete_environment_initialization(e)`, as far as the frame `e->env_tf` at `tf` goes. -/
def completeEnvironmentInitialization (tf : BitVec 32) (m : Mem) : Mem :=
  let m := m.memset tf 0 sizeofTrapframe
  -- `tf_ds`, `tf_es` and `tf_ss`, then `tf_esp`, `tf_cs` and `tf_eflags |= FL_IF`
  let m := m.setHalf (tf + 36#32) (gdUd ||| 3)
  let m := m.setHalf (tf + 32#32) (gdUd ||| 3)
  let m := m.setHalf (tf + 64#32) (gdUd ||| 3)
  let m := m.setWord (tf + 60#32) (BitVec.ofNat 32 ustackTop)
  let m := m.setHalf (tf + 52#32) (gdUt ||| 3)
  m.setWord (tf + 56#32) (m.word (tf + 56#32) ||| flIF)

/-- `set_environment_entry_point(e, ptr_program_start)`, for a program with the entry point
`entry`: `tf_eip`. -/
def setEnvironmentEntryPoint (tf entry : BitVec 32) (m : Mem) : Mem := m.setWord (tf + 48#32) entry

/-- `env_create`, with the frame of the new environment. -/
def envCreate (e : Nat) (program : UserProgram) (entry : BitVec 32)
    (pageWSSize LRUSecondListSize : Nat) : Trap Unit := do
  onKernel (Fos.envCreate e program pageWSSize LRUSecondListSize)
  modify fun b => b.setMem (completeEnvironmentInitialization (b.envTf e) b.mem)
  modify fun b => b.setMem (setEnvironmentEntryPoint (b.envTf e) entry b.mem)

/-- `env_free` of another environment, whose structure `free_environment` clears. -/
def envFree (e : Nat) : Trap Unit := do
  onKernel (Fos.envFree e)
  modify fun b => b.setMem (b.mem.memset (b.envTf e) 0 sizeofTrapframe)

/-- `curenv`, which is asserted not to be null. -/
def current : Trap Nat := do
  match (← get).kernel.globals.curenv with
  | some e => return e
  | none => onKernel (panic "assertion failed: curenv")

/-- Changing a word of the frame at `tf`. -/
def setField (tf offset : BitVec 32) (w : BitVec 32) : Trap Unit :=
  modify fun b => b.setMem (b.mem.setWord (tf + offset) w)

/-- `syscall(syscallno, a1, a2, a3)` for the calls that concern memory, environments and traps.  The
other calls of `enum` are not made here; numbers that are none fail. -/
def syscall (w : Service) (syscallno : Nat) (a1 a2 a3 : BitVec 32) : Trap (BitVec 32) := do
  let e ← current
  let tf := (← get).envTf e
  match syscallno with
  -- `SYS_getenvindex`
  | 3 => return BitVec.ofNat 32 e
  -- `SYS_env_exit`
  | 6 =>
    onKernel Event.exit.prog
    fosScheduler w
    return 0
  -- `SYS_freeMem`, `SYS_allocateMem`
  | 17 =>
    onKernel (freeMem e a1.toNat a2.toNat)
    return 0
  | 18 =>
    onKernel (allocateMem e a1.toNat a2.toNat)
    return 0
  -- `SYS_disableINTR`, `SYS_enableINTR`
  | 20 =>
    setField tf 56#32 ((← get).mem.word (tf + 56#32) &&& ~~~ flIF)
    return 0
  | 21 =>
    setField tf 56#32 ((← get).mem.word (tf + 56#32) ||| flIF)
    return 0
  -- `SYS_create_env`, `SYS_free_env`
  | 33 =>
    envCreate w.slot w.program w.entry a2.toNat a3.toNat
    return w.envId
  | 35 =>
    envFree w.slot
    return 0
  -- `SYS_rcr2`, `SYS_bypassPageFault`
  | 37 => return (← get).cr2
  | 38 =>
    modify fun b => { b with bypassInstrLength := a1.setWidth 8 }
    return 0
  | _ => return BitVec.ofInt 32 eInval

/-- `fault_handler(tf)` for a fault of the kernel itself. -/
def kernelFaultHandler (faultVa : Nat) : Prog Unit := do
  if faultVa < kernelStackTop - kernelStackSize ∧ faultVa ≥ userLimit then
    panic "Kernel: stack overflow exception!"
  else
    let e ← deref (← get).globals.curenv
    let dir ← envPageDirectory e
    if (← readWord dir (pdx faultVa)) &&& permPresent ≠ permPresent then
      modifyEnv e Env.countTableFault
      tableFaultHandler e faultVa
    else
      modifyEnv e Env.countPageFault
      pageFaultHandler e faultVa

/-- `trap_dispatch(tf)`. -/
def trapDispatch (w : Service) (tf : BitVec 32) : Trap Unit := do
  let f := Trapframe.read (← get).mem tf
  if f.tfTrapno.toNat = tPgflt then
    let faultVa := (← get).cr2.toNat
    onKernel (if ring f.tfCs = 3 then faultHandler faultVa else kernelFaultHandler faultVa)
  else if f.tfTrapno.toNat = tSyscall then
    let ret ← syscall w f.tfRegs.regEax.toNat f.tfRegs.regEdx f.tfRegs.regEcx f.tfRegs.regEbx
    setField tf 28#32 ret
  else if f.tfTrapno.toNat = tDblflt then
    onKernel (panic "double fault!!")
  else if f.tfTrapno.toNat = irq0Clock then
    fosScheduler w
  else if f.tfCs = gdKt then
    onKernel (panic "unhandled trap in kernel")

/-- `trap(tf)`. -/
def trap (w : Service) (tf : BitVec 32) : Trap Unit := do
  let f := Trapframe.read (← get).mem tf
  if ring f.tfCs = 3 then
    let e ← current
    modify fun b => b.setMem (b.mem.copy (b.envTf e) tf sizeofTrapframe)
    -- the frame on the stack is not used any more
    modify fun b => b.scribble w.scratch b.inFrames
    if f.tfTrapno.toNat = tPgflt ∧ (← get).bypassInstrLength ≠ 0 then
      setField ((← get).envTf e) 48#32 (f.tfEip + (← get).bypassInstrLength.setWidth 32)
      envRun e
    else
      trapDispatch w ((← get).envTf e)
      envRun (← current)
  else
    modify fun b => b.scribble w.scratch fun x =>
      b.inFrames x || (tf ≤ x && x < BitVec.ofNat 32 kernelStackTop)
    if f.tfTrapno.toNat = tPgflt ∧ (← get).bypassInstrLength ≠ 0 then
      setField tf 48#32 (f.tfEip + (← get).bypassInstrLength.setWidth 32)
      envPopTf tf
    else
      trapDispatch w tf
      envPopTf tf

/-- An interrupt through the gate `n`: the processor's part, the handler of `kern/trapentry.S`, and
`trap`. -/
def interrupted (w : Service) (n : Nat) (err : Option (BitVec 32)) : Trap Unit := do
  match idtInit n with
  | none => throw (.stop .crash)
  | some gate =>
    modify fun b => b.setState ((b.state.interrupt taskstate gate err).run gate.code)
    trap w ((← get).mem.word (← get).cpu.esp)

end Trap

end Fos
