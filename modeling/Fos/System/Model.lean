import Fos.Loader.Load
import Fos.Memory.Boot
import Fos.Memory.Tables
import Fos.UserHeap.Model

/-!
# The system

Environments are created, run in turn and freed.  The one that runs loads and stores bytes, its
accesses to pages that are not present fault, and it allocates and frees ranges of its heap.
Which environment runs next is the scheduler's choice, which is modelled apart from this; here
it may be any that exists.

* `Event`, `Event.prog`: what happens, and what the kernel and the processor do then;
* `Event.Allowed`: when it can happen;
* `Machine.Run`: the states that a machine comes to.
-/

namespace Fos

/-- The environment has been created and not been freed. -/
def Kernel.Live (s : Kernel) (e : Nat) : Prop := (s.globals.envs e).envPageDirectory ≠ none

instance (s : Kernel) (e : Nat) : Decidable (s.Live e) := instDecidableNot

/-- What happens. -/
inductive Event where
  | create (e : Nat) (program : UserProgram) (pageWSSize LRUSecondListSize : Nat)
  | run (e : Nat)
  | load (va : Nat)
  | store (va : Nat) (b : BitVec 8)
  | fault (va : Nat)
  | allocateMem (va size : Nat)
  | freeMem (va size : Nat)
  | free (e : Nat)
  | exit
  | prompt

/-- `env_create`, `env_run`, an access of the running program, `fault_handler`, the system calls
`allocateMem` and `freeMem` for the current environment, `start_env_free`, `curenv = NULL` of
`sched_exit_env`, and the end of `fos_scheduler` without a next environment. -/
def Event.prog : Event → Prog Unit
  | .create e program pageWSSize LRUSecondListSize =>
    envCreate e program pageWSSize LRUSecondListSize
  | .run e => envRun e
  | .load va => do
    let _ ← deref (← translate va true false)
  | .store va b => do
    let f ← deref (← translate va true true)
    writePage f (((← get).mem f).setByte (va % pageSize) b)
  | .fault va => faultHandler va
  | .allocateMem va size => do Fos.allocateMem (← deref (← get).globals.curenv) va size
  | .freeMem va size => do Fos.freeMem (← deref (← get).globals.curenv) va size
  | .free e => envFree e
  | .exit => modify fun s => s.setGlobals { s.globals with curenv := none }
  | .prompt => do
    modify fun s => s.setGlobals { s.globals with curenv := none }
    lcr3 (toPhysicalAddress (← get).globals.ptrPageDirectory)

/-- An environment is created in a slot that is free, for a program whose segments fit below the
stack and have pages of their own, with a second list that leaves room for active pages.  A program
accesses addresses below `USER_TOP`, and faults on pages that are not present; its heap calls are
for ranges below `USER_HEAP_MAX`, and those that it frees begin with a page.  Only environments
that do not run are freed. -/
def Event.Allowed (s : Kernel) : Event → Prop
  | .create e program pageWSSize LRUSecondListSize =>
    e < nenv ∧ s.globals.envs e = Env.zero ∧ (∀ seg ∈ program.segments, seg.Fits) ∧
      program.segments.Pairwise ProgramSegment.Apart ∧ LRUSecondListSize < pageWSSize
  | .run e => s.Live e
  | .load va => va < word32 ∧ UserVa va ∧ s.globals.curenv ≠ none
  | .store va _ => va < word32 ∧ UserVa va ∧ s.globals.curenv ≠ none
  | .fault va =>
    va < word32 ∧ UserVa va ∧ s.globals.curenv ≠ none ∧
      ¬ present (pteAt s.mem (ppn s.globals.cr3) (pageNo va))
  | .allocateMem va size =>
    va + UserHeap.numOf size * pageSize ≤ userHeapMax ∧ s.globals.curenv ≠ none
  | .freeMem va size => Aligned va ∧ va + size ≤ userHeapMax ∧ s.globals.curenv ≠ none
  | .free e => s.Live e ∧ s.globals.curenv ≠ some e
  | .exit => True
  | .prompt => True

/-- The same, as far as it can be computed: no environment lives in the slot. -/
def Event.May (s : Kernel) : Event → Prop
  | .create e program pageWSSize LRUSecondListSize =>
    e < nenv ∧ ¬ s.Live e ∧ (∀ seg ∈ program.segments, seg.Fits) ∧
      program.segments.Pairwise ProgramSegment.Apart ∧ LRUSecondListSize < pageWSSize
  | a => a.Allowed s

instance Event.decidableMay (s : Kernel) : (a : Event) → Decidable (a.May s)
  | .create .. => inferInstanceAs (Decidable (_ ∧ _ ∧ _ ∧ _ ∧ _))
  | .run e => inferInstanceAs (Decidable (s.Live e))
  | .load _ | .store _ _ => inferInstanceAs (Decidable (_ ∧ _ ∧ _))
  | .fault _ => inferInstanceAs (Decidable (_ ∧ _ ∧ _ ∧ _))
  | .allocateMem .. => inferInstanceAs (Decidable (_ ∧ _))
  | .freeMem .. => inferInstanceAs (Decidable (_ ∧ _ ∧ _))
  | .free _ => inferInstanceAs (Decidable (_ ∧ _))
  | .exit | .prompt => inferInstanceAs (Decidable True)

/-- The state after an event, if it may happen and returns. -/
def Kernel.exec (s : Kernel) (a : Event) : Option Kernel :=
  if a.May s then Exec.after a.prog s else none

/-- The states that the machine comes to, by events that succeed. -/
inductive Machine.Run (m : Machine) : Kernel → Prop where
  | boot : m.Run m.boot
  | step {s s' : Kernel} (a : Event) : m.Run s → a.Allowed s → a.prog s = .ok () s' → m.Run s'

end Fos
