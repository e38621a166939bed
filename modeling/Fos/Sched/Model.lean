import Fos.Memlayout
import Fos.Queue

/-!
# The environment table and the round-robin scheduler

The scheduler's half of `kern/sched.c` and `kern/user_environment.c`: the `envs`
array with the members the scheduler reads, the four lists that thread the
`prev_next_info` member of `struct Env`, `curenv` and `scheduler_status`.  The
scheduling method is `SCH_RR`, so there is one ready queue.

A C function returns to its caller, or leaves the kernel for good (`env_run`, or
the command prompt that `fos_scheduler` enters when no environment is ready), or
goes wrong: the constructors of `Ctl`.
What `env_create` and `env_free` do to memory is modelled apart from this; here
they take an `Env` structure from the free list and give it back zeroed.
-/

namespace Fos

/-- The lists whose nodes are `Env` structures. -/
inductive EnvList where
  | envFreeList
  | envNewQueue
  | envReadyQueue
  | envExitQueue
  deriving DecidableEq

/-- `env_status`. -/
inductive EnvStatus where
  | free
  | ready
  | runnable
  | blocked
  | new
  | exit
  | unknown
  deriving DecidableEq

/-- `scheduler_status`. -/
inductive SchedulerStatus where
  | stopped
  | started
  deriving DecidableEq

/-- The members of `struct Env` that scheduling reads or writes. -/
structure EnvSlot where
  envId : BitVec 32
  envParentId : BitVec 32
  envStatus : EnvStatus
  envRuns : UInt32

/-- `memset(e, 0, sizeof(*e))`. -/
def EnvSlot.zero : EnvSlot :=
  { envId := 0, envParentId := 0, envStatus := .free, envRuns := 0 }

/-- The scheduler's state. -/
structure Sched where
  lists : Lists EnvList Nat
  envs : Nat → EnvSlot
  curenv : Option Nat
  schedulerStatus : SchedulerStatus

instance : HasLists Sched EnvList Nat where
  lists := Sched.lists
  setLists s l := { s with lists := l }
  lists_setLists _ _ := rfl

/-- A loop of the scheduler carries the local variable `found` with the state. -/
instance : HasLists (Sched × Bool) EnvList Nat where
  lists s := s.1.lists
  setLists s l := ({ s.1 with lists := l }, s.2)
  lists_setLists _ _ := rfl

/-- How a kernel function ends: it returns, it leaves the kernel, an assertion of it
fails, it dereferences a null `curenv`, or one of its loops does not end. -/
inductive Ctl (σ : Type) where
  | returns (s : σ)
  | leaves (s : σ)
  | panics (s : σ)
  | nullDeref
  | spins

/-- Go on after a `LIST_FOREACH` with its final loop variable. -/
def LoopEnd.andThen {α σ τ : Type} (loop : LoopEnd α σ (Ctl τ)) (rest : Option α → σ → Ctl τ) :
    Ctl τ :=
  match loop with
  | .done var s => rest var s
  | .ret r => r
  | .spin => .spins

/-- Passes a `LIST_FOREACH` over a list of environments can need. -/
def envLoopFuel : Nat := nenv + 1

namespace Sched

/-- Assign one slot of `envs`. -/
def setEnv (s : Sched) (e : Nat) (slot : EnvSlot) : Sched :=
  { s with envs := Function.update s.envs e slot }

/-- `e->env_status = st`. -/
def setStatus (s : Sched) (e : Nat) (st : EnvStatus) : Sched :=
  s.setEnv e { s.envs e with envStatus := st }

/-! ## Queues -/

/-- `enqueue`. -/
def enqueue (s : Sched) (queue : EnvList) (env : Nat) : Sched :=
  { s with lists := s.lists.insertHead queue env }

/-- `LIST_REMOVE(queue, e)`. -/
def removeFromQueue (s : Sched) (queue : EnvList) (e : Nat) : Sched :=
  { s with lists := s.lists.remove queue e }

/-- `dequeue`. -/
def dequeue (s : Sched) (queue : EnvList) : Option Nat × Sched :=
  match (s.lists.head queue).lhLast with
  | some envItem => (some envItem, s.removeFromQueue queue envItem)
  | none => (none, s)

/-- `sched_insert_ready`. -/
def schedInsertReady (s : Sched) (env : Nat) : Sched :=
  (s.setStatus env .ready).enqueue .envReadyQueue env

/-- `sched_insert_new`. -/
def schedInsertNew (s : Sched) (env : Nat) : Sched :=
  (s.setStatus env .new).enqueue .envNewQueue env

/-- `sched_remove_new`. -/
def schedRemoveNew (s : Sched) (env : Nat) : Sched :=
  (s.removeFromQueue .envNewQueue env).setStatus env .unknown

/-- `sched_insert_exit`, which ignores a null pointer; buffering is disabled. -/
def schedInsertExit (s : Sched) (env : Option Nat) : Sched :=
  match env with
  | some env => (s.setStatus env .exit).enqueue .envExitQueue env
  | none => s

/-- `sched_remove_exit`. -/
def schedRemoveExit (s : Sched) (env : Nat) : Sched :=
  (s.removeFromQueue .envExitQueue env).setStatus env .unknown

/-! ## Creating and freeing environments -/

/-- `allocate_environment`: the first free structure, still on the list. -/
def allocateEnvironment (s : Sched) : Option (Nat × Sched) :=
  match (s.lists.head .envFreeList).lhFirst with
  | some e => some (e, s.setStatus e .unknown)
  | none => none

/-- The `env_id` that `complete_environment_initialization` computes for slot `e` from
the slot's previous one: `ENVGENSHIFT` is 12 and the comparison with 0 is signed. -/
def nextEnvId (old : BitVec 32) (e : Nat) : BitVec 32 :=
  let generation := (old + 4096#32) &&& ~~~ (BitVec.ofNat 32 nenv - 1#32)
  let generation := if generation.toInt ≤ 0 then 4096#32 else generation
  generation ||| BitVec.ofNat 32 e

/-- `complete_environment_initialization`. -/
def completeEnvironmentInitialization (s : Sched) (e : Nat) : Sched :=
  let parent := match s.curenv with
    | some cur => (s.envs cur).envId
    | none => 0
  let s := s.setEnv e
    { envId := nextEnvId (s.envs e).envId e, envParentId := parent, envStatus := .new,
      envRuns := 0 }
  s.removeFromQueue .envFreeList e

/-- `env_create`: null when the program is unknown or no structure is free. -/
def envCreate (s : Sched) (programKnown : Bool) : Option Nat × Sched :=
  if programKnown then
    match s.allocateEnvironment with
    | some (e, s) => (some e, s.completeEnvironmentInitialization e)
    | none => (none, s)
  else (none, s)

/-- `free_environment`. -/
def freeEnvironment (s : Sched) (e : Nat) : Sched :=
  let s := { s with lists :=
    { s.lists with links := (s.lists.links.setNext e none).setPrev e none } }
  ((s.setEnv e .zero).setStatus e .free).enqueue .envFreeList e

/-- `start_env_free`: buffering is disabled, so this is `env_free`. -/
def startEnvFree (s : Sched) (e : Nat) : Sched := s.freeEnvironment e

/-! ## The scheduler -/

/-- `env_run`. -/
def envRun (s : Sched) (e : Nat) : Sched :=
  let s := if s.curenv ≠ some e then
      { s with curenv := some e }.setEnv e { s.envs e with envRuns := (s.envs e).envRuns + 1 }
    else s
  s.setStatus e .runnable

/-- The first half of `fos_scheduler`: `curenv`, if any, goes back to the ready queue. -/
def insertCurenv (s : Sched) : Sched :=
  match s.curenv with
  | some cur => s.enqueue .envReadyQueue cur
  | none => s

/-- The second half of `fos_scheduler`: run the next environment of the ready queue, or
return to the command prompt. -/
def runNext (s : Sched) : Sched :=
  match s.dequeue .envReadyQueue with
  | (some nextEnv, s) => s.envRun nextEnv
  | (none, s) => { s with curenv := none, schedulerStatus := .stopped }

/-- `fos_scheduler`; it does not return. -/
def fosScheduler (s : Sched) : Sched :=
  { s with schedulerStatus := .started }.insertCurenv.runNext

/-- `sched_new_env`. -/
def schedNewEnv (s : Sched) (e : Option Nat) : Sched :=
  match e with
  | some e => s.schedInsertNew e
  | none => s

/-- `if (scheduler_status == SCH_STOPPED) fos_scheduler();` -/
def startIfStopped (s : Sched) : Ctl Sched :=
  if s.schedulerStatus = .stopped then .leaves s.fosScheduler else .returns s

/-- `LIST_FOREACH(ptr_env, queue) body` in a function without other locals. -/
def foreachEnv (s : Sched) (queue : EnvList) (body : Nat → Sched → Flow Sched (Ctl Sched)) :
    LoopEnd Nat Sched (Ctl Sched) :=
  listForeach queue body envLoopFuel (s.lists.head queue).lhFirst s

/-- `sched_run_all`. -/
def schedRunAll (s : Sched) : Ctl Sched :=
  (s.foreachEnv .envNewQueue fun ptrEnv s =>
      .next ((s.schedRemoveNew ptrEnv).schedInsertReady ptrEnv)).andThen
    fun _ s => s.startIfStopped

/-- `sched_run_env`; its loop leaves the kernel when the scheduler was stopped. -/
def schedRunEnv (s : Sched) (envId : BitVec 32) : Ctl Sched :=
  (s.foreachEnv .envNewQueue fun ptrEnv s =>
      if (s.envs ptrEnv).envId = envId then
        match ((s.schedRemoveNew ptrEnv).schedInsertReady ptrEnv).startIfStopped with
        | .returns s => .brk s
        | r => .ret r
      else .next s).andThen
    fun _ s => .returns s

/-- `sched_exit_all_ready_envs`. -/
def schedExitAllReadyEnvs (s : Sched) : Ctl Sched :=
  if (s.lists.head .envReadyQueue).lhFirst = none then .returns s
  else
    (s.foreachEnv .envReadyQueue fun ptrEnv s =>
        .next ((s.removeFromQueue .envReadyQueue ptrEnv).schedInsertExit (some ptrEnv))).andThen
      fun _ s => .returns s

/-- One of the three loops of `sched_kill_all`, which are alike but for the queue and
the function that takes an environment off it. -/
def killQueue (s : Sched) (queue : EnvList) (remove : Sched → Nat → Sched)
    (rest : Sched → Ctl Sched) : Ctl Sched :=
  if (s.lists.head queue).lhFirst = none then rest s
  else
    (s.foreachEnv queue fun ptrEnv s => .next ((remove s ptrEnv).startEnvFree ptrEnv)).andThen
      fun _ s => rest s

/-- `sched_kill_all`. -/
def schedKillAll (s : Sched) : Ctl Sched :=
  s.killQueue .envNewQueue schedRemoveNew fun s =>
    s.killQueue .envReadyQueue (fun s e => s.removeFromQueue .envReadyQueue e) fun s =>
      s.killQueue .envExitQueue schedRemoveExit fun s =>
        .leaves { s with curenv := none }.fosScheduler

/-- A loop of `sched_kill_env` or `sched_exit_env` over a queue, with the local `found`:
it takes every environment with the given `env_id`, or only the first one. -/
def takeMatches (s : Sched) (queue : EnvList) (envId : BitVec 32)
    (take : Sched → Nat → Sched) (stop : Bool) : LoopEnd Nat (Sched × Bool) (Ctl Sched) :=
  listForeach queue (fun ptrEnv (s, found) =>
    if (s.envs ptrEnv).envId = envId then
      if stop then .brk (take s ptrEnv, true) else .next (take s ptrEnv, true)
    else .next (s, found)) envLoopFuel (s.lists.head queue).lhFirst (s, false)

/-- The end of `sched_exit_env`, from `if (!found)` on `curenv`. -/
def schedExitCurenv (s : Sched) (envId : BitVec 32) : Ctl Sched :=
  match s.curenv with
  | none => .nullDeref
  | some cur =>
    if (s.envs cur).envId = envId then
      .leaves { s.schedInsertExit (some cur) with curenv := none }.fosScheduler
    else .returns s

/-- The end of `sched_exit_env` when the environment was found in a queue. -/
def schedExitFound (s : Sched) (ptrEnv : Option Nat) (envId : BitVec 32) : Ctl Sched :=
  let s := s.schedInsertExit ptrEnv
  match s.curenv with
  | none => .nullDeref
  | some cur =>
    if (s.envs cur).envId = envId then .leaves { s with curenv := none }.fosScheduler
    else .returns s

/-- `sched_exit_env`.  The loop over the new queue has no `break`, so its variable is
null afterwards. -/
def schedExitEnv (s : Sched) (envId : BitVec 32) : Ctl Sched :=
  (s.takeMatches .envNewQueue envId schedRemoveNew false).andThen fun ptrEnv (s, found) =>
    if found then s.schedExitFound ptrEnv envId
    else if (s.lists.head .envReadyQueue).lhFirst = none then s.schedExitCurenv envId
    else
      (s.takeMatches .envReadyQueue envId (fun s e => s.removeFromQueue .envReadyQueue e)
          true).andThen fun ptrEnv (s, found) =>
        if found then s.schedExitFound ptrEnv envId else s.schedExitCurenv envId

/-- `env_exit`. -/
def envExit (s : Sched) : Ctl Sched :=
  match s.curenv with
  | none => .nullDeref
  | some cur =>
    match s.schedExitEnv (s.envs cur).envId with
    | .returns s => .leaves s.fosScheduler
    | r => r

/-- The end of `sched_kill_env`, on `curenv`.  The assertion compares `env_id`, not
`env_status`, with `ENV_RUNNABLE`. -/
def schedKillCurenv (s : Sched) (envId : BitVec 32) : Ctl Sched :=
  match s.curenv with
  | none => .nullDeref
  | some cur =>
    if (s.envs cur).envId = envId then
      if (s.envs cur).envId = 2#32 then
        .leaves { s.startEnvFree cur with curenv := none }.fosScheduler
      else .panics s
    else .returns s

/-- `sched_kill_env`. -/
def schedKillEnv (s : Sched) (envId : BitVec 32) : Ctl Sched :=
  (s.takeMatches .envNewQueue envId (fun s e => (s.schedRemoveNew e).startEnvFree e)
      false).andThen fun _ (s, found) =>
    if found then .returns s
    else
      let exitQueue (s : Sched) : Ctl Sched :=
        (s.takeMatches .envExitQueue envId (fun s e => (s.schedRemoveExit e).startEnvFree e)
            false).andThen fun _ (s, found) =>
          if found then .returns s else s.schedKillCurenv envId
      if (s.lists.head .envReadyQueue).lhFirst = none then exitQueue s
      else
        (s.takeMatches .envReadyQueue envId
            (fun s e => (s.removeFromQueue .envReadyQueue e).startEnvFree e)
            true).andThen fun _ (s, found) =>
          if found then .returns s else exitQueue s

/-- `clock_interrupt_handler`. -/
def clockInterruptHandler (s : Sched) : Ctl Sched := .leaves s.fosScheduler

/-! ## Boot -/

/-- `env_init`: the structures are inserted from the last slot down. -/
def envInit (s : Sched) : Sched :=
  (List.range nenv).foldr (fun iEnv s =>
    (s.setEnv iEnv { s.envs iEnv with envStatus := .free, envId := 0 }).enqueue .envFreeList iEnv)
    s

/-- `sched_init` under `SCH_RR`. -/
def schedInit (s : Sched) : Sched :=
  let init (s : Sched) (queue : EnvList) : Sched :=
    { s with lists := { s.lists with
        head := Function.update s.lists.head queue (listInit (s.lists.head queue)) } }
  init (init (init { s with schedulerStatus := .stopped } .envReadyQueue) .envNewQueue)
    .envExitQueue

/-- Zeroed memory: `FOS_initialize` clears the kernel's data, `initialize_kernel_VM`
clears the `envs` array. -/
def zeroed : Sched where
  lists :=
    { links := { next := fun _ => none, prev := fun _ => none }
      head := fun _ => { lhFirst := none, lhLast := none, ptrNext := none, size := 0 } }
  envs _ := .zero
  curenv := none
  schedulerStatus := .stopped

/-- The scheduler's state when the command prompt is first shown. -/
def boot : Sched := schedInit (envInit zeroed)

end Sched

end Fos
