import Fos.Command
import Fos.Sched.EnvIds

/-!
# The commands of the kernel prompt

`strsplit` of `lib/string.c`, `execute_command` and the handlers of `kern/command_prompt.c`, as
far as they use their arguments.

* `argument`: following a slot of the argument vector;
* `commands`: the table, with what every handler reads and does with it;
* `argumentsNeeded`: how many arguments a command takes for granted;
* `executeCommand_iff`: a command that is not given so many follows a slot with nothing in it.
-/

namespace Fos

/-! ## Splitting a line -/

/-- `MAX_ARGUMENTS`. -/
abbrev maxArguments : Nat := 16

/-- `WHITESPACE`. -/
def whitespace : List Char := ['\t', '\r', '\n', ' ']

/-- The words between the characters `splitChars`. -/
def words (splitChars : List Char) : List Char → List (List Char)
  | [] => []
  | c :: s =>
    if c ∈ splitChars then words splitChars s
    else
      match s, words splitChars s with
      | c' :: _, word :: rest =>
        if c' ∈ splitChars then [c] :: word :: rest else (c :: word) :: rest
      | _, rest => [c] :: rest

/-- `strsplit(string, SPLIT_CHARS, argv, &argc)`: what is in the first `argc` slots of `argv`.
The string ends at its first zero, and the rest of the line is left when the slots are used
up but for one. -/
def strsplit (string splitChars : List Char) : List String :=
  ((words splitChars (string.takeWhile (· ≠ '\x00'))).map String.ofList).take (maxArguments - 1)

example : strsplit "  kill\t4096 \n".toList whitespace = ["kill", "4096"] := by decide +kernel

/-! ## The arguments of a handler -/

/-- A handler comes to its end, or follows a slot of `arguments` that holds nothing. -/
abbrev Uses := Except Nat

/-- `arguments[i]`, to be followed. -/
def argument (arguments : List String) (i : Nat) : Uses String :=
  match arguments[i]? with
  | some s => .ok s
  | none => .error i

/-- What the handlers look at besides their arguments. -/
structure PromptState where
  sched : Sched
  lruLists : Bool

/-- What a handler does with its arguments. -/
inductive Action where
  | none
  | unknown (name : String)
  | writeUserMem (env : Nat) (address : Int) (c : Char)
  | writeMem (address : Nat) (size : Int) (text : String)
  | readUserMem (env : Nat) (address : Int)
  | readMem (address : Nat) (size : Int)
  | readUserBlock (env : Nat) (address nBytes : Int)
  | kill (envId : Int)
  | removeTable (env address : Nat)
  | allocUserPage (env address : Nat)
  | schedMLFQ (numOfLevels : Nat) (quantumOfEachLevel : List Nat)
  | schedRR (quantum : Nat)
  | schedTest (status : Int)
  | runProgram (call : Except Refusal CreateCall)
  | loadEnv (call : Except Refusal CreateCall)
  | setLRU (type : Int)
  | setModifiedBufferLength (length : Nat)
  | testKmalloc (testNum : Int)
  | testScMLFQ (numOfSlave2 : Int)

/-- A member of `commands`: `function_to_execute(number_of_arguments, arguments)`, where
`number_of_arguments` is the length of `arguments`. -/
abbrev Handler := PromptState → List String → Uses Action

/-- `env`, after `envid2env(strtol(argument, NULL, 10), &env, 0)`. -/
def findEnv (st : PromptState) (argument : String) : Option Nat :=
  (st.sched.envid2env (BitVec.ofInt 32 (strtol argument 10)) false).bind Prod.snd

/-- A `uint8`. -/
def uint8 (z : Int) : Nat := (z % 256).toNat

/-- A handler that does not look at its arguments. -/
def noArguments : Handler := fun _ _ => return .none

def commandHelp : Handler := noArguments
def commandKernelInfo : Handler := noArguments

def commandWriteusermem : Handler := fun st arguments => do
  let env := findEnv st (← argument arguments 1)
  let address := strtol (← argument arguments 3) 16
  match env with
  | none => return .none
  | some e => return .writeUserMem e address ((← argument arguments 2).toList.headD '\x00')

def commandWritememK : Handler := fun _ arguments => do
  let address := uint32 (strtol (← argument arguments 1) 16 + kernelBase)
  let size := strtol (← argument arguments 2) 10
  return .writeMem address size (← argument arguments 3)

def commandReadusermem : Handler := fun st arguments => do
  let env := findEnv st (← argument arguments 1)
  let address := strtol (← argument arguments 2) 16
  match env with
  | none => return .none
  | some e => return .readUserMem e address

def commandReadmemK : Handler := fun _ arguments => do
  let address := uint32 (strtol (← argument arguments 1) 16 + kernelBase)
  let size := strtol (← argument arguments 2) 10
  return .readMem address size

def commandReaduserblock : Handler := fun st arguments => do
  let env := findEnv st (← argument arguments 1)
  let address := strtol (← argument arguments 2) 16
  let nBytes := strtol (← argument arguments 3) 10
  match env with
  | none => return .none
  | some e => return .readUserBlock e address nBytes

/-- The handlers that look for the environment first, and then at the address. -/
def userPageCommand (act : Nat → Nat → Action) : Handler := fun st arguments => do
  match findEnv st (← argument arguments 1) with
  | none => return .none
  | some e => return act e (uint32 (strtol (← argument arguments 2) 16))

def commandRemoveTableUse : Handler := userPageCommand .removeTable
def commandAllocuserpage : Handler := userPageCommand .allocUserPage
def commandMeminfo : Handler := noArguments

/-- The slots that `CreateEnv` follows in its `switch`. -/
def createEnvSlots (lruLists : Bool) (numberOfArguments : Nat) : List Nat :=
  match numberOfArguments with
  | 5 => if lruLists then [4, 3, 2] else []
  | 4 => [3, 2]
  | 3 => if lruLists then [] else [2]
  | _ => []

/-- `CreateEnv(number_of_arguments, arguments)`, with the slots that it follows. -/
def createEnvUse (st : PromptState) (arguments : List String) :
    Uses (Except Refusal CreateCall) := do
  (createEnvSlots st.lruLists arguments.length).forM fun i => do
    let _ ← argument arguments i
  match createEnv st.lruLists arguments with
  | .error refusal => return .error refusal
  | .ok call =>
    return .ok { call with userProgramName := ← argument arguments 1 }

def commandRunProgram : Handler :=
  fun st arguments => return .runProgram (← createEnvUse st arguments)

def commandKillProgram : Handler := fun _ arguments =>
  return .kill (strtol (← argument arguments 1) 10)

def commnadLoadEnv : Handler := fun st arguments => return .loadEnv (← createEnvUse st arguments)

def commandRunAll : Handler := noArguments
def commandPrintAll : Handler := noArguments
def commandKillAll : Handler := noArguments

def commandSetPageRepLRU : Handler := fun _ arguments => do
  if arguments.length < 2 then return .none
  else return .setLRU (strtol (← argument arguments 1) 10)

def commandSetPageRepCLOCK : Handler := noArguments
def commandSetPageRepFIFO : Handler := noArguments
def commandSetPageRepModifiedCLOCK : Handler := noArguments

def commandSchRR : Handler := fun _ arguments =>
  return .schedRR (uint8 (strtol (← argument arguments 1) 10))

def commandSchMLFQ : Handler := fun _ arguments => do
  let numOfLevels := uint8 (strtol (← argument arguments 1) 10)
  let quantums ← (List.range' 2 (arguments.length - 2)).mapM fun i => do
    return uint8 (strtol (← argument arguments i) 10)
  return .schedMLFQ numOfLevels quantums

def commandPrintSchMethod : Handler := noArguments

def commandSchTest : Handler := fun _ arguments =>
  return .schedTest (strtol (← argument arguments 1) 10)

def commandPrintPageRep : Handler := noArguments
def commandSetUheapPlacFIRSTFIT : Handler := noArguments
def commandSetUheapPlacBESTFIT : Handler := noArguments
def commandSetUheapPlacNEXTFIT : Handler := noArguments
def commandSetUheapPlacWORSTFIT : Handler := noArguments
def commandPrintUheapPlac : Handler := noArguments
def commandSetKheapPlacCONTALLOC : Handler := noArguments
def commandSetKheapPlacFIRSTFIT : Handler := noArguments
def commandSetKheapPlacBESTFIT : Handler := noArguments
def commandSetKheapPlacNEXTFIT : Handler := noArguments
def commandSetKheapPlacWORSTFIT : Handler := noArguments
def commandPrintKheapPlac : Handler := noArguments
def commandDisableModifiedBuffer : Handler := noArguments
def commandEnableModifiedBuffer : Handler := noArguments
def commandDisableBuffering : Handler := noArguments
def commandEnableBuffering : Handler := noArguments

/-- It does so too when it has said that buffering is not enabled. -/
def commandSetModifiedBufferLength : Handler := fun _ arguments =>
  return .setModifiedBufferLength (uint32 (strtol (← argument arguments 1) 10))

def commandGetModifiedBufferLength : Handler := noArguments

def commandTestKmalloc : Handler := fun _ arguments => do
  if arguments.length = 2 then
    return .testKmalloc (strtol (← argument arguments 1) 10)
  else
    return .testKmalloc 0

def commandTestKfree : Handler := noArguments
def commandTestKheapPhysAddr : Handler := noArguments
def commandTestKheapVirtAddr : Handler := noArguments
def commandTestThreeCreationFunctions : Handler := noArguments
def commandTestKrealloc : Handler := noArguments
def commandTestPriority1 : Handler := noArguments
def commandTestPriority2 : Handler := noArguments
def commandTestKfreeall : Handler := noArguments
def commandTestKexpand : Handler := noArguments
def commandTestKshrink : Handler := noArguments
def commandTestKfreelast : Handler := noArguments

def commandTestScMLFQ : Handler := fun _ arguments =>
  return .testScMLFQ (strtol (← argument arguments 1) 10)

/-- `commands`, less the descriptions. -/
def commands : List (String × Handler) :=
  [("help", commandHelp), ("kernel_info", commandKernelInfo), ("wum", commandWriteusermem),
    ("rum", commandReadusermem), ("wm", commandWritememK), ("rm", commandReadmemK),
    ("rub", commandReaduserblock), ("kill", commandKillProgram), ("rut", commandRemoveTableUse),
    ("aup", commandAllocuserpage), ("meminfo", commandMeminfo), ("schedMLFQ", commandSchMLFQ),
    ("schedRR", commandSchRR), ("sched?", commandPrintSchMethod), ("schedTest", commandSchTest),
    ("run", commandRunProgram), ("load", commnadLoadEnv), ("runall", commandRunAll),
    ("printall", commandPrintAll), ("killall", commandKillAll), ("lru", commandSetPageRepLRU),
    ("fifo", commandSetPageRepFIFO), ("clock", commandSetPageRepCLOCK),
    ("modifiedclock", commandSetPageRepModifiedCLOCK), ("rep?", commandPrintPageRep),
    ("uhfirstfit", commandSetUheapPlacFIRSTFIT), ("uhbestfit", commandSetUheapPlacBESTFIT),
    ("uhnextfit", commandSetUheapPlacNEXTFIT), ("uhworstfit", commandSetUheapPlacWORSTFIT),
    ("uheap?", commandPrintUheapPlac), ("khcontalloc", commandSetKheapPlacCONTALLOC),
    ("khfirstfit", commandSetKheapPlacFIRSTFIT), ("khbestfit", commandSetKheapPlacBESTFIT),
    ("khnextfit", commandSetKheapPlacNEXTFIT), ("khworstfit", commandSetKheapPlacWORSTFIT),
    ("kheap?", commandPrintKheapPlac), ("nobuff", commandDisableBuffering),
    ("buff", commandEnableBuffering), ("nomodbuff", commandDisableModifiedBuffer),
    ("modbuff", commandEnableModifiedBuffer), ("modbufflength?", commandGetModifiedBufferLength),
    ("modbufflength", commandSetModifiedBufferLength), ("tstkmalloc", commandTestKmalloc),
    ("tstkfree", commandTestKfree), ("tstkphysaddr", commandTestKheapPhysAddr),
    ("tstkvirtaddr", commandTestKheapVirtAddr),
    ("tst3functions", commandTestThreeCreationFunctions), ("tstkfreeall", commandTestKfreeall),
    ("tstkexpand", commandTestKexpand), ("tstkshrink", commandTestKshrink),
    ("tstkfreelast", commandTestKfreelast), ("tstkrealloc", commandTestKrealloc),
    ("tstpriority1", commandTestPriority1), ("tstpriority2", commandTestPriority2),
    ("tstsc4", commandTestScMLFQ)]

/-- `execute_command(command_string)`. -/
def executeCommand (st : PromptState) (commandString : String) : Uses Action :=
  let arguments := strsplit commandString.toList whitespace
  match arguments with
  | [] => return .none
  | name :: _ =>
    match commands.find? fun command => command.1 = name with
    | some command => command.2 st arguments
    | none => return .unknown name

/-! ## Arguments that are not there -/

/-- The handler comes to its end. -/
def Succeeds {α : Type} (x : Uses α) : Prop := ∃ a, x = .ok a

/-- How many arguments, with its own name, a command takes for granted. -/
def argumentsNeeded (st : PromptState) (name : String) (rest : List String) : Nat :=
  if name ∈ ["wum", "wm", "rub"] then 4
  else if name ∈ ["rum", "rm"] then 3
  else if name ∈ ["kill", "schedMLFQ", "schedRR", "schedTest", "modbufflength", "tstsc4"] then 2
  else if name ∈ ["rut", "aup"] then
    if ((rest.head?).bind (findEnv st)).isSome then 3 else 2
  else 0

/-- What was typed has the arguments that its command needs. -/
def ArgumentsGiven (st : PromptState) : List String → Prop
  | [] => True
  | name :: rest => argumentsNeeded st name rest ≤ rest.length + 1

variable {α β : Type} {st : PromptState} {name : String} {arguments rest : List String} {i : Nat}

@[simp] theorem succeeds_pure (a : α) : Succeeds (pure a : Uses α) := ⟨a, rfl⟩

theorem argument_given (lt : i < arguments.length) : argument arguments i = .ok arguments[i] := by
  rw [argument, List.getElem?_eq_getElem lt]

theorem succeeds_argument {f : String → Uses α} : Succeeds (argument arguments i >>= f) ↔
    ∃ lt : i < arguments.length, Succeeds (f arguments[i]) := by
  by_cases lt : i < arguments.length
  · rw [argument_given lt]
    exact ⟨fun h => ⟨lt, h⟩, fun h => h.2⟩
  · have none : argument arguments i = .error i := by
      rw [argument, List.getElem?_eq_none (Nat.le_of_not_lt lt)]
    rw [none]
    refine iff_of_false ?_ fun h => lt h.1
    rintro ⟨a, run⟩
    cases run

/-- The handlers that follow no slot. -/
theorem noArguments_iff (none : argumentsNeeded st name rest = 0) :
    Succeeds (noArguments st (name :: rest)) ↔ argumentsNeeded st name rest ≤ rest.length + 1 :=
  iff_of_true (succeeds_pure _) (none ▸ Nat.zero_le _)

/-- The handlers that follow slot 1 only. -/
theorem oneArgument_iff {f : String → Action} (two : argumentsNeeded st name rest = 2) :
    Succeeds (do return f (← argument (name :: rest) 1)) ↔
      argumentsNeeded st name rest ≤ rest.length + 1 := by
  rw [succeeds_argument, two]
  exact ⟨fun h => h.1, fun lt => ⟨lt, succeeds_pure _⟩⟩

theorem commandWriteusermem_iff : Succeeds (commandWriteusermem st ("wum" :: rest)) ↔
    argumentsNeeded st "wum" rest ≤ rest.length + 1 := by
  have need : argumentsNeeded st "wum" rest = 4 := rfl
  simp only [commandWriteusermem, succeeds_argument, need, List.length_cons]
  constructor
  · rintro ⟨-, lt, -⟩
    omega
  · intro lt
    refine ⟨by omega, by omega, ?_⟩
    split
    · exact succeeds_pure _
    · exact succeeds_argument.mpr ⟨by rw [List.length_cons]; omega, succeeds_pure _⟩

theorem commandWritememK_iff : Succeeds (commandWritememK st ("wm" :: rest)) ↔
    argumentsNeeded st "wm" rest ≤ rest.length + 1 := by
  have need : argumentsNeeded st "wm" rest = 4 := rfl
  simp only [commandWritememK, succeeds_argument, need, List.length_cons]
  constructor
  · rintro ⟨-, -, lt, -⟩
    omega
  · intro lt
    exact ⟨by omega, by omega, by omega, succeeds_pure _⟩

theorem commandReadusermem_iff : Succeeds (commandReadusermem st ("rum" :: rest)) ↔
    argumentsNeeded st "rum" rest ≤ rest.length + 1 := by
  have need : argumentsNeeded st "rum" rest = 3 := rfl
  simp only [commandReadusermem, succeeds_argument, need, List.length_cons]
  constructor
  · rintro ⟨-, lt, -⟩
    omega
  · intro lt
    refine ⟨by omega, by omega, ?_⟩
    split <;> exact succeeds_pure _

theorem commandReadmemK_iff : Succeeds (commandReadmemK st ("rm" :: rest)) ↔
    argumentsNeeded st "rm" rest ≤ rest.length + 1 := by
  have need : argumentsNeeded st "rm" rest = 3 := rfl
  simp only [commandReadmemK, succeeds_argument, need, List.length_cons]
  constructor
  · rintro ⟨-, lt, -⟩
    omega
  · intro lt
    exact ⟨by omega, by omega, succeeds_pure _⟩

theorem commandReaduserblock_iff : Succeeds (commandReaduserblock st ("rub" :: rest)) ↔
    argumentsNeeded st "rub" rest ≤ rest.length + 1 := by
  have need : argumentsNeeded st "rub" rest = 4 := rfl
  simp only [commandReaduserblock, succeeds_argument, need, List.length_cons]
  constructor
  · rintro ⟨-, -, lt, -⟩
    omega
  · intro lt
    refine ⟨by omega, by omega, by omega, ?_⟩
    split <;> exact succeeds_pure _

/-- The address is looked at when the environment exists. -/
theorem userPageCommand_iff {act : Nat → Nat → Action} (need : argumentsNeeded st name rest =
    if ((rest.head?).bind (findEnv st)).isSome then 3 else 2) :
    Succeeds (userPageCommand act st (name :: rest)) ↔
      argumentsNeeded st name rest ≤ rest.length + 1 := by
  rw [need, userPageCommand, succeeds_argument]
  cases rest with
  | nil => simp
  | cons id rest =>
    have env : ((id :: rest).head?).bind (findEnv st) = findEnv st id := rfl
    simp only [env, List.length_cons, List.getElem_cons_succ, List.getElem_cons_zero]
    cases findEnv st id with
    | none => simp
    | some e =>
      simp only [succeeds_argument, List.length_cons, Option.isSome_some, if_true]
      constructor
      · rintro ⟨-, lt, -⟩
        omega
      · intro lt
        exact ⟨by omega, by omega, succeeds_pure _⟩

theorem succeeds_bind {x : Uses α} {f : α → Uses β} (first : Succeeds x)
    (next : ∀ a, Succeeds (f a)) : Succeeds (x >>= f) := by
  obtain ⟨a, rfl⟩ := first
  exact next a

/-- Loops over slots that are there. -/
theorem succeeds_slots {f : Nat → Uses β} {slots : List Nat} (given : ∀ i ∈ slots, Succeeds (f i)) :
    Succeeds (slots.mapM f) := by
  induction slots with
  | nil => exact succeeds_pure _
  | cons i rest ih =>
    rw [List.mapM_cons]
    refine succeeds_bind (given i (by simp)) fun b => ?_
    exact succeeds_bind (ih fun j mem => given j (by simp [mem])) fun bs => succeeds_pure _

theorem commandSchMLFQ_iff : Succeeds (commandSchMLFQ st ("schedMLFQ" :: rest)) ↔
    argumentsNeeded st "schedMLFQ" rest ≤ rest.length + 1 := by
  have need : argumentsNeeded st "schedMLFQ" rest = 2 := rfl
  rw [need, commandSchMLFQ, succeeds_argument]
  refine ⟨fun h => h.1, fun lt => ⟨lt, ?_⟩⟩
  refine succeeds_bind (succeeds_slots fun i mem => ?_) fun quantums => succeeds_pure _
  rw [List.mem_range'_1] at mem
  exact succeeds_argument.mpr ⟨by omega, succeeds_pure _⟩

/-- `CreateEnv` follows no slot that is not there. -/
theorem succeeds_createEnvUse : Succeeds (createEnvUse st arguments) := by
  have slots : ∀ i ∈ createEnvSlots st.lruLists arguments.length, i < arguments.length := by
    intro i mem
    unfold createEnvSlots at mem
    split at mem
    · split at mem <;> simp at mem
      omega
    · simp at mem
      omega
    · split at mem <;> simp at mem
      omega
    · cases mem
  have loop : ∀ l : List Nat, (∀ i ∈ l, i < arguments.length) →
      Succeeds (l.forM fun i => do let _ ← argument arguments i) := by
    intro l given
    induction l with
    | nil => exact succeeds_pure _
    | cons i rest ih =>
      change Succeeds ((do let _ ← argument arguments i) >>= fun _ => rest.forM _)
      refine succeeds_bind ?_ fun _ => ih fun j mem => given j (by simp [mem])
      exact succeeds_argument.mpr ⟨given i (by simp), succeeds_pure _⟩
  refine succeeds_bind (loop _ slots) fun _ => ?_
  cases create : createEnv st.lruLists arguments with
  | error refusal => exact succeeds_pure _
  | ok call =>
    obtain ⟨size, third, -⟩ := createEnv_accepts create
    have lt : 2 < arguments.length := (List.getElem?_eq_some_iff.mp third).1
    exact succeeds_argument.mpr ⟨by omega, succeeds_pure _⟩

theorem createEnvCommand_iff {act : Except Refusal CreateCall → Action}
    (none : argumentsNeeded st name rest = 0) :
    Succeeds (do return act (← createEnvUse st (name :: rest))) ↔
      argumentsNeeded st name rest ≤ rest.length + 1 :=
  iff_of_true (succeeds_bind succeeds_createEnvUse fun _ => succeeds_pure _) (none ▸ Nat.zero_le _)

theorem commandSetPageRepLRU_iff : Succeeds (commandSetPageRepLRU st ("lru" :: rest)) ↔
    argumentsNeeded st "lru" rest ≤ rest.length + 1 := by
  refine iff_of_true ?_ (Nat.zero_le _)
  rw [commandSetPageRepLRU]
  split
  · exact succeeds_pure _
  · exact succeeds_argument.mpr ⟨by omega, succeeds_pure _⟩

theorem commandTestKmalloc_iff : Succeeds (commandTestKmalloc st ("tstkmalloc" :: rest)) ↔
    argumentsNeeded st "tstkmalloc" rest ≤ rest.length + 1 := by
  refine iff_of_true ?_ (Nat.zero_le _)
  rw [commandTestKmalloc]
  split
  · exact succeeds_argument.mpr ⟨by omega, succeeds_pure _⟩
  · exact succeeds_pure _

/-- Every handler of the table. -/
theorem commands_iff : ∀ command ∈ commands, ∀ st rest,
    Succeeds (command.2 st (command.1 :: rest)) ↔
      argumentsNeeded st command.1 rest ≤ rest.length + 1 := by
  have plain : ∀ {name}, argumentsNeeded ⟨.boot, false⟩ name [] = 0 → ∀ st rest,
      Succeeds (noArguments st (name :: rest)) ↔
        argumentsNeeded st name rest ≤ rest.length + 1 := by
    intro name none st rest
    apply noArguments_iff
    unfold argumentsNeeded at none ⊢
    split at none
    · cases none
    · split at none
      · cases none
      · split at none
        · cases none
        · split at none
          · cases none
          · simp only [*, if_false]
  simp only [commands, List.forall_mem_cons, List.not_mem_nil, false_imp_iff, implies_true,
    and_true]
  exact ⟨plain rfl, plain rfl, fun _ _ => commandWriteusermem_iff,
    fun _ _ => commandReadusermem_iff,
    fun _ _ => commandWritememK_iff, fun _ _ => commandReadmemK_iff,
    fun _ _ => commandReaduserblock_iff, fun _ _ => oneArgument_iff rfl,
    fun _ _ => userPageCommand_iff rfl, fun _ _ => userPageCommand_iff rfl, plain rfl,
    fun _ _ => commandSchMLFQ_iff, fun _ _ => oneArgument_iff rfl, plain rfl,
    fun _ _ => oneArgument_iff rfl, fun _ _ => createEnvCommand_iff rfl,
    fun _ _ => createEnvCommand_iff rfl, plain rfl, plain rfl, plain rfl,
    fun _ _ => commandSetPageRepLRU_iff, plain rfl, plain rfl, plain rfl, plain rfl, plain rfl,
    plain rfl, plain rfl, plain rfl, plain rfl, plain rfl, plain rfl, plain rfl, plain rfl,
    plain rfl, plain rfl, plain rfl, plain rfl, plain rfl, plain rfl, plain rfl,
    fun _ _ => oneArgument_iff rfl, fun _ _ => commandTestKmalloc_iff, plain rfl, plain rfl,
    plain rfl, plain rfl, plain rfl, plain rfl, plain rfl, plain rfl, plain rfl, plain rfl,
    plain rfl, fun _ _ => oneArgument_iff rfl⟩

/-- **A command follows only slots that hold an argument** exactly if it is given the arguments
it needs. -/
theorem executeCommand_iff (st : PromptState) (commandString : String) :
    Succeeds (executeCommand st commandString) ↔
      ArgumentsGiven st (strsplit commandString.toList whitespace) := by
  rw [executeCommand]
  cases strsplit commandString.toList whitespace with
  | nil => exact iff_of_true (succeeds_pure _) trivial
  | cons name rest =>
    simp only [ArgumentsGiven]
    cases found : commands.find? fun command => command.1 = name with
    | some command =>
      have named : command.1 = name := by simpa using List.find?_some found
      subst named
      exact commands_iff command (List.mem_of_find?_eq_some found) st rest
    | none =>
      refine iff_of_true (succeeds_pure _) ?_
      have unknown : name ∉ commands.map Prod.fst := by
        intro mem
        obtain ⟨command, mem', named⟩ := List.mem_map.mp mem
        exact List.find?_eq_none.mp found command mem' (by simpa using named)
      simp only [commands, List.map_cons, List.mem_cons, not_or] at unknown
      simp [argumentsNeeded, unknown]

/-- `kill` without an identifier. -/
theorem executeCommand_kill (st : PromptState) : executeCommand st "kill" = .error 1 := by
  have split : strsplit "kill".toList whitespace = ["kill"] := by decide +kernel
  rw [executeCommand, split]
  rfl

/-- Not every command line has the arguments of its command. -/
theorem executeCommand_missing :
    ¬ ∀ st commandString, Succeeds (executeCommand st commandString) := by
  intro succeeds
  obtain ⟨action, run⟩ := succeeds ⟨.boot, true⟩ "kill"
  rw [executeCommand_kill] at run
  cases run

end Fos
