import Fos.Memory.Kernel

/-!
# The two ways to create an environment

`CreateEnv` of `kern/command_prompt.c`, which the commands `load` and `run` call, and
`sys_create_env` of `kern/syscall.c`.  Both end in a call of `env_create`; what they pass
to it is a `CreateCall`.
-/

namespace Fos

/-! ## Numbers -/

/-- The value of a digit of `strtol`. -/
def digitOf (c : Char) : Option Nat :=
  if '0' ≤ c ∧ c ≤ '9' then some (c.toNat - '0'.toNat)
  else if 'a' ≤ c ∧ c ≤ 'z' then some (c.toNat - 'a'.toNat + 10)
  else if 'A' ≤ c ∧ c ≤ 'Z' then some (c.toNat - 'A'.toNat + 10)
  else none

/-- The loop of `strtol` over the digits. -/
def strtolDigits (base : Nat) : List Char → Nat → Nat
  | [], val => val
  | c :: s, val =>
    match digitOf c with
    | none => val
    | some dig => if dig ≥ base then val else strtolDigits base s (val * base + dig)

/-- The base of `strtol` and what follows its prefix. -/
def strtolBase (base : Nat) (s : List Char) : Nat × List Char :=
  match s with
  | '0' :: 'x' :: rest =>
    if base = 0 ∨ base = 16 then (16, rest) else (base, s)
  | '0' :: rest => if base = 0 then (8, rest) else (base, s)
  | _ => if base = 0 then (10, s) else (base, s)

/-- `strtol(s, NULL, base)`.  An overflow is not detected, and wraps around. -/
def strtol (s : String) (base : Nat) : Int :=
  let magnitude (s : List Char) : Int :=
    strtolDigits (strtolBase base s).1 (strtolBase base s).2 0
  match s.toList.dropWhile fun c => c = ' ' ∨ c = '\t' with
  | '+' :: rest => int32 (magnitude rest)
  | '-' :: rest => int32 (-magnitude rest)
  | rest => int32 (magnitude rest)

/-! ## The calls -/

/-- The arguments of `env_create`. -/
structure CreateCall where
  userProgramName : String
  pageWSSize : Nat
  LRUSecondListSize : Nat
  percentWSPagesToRemove : Nat

/-- Why `CreateEnv` does not call `env_create`: it prints a message and returns null, or an
assertion fails. -/
inductive Refusal where
  | null (message : String)
  | panic (message : String)

/-- The values of `CreateEnv` when its `switch` is left: `pageWSSize`, `LRUSecondListSize` and
`percent_WS_pages_to_remove`.  `lruLists` is
`isPageReplacmentAlgorithmLRU(PG_REP_LRU_LISTS_APPROX)`. -/
def createEnvSizes (lruLists : Bool) (arguments : List String) : Except Refusal (Nat × Nat × Nat) :=
  let number (s : String) : Nat := uint32 (strtol s 10)
  match arguments with
  | [_, _, size, second, percent] =>
    if lruLists then
      .ok (number size, number second, number percent)
    else
      .error (.null ("ERROR: Current Replacement is NOT LRU LISTS, invalid number of args\n" ++
        "Usage: <command> <prog_name> <page_WS_size> [<LRU_second_list_size>] " ++
        "[<DYN_LOC_SCOPE_percent_WS_to_remove>]\naborting...\n"))
  | [_, _, size, arg] =>
    if lruLists then .ok (number size, number arg, 0) else .ok (number size, 0, number arg)
  | [_, _, size] =>
    if lruLists then
      .error (.null ("ERROR: Current Replacement is LRU LISTS, Please specify a working set " ++
        "size in the 3rd arg and LRU second list size in the 4th arg, aborting.\n"))
    else
      .ok (number size, 0, 0)
  | _ =>
    .error (.null ("ERROR: invalid number of args\nUsage: <command> <prog_name> " ++
      "<page_WS_size> [<LRU_second_list_size>] [<DYN_LOC_SCOPE_percent_WS_to_remove>]\n" ++
      "aborting...\n"))

/-- `CreateEnv(number_of_arguments, arguments)`. -/
def createEnv (lruLists : Bool) (arguments : List String) : Except Refusal CreateCall := do
  let (pageWSSize, LRUSecondListSize, percent) ← createEnvSizes lruLists arguments
  if pageWSSize > pwsMaxSize then
    throw (.null "ERROR: size of WS must be less than or equal to 5000... aborting")
  -- the subtraction is unsigned
  else if lruLists ∧ LRUSecondListSize > uint32 (pageWSSize - 1) then
    throw (.null ("ERROR: size of LRU second list can't equal/exceed the size of the page WS... " ++
      "aborting\n"))
  else if percent > 100 then
    throw (.panic ("assertion failed: percent_WS_pages_to_remove >= 0 && " ++
      "percent_WS_pages_to_remove <= 100"))
  else
    return ⟨arguments.getD 1 "", pageWSSize, LRUSecondListSize, percent⟩

/-- `sys_create_env(programName, page_WS_size, LRU_second_list_size,
percent_WS_pages_to_remove)`, which checks none of its arguments. -/
def sysCreateEnv (programName : String) (pageWSSize LRUSecondListSize percent : Word) :
    CreateCall :=
  ⟨programName, pageWSSize.toNat, LRUSecondListSize.toNat, percent.toNat⟩

/-! ## The sizes that are passed on -/

/-- What the checks of `CreateEnv` let through. -/
theorem createEnv_accepts {lruLists : Bool} {arguments : List String} {call : CreateCall}
    (accepted : createEnv lruLists arguments = .ok call) :
    ∃ size, arguments[2]? = some size ∧ call.pageWSSize = uint32 (strtol size 10) ∧
      call.pageWSSize ≤ pwsMaxSize ∧
      (lruLists = true → call.LRUSecondListSize ≤ uint32 (call.pageWSSize - 1)) := by
  have sizes : ∀ {n second percent : Nat},
      createEnvSizes lruLists arguments = .ok (n, second, percent) →
      ∃ size, arguments[2]? = some size ∧ n = uint32 (strtol size 10) := by
    intro n second percent ok
    unfold createEnvSizes at ok
    split at ok
    · split at ok <;> cases ok
      exact ⟨_, rfl, rfl⟩
    · split at ok <;> cases ok <;> exact ⟨_, rfl, rfl⟩
    · split at ok <;> cases ok
      exact ⟨_, rfl, rfl⟩
    · cases ok
  rw [createEnv] at accepted
  cases ok : createEnvSizes lruLists arguments with
  | error refusal =>
    rw [ok] at accepted
    cases accepted
  | ok values =>
    obtain ⟨n, second, percent⟩ := values
    obtain ⟨size, arg, eq⟩ := sizes ok
    simp only [ok, bind, Except.bind] at accepted
    split at accepted
    · cases accepted
    · rename_i small
      split at accepted
      · cases accepted
      · rename_i fits
        split at accepted <;> cases accepted
        exact ⟨size, arg, eq, Nat.le_of_not_gt small, fun lists =>
          Nat.le_of_not_gt fun large => fits ⟨lists, large⟩⟩

end Fos
