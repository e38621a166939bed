import Fos.Sched.Model

/-!
# Every environment is in exactly one place

`Holds s seqs held` is the scheduler's invariant in the middle of an operation: the
four lists are well formed with the elements `seqs`, and every slot of `envs` is on
exactly one of them or else in `held`, the slots that some pointer of the running
code (`curenv`, or a local variable) accounts for.  Taking an environment off a
queue moves it to `held` and inserting it moves it back, so each operation of the
scheduler is a walk through such states.

* `Moves.foreachEnv`, `Moves.takeMatches`: a loop over a queue that moves the elements
  it visits to other lists visits each of them once;
* `Sched.Op.exec_placed`: every operation completes and leaves each slot in one place;
* `Sched.Reach.placed`: hence so does every run from boot.
-/

namespace Fos

/-- The lists an environment can be on. -/
def EnvList.all : List EnvList := [.envFreeList, .envNewQueue, .envReadyQueue, .envExitQueue]

/-- How often a slot occurs on the lists and among the held slots. -/
def occurrences (seqs : EnvList → List Nat) (held : List Nat) (e : Nat) : Nat :=
  (EnvList.all.map fun i => (seqs i).count e).sum + held.count e

theorem occurrences_insert (seqs : EnvList → List Nat) (held : List Nat) (i : EnvList)
    (x e : Nat) :
    occurrences (Function.update seqs i (x :: seqs i)) held e =
      occurrences seqs (x :: held) e := by
  cases i <;> simp [occurrences, EnvList.all, List.count_cons] <;> omega

theorem occurrences_erase {seqs : EnvList → List Nat} {i : EnvList} {x : Nat}
    (member : x ∈ seqs i) (held : List Nat) (e : Nat) :
    occurrences (Function.update seqs i ((seqs i).erase x)) (x :: held) e =
      occurrences seqs held e := by
  have count := (List.perm_cons_erase member).count_eq e
  simp only [List.count_cons, beq_iff_eq] at count
  cases i <;> simp [occurrences, EnvList.all, List.count_cons] <;> omega

theorem occurrences_mem {seqs : EnvList → List Nat} {i : EnvList} {e : Nat}
    (member : e ∈ seqs i) (held : List Nat) : held.count e < occurrences seqs held e := by
  have positive := List.count_pos_iff.mpr member
  simp only [occurrences, EnvList.all, List.map_cons, List.map_nil, List.sum_cons, List.sum_nil]
  cases i <;> omega

/-- The `env_id` of an environment in slot `e`: a slot is zeroed when it is freed, so
the generation is always the first one. -/
def usedEnvId (e : Nat) : BitVec 32 := 4096#32 ||| BitVec.ofNat 32 e

theorem nextEnvId_zero (e : Nat) : Sched.nextEnvId 0 e = usedEnvId e := by
  have generation : Sched.nextEnvId 0 e =
      (if ((0 + 4096#32 : BitVec 32) &&& ~~~ (BitVec.ofNat 32 nenv - 1#32)).toInt ≤ 0
        then 4096#32 else (0 + 4096#32 : BitVec 32) &&& ~~~ (BitVec.ofNat 32 nenv - 1#32)) |||
        BitVec.ofNat 32 e := rfl
  rw [generation, usedEnvId]
  congr 1

theorem usedEnvId_inj {e f : Nat} (he : e < nenv) (hf : f < nenv)
    (same : usedEnvId e = usedEnvId f) : e = f := by
  have table : ∀ e : Fin nenv, ∀ f : Fin nenv, usedEnvId e = usedEnvId f → e = f := by decide
  exact congrArg Fin.val (table ⟨e, he⟩ ⟨f, hf⟩ same)

namespace Sched

/-- Each slot is once on the lists or in `held`; the slots on the free list are
zeroed and the others have the identifier of their slot. -/
structure Holds (s : Sched) (seqs : EnvList → List Nat) (held : List Nat) : Prop where
  lists : s.lists.Rep seqs
  once : ∀ e, occurrences seqs held e = if e < nenv then 1 else 0
  free : ∀ e ∈ seqs .envFreeList, (s.envs e).envStatus = .free ∧ (s.envs e).envId = 0
  used : ∀ e, e < nenv → e ∉ seqs .envFreeList →
    (s.envs e).envStatus ≠ .free ∧ (s.envs e).envId = usedEnvId e

/-- Between two operations only `curenv` is off the lists. -/
def Placed (s : Sched) : Prop := ∃ seqs, s.Holds seqs s.curenv.toList

section Moving

variable {s : Sched} {seqs : EnvList → List Nat} {held : List Nat} {x : Nat}

theorem Holds.lt_of_mem (holds : s.Holds seqs held) {i : EnvList} (member : x ∈ seqs i) :
    x < nenv := by
  have count := occurrences_mem member held
  by_contra large
  rw [holds.once, if_neg large] at count
  exact Nat.not_lt_zero _ count

theorem Holds.loose (holds : s.Holds seqs held) (member : x ∈ held) (i : EnvList) :
    x ∉ seqs i := by
  intro on
  have count := occurrences_mem on held
  have positive := List.count_pos_iff.mpr member
  rw [holds.once] at count
  split at count <;> omega

theorem Holds.lt_of_held (holds : s.Holds seqs held) (member : x ∈ held) : x < nenv := by
  have positive := List.count_pos_iff.mpr member
  have once := holds.once x
  by_contra large
  rw [if_neg large, occurrences] at once
  omega

/-- A slot that is not held is on a list. -/
theorem Holds.mem_of_not_held (holds : s.Holds seqs held) (lt : x < nenv)
    (notin : x ∉ held) : ∃ i, x ∈ seqs i := by
  by_contra none
  have absent : ∀ i, (seqs i).count x = 0 :=
    fun i => List.count_eq_zero.mpr fun member => none ⟨i, member⟩
  have once := holds.once x
  rw [if_pos lt, occurrences, List.count_eq_zero.mpr notin] at once
  simp [EnvList.all, absent] at once

/-- The invariant looks at the lists, the states and the identifiers only. -/
theorem Holds.congr {s' : Sched} (holds : s.Holds seqs held) (lists : s'.lists.Rep seqs)
    (envs : ∀ e, (s'.envs e).envStatus = (s.envs e).envStatus ∧
      (s'.envs e).envId = (s.envs e).envId) : s'.Holds seqs held := by
  refine ⟨lists, holds.once, fun e he => ?_, fun e lt he => ?_⟩
  · rw [(envs e).1, (envs e).2]
    exact holds.free e he
  · rw [(envs e).1, (envs e).2]
    exact holds.used e lt he

/-- Taking an environment off its queue leaves it in the hands of the caller. -/
theorem Holds.removeFromQueue (holds : s.Holds seqs held) {i : EnvList}
    (queue : i ≠ .envFreeList) (member : x ∈ seqs i) :
    (s.removeFromQueue i x).Holds (Function.update seqs i ((seqs i).erase x)) (x :: held) := by
  refine ⟨holds.lists.remove member, fun e => ?_, ?_, ?_⟩
  · rw [occurrences_erase member, holds.once]
  · rw [Function.update_of_ne queue.symm]
    exact holds.free
  · rw [Function.update_of_ne queue.symm]
    exact holds.used

/-- Inserting a held environment in a queue. -/
theorem Holds.enqueue (holds : s.Holds seqs (x :: held)) {i : EnvList}
    (queue : i ≠ .envFreeList) :
    (s.enqueue i x).Holds (Function.update seqs i (x :: seqs i)) held := by
  refine ⟨holds.lists.insertHead i (holds.loose (by simp)), fun e => ?_, ?_, ?_⟩
  · rw [occurrences_insert, holds.once]
  · rw [Function.update_of_ne queue.symm]
    exact holds.free
  · rw [Function.update_of_ne queue.symm]
    exact holds.used

/-- A held environment may get any state but `ENV_FREE`. -/
theorem Holds.setStatus (holds : s.Holds seqs held) (member : x ∈ held) (st : EnvStatus)
    (st_ne : st ≠ .free) : (s.setStatus x st).Holds seqs held := by
  refine ⟨holds.lists, holds.once, fun e he => ?_, fun e lt he => ?_⟩
  · have ne : e ≠ x := fun eq => holds.loose member _ (eq ▸ he)
    simpa [Sched.setStatus, setEnv, Function.update_of_ne ne] using holds.free e he
  · by_cases eq : e = x
    · subst eq
      simpa [Sched.setStatus, setEnv, st_ne] using (holds.used e lt he).2
    · simpa [Sched.setStatus, setEnv, Function.update_of_ne eq] using holds.used e lt he

/-- A list of environments is no longer than the table. -/
theorem Holds.length_le (holds : s.Holds seqs held) (i : EnvList) :
    (seqs i).length < envLoopFuel := by
  have inside : seqs i ⊆ List.range nenv :=
    fun _ member => List.mem_range.mpr (holds.lt_of_mem member)
  have length := (List.subperm_of_subset (holds.lists.list i).nodup inside).length_le
  rw [List.length_range] at length
  exact Nat.lt_succ_of_le length

/-- `free_environment` takes a held slot. -/
theorem Holds.freeEnvironment (holds : s.Holds seqs (x :: held)) :
    (s.freeEnvironment x).Holds
      (Function.update seqs .envFreeList (x :: seqs .envFreeList)) held := by
  have loose : ∀ i, x ∉ seqs i := holds.loose (by simp)
  have cut : ({ s.lists with
      links := (s.lists.links.setNext x none).setPrev x none } : Lists EnvList Nat).Rep seqs := by
    refine ⟨fun i => (holds.lists.list i).congr (fun z hz => ?_) (fun z hz => ?_),
      holds.lists.disjoint⟩
    · exact Function.update_of_ne (fun eq : z = x => loose i (eq ▸ hz)) ..
    · exact Function.update_of_ne (fun eq : z = x => loose i (eq ▸ hz)) ..
  refine ⟨cut.insertHead _ loose, fun e => ?_, fun e he => ?_, fun e lt he => ?_⟩
  · rw [occurrences_insert, holds.once]
  · rw [Function.update_self, List.mem_cons] at he
    rcases eq_or_ne e x with rfl | ne
    · simp [Sched.freeEnvironment, Sched.enqueue, Sched.setStatus, setEnv, EnvSlot.zero]
    · simpa [Sched.freeEnvironment, Sched.enqueue, Sched.setStatus, setEnv,
        Function.update_of_ne ne] using holds.free e (he.resolve_left ne)
  · rw [Function.update_self, List.mem_cons, not_or] at he
    simpa [Sched.freeEnvironment, Sched.enqueue, Sched.setStatus, setEnv,
      Function.update_of_ne he.1] using holds.used e lt he.2

/-- `env_create` either returns null and changes nothing that the invariant sees, or
hands out an environment in state `ENV_NEW`. -/
theorem Holds.envCreate (holds : s.Holds seqs held) (programKnown : Bool) :
    (s.envCreate programKnown = (none, s)) ∨
    ∃ x s', s.envCreate programKnown = (some x, s') ∧ s'.curenv = s.curenv ∧
      s'.Holds (Function.update seqs .envFreeList ((seqs .envFreeList).erase x)) (x :: held) := by
  cases programKnown with
  | false => exact Or.inl rfl
  | true =>
    have first := holds.lists.first .envFreeList
    cases list : seqs .envFreeList with
    | nil =>
      rw [list, List.head?_nil] at first
      exact Or.inl (by simp [Sched.envCreate, allocateEnvironment, first])
    | cons x rest =>
      rw [list, List.head?_cons] at first
      have member : x ∈ seqs .envFreeList := by simp [list]
      rw [← list]
      refine Or.inr ⟨x, (s.setStatus x .unknown).completeEnvironmentInitialization x,
        by simp [Sched.envCreate, allocateEnvironment, first], rfl,
        holds.lists.remove member, fun e => ?_, fun e he => ?_, fun e lt he => ?_⟩
      · rw [occurrences_erase member, holds.once]
      · rw [Function.update_self, (holds.lists.list _).nodup.mem_erase_iff] at he
        simpa [completeEnvironmentInitialization, Sched.removeFromQueue, Sched.setStatus,
          setEnv, Function.update_of_ne he.1] using holds.free e he.2
      · rw [Function.update_self, (holds.lists.list _).nodup.mem_erase_iff, not_and'] at he
        rcases eq_or_ne e x with rfl | ne
        · have generation := nextEnvId_zero e
          rw [← (holds.free e member).2] at generation
          simp [completeEnvironmentInitialization, Sched.removeFromQueue, Sched.setStatus,
            setEnv, generation]
        · simpa [completeEnvironmentInitialization, Sched.removeFromQueue, Sched.setStatus,
            setEnv, Function.update_of_ne ne] using holds.used e lt fun m => he m ne

/-- `dequeue` of the ready queue takes its last element, if any. -/
theorem Holds.dequeue (holds : s.Holds seqs held) {i : EnvList} (queue : i ≠ .envFreeList) :
    (s.dequeue i = (none, s)) ∨
    ∃ x, s.dequeue i = (some x, s.removeFromQueue i x) ∧
      (s.removeFromQueue i x).Holds (Function.update seqs i ((seqs i).erase x)) (x :: held) := by
  have last := holds.lists.last i
  rcases list : (seqs i).getLast? with _ | x
  · rw [list] at last
    exact Or.inl (by simp [Sched.dequeue, last])
  · rw [list] at last
    exact Or.inr ⟨x, by simp [Sched.dequeue, last],
      holds.removeFromQueue queue (List.mem_of_getLast? list)⟩

/-- `env_run` makes a held environment `curenv`. -/
theorem Holds.runs (holds : s.Holds seqs [x]) :
    (s.envRun x).Holds seqs [x] ∧ (s.envRun x).curenv = some x := by
  have running : (s.envRun x).curenv = some x := by
    rw [Sched.envRun]
    split
    · rfl
    · exact not_ne_iff.mp (by assumption)
  have counted : ∀ t : Sched, t.Holds seqs [x] → (t.setStatus x .runnable).Holds seqs [x] :=
    fun t ht => ht.setStatus (by simp) _ (by decide)
  refine ⟨?_, running⟩
  rw [Sched.envRun]
  refine counted _ ?_
  split
  · refine holds.congr holds.lists fun e => ?_
    rcases eq_or_ne e x with rfl | ne
    · simp [setEnv]
    · simp [setEnv, Function.update_of_ne ne]
  · exact holds

theorem Holds.envRun (holds : s.Holds seqs [x]) : (s.envRun x).Placed := by
  obtain ⟨holds', running⟩ := holds.runs
  refine ⟨seqs, ?_⟩
  rw [running]
  exact holds'

/-- `fos_scheduler` runs the last environment of the ready queue. -/
theorem Holds.runLast {pre : List Nat} (holds : s.Holds seqs [])
    (at_ : seqs .envReadyQueue = pre ++ [x]) :
    s.runNext.Holds (Function.update seqs .envReadyQueue pre) [x] ∧ s.runNext.curenv = some x := by
  have last := holds.lists.last .envReadyQueue
  rw [at_, List.getLast?_concat] at last
  have notin : x ∉ pre := fun member => by
    have nodup := (holds.lists.list .envReadyQueue).nodup
    rw [at_] at nodup
    exact (List.nodup_append.mp nodup).2.2 x member x (by simp) rfl
  have removed := holds.removeFromQueue (by decide) (show x ∈ seqs .envReadyQueue by simp [at_])
  rw [at_, List.erase_append_right _ notin, List.erase_cons_head, List.append_nil] at removed
  have taken : s.runNext = (s.removeFromQueue .envReadyQueue x).envRun x := by
    simp [runNext, Sched.dequeue, last]
  rw [taken]
  exact removed.runs

end Moving

/-- `fos_scheduler` puts `curenv`, if any, in the ready queue, and makes the environment
it runs the new `curenv`. -/
theorem Holds.fosScheduler {s : Sched} {seqs : EnvList → List Nat}
    (holds : s.Holds seqs s.curenv.toList) : s.fosScheduler.Placed := by
  have started : ({ s with schedulerStatus := .started } : Sched).Holds seqs s.curenv.toList :=
    holds.congr holds.lists fun _ => ⟨rfl, rfl⟩
  have inserted : ∃ seqs',
      ({ s with schedulerStatus := .started } : Sched).insertCurenv.Holds seqs' [] := by
    cases cur : s.curenv with
    | none =>
      rw [cur] at started
      exact ⟨seqs, by simpa [insertCurenv, cur] using started⟩
    | some c =>
      rw [cur] at started
      have queued := started.enqueue (i := .envReadyQueue) (by decide)
      exact ⟨_, by simpa [insertCurenv, cur] using queued⟩
  obtain ⟨seqs', inserted⟩ := inserted
  rw [Sched.fosScheduler]
  rcases inserted.dequeue (i := .envReadyQueue) (by decide) with empty | ⟨e, taken, removed⟩
  · rw [runNext, empty]
    exact ⟨seqs', inserted.congr inserted.lists fun _ => ⟨rfl, rfl⟩⟩
  · rw [runNext, taken]
    exact removed.envRun

/-! ## Loops over a queue -/

/-- `move s x` takes `x` off the list `i` and puts it on another one. -/
def Moves (i : EnvList) (move : Sched → Nat → Sched) : Prop :=
  ∀ s seqs x, s.Holds seqs s.curenv.toList → x ∈ seqs i →
    (move s x).curenv = s.curenv ∧
    ((move s x).lists.head i).ptrNext = (s.lists.head i).ptrNext ∧
    ∃ seqs', (move s x).Holds seqs' s.curenv.toList ∧ seqs' i = (seqs i).erase x

/-- From one queue to another, with any new state but `ENV_FREE`. -/
theorem moves_enqueue {i j : EnvList} (source : i ≠ .envFreeList) (target : j ≠ .envFreeList)
    (ne : i ≠ j) {st : EnvStatus} (st_ne : st ≠ .free) :
    Moves i fun s x => ((s.removeFromQueue i x).setStatus x st).enqueue j x := by
  intro s seqs x holds member
  refine ⟨rfl, by simp [Sched.enqueue, setStatus, setEnv, removeFromQueue], _,
    ((holds.removeFromQueue source member).setStatus (by simp) _ st_ne).enqueue target, ?_⟩
  rw [Function.update_of_ne ne, Function.update_self]

theorem moves_freeEnvironment {i : EnvList} (source : i ≠ .envFreeList) :
    Moves i fun s x => (s.removeFromQueue i x).startEnvFree x := by
  intro s seqs x holds member
  refine ⟨rfl, ?_, _, (holds.removeFromQueue source member).freeEnvironment, ?_⟩
  · simp [startEnvFree, Sched.freeEnvironment, Sched.enqueue, setStatus, setEnv, removeFromQueue]
  · rw [Function.update_of_ne source, Function.update_self]

/-- The states that `sched_remove_new` and the like set in passing do not matter. -/
theorem setStatus_setStatus (s : Sched) (x : Nat) (st st' : EnvStatus) :
    (s.setStatus x st).setStatus x st' = s.setStatus x st' := by
  simp [setStatus, setEnv]

theorem setStatus_startEnvFree (s : Sched) (x : Nat) (st : EnvStatus) :
    (s.setStatus x st).startEnvFree x = s.startEnvFree x := by
  simp [startEnvFree, freeEnvironment, setStatus, setEnv]

theorem moves_new_ready : Moves .envNewQueue fun s x =>
    (s.schedRemoveNew x).schedInsertReady x := by
  simp only [schedRemoveNew, schedInsertReady, setStatus_setStatus]
  exact moves_enqueue (by decide) (by decide) (by decide) (by decide)

theorem moves_ready_exit :
    Moves .envReadyQueue fun s x =>
      (s.removeFromQueue .envReadyQueue x).schedInsertExit (some x) := by
  simp only [schedInsertExit]
  exact moves_enqueue (by decide) (by decide) (by decide) (by decide)

theorem moves_new_free : Moves .envNewQueue fun s x => (s.schedRemoveNew x).startEnvFree x := by
  simp only [schedRemoveNew, setStatus_startEnvFree]
  exact moves_freeEnvironment (by decide)

theorem moves_ready_free :
    Moves .envReadyQueue fun s x => (s.removeFromQueue .envReadyQueue x).startEnvFree x :=
  moves_freeEnvironment (by decide)

theorem moves_exit_free : Moves .envExitQueue fun s x => (s.schedRemoveExit x).startEnvFree x := by
  simp only [schedRemoveExit, setStatus_startEnvFree]
  exact moves_freeEnvironment (by decide)

/-- Inside a loop over the list `i`: `rest` is the end of the list. -/
def Walking (i : EnvList) (cur : Option Nat) (rest : List Nat) (s : Sched) : Prop :=
  s.curenv = cur ∧ ∃ seqs pre, s.Holds seqs cur.toList ∧ seqs i = pre ++ rest

theorem Walking.saveNext {i : EnvList} {cur : Option Nat} {rest : List Nat} {s : Sched}
    (walking : Walking i cur rest s) (var : Option Nat) :
    Walking i cur rest (saveNext i var s) := by
  obtain ⟨keep, seqs, pre, holds, list⟩ := walking
  exact ⟨keep, seqs, pre, holds.congr (holds.lists.savePtrNext i _) fun _ => ⟨rfl, rfl⟩, list⟩

/-- The saved successor is the next element of the list. -/
theorem Walking.ptrNext {i : EnvList} {cur : Option Nat} {x : Nat} {rest : List Nat} {s : Sched}
    (walking : Walking i cur (x :: rest) s) :
    ((Fos.saveNext i (some x) s).lists.head i).ptrNext = rest.head? := by
  obtain ⟨-, seqs, pre, holds, list⟩ := walking
  rw [← holds.lists.next list]
  exact Lists.savePtrNext_ptrNext ..

/-- A pass that leaves its element where it is. -/
theorem Walking.skip {i : EnvList} {cur : Option Nat} {x : Nat} {rest : List Nat} {s : Sched}
    (walking : Walking i cur (x :: rest) s) : Walking i cur rest s := by
  obtain ⟨keep, seqs, pre, holds, list⟩ := walking
  exact ⟨keep, seqs, pre ++ [x], holds, by simp [list]⟩

/-- A pass that moves its element away. -/
theorem Moves.pass {i : EnvList} {move : Sched → Nat → Sched} (moves : Moves i move)
    {cur : Option Nat} {x : Nat} {rest : List Nat} {s : Sched}
    (walking : Walking i cur (x :: rest) s) :
    Walking i cur rest (move s x) ∧
      ((move s x).lists.head i).ptrNext = (s.lists.head i).ptrNext := by
  obtain ⟨rfl, seqs, pre, holds, list⟩ := walking
  obtain ⟨cur, saved, seqs', holds', erased⟩ := moves s seqs x holds (by simp [list])
  refine ⟨⟨cur, seqs', pre, holds', ?_⟩, saved⟩
  have x_pre : x ∉ pre := by
    intro member
    have nodup := (holds.lists.list i).nodup
    rw [list] at nodup
    exact (List.nodup_append.mp nodup).2.2 x member x (by simp) rfl
  rw [erased, list, List.erase_append_right _ x_pre, List.erase_cons_head]

theorem Walking.placed {i : EnvList} {cur : Option Nat} {rest : List Nat} {s : Sched}
    (walking : Walking i cur rest s) : s.Placed := by
  obtain ⟨rfl, seqs, -, holds, -⟩ := walking
  exact ⟨seqs, holds⟩

/-- A loop that moves every element of a queue. -/
theorem Moves.foreachEnv {i : EnvList} {move : Sched → Nat → Sched} (moves : Moves i move)
    {s : Sched} (placed : s.Placed) :
    ∃ s', s.foreachEnv i (fun x s => .next (move s x)) = .done none s' ∧ s'.Placed ∧
      s'.curenv = s.curenv := by
  obtain ⟨seqs, holds⟩ := placed
  rw [Sched.foreachEnv, holds.lists.first i]
  refine listForeach_rule (Walking i s.curenv)
    (fun r => ∃ s', r = .done none s' ∧ s'.Placed ∧ s'.curenv = s.curenv)
    (fun x rest t walking => ?_) (fun t walking => ?_) (holds.length_le i)
    ⟨rfl, seqs, [], holds, rfl⟩
  · have pass := moves.pass (walking.saveNext (some x))
    exact ⟨pass.1, pass.2.trans walking.ptrNext⟩
  · have walked := walking.saveNext none
    exact ⟨_, rfl, walked.placed, walked.1⟩

/-- A searching loop whose matches move away; without a match nothing changes. -/
theorem Moves.takeMatches {i : EnvList} {take : Sched → Nat → Sched} (moves : Moves i take)
    {s : Sched} {seqs : EnvList → List Nat} (holds : s.Holds seqs s.curenv.toList)
    (envId : BitVec 32) (stop : Bool) :
    ∃ var s' found, s.takeMatches i envId take stop = .done var (s', found) ∧
      s'.Placed ∧ (found = false →
        s'.Holds seqs s.curenv.toList ∧ s'.curenv = s.curenv ∧ s'.envs = s.envs ∧
        ∀ e ∈ seqs i, (s.envs e).envId ≠ envId) := by
  -- nothing of the list has matched so far
  let Unmatched (rest : List Nat) (t : Sched) : Prop :=
    t.Holds seqs s.curenv.toList ∧ t.envs = s.envs ∧
      ∃ pre, seqs i = pre ++ rest ∧ ∀ e ∈ pre, (s.envs e).envId ≠ envId
  rw [Sched.takeMatches, holds.lists.first i]
  refine listForeach_rule (s := (s, false))
    (fun rest t => Walking i s.curenv rest t.1 ∧ (t.2 = false → Unmatched rest t.1))
    (fun r => ∃ var s' found, r = .done var (s', found) ∧ s'.Placed ∧ (found = false →
        s'.Holds seqs s.curenv.toList ∧ s'.curenv = s.curenv ∧ s'.envs = s.envs ∧
        ∀ e ∈ seqs i, (s.envs e).envId ≠ envId))
    (fun x rest t inv => ?_) (fun t inv => ?_) (holds.length_le i)
    ⟨⟨rfl, seqs, [], holds, rfl⟩, fun _ => ⟨holds, rfl, [], rfl, by simp⟩⟩
  · obtain ⟨t, found⟩ := t
    obtain ⟨walking, unmatched⟩ := inv
    have saved := walking.ptrNext
    have walking' := walking.saveNext (some x)
    have pass := moves.pass walking'
    dsimp only [Fos.saveNext, HasLists.lists, HasLists.setLists] at saved walking' pass ⊢
    split
    · rename_i eq
      split at eq
      · cases stop <;> simp at eq
        obtain rfl := eq
        exact ⟨⟨pass.1, by simp⟩, pass.2.trans saved⟩
      · rename_i differs
        simp at eq
        obtain rfl := eq
        refine ⟨⟨walking'.skip, fun none => ?_⟩, saved⟩
        obtain ⟨same, envs, pre, list, ne⟩ := unmatched none
        refine ⟨same.congr (same.lists.savePtrNext i _) fun _ => ⟨rfl, rfl⟩, envs, pre ++ [x],
          by simp [list], fun e he => ?_⟩
        rcases List.mem_append.mp he with he | he
        · exact ne e he
        · rw [List.mem_singleton.mp he, ← envs]
          exact differs
    · rename_i eq
      split at eq
      · cases stop <;> simp at eq
        obtain rfl := eq
        exact ⟨_, _, _, rfl, pass.1.placed, by simp⟩
      · simp at eq
    · rename_i eq
      split at eq
      · cases stop <;> simp at eq
      · simp at eq
  · obtain ⟨t, found⟩ := t
    obtain ⟨walking, unmatched⟩ := inv
    have walked := walking.saveNext none
    refine ⟨_, _, _, rfl, walked.placed, fun none => ?_⟩
    obtain ⟨same, envs, pre, list, ne⟩ := unmatched none
    rw [List.append_nil] at list
    exact ⟨same.congr (same.lists.savePtrNext i _) fun _ => ⟨rfl, rfl⟩, walked.1, envs, list ▸ ne⟩

/-- A searching loop none of whose elements matches changes nothing. -/
theorem Holds.takeMatches {i : EnvList} {s : Sched} {seqs : EnvList → List Nat}
    (holds : s.Holds seqs s.curenv.toList) {envId : BitVec 32} (take : Sched → Nat → Sched)
    (stop : Bool) (unmatched : ∀ e ∈ seqs i, (s.envs e).envId ≠ envId) :
    ∃ s', s.takeMatches i envId take stop = .done none (s', false) ∧
      s'.Holds seqs s.curenv.toList ∧ s'.curenv = s.curenv ∧ s'.envs = s.envs := by
  rw [Sched.takeMatches, holds.lists.first i]
  refine listForeach_rule (s := (s, false))
    (fun rest t => t.2 = false ∧ t.1.Holds seqs s.curenv.toList ∧ t.1.curenv = s.curenv ∧
      t.1.envs = s.envs ∧ ∃ pre, seqs i = pre ++ rest)
    (fun r => ∃ s', r = .done none (s', false) ∧ s'.Holds seqs s.curenv.toList ∧
      s'.curenv = s.curenv ∧ s'.envs = s.envs)
    (fun x rest t inv => ?_) (fun t inv => ?_) (holds.length_le i)
    ⟨rfl, holds, rfl, rfl, [], rfl⟩
  · obtain ⟨t, found⟩ := t
    obtain ⟨rfl, same, keep, envs, pre, list⟩ := inv
    have saved : (Fos.saveNext i (some x) t).Holds seqs s.curenv.toList :=
      same.congr (same.lists.savePtrNext i _) fun _ => ⟨rfl, rfl⟩
    have next : ((Fos.saveNext i (some x) t).lists.head i).ptrNext = rest.head? := by
      rw [← same.lists.next list]
      exact Lists.savePtrNext_ptrNext ..
    have differs : ¬ ((Fos.saveNext i (some x) t).envs x).envId = envId := by
      have ne := unmatched x (by simp [list])
      rwa [← envs] at ne
    dsimp only [Fos.saveNext, HasLists.lists, HasLists.setLists] at differs saved next ⊢
    rw [if_neg differs]
    exact ⟨⟨rfl, saved, keep, envs, pre ++ [x], by simp [list]⟩, next⟩
  · obtain ⟨t, found⟩ := t
    obtain ⟨rfl, same, keep, envs, -⟩ := inv
    exact ⟨_, rfl, same.congr (same.lists.savePtrNext i _) fun _ => ⟨rfl, rfl⟩, keep, envs⟩

/-! ## The operations -/

/-- The function returns or leaves the kernel, in a state with everything in place. -/
def Completes (end_ : Ctl Sched) : Prop :=
  ∃ s, (end_ = .returns s ∨ end_ = .leaves s) ∧ s.Placed

theorem Placed.returns {s : Sched} (placed : s.Placed) : Completes (.returns s) :=
  ⟨s, Or.inl rfl, placed⟩

theorem Placed.leaves {s : Sched} (placed : s.Placed) : Completes (.leaves s) :=
  ⟨s, Or.inr rfl, placed⟩

theorem Placed.fosScheduler {s : Sched} (placed : s.Placed) : s.fosScheduler.Placed := by
  obtain ⟨seqs, holds⟩ := placed
  exact holds.fosScheduler

theorem Placed.startIfStopped {s : Sched} (placed : s.Placed) : Completes s.startIfStopped := by
  rw [Sched.startIfStopped]
  split
  · exact placed.fosScheduler.leaves
  · exact placed.returns

theorem Placed.schedRunAll {s : Sched} (placed : s.Placed) : Completes s.schedRunAll := by
  obtain ⟨s', loop, placed', -⟩ := moves_new_ready.foreachEnv placed
  rw [Sched.schedRunAll, loop]
  exact placed'.startIfStopped

theorem Placed.schedExitAllReadyEnvs {s : Sched} (placed : s.Placed) :
    Completes s.schedExitAllReadyEnvs := by
  rw [Sched.schedExitAllReadyEnvs]
  split
  · exact placed.returns
  · obtain ⟨s', loop, placed', -⟩ := moves_ready_exit.foreachEnv placed
    rw [loop]
    exact placed'.returns

/-- `env_create` followed by `sched_new_env`. -/
theorem Placed.schedNewEnv {s : Sched} (placed : s.Placed) (programKnown : Bool) :
    ((s.envCreate programKnown).2.schedNewEnv (s.envCreate programKnown).1).Placed := by
  obtain ⟨seqs, holds⟩ := placed
  rcases holds.envCreate programKnown with null | ⟨x, s', created, keep, holds'⟩
  · rw [null]
    exact ⟨seqs, holds⟩
  · rw [created]
    have new := (holds'.setStatus (x := x) (by simp) .new (by decide)).enqueue
      (i := .envNewQueue) (by decide)
    rw [← keep] at new
    exact ⟨_, new⟩

/-- One of the loops of `sched_kill_all`. -/
theorem Moves.killQueue {i : EnvList} {remove : Sched → Nat → Sched}
    (moves : Moves i fun s x => (remove s x).startEnvFree x) {s : Sched} (placed : s.Placed)
    {rest : Sched → Ctl Sched}
    (after : ∀ s', s'.Placed → s'.curenv = s.curenv → Completes (rest s')) :
    Completes (s.killQueue i remove rest) := by
  rw [Sched.killQueue]
  split
  · exact after s placed rfl
  · obtain ⟨s', loop, placed', keep⟩ := moves.foreachEnv placed
    rw [loop]
    exact after s' placed' keep

theorem Placed.schedKillAll {s : Sched} (placed : s.Placed) (idle : s.curenv = none) :
    Completes s.schedKillAll := by
  refine moves_new_free.killQueue placed fun s₁ placed₁ keep₁ => ?_
  refine moves_ready_free.killQueue placed₁ fun s₂ placed₂ keep₂ => ?_
  refine moves_exit_free.killQueue placed₂ fun s₃ placed₃ keep₃ => ?_
  have idle₃ : s₃.curenv = none := keep₃.trans (keep₂.trans (keep₁.trans idle))
  have cleared : ({ s₃ with curenv := none } : Sched) = s₃ := by
    cases s₃
    simp_all
  rw [cleared]
  exact placed₃.fosScheduler.leaves

theorem Placed.schedRunEnv {s : Sched} (placed : s.Placed) (envId : BitVec 32) :
    Completes (s.schedRunEnv envId) := by
  obtain ⟨seqs, holds⟩ := placed
  rw [Sched.schedRunEnv, Sched.foreachEnv, holds.lists.first]
  refine listForeach_rule (Walking .envNewQueue s.curenv)
    (fun r => Completes (r.andThen fun _ s => .returns s))
    (fun x rest t walking => ?_) (fun t walking => ?_) (holds.length_le _)
    ⟨rfl, seqs, [], holds, rfl⟩
  · have walking' := walking.saveNext (some x)
    split
    · rename_i eq
      split at eq
      · split at eq <;> simp at eq
      · simp only [Flow.next.injEq] at eq
        subst eq
        exact ⟨walking'.skip, walking.ptrNext⟩
    · rename_i eq
      split at eq
      · have started := (moves_new_ready.pass walking').1.placed.startIfStopped
        split at eq
        · rename_i run
          rw [run] at started
          simp only [Flow.brk.injEq] at eq
          subst eq
          exact started
        · simp at eq
      · simp at eq
    · rename_i eq
      split at eq
      · have started := (moves_new_ready.pass walking').1.placed.startIfStopped
        split at eq
        · simp at eq
        · simp only [Flow.ret.injEq] at eq
          subst eq
          exact started
      · simp at eq
  · exact (walking.saveNext none).placed.returns

/-- An environment other than the current one is found in one of the queues. -/
theorem Placed.schedKillEnv {s : Sched} (placed : s.Placed) {e : Nat} (lt : e < nenv)
    (other : s.curenv ≠ some e) (live : (s.envs e).envStatus ≠ .free) :
    Completes (s.schedKillEnv (s.envs e).envId) := by
  obtain ⟨seqs, holds⟩ := placed
  have queued : e ∈ seqs .envNewQueue ∨ e ∈ seqs .envReadyQueue ∨ e ∈ seqs .envExitQueue := by
    obtain ⟨i, member⟩ := holds.mem_of_not_held lt (by simpa using other)
    cases i with
    | envFreeList => exact absurd (holds.free e member).1 live
    | envNewQueue => exact Or.inl member
    | envReadyQueue => exact Or.inr (Or.inl member)
    | envExitQueue => exact Or.inr (Or.inr member)
  -- the end of the function, from the exit queue on, when the other queues had no match
  have exitQueue : ∀ t : Sched, t.Holds seqs t.curenv.toList → t.envs = s.envs →
      e ∈ seqs .envExitQueue →
      Completes ((t.takeMatches .envExitQueue (s.envs e).envId
          (fun s e => (s.schedRemoveExit e).startEnvFree e) false).andThen
        fun _ r => if r.2 then .returns r.1 else r.1.schedKillCurenv (s.envs e).envId) := by
    intro t same envs member
    obtain ⟨var, t', found, loop, placed', unmatched⟩ :=
      moves_exit_free.takeMatches same (s.envs e).envId false
    rw [loop]
    cases found with
    | true => exact placed'.returns
    | false => exact absurd (by rw [envs]) ((unmatched rfl).2.2.2 e member)
  rw [Sched.schedKillEnv]
  obtain ⟨var, s₁, found, loop, placed₁, unmatched⟩ :=
    moves_new_free.takeMatches holds (s.envs e).envId false
  rw [loop]
  cases found with
  | true => exact placed₁.returns
  | false =>
    obtain ⟨same, keep, envs, differ⟩ := unmatched rfl
    have notNew : e ∉ seqs .envNewQueue := fun member => differ e member rfl
    rw [← keep] at same
    simp only [LoopEnd.andThen, Bool.false_eq_true, if_false]
    split
    · rename_i empty
      rw [same.lists.first, List.head?_eq_none_iff] at empty
      refine exitQueue s₁ same envs ?_
      simpa [notNew, empty] using queued
    · obtain ⟨var, s₂, found, loop, placed₂, unmatched⟩ :=
        moves_ready_free.takeMatches same (s.envs e).envId true
      rw [loop]
      cases found with
      | true => exact placed₂.returns
      | false =>
        obtain ⟨same₂, keep₂, envs₂, differ₂⟩ := unmatched rfl
        have notReady : e ∉ seqs .envReadyQueue := fun member => differ₂ e member (by rw [envs])
        rw [← keep₂] at same₂
        refine exitQueue s₂ same₂ (envs₂.trans envs) ?_
        simpa [notNew, notReady] using queued

/-- `curenv` shares its identifier with no environment of a queue. -/
theorem Holds.curenv_unmatched {s : Sched} {seqs : EnvList → List Nat} {cur : Nat}
    (holds : s.Holds seqs s.curenv.toList) (running : s.curenv = some cur) {i : EnvList}
    (queue : i ≠ .envFreeList) :
    ∀ x ∈ seqs i, (s.envs x).envId ≠ (s.envs cur).envId := by
  intro x member same
  have held : cur ∈ s.curenv.toList := by simp [running]
  have x_free : x ∉ seqs .envFreeList := fun free => holds.lists.disjoint i _ queue member free
  rw [(holds.used x (holds.lt_of_mem member) x_free).2,
    (holds.used cur (holds.lt_of_held held) (holds.loose held _)).2] at same
  have eq := usedEnvId_inj (holds.lt_of_mem member) (holds.lt_of_held held) same
  exact holds.loose held i (eq ▸ member)

/-- `sched_exit_env` on `curenv` reaches the end of the function and does not return. -/
theorem Holds.schedExitCurenv {s : Sched} {seqs : EnvList → List Nat} {cur : Nat}
    (holds : s.Holds seqs s.curenv.toList) (running : s.curenv = some cur) :
    ∃ t : Sched, s.schedExitCurenv (s.envs cur).envId = .leaves t.fosScheduler ∧ t.curenv = none ∧
      t.Holds (Function.update seqs .envExitQueue (cur :: seqs .envExitQueue)) [] := by
  refine ⟨{ s.schedInsertExit (some cur) with curenv := none }, ?_, rfl, ?_⟩
  · rw [Sched.schedExitCurenv, running]
    exact if_pos rfl
  · rw [running] at holds
    have exited := (holds.setStatus (x := cur) (by simp) .exit (by decide)).enqueue
      (i := .envExitQueue) (by decide)
    exact exited.congr exited.lists fun _ => ⟨rfl, rfl⟩

/-- `env_exit` puts `curenv` into the exit queue and ends in the scheduler. -/
theorem Holds.envExit {s : Sched} {seqs : EnvList → List Nat} {cur : Nat}
    (holds : s.Holds seqs s.curenv.toList) (running : s.curenv = some cur) :
    ∃ t : Sched, s.envExit = .leaves t.fosScheduler ∧ t.curenv = none ∧
      t.Holds (Function.update seqs .envExitQueue (cur :: seqs .envExitQueue)) [] := by
  have unmatched : ∀ {i : EnvList}, i ≠ .envFreeList →
      ∀ x ∈ seqs i, (s.envs x).envId ≠ (s.envs cur).envId :=
    fun queue => holds.curenv_unmatched running queue
  have leaves : ∃ t : Sched, s.schedExitEnv (s.envs cur).envId = .leaves t.fosScheduler ∧
      t.curenv = none ∧
      t.Holds (Function.update seqs .envExitQueue (cur :: seqs .envExitQueue)) [] := by
    obtain ⟨s₁, loop₁, same₁, keep₁, envs₁⟩ :=
      holds.takeMatches schedRemoveNew false (unmatched (i := .envNewQueue) (by decide))
    rw [← keep₁] at same₁
    rw [Sched.schedExitEnv, loop₁]
    simp only [LoopEnd.andThen, Bool.false_eq_true, if_false]
    split
    · rw [← envs₁]
      exact same₁.schedExitCurenv (keep₁.trans running)
    · have unmatched₁ := unmatched (i := .envReadyQueue) (by decide)
      rw [← envs₁] at unmatched₁
      obtain ⟨s₂, loop₂, same₂, keep₂, envs₂⟩ :=
        same₁.takeMatches (fun s e => s.removeFromQueue .envReadyQueue e) true unmatched₁
      rw [← keep₂] at same₂
      rw [← envs₁, loop₂, ← envs₂]
      exact same₂.schedExitCurenv (keep₂.trans (keep₁.trans running))
  obtain ⟨t, run, ends⟩ := leaves
  refine ⟨t, ?_, ends⟩
  rw [Sched.envExit, running]
  simp only [run]

theorem Placed.envExit {s : Sched} (placed : s.Placed) {cur : Nat} (running : s.curenv = some cur) :
    Completes s.envExit := by
  obtain ⟨seqs, holds⟩ := placed
  obtain ⟨t, run, idle, holds'⟩ := holds.envExit running
  rw [run]
  have nothing : t.curenv.toList = [] := by rw [idle, Option.toList_none]
  rw [← nothing] at holds'
  exact (Placed.fosScheduler ⟨_, holds'⟩).leaves

/-- What the command prompt, the clock and the system calls ask of the scheduler.
`newEnv` is `env_create` followed by `sched_new_env`. -/
inductive Op where
  | newEnv (programKnown : Bool)
  | runEnv (envId : BitVec 32)
  | runAll
  | clock
  | exit
  | kill (envId : BitVec 32)
  | exitAllReady
  | killAll

/-- `env_exit` ends the current environment, `sched_kill_env` is for another existing
one, and `sched_kill_all` is for the command prompt. -/
def Op.Enabled (s : Sched) : Op → Prop
  | .exit => s.curenv ≠ none
  | .kill envId => ∃ e < nenv, s.curenv ≠ some e ∧ (s.envs e).envStatus ≠ .free ∧
      (s.envs e).envId = envId
  | .killAll => s.curenv = none
  | _ => True

def Op.exec (s : Sched) : Op → Ctl Sched
  | .newEnv programKnown =>
    let (env, s) := s.envCreate programKnown
    .returns (s.schedNewEnv env)
  | .runEnv envId => s.schedRunEnv envId
  | .runAll => s.schedRunAll
  | .clock => s.clockInterruptHandler
  | .exit => s.envExit
  | .kill envId => s.schedKillEnv envId
  | .exitAllReady => s.schedExitAllReadyEnvs
  | .killAll => s.schedKillAll

/-- Every operation completes and leaves everything in place. -/
theorem Op.exec_placed {s : Sched} (placed : s.Placed) {op : Op} (enabled : op.Enabled s) :
    Completes (op.exec s) := by
  cases op with
  | newEnv programKnown => exact (placed.schedNewEnv programKnown).returns
  | runEnv envId => exact placed.schedRunEnv envId
  | runAll => exact placed.schedRunAll
  | clock => exact placed.fosScheduler.leaves
  | exit =>
    obtain ⟨cur, running⟩ := Option.ne_none_iff_exists'.mp enabled
    exact placed.envExit running
  | kill envId =>
    obtain ⟨e, lt, other, live, rfl⟩ := enabled
    exact placed.schedKillEnv lt other live
  | exitAllReady => exact placed.schedExitAllReadyEnvs
  | killAll => exact placed.schedKillAll enabled

/-! ## Runs -/

/-- `env_init` threads the slots it has visited on the free list. -/
theorem envInit_foldr {xs : List Nat} (nodup : xs.Nodup) :
    let s := xs.foldr (fun iEnv s =>
      (s.setEnv iEnv { s.envs iEnv with envStatus := .free, envId := 0 }).enqueue
        .envFreeList iEnv) zeroed
    s.lists.Rep (Function.update (fun _ => []) .envFreeList xs) ∧ s.curenv = none ∧
      ∀ e, (s.envs e).envStatus = .free ∧ (s.envs e).envId = 0 := by
  induction xs with
  | nil =>
    refine ⟨⟨fun i => ?_, fun i j _ => ?_⟩, rfl, fun e => ⟨rfl, rfl⟩⟩
    · rw [Function.update_eq_self]
      exact ⟨rfl, rfl, trivial, List.nodup_nil, rfl⟩
    · rw [Function.update_eq_self]
      exact List.disjoint_nil_left _
  | cons x xs ih =>
    obtain ⟨x_xs, nodup⟩ := List.nodup_cons.mp nodup
    obtain ⟨rep, idle, free⟩ := ih nodup
    refine ⟨?_, idle, fun e => ?_⟩
    · have inserted := rep.insertHead .envFreeList (x := x) fun j => by
        cases j <;> simp [Function.update, x_xs]
      rwa [Function.update_self, Function.update_idem] at inserted
    · rcases eq_or_ne e x with rfl | ne
      · simp [enqueue, setEnv]
      · simpa [enqueue, setEnv, Function.update_of_ne ne] using free e

/-- `sched_init` initialises queues that are empty already. -/
theorem rep_init {S : Lists EnvList Nat} {seqs : EnvList → List Nat} (rep : S.Rep seqs)
    {i : EnvList} (empty : seqs i = []) :
    ({ S with head := Function.update S.head i (listInit (S.head i)) } :
      Lists EnvList Nat).Rep seqs := by
  refine ⟨fun j => ?_, rep.disjoint⟩
  rcases eq_or_ne j i with rfl | ne
  · simpa [empty] using rep_listInit S.links (S.head j)
  · simpa [Function.update_of_ne ne] using rep.list j

theorem boot_placed : boot.Placed := by
  obtain ⟨rep, idle, free⟩ := envInit_foldr (List.nodup_range (n := nenv))
  refine ⟨Function.update (fun _ => []) .envFreeList (List.range nenv), ?_, fun e => ?_, ?_, ?_⟩
  · exact rep_init (i := .envExitQueue)
      (rep_init (i := .envNewQueue) (rep_init (i := .envReadyQueue) rep rfl) rfl) rfl
  · have absent : boot.curenv.toList = [] := by rw [show boot.curenv = none from idle]; rfl
    simp only [occurrences, EnvList.all, absent, List.map_cons, List.map_nil, List.sum_cons,
      List.sum_nil, Function.update_self, List.count_nil,
      List.nodup_range.count, List.mem_range]
    simp
  · exact fun e _ => free e
  · intro e lt notin
    rw [Function.update_self, List.mem_range] at notin
    exact absurd lt notin

/-- The scheduler states that operations lead to from boot. -/
inductive Reach : Sched → Prop
  | boot : Reach boot
  | step {s s' : Sched} (op : Op) : Reach s → op.Enabled s →
    op.exec s = .returns s' ∨ op.exec s = .leaves s' → Reach s'

/-- The two kinds of place an `Env` structure can be in. -/
inductive Place where
  | list (i : EnvList)
  | curenv

def Place.Has (s : Sched) (seqs : EnvList → List Nat) (e : Nat) : Place → Prop
  | .list i => e ∈ seqs i
  | .curenv => s.curenv = some e

theorem Reach.holds {s : Sched} (reach : Reach s) : s.Placed := by
  induction reach with
  | boot => exact boot_placed
  | step op _ enabled run placed =>
    obtain ⟨t, ended, placed⟩ := op.exec_placed placed enabled
    rcases run with run | run <;> rcases ended with ended | ended <;>
      (rw [run] at ended; cases ended) <;> exact placed

/-- **No environment is lost or queued twice.**  In every state that a run reaches the
lists are well formed, each slot of `envs` is in exactly one place, and every operation
completes. -/
theorem Reach.one_place {s : Sched} (reach : Reach s) :
    (∃ seqs, s.lists.Rep seqs ∧ (∀ i, ∀ e ∈ seqs i, e < nenv) ∧
      ∀ e < nenv, ∃! p : Place, p.Has s seqs e) ∧
    ∀ op : Op, op.Enabled s → ∃ s', op.exec s = .returns s' ∨ op.exec s = .leaves s' := by
  obtain ⟨seqs, holds⟩ := reach.holds
  refine ⟨⟨seqs, holds.lists, fun i e => holds.lt_of_mem, fun e lt => ?_⟩, fun op enabled => ?_⟩
  · by_cases running : s.curenv = some e
    · refine ⟨.curenv, running, fun p has => ?_⟩
      cases p with
      | curenv => rfl
      | list i => exact absurd has (holds.loose (by simp [running]) i)
    · obtain ⟨i, member⟩ := holds.mem_of_not_held lt (by simpa using running)
      refine ⟨.list i, member, fun p has => ?_⟩
      cases p with
      | curenv => exact absurd has running
      | list j =>
        by_contra ne
        exact holds.lists.disjoint j i (fun eq => ne (by rw [eq])) has member
  · obtain ⟨s', ended, -⟩ := op.exec_placed reach.holds enabled
    exact ⟨s', ended⟩

/-- Two environments are created and started, and the one that runs first exits. -/
theorem one_place_exit : ∃ s : Sched, s.curenv = some 0 ∧ (s.envs 1).envStatus = .exit ∧
    ∃ seqs, s.lists.Rep seqs ∧ (∀ i, ∀ e ∈ seqs i, e < nenv) ∧
      ∀ e < nenv, ∃! p : Place, p.Has s seqs e := by
  have first : Reach _ := .step (.newEnv true) .boot trivial (.inl rfl)
  have second : Reach _ := .step (.newEnv true) first trivial (.inl rfl)
  have started : Reach _ := .step .runAll second trivial (.inr rfl)
  have exited : Reach _ := .step .exit started (Option.some_ne_none 1) (.inr rfl)
  exact ⟨_, rfl, rfl, exited.one_place.1⟩

end Sched

end Fos
