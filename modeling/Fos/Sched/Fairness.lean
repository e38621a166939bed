import Fos.Sched.Conservation

/-!
# Round robin does not overtake

An environment enters the ready queue at its head and is dispatched from its tail, so that
the environments ahead of it only become fewer while it waits.

* `Queued e ahead`: `e` is in the ready queue and those ahead of it are among `ahead`, or
  the operation has taken it away;
* `Op.exec_ends`: every operation keeps that until it dispatches;
* `WaitRun`: runs during which `e` waits, with the environments that are dispatched;
* `Reach.no_overtaking`: none is dispatched twice, and `e` has its turn after those ahead.
-/

namespace Fos

namespace Sched

/-! ## What operations do to the queues -/

/-- A property of the queues that survives what operations do before they dispatch:
environments leave any queue, go to the exit queue or the free list, and go from the new
queue to the head of the ready queue. -/
structure Stable (P : (EnvList → List Nat) → Prop) : Prop where
  leave : ∀ seqs i x, (∀ i, (seqs i).Nodup) → (∀ i j, i ≠ j → (seqs i).Disjoint (seqs j)) →
    P seqs → P (Function.update seqs i ((seqs i).erase x))
  retire : ∀ seqs i x, i = .envExitQueue ∨ i = .envFreeList → P seqs →
    P (Function.update seqs i (x :: seqs i))
  start : ∀ seqs x, (∀ i, i ≠ .envNewQueue → x ∉ seqs i) → x ∈ seqs .envNewQueue → P seqs →
    P (Function.update (Function.update seqs .envNewQueue ((seqs .envNewQueue).erase x))
      .envReadyQueue (x :: seqs .envReadyQueue))

/-- Everything is in its place and the queues have the property. -/
def PlacedIn (P : (EnvList → List Nat) → Prop) (s : Sched) : Prop :=
  ∃ seqs, s.Holds seqs s.curenv.toList ∧ P seqs

/-- `move s x` takes `x` off the list `i`, puts it on another one and keeps the property. -/
def MovesIn (P : (EnvList → List Nat) → Prop) (i : EnvList) (move : Sched → Nat → Sched) : Prop :=
  ∀ s seqs x, s.Holds seqs s.curenv.toList → P seqs → x ∈ seqs i →
    (move s x).curenv = s.curenv ∧
    ((move s x).lists.head i).ptrNext = (s.lists.head i).ptrNext ∧
    ∃ seqs', (move s x).Holds seqs' s.curenv.toList ∧ P seqs' ∧ seqs' i = (seqs i).erase x

section Moves

variable {P : (EnvList → List Nat) → Prop}

theorem Stable.exit (stable : Stable P) {i : EnvList} (source : i ≠ .envFreeList)
    (ne : i ≠ .envExitQueue) {st : EnvStatus} (st_ne : st ≠ .free) :
    MovesIn P i fun s x => ((s.removeFromQueue i x).setStatus x st).enqueue .envExitQueue x := by
  intro s seqs x holds has member
  refine ⟨rfl, by simp [Sched.enqueue, setStatus, setEnv, removeFromQueue], _,
    ((holds.removeFromQueue source member).setStatus (by simp) _ st_ne).enqueue (by decide),
    stable.retire _ _ x (Or.inl rfl)
    (stable.leave _ _ x (fun i => (holds.lists.list i).nodup) holds.lists.disjoint has), ?_⟩
  rw [Function.update_of_ne ne, Function.update_self]

theorem Stable.free (stable : Stable P) {i : EnvList} (source : i ≠ .envFreeList) :
    MovesIn P i fun s x => (s.removeFromQueue i x).startEnvFree x := by
  intro s seqs x holds has member
  refine ⟨rfl, ?_, _, (holds.removeFromQueue source member).freeEnvironment,
    stable.retire _ _ x (Or.inr rfl)
    (stable.leave _ _ x (fun i => (holds.lists.list i).nodup) holds.lists.disjoint has), ?_⟩
  · simp [startEnvFree, Sched.freeEnvironment, Sched.enqueue, setStatus, setEnv, removeFromQueue]
  · rw [Function.update_of_ne source, Function.update_self]

theorem Stable.new_ready (stable : Stable P) :
    MovesIn P .envNewQueue fun s x => (s.schedRemoveNew x).schedInsertReady x := by
  intro s seqs x holds has member
  simp only [schedRemoveNew, schedInsertReady, setStatus_setStatus]
  have moved := ((holds.removeFromQueue (by decide) member).setStatus (x := x) (by simp) .ready
    (by decide)).enqueue (show EnvList.envReadyQueue ≠ .envFreeList by decide)
  rw [Function.update_of_ne (show EnvList.envReadyQueue ≠ .envNewQueue by decide)] at moved
  refine ⟨rfl, by simp [Sched.enqueue, setStatus, setEnv, removeFromQueue], _, moved,
    stable.start seqs x (fun i ne there => ?_) member has, ?_⟩
  · exact holds.lists.disjoint i _ ne there member
  · rw [Function.update_of_ne (by decide), Function.update_self]

theorem Stable.new_free (stable : Stable P) :
    MovesIn P .envNewQueue fun s x => (s.schedRemoveNew x).startEnvFree x := by
  simp only [schedRemoveNew, setStatus_startEnvFree]
  exact stable.free (by decide)

theorem Stable.exit_free (stable : Stable P) :
    MovesIn P .envExitQueue fun s x => (s.schedRemoveExit x).startEnvFree x := by
  simp only [schedRemoveExit, setStatus_startEnvFree]
  exact stable.free (by decide)

/-- Inside a loop over the list `i`: `rest` is the end of the list. -/
def WalkingIn (P : (EnvList → List Nat) → Prop) (i : EnvList) (cur : Option Nat)
    (rest : List Nat) (s : Sched) : Prop :=
  s.curenv = cur ∧ ∃ seqs pre, s.Holds seqs cur.toList ∧ P seqs ∧ seqs i = pre ++ rest

variable {i : EnvList} {cur : Option Nat} {rest : List Nat} {x : Nat} {s : Sched}

theorem WalkingIn.saveNext (walking : WalkingIn P i cur rest s) (var : Option Nat) :
    WalkingIn P i cur rest (saveNext i var s) := by
  obtain ⟨keep, seqs, pre, holds, has, list⟩ := walking
  exact ⟨keep, seqs, pre, holds.congr (holds.lists.savePtrNext i _) fun _ => ⟨rfl, rfl⟩, has, list⟩

theorem WalkingIn.ptrNext (walking : WalkingIn P i cur (x :: rest) s) :
    ((Fos.saveNext i (some x) s).lists.head i).ptrNext = rest.head? := by
  obtain ⟨keep, seqs, pre, holds, -, list⟩ := walking
  exact Walking.ptrNext ⟨keep, seqs, pre, holds, list⟩

theorem WalkingIn.skip (walking : WalkingIn P i cur (x :: rest) s) : WalkingIn P i cur rest s := by
  obtain ⟨keep, seqs, pre, holds, has, list⟩ := walking
  exact ⟨keep, seqs, pre ++ [x], holds, has, by simp [list]⟩

theorem WalkingIn.placed (walking : WalkingIn P i cur rest s) : s.PlacedIn P ∧ s.curenv = cur := by
  obtain ⟨rfl, seqs, -, holds, has, -⟩ := walking
  exact ⟨⟨seqs, holds, has⟩, rfl⟩

theorem MovesIn.pass {move : Sched → Nat → Sched} (moves : MovesIn P i move)
    (walking : WalkingIn P i cur (x :: rest) s) :
    WalkingIn P i cur rest (move s x) ∧
      ((move s x).lists.head i).ptrNext = (s.lists.head i).ptrNext := by
  obtain ⟨rfl, seqs, pre, holds, has, list⟩ := walking
  obtain ⟨cur, saved, seqs', holds', has', erased⟩ := moves s seqs x holds has (by simp [list])
  refine ⟨⟨cur, seqs', pre, holds', has', ?_⟩, saved⟩
  have x_pre : x ∉ pre := by
    intro member
    have nodup := (holds.lists.list i).nodup
    rw [list] at nodup
    exact (List.nodup_append.mp nodup).2.2 x member x (by simp) rfl
  rw [erased, list, List.erase_append_right _ x_pre, List.erase_cons_head]

/-- A loop that moves every element of a queue. -/
theorem MovesIn.foreachEnv {move : Sched → Nat → Sched} (moves : MovesIn P i move)
    (placed : s.PlacedIn P) :
    ∃ s', s.foreachEnv i (fun x s => .next (move s x)) = .done none s' ∧ s'.PlacedIn P ∧
      s'.curenv = s.curenv := by
  obtain ⟨seqs, holds, has⟩ := placed
  rw [Sched.foreachEnv, holds.lists.first i]
  refine listForeach_rule (WalkingIn P i s.curenv)
    (fun r => ∃ s', r = .done none s' ∧ s'.PlacedIn P ∧ s'.curenv = s.curenv)
    (fun x rest t walking => ?_) (fun t walking => ?_) (holds.length_le i)
    ⟨rfl, seqs, [], holds, has, rfl⟩
  · have pass := moves.pass (walking.saveNext (some x))
    exact ⟨pass.1, pass.2.trans walking.ptrNext⟩
  · exact ⟨_, rfl, (walking.saveNext none).placed⟩

/-- A searching loop whose matches move away. -/
theorem MovesIn.takeMatches {take : Sched → Nat → Sched} (moves : MovesIn P i take)
    (placed : s.PlacedIn P) (envId : BitVec 32) (stop : Bool) :
    ∃ var s' found, s.takeMatches i envId take stop = .done var (s', found) ∧
      s'.PlacedIn P ∧ s'.curenv = s.curenv := by
  obtain ⟨seqs, holds, has⟩ := placed
  rw [Sched.takeMatches, holds.lists.first i]
  refine listForeach_rule (s := (s, false))
    (fun rest t => WalkingIn P i s.curenv rest t.1)
    (fun r => ∃ var s' found, r = .done var (s', found) ∧ s'.PlacedIn P ∧ s'.curenv = s.curenv)
    (fun x rest t walking => ?_) (fun t walking => ?_) (holds.length_le i)
    ⟨rfl, seqs, [], holds, has, rfl⟩
  · obtain ⟨t, found⟩ := t
    have saved := walking.ptrNext
    have walking' := walking.saveNext (some x)
    have pass := moves.pass walking'
    dsimp only [Fos.saveNext, HasLists.lists, HasLists.setLists] at saved walking' pass ⊢
    split
    · rename_i eq
      split at eq
      · cases stop <;> simp at eq
        obtain rfl := eq
        exact ⟨pass.1, pass.2.trans saved⟩
      · simp at eq
        obtain rfl := eq
        exact ⟨walking'.skip, saved⟩
    · rename_i eq
      split at eq
      · cases stop <;> simp at eq
        obtain rfl := eq
        exact ⟨_, _, _, rfl, pass.1.placed⟩
      · simp at eq
    · rename_i eq
      split at eq
      · cases stop <;> simp at eq
      · simp at eq
  · exact ⟨_, _, _, rfl, (walking.saveNext none).placed⟩

end Moves

/-! ## The operations -/

variable {P : (EnvList → List Nat) → Prop} {s s' : Sched}

/-- The function returns, or ends in the scheduler, with the same `curenv`. -/
def Ends (P : (EnvList → List Nat) → Prop) (s : Sched) (end_ : Ctl Sched) : Prop :=
  ∃ t, t.PlacedIn P ∧ t.curenv = s.curenv ∧ (end_ = .returns t ∨ end_ = .leaves t.fosScheduler)

theorem PlacedIn.returns (placed : s'.PlacedIn P) (keep : s'.curenv = s.curenv) :
    s.Ends P (.returns s') := ⟨s', placed, keep, Or.inl rfl⟩

theorem PlacedIn.leaves (placed : s'.PlacedIn P) (keep : s'.curenv = s.curenv) :
    s.Ends P (.leaves s'.fosScheduler) := ⟨s', placed, keep, Or.inr rfl⟩

theorem PlacedIn.startIfStopped (placed : s'.PlacedIn P) (keep : s'.curenv = s.curenv) :
    s.Ends P s'.startIfStopped := by
  rw [Sched.startIfStopped]
  split
  · exact placed.leaves keep
  · exact placed.returns keep

theorem PlacedIn.schedRunAll (stable : Stable P) (placed : s.PlacedIn P) :
    s.Ends P s.schedRunAll := by
  obtain ⟨s', loop, placed', keep⟩ := stable.new_ready.foreachEnv placed
  rw [Sched.schedRunAll, loop]
  exact placed'.startIfStopped keep

theorem PlacedIn.schedRunEnv (stable : Stable P) (placed : s.PlacedIn P) (envId : BitVec 32) :
    s.Ends P (s.schedRunEnv envId) := by
  obtain ⟨seqs, holds, has⟩ := placed
  rw [Sched.schedRunEnv, Sched.foreachEnv, holds.lists.first]
  refine listForeach_rule (WalkingIn P .envNewQueue s.curenv)
    (fun r => s.Ends P (r.andThen fun _ s => .returns s))
    (fun x rest t walking => ?_) (fun t walking => ?_) (holds.length_le _)
    ⟨rfl, seqs, [], holds, has, rfl⟩
  · have walking' := walking.saveNext (some x)
    obtain ⟨placed', keep⟩ := (stable.new_ready.pass walking').1.placed
    have started := placed'.startIfStopped keep
    split
    · rename_i eq
      split at eq
      · split at eq <;> simp at eq
      · simp only [Flow.next.injEq] at eq
        subst eq
        exact ⟨walking'.skip, walking.ptrNext⟩
    · rename_i eq
      split at eq
      · split at eq
        · rename_i run
          rw [run] at started
          simp only [Flow.brk.injEq] at eq
          subst eq
          exact started
        · simp at eq
      · simp at eq
    · rename_i eq
      split at eq
      · split at eq
        · simp at eq
        · simp only [Flow.ret.injEq] at eq
          subst eq
          exact started
      · simp at eq
  · obtain ⟨placed', keep⟩ := (walking.saveNext none).placed
    exact placed'.returns keep

theorem PlacedIn.schedExitAllReadyEnvs (stable : Stable P) (placed : s.PlacedIn P) :
    s.Ends P s.schedExitAllReadyEnvs := by
  rw [Sched.schedExitAllReadyEnvs]
  split
  · exact placed.returns rfl
  · have moves : MovesIn P .envReadyQueue fun s x =>
        (s.removeFromQueue .envReadyQueue x).schedInsertExit (some x) :=
      stable.exit (by decide) (by decide) (by decide)
    obtain ⟨s', loop, placed', keep⟩ := moves.foreachEnv placed
    rw [loop]
    exact placed'.returns keep

/-- One of the loops of `sched_kill_all`. -/
theorem MovesIn.killQueue {i : EnvList} {remove : Sched → Nat → Sched}
    (moves : MovesIn P i fun s x => (remove s x).startEnvFree x) (placed : s.PlacedIn P)
    {rest : Sched → Ctl Sched}
    (after : ∀ s', s'.PlacedIn P → s'.curenv = s.curenv → s.Ends P (rest s')) :
    s.Ends P (s.killQueue i remove rest) := by
  rw [Sched.killQueue]
  split
  · exact after s placed rfl
  · obtain ⟨s', loop, placed', keep⟩ := moves.foreachEnv placed
    rw [loop]
    exact after s' placed' keep

theorem PlacedIn.schedKillAll (stable : Stable P) (placed : s.PlacedIn P)
    (idle : s.curenv = none) : s.Ends P s.schedKillAll := by
  refine stable.new_free.killQueue placed fun s₁ placed₁ keep₁ => ?_
  obtain ⟨t₂, placed₂, keep₂, ends₂⟩ : s₁.Ends P (s₁.killQueue .envReadyQueue
      (fun s e => s.removeFromQueue .envReadyQueue e) fun s =>
        s.killQueue .envExitQueue schedRemoveExit fun s =>
          .leaves { s with curenv := none }.fosScheduler) := by
    refine (stable.free (by decide)).killQueue placed₁ fun s₂ placed₂ keep₂ => ?_
    obtain ⟨t₃, placed₃, keep₃, ends₃⟩ : s₂.Ends P (s₂.killQueue .envExitQueue schedRemoveExit
        fun s => .leaves { s with curenv := none }.fosScheduler) := by
      refine stable.exit_free.killQueue placed₂ fun s₃ placed₃ keep₃ => ?_
      have idle₃ : s₃.curenv = none := keep₃.trans (keep₂.trans (keep₁.trans idle))
      have cleared : ({ s₃ with curenv := none } : Sched) = s₃ := by
        cases s₃
        simp_all
      rw [cleared]
      exact placed₃.leaves keep₃
    exact ⟨t₃, placed₃, keep₃.trans keep₂, ends₃⟩
  exact ⟨t₂, placed₂, keep₂.trans keep₁, ends₂⟩

/-- The identifier of an environment is not `ENV_RUNNABLE`. -/
theorem usedEnvId_ne_runnable (e : Nat) : usedEnvId e ≠ 2#32 := by
  intro eq
  have bit := congrArg (fun w => w.getLsbD 12) eq
  simp [usedEnvId] at bit

theorem PlacedIn.schedKillCurenv (placed : s'.PlacedIn P) (keep : s'.curenv = s.curenv)
    (envId : BitVec 32) (completes : Completes (s'.schedKillCurenv envId)) :
    s.Ends P (s'.schedKillCurenv envId) := by
  obtain ⟨t, ends, -⟩ := completes
  obtain ⟨seqs, holds, has⟩ := placed
  rw [Sched.schedKillCurenv] at ends ⊢
  cases cur : s'.curenv with
  | none => simp [cur] at ends
  | some c =>
    have held : c ∈ s'.curenv.toList := by simp [cur]
    have id := (holds.used c (holds.lt_of_held held) (holds.loose held _)).2
    simp only [cur] at ends ⊢
    split
    · rw [if_pos (by assumption), id, if_neg (usedEnvId_ne_runnable c)] at ends
      simp at ends
    · exact PlacedIn.returns ⟨seqs, holds, has⟩ keep

theorem PlacedIn.schedKillEnv (stable : Stable P) (placed : s.PlacedIn P) (envId : BitVec 32)
    (completes : Completes (s.schedKillEnv envId)) : s.Ends P (s.schedKillEnv envId) := by
  rw [Sched.schedKillEnv] at completes ⊢
  have exitQueue : ∀ t : Sched, t.PlacedIn P → t.curenv = s.curenv →
      Completes ((t.takeMatches .envExitQueue envId
        (fun s e => (s.schedRemoveExit e).startEnvFree e) false).andThen
          fun _ r => if r.2 then .returns r.1 else r.1.schedKillCurenv envId) →
      s.Ends P ((t.takeMatches .envExitQueue envId
        (fun s e => (s.schedRemoveExit e).startEnvFree e) false).andThen
          fun _ r => if r.2 then .returns r.1 else r.1.schedKillCurenv envId) := by
    intro t placed' keep completes
    obtain ⟨var, t', found, loop, placed'', keep'⟩ :=
      stable.exit_free.takeMatches placed' envId false
    rw [loop] at completes ⊢
    cases found with
    | true => exact placed''.returns (keep'.trans keep)
    | false => exact placed''.schedKillCurenv (keep'.trans keep) envId completes
  obtain ⟨var, s₁, found, loop, placed₁, keep₁⟩ := stable.new_free.takeMatches placed envId false
  rw [loop] at completes ⊢
  cases found with
  | true => exact placed₁.returns keep₁
  | false =>
    simp only [LoopEnd.andThen, Bool.false_eq_true, if_false] at completes ⊢
    split
    · rename_i empty
      rw [if_pos empty] at completes
      exact exitQueue s₁ placed₁ keep₁ completes
    · rename_i some
      rw [if_neg some] at completes
      obtain ⟨var, s₂, found, loop, placed₂, keep₂⟩ :=
        (stable.free (show EnvList.envReadyQueue ≠ .envFreeList by decide)).takeMatches placed₁
          envId true
      rw [loop] at completes ⊢
      cases found with
      | true => exact placed₂.returns (keep₂.trans keep₁)
      | false => exact exitQueue s₂ placed₂ (keep₂.trans keep₁) completes

/-- What an operation other than the creation of an environment does. -/
theorem Op.exec_ends (stable : Stable P) (placed : s.PlacedIn P) {op : Op}
    (enabled : op.Enabled s) (old : ∀ programKnown, op ≠ .newEnv programKnown) :
    s.Ends P (op.exec s) ∨
      ∃ t : Sched, t.PlacedIn P ∧ t.curenv = none ∧ op.exec s = .leaves t.fosScheduler := by
  have completes : Completes (op.exec s) := by
    obtain ⟨seqs, holds, -⟩ := placed
    exact op.exec_placed ⟨seqs, holds⟩ enabled
  cases op with
  | newEnv programKnown => exact absurd rfl (old programKnown)
  | runEnv envId => exact Or.inl (placed.schedRunEnv stable envId)
  | runAll => exact Or.inl (placed.schedRunAll stable)
  | clock => exact Or.inl (placed.leaves rfl)
  | exit =>
    obtain ⟨cur, running⟩ := Option.ne_none_iff_exists'.mp enabled
    obtain ⟨seqs, holds, has⟩ := placed
    obtain ⟨t, run, idle, holds'⟩ := holds.envExit running
    refine Or.inr ⟨t, ⟨_, ?_, stable.retire _ _ cur (Or.inl rfl) has⟩, idle, run⟩
    rw [idle]
    exact holds'
  | kill envId => exact Or.inl (placed.schedKillEnv stable envId completes)
  | exitAllReady => exact Or.inl (placed.schedExitAllReadyEnvs stable)
  | killAll => exact Or.inl (placed.schedKillAll stable enabled)

/-- Creating an environment leaves the ready queue alone. -/
theorem Holds.newEnv {seqs : EnvList → List Nat} (holds : s.Holds seqs s.curenv.toList)
    (programKnown : Bool) : ∃ (t : Sched) (seqs' : EnvList → List Nat),
    (Op.newEnv programKnown).exec s = .returns t ∧
      t.curenv = s.curenv ∧ t.Holds seqs' t.curenv.toList ∧
      seqs' .envReadyQueue = seqs .envReadyQueue := by
  have ends : ∃ seqs',
      ((s.envCreate programKnown).2.schedNewEnv (s.envCreate programKnown).1).Holds seqs'
        s.curenv.toList ∧
      ((s.envCreate programKnown).2.schedNewEnv (s.envCreate programKnown).1).curenv = s.curenv ∧
      seqs' .envReadyQueue = seqs .envReadyQueue := by
    rcases holds.envCreate programKnown with null | ⟨x, s', created, keep, holds'⟩
    · rw [null]
      exact ⟨seqs, holds, rfl, rfl⟩
    · have new := (holds'.setStatus (x := x) (by simp) .new (by decide)).enqueue
        (i := .envNewQueue) (by decide)
      rw [created]
      refine ⟨_, new, keep, ?_⟩
      rw [Function.update_of_ne (by decide), Function.update_of_ne (by decide)]
  obtain ⟨seqs', holds', keep, ready⟩ := ends
  refine ⟨(s.envCreate programKnown).2.schedNewEnv (s.envCreate programKnown).1, seqs', rfl, keep,
    ?_, ready⟩
  rw [keep]
  exact holds'

/-- `fos_scheduler` dispatches the last of the ready queue, with `curenv` at its head. -/
theorem Holds.dispatch {seqs : EnvList → List Nat} (holds : s.Holds seqs s.curenv.toList) :
    (s.curenv.toList ++ seqs .envReadyQueue = [] ∧ s.fosScheduler.curenv = none ∧
      s.fosScheduler.Holds (Function.update seqs .envReadyQueue []) []) ∨
    ∃ pre f, s.curenv.toList ++ seqs .envReadyQueue = pre ++ [f] ∧
      s.fosScheduler.curenv = some f ∧
      s.fosScheduler.Holds (Function.update seqs .envReadyQueue pre) [f] := by
  have started : ({ s with schedulerStatus := .started } : Sched).Holds seqs s.curenv.toList :=
    holds.congr holds.lists fun _ => ⟨rfl, rfl⟩
  have inserted : ({ s with schedulerStatus := .started } : Sched).insertCurenv.Holds
      (Function.update seqs .envReadyQueue (s.curenv.toList ++ seqs .envReadyQueue)) [] := by
    cases cur : s.curenv with
    | none =>
      rw [cur] at started
      simpa [insertCurenv, cur] using started
    | some c =>
      rw [cur] at started
      have queued := started.enqueue (i := .envReadyQueue) (by decide)
      simpa [insertCurenv, cur] using queued
  rw [Sched.fosScheduler]
  rcases (s.curenv.toList ++ seqs .envReadyQueue).eq_nil_or_concat with empty | ⟨pre, f, at_⟩
  · have last := inserted.lists.last .envReadyQueue
    rw [Function.update_self, empty, List.getLast?_nil] at last
    have stopped : ({ s with schedulerStatus := .started } : Sched).insertCurenv.runNext =
        { ({ s with schedulerStatus := .started } : Sched).insertCurenv with
          curenv := none, schedulerStatus := .stopped } := by
      simp [runNext, Sched.dequeue, last]
    rw [empty] at inserted
    rw [stopped]
    exact Or.inl ⟨empty, rfl, inserted.congr inserted.lists fun _ => ⟨rfl, rfl⟩⟩
  · rw [List.concat_eq_append] at at_
    obtain ⟨holds', running⟩ := inserted.runLast (show _ = pre ++ [f] by simpa using at_)
    rw [Function.update_idem] at holds'
    exact Or.inr ⟨pre, f, at_, running, holds'⟩

/-! ## Waiting -/

/-- `e` is in the ready queue and the environments ahead of it are among `ahead`, or it is
neither in the ready queue nor in the new queue. -/
def Queued (e : Nat) (ahead : List Nat) (seqs : EnvList → List Nat) : Prop :=
  (∃ pre post, seqs .envReadyQueue = pre ++ e :: post ∧ post.Sublist ahead) ∨
    e ∉ seqs .envReadyQueue ∧ e ∉ seqs .envNewQueue

/-- `e` is neither in the ready queue nor in the new queue. -/
def Away (e : Nat) (seqs : EnvList → List Nat) : Prop :=
  e ∉ seqs .envReadyQueue ∧ e ∉ seqs .envNewQueue

theorem stable_away (e : Nat) : Stable (Away e) where
  leave seqs i x _ _ away := by
    constructor
    · rcases eq_or_ne .envReadyQueue i with rfl | ne
      · rw [Function.update_self]
        exact fun mem => away.1 (List.mem_of_mem_erase mem)
      · rw [Function.update_of_ne ne]
        exact away.1
    · rcases eq_or_ne .envNewQueue i with rfl | ne
      · rw [Function.update_self]
        exact fun mem => away.2 (List.mem_of_mem_erase mem)
      · rw [Function.update_of_ne ne]
        exact away.2
  retire seqs i x place away := by
    rcases place with rfl | rfl <;> exact away
  start seqs x _ mem away := by
    have ne : e ≠ x := by
      rintro rfl
      exact away.2 mem
    constructor
    · rw [Function.update_self, List.mem_cons, not_or]
      exact ⟨ne, away.1⟩
    · rw [Function.update_of_ne (by decide), Function.update_self]
      exact fun mem => away.2 (List.mem_of_mem_erase mem)

theorem stable_queued (e : Nat) (ahead : List Nat) : Stable (Queued e ahead) where
  leave seqs i x nodup apart queued := by
    rcases queued with ⟨pre, post, at_, sub⟩ | away
    · rcases eq_or_ne .envReadyQueue i with rfl | ne
      · have whole := nodup .envReadyQueue
        rw [at_] at whole
        have e_pre : e ∉ pre := fun mem =>
          (List.nodup_append.mp whole).2.2 e mem e (by simp) rfl
        have e_post : e ∉ post := (List.nodup_cons.mp (List.nodup_append.mp whole).2.1).1
        rcases eq_or_ne x e with rfl | ne
        · refine Or.inr ⟨?_, ?_⟩
          · rw [Function.update_self, at_, List.erase_append_right _ e_pre, List.erase_cons_head,
              List.mem_append, not_or]
            exact ⟨e_pre, e_post⟩
          · rw [Function.update_of_ne (by decide)]
            exact apart .envReadyQueue .envNewQueue (by decide) (by rw [at_]; simp)
        · refine Or.inl ?_
          rw [Function.update_self, at_]
          by_cases mem : x ∈ pre
          · exact ⟨pre.erase x, post, List.erase_append_left _ mem, sub⟩
          · refine ⟨pre, post.erase x, ?_, List.erase_sublist.trans sub⟩
            rw [List.erase_append_right _ mem, List.erase_cons_tail (by simpa using ne.symm)]
      · refine Or.inl ⟨pre, post, ?_, sub⟩
        rw [Function.update_of_ne ne, at_]
    · exact Or.inr ((stable_away e).leave seqs i x nodup apart away)
  retire seqs i x place queued := by
    rcases place with rfl | rfl <;> exact queued
  start seqs x loose mem queued := by
    rcases queued with ⟨pre, post, at_, sub⟩ | away
    · refine Or.inl ⟨x :: pre, post, ?_, sub⟩
      rw [Function.update_self, at_, List.cons_append]
    · exact Or.inr ((stable_away e).start seqs x loose mem away)

/-- `e` waits for its turn, or has it. -/
def Waits (e : Nat) (s : Sched) : Prop :=
  s.curenv = some e ∨ ∃ seqs, s.lists.Rep seqs ∧ e ∈ seqs .envReadyQueue

/-- Runs in which `e` waits in every state, with the environments that are dispatched. -/
inductive WaitRun (e : Nat) : Sched → List Nat → Sched → Prop
  | refl (s : Sched) : WaitRun e s [] s
  | returns {s t t' : Sched} {ds : List Nat} (op : Op) (run : WaitRun e s ds t)
    (enabled : op.Enabled t) (ends : op.exec t = .returns t') (waits : t'.Waits e) :
    WaitRun e s ds t'
  | leaves {s t t' : Sched} {ds : List Nat} (op : Op) (run : WaitRun e s ds t)
    (enabled : op.Enabled t) (ends : op.exec t = .leaves t') (waits : t'.Waits e) :
    WaitRun e s (ds ++ t'.curenv.toList) t'

/-- How things stand with `e` after the dispatches `ds`, when `ys` were ahead of it at
first: it runs and nothing was dispatched since, or those ahead of it were not. -/
inductive Turn (e : Nat) (ys : Option (List Nat)) (ds : List Nat) (s : Sched)
    (seqs : EnvList → List Nat) : Prop
  | runs (running : s.curenv = some e) (fresh : ds = []) (unknown : ys = none)
  | queued (pre post : List Nat) (at_ : seqs .envReadyQueue = pre ++ e :: post)
    (fresh : ∀ f ∈ ds, f ∉ post) (count : ∀ zs, ys = some zs → ds.length + post.length ≤ zs.length)

section Step

variable {e : Nat} {ys : Option (List Nat)} {ds : List Nat} {seqs : EnvList → List Nat}

/-- Another environment than `e` is dispatched: the first one in the line ahead of it. -/
theorem Holds.dispatch_ahead {pre post : List Nat} (holds : s.Holds seqs s.curenv.toList)
    (at_ : s.curenv.toList ++ seqs .envReadyQueue = pre ++ e :: post)
    (other : s.fosScheduler.curenv ≠ some e) :
    ∃ f post' seqs', post = post' ++ [f] ∧ s.fosScheduler.curenv = some f ∧
      s.fosScheduler.Holds seqs' [f] ∧ seqs' .envReadyQueue = pre ++ e :: post' := by
  rcases holds.dispatch with ⟨empty, -⟩ | ⟨pre', f, queue, running, holds'⟩
  · rw [at_] at empty
    simp at empty
  · rw [at_] at queue
    rcases post.eq_nil_or_concat with rfl | ⟨post', g, rfl⟩
    · obtain ⟨-, eq⟩ := List.append_inj' queue rfl
      obtain rfl : e = f := by simpa using eq
      exact absurd running other
    · rw [List.concat_eq_append] at queue ⊢
      have queue' : (pre ++ e :: post') ++ [g] = pre' ++ [f] := by simpa using queue
      obtain ⟨rfl, eq⟩ := List.append_inj' queue' rfl
      obtain rfl : g = f := by simpa using eq
      exact ⟨g, post', _, rfl, running, holds', Function.update_self ..⟩

theorem Holds.waits (holds : s.Holds seqs s.curenv.toList) (waits : s.Waits e)
    (other : s.curenv ≠ some e) : e ∈ seqs .envReadyQueue := by
  rcases waits with running | ⟨seqs', rep, mem⟩
  · exact absurd running other
  · rwa [rep.unique holds.lists] at mem

/-- An environment that has been taken away is not dispatched. -/
theorem Holds.away (holds : s.Holds seqs s.curenv.toList) (away : Away e seqs)
    (other : s.curenv ≠ some e) : ¬ s.fosScheduler.Waits e := by
  have notin : e ∉ s.curenv.toList ++ seqs .envReadyQueue := by
    rw [List.mem_append, not_or, Option.mem_toList]
    exact ⟨other, away.1⟩
  intro waits
  rcases holds.dispatch with ⟨-, idle, holds'⟩ | ⟨pre, f, queue, running, holds'⟩
  · have holds'' : s.fosScheduler.Holds (Function.update seqs .envReadyQueue [])
        s.fosScheduler.curenv.toList := by
      rw [idle, Option.toList_none]
      exact holds'
    have mem := holds''.waits waits (by simp [idle])
    simp at mem
  · have single : s.fosScheduler.curenv.toList = [f] := by rw [running, Option.toList_some]
    rw [← single] at holds'
    rw [queue, List.mem_append, not_or, List.mem_singleton] at notin
    have mem := holds'.waits waits fun eq => notin.2 (Option.some.inj (eq.symm.trans running))
    rw [Function.update_self] at mem
    exact notin.1 mem

/-- What is left of the line after a dispatch. -/
theorem Turn.dispatch {old : List Nat} (pre post : List Nat) (nodup : ds.Nodup)
    (holds : s.Holds seqs s.curenv.toList)
    (at_ : s.curenv.toList ++ seqs .envReadyQueue = pre ++ e :: post) (sub : post.Sublist old)
    (fresh : ∀ f ∈ ds, f ∉ old) (count : ∀ zs, ys = some zs → ds.length + old.length ≤ zs.length)
    (line : post.Nodup) (other : s.fosScheduler.curenv ≠ some e) :
    ∃ seqs', s.fosScheduler.Holds seqs' s.fosScheduler.curenv.toList ∧
      (ds ++ s.fosScheduler.curenv.toList).Nodup ∧
      Turn e ys (ds ++ s.fosScheduler.curenv.toList) s.fosScheduler seqs' := by
  obtain ⟨f, post', seqs', rfl, running, holds', ready⟩ := holds.dispatch_ahead at_ other
  have single : s.fosScheduler.curenv.toList = [f] := by rw [running, Option.toList_some]
  obtain ⟨-, -, apart⟩ := List.nodup_append.mp line
  have f_ds : f ∉ ds := fun mem => fresh f mem (sub.subset (by simp))
  have f_post : f ∉ post' := fun mem => apart f mem f (by simp) rfl
  rw [single]
  refine ⟨seqs', holds', nodup.append (List.nodup_singleton f) (by simpa using f_ds),
    .queued pre post' ready (fun g mem => ?_) fun zs eq => ?_⟩
  · rcases List.mem_append.mp mem with mem | mem
    · exact fun later => fresh g mem (sub.subset (by simp [later]))
    · rw [List.mem_singleton.mp mem]
      exact f_post
  · have before := count zs eq
    have length := sub.length_le
    simp only [List.length_append, List.length_cons, List.length_nil] at length ⊢
    omega

/-- One operation, after which `e` waits still and has not had its turn. -/
theorem Turn.step {op : Op} (turn : Turn e ys ds s seqs) (nodup : ds.Nodup)
    (holds : s.Holds seqs s.curenv.toList) (enabled : op.Enabled s) :
    (∀ s', op.exec s = .returns s' → s'.Waits e → ∃ seqs', s'.Holds seqs' s'.curenv.toList ∧
      Turn e ys ds s' seqs') ∧
    (∀ s', op.exec s = .leaves s' → s'.Waits e → s'.curenv ≠ some e →
      ∃ seqs', s'.Holds seqs' s'.curenv.toList ∧ (ds ++ s'.curenv.toList).Nodup ∧
        Turn e ys (ds ++ s'.curenv.toList) s' seqs') := by
  by_cases creates : ∃ programKnown, op = .newEnv programKnown
  · obtain ⟨programKnown, rfl⟩ := creates
    obtain ⟨t, seqs', run, keep, holds', ready⟩ := holds.newEnv programKnown
    rw [run]
    refine ⟨fun s' ends _ => ?_, fun s' ends => by cases ends⟩
    obtain rfl : t = s' := by cases ends; rfl
    refine ⟨seqs', holds', ?_⟩
    cases turn with
    | runs running fresh unknown => exact .runs (keep.trans running) fresh unknown
    | queued pre post at_ fresh count => exact .queued pre post (ready.trans at_) fresh count
  · have old : ∀ programKnown, op ≠ .newEnv programKnown := fun k eq => creates ⟨k, eq⟩
    cases turn with
    | runs running fresh unknown =>
      have away : Away e seqs :=
        ⟨holds.loose (by simp [running]) _, holds.loose (by simp [running]) _⟩
      rcases op.exec_ends (stable_away e) ⟨seqs, holds, away⟩ enabled old with
        ⟨t, ⟨seqs₁, holds₁, -⟩, keep, run⟩ | ⟨t, ⟨seqs₁, holds₁, away₁⟩, idle, run⟩
      · rcases run with run | run <;> rw [run]
        · refine ⟨fun s' ends _ => ?_, fun s' ends => by cases ends⟩
          obtain rfl : t = s' := by cases ends; rfl
          exact ⟨seqs₁, holds₁, .runs (keep.trans running) fresh unknown⟩
        · refine ⟨fun s' ends => by (cases ends), fun s' ends _ other => ?_⟩
          obtain rfl : t.fosScheduler = s' := by cases ends; rfl
          refine Turn.dispatch [] (seqs₁ .envReadyQueue) nodup holds₁ ?_
            (List.Sublist.refl _) ?_ ?_ (holds₁.lists.list _).nodup other
          · rw [keep, running, Option.toList_some]
            rfl
          · simp [fresh]
          · simp [unknown]
      · rw [run]
        refine ⟨fun s' ends => by (cases ends), fun s' ends waits => ?_⟩
        obtain rfl : t.fosScheduler = s' := by cases ends; rfl
        exact absurd waits (holds₁.away away₁ (by simp [idle]))
    | queued pre post at_ fresh count =>
      have mem : e ∈ seqs .envReadyQueue := by simp [at_]
      have other : s.curenv ≠ some e := fun running => holds.loose (by simp [running]) _ mem
      have ends : ∃ t seqs₁, t.Holds seqs₁ t.curenv.toList ∧ Queued e post seqs₁ ∧
          t.curenv ≠ some e ∧ (op.exec s = .returns t ∨ op.exec s = .leaves t.fosScheduler) := by
        rcases op.exec_ends (stable_queued e post)
          ⟨seqs, holds, Or.inl ⟨pre, post, at_, List.Sublist.refl _⟩⟩ enabled old with
          ⟨t, ⟨seqs₁, holds₁, queued⟩, keep, run⟩ | ⟨t, ⟨seqs₁, holds₁, queued⟩, idle, run⟩
        · exact ⟨t, seqs₁, holds₁, queued, keep ▸ other, run⟩
        · exact ⟨t, seqs₁, holds₁, queued, by simp [idle], Or.inr run⟩
      obtain ⟨t, seqs₁, holds₁, queued, other₁, run⟩ := ends
      rcases run with run | run <;> rw [run]
      · refine ⟨fun s' ends waits => ?_, fun s' ends => by cases ends⟩
        obtain rfl : t = s' := by cases ends; rfl
        rcases queued with ⟨pre₁, post₁, at₁, sub⟩ | away
        · refine ⟨seqs₁, holds₁, .queued pre₁ post₁ at₁ (fun f mem later => ?_) fun zs eq => ?_⟩
          · exact fresh f mem (sub.subset later)
          · exact (Nat.add_le_add_left sub.length_le _).trans (count zs eq)
        · exact absurd (holds₁.waits waits other₁) away.1
      · refine ⟨fun s' ends => by (cases ends), fun s' ends waits notYet => ?_⟩
        obtain rfl : t.fosScheduler = s' := by cases ends; rfl
        rcases queued with ⟨pre₁, post₁, at₁, sub⟩ | away
        · have whole := (holds₁.lists.list .envReadyQueue).nodup
          rw [at₁] at whole
          have line := (List.nodup_cons.mp (List.nodup_append.mp whole).2.1).2
          refine Turn.dispatch (t.curenv.toList ++ pre₁) post₁ nodup holds₁ ?_ sub fresh count line
            notYet
          rw [at₁, List.append_assoc]
        · exact absurd waits (holds₁.away away other₁)

end Step

/-- Until `e` has its turn, no environment is dispatched twice. -/
theorem WaitRun.turn {e : Nat} {ys : Option (List Nat)} {ds : List Nat}
    {seqs : EnvList → List Nat} (run : WaitRun e s ds s') (notYet : e ∉ ds)
    (holds : s.Holds seqs s.curenv.toList) (start : Turn e ys [] s seqs) :
    ∃ seqs', s'.Holds seqs' s'.curenv.toList ∧ ds.Nodup ∧ Turn e ys ds s' seqs' := by
  induction run with
  | refl => exact ⟨seqs, holds, List.nodup_nil, start⟩
  | returns op _ enabled ends waits ih =>
    obtain ⟨seqs₁, holds₁, nodup, turn⟩ := ih notYet
    obtain ⟨seqs₂, holds₂, turn₂⟩ := (turn.step nodup holds₁ enabled).1 _ ends waits
    exact ⟨seqs₂, holds₂, nodup, turn₂⟩
  | leaves op _ enabled ends waits ih =>
    rw [List.mem_append, not_or, Option.mem_toList] at notYet
    obtain ⟨seqs₁, holds₁, nodup, turn⟩ := ih notYet.1
    exact (turn.step nodup holds₁ enabled).2 _ ends waits notYet.2

/-- **Round robin never overtakes.**  In any run of operations while `e` waits, from the time
it becomes ready or is dispatched until it is dispatched next, no environment is dispatched
twice, and at most as many are dispatched as are ahead of `e` in the ready queue at
first. -/
theorem Reach.no_overtaking {e : Nat} {ds : List Nat} (reach : Reach s) (waits : s.Waits e)
    (run : WaitRun e s ds s') (notYet : e ∉ ds) :
    (∀ f, ds.count f ≤ 1) ∧
      ∀ seqs pre ahead, s.lists.Rep seqs → seqs .envReadyQueue = pre ++ e :: ahead →
        ds.length ≤ ahead.length := by
  obtain ⟨seqs, holds⟩ := reach.holds
  have queued : ∀ pre ahead, seqs .envReadyQueue = pre ++ e :: ahead →
      ds.Nodup ∧ ds.length ≤ ahead.length := by
    intro pre ahead at_
    have first : Turn e (some ahead) [] s seqs := by
      refine .queued pre ahead at_ (by simp) fun zs eq => ?_
      rw [Option.some.inj eq, List.length_nil, Nat.zero_add]
    obtain ⟨seqs', holds', nodup, turn⟩ := run.turn notYet holds first
    refine ⟨nodup, ?_⟩
    cases turn with
    | runs _ _ unknown => cases unknown
    | queued _ post _ _ count => exact (Nat.le_add_right ..).trans (count ahead rfl)
  refine ⟨List.nodup_iff_count_le_one.mp ?_, fun seqs' pre ahead rep at_ => ?_⟩
  · by_cases running : s.curenv = some e
    · have first : Turn e none [] s seqs := .runs running rfl rfl
      obtain ⟨_, -, nodup, -⟩ := run.turn notYet holds first
      exact nodup
    · obtain ⟨pre, ahead, at_⟩ := List.append_of_mem (holds.waits waits running)
      exact (queued pre ahead at_).1
  · rw [rep.unique holds.lists] at at_
    exact (queued pre ahead at_).2

/-- Two environments are started, and the clock interrupts the one that runs first. -/
theorem no_overtaking_clock : ∃ s s' : Sched, s.curenv = some 1 ∧ s'.curenv = some 0 ∧
    WaitRun 1 s [0] s' ∧ ∀ f, [0].count f ≤ 1 := by
  have first : Reach _ := .step (.newEnv true) .boot trivial (.inl rfl)
  have second : Reach _ := .step (.newEnv true) first trivial (.inl rfl)
  have started : Reach _ := .step .runAll second trivial (.inr rfl)
  have next : Reach _ := .step .clock started trivial (.inr rfl)
  obtain ⟨seqs, holds⟩ := next.holds
  have last : (seqs .envReadyQueue).getLast? = some 1 :=
    (holds.lists.last .envReadyQueue).symm.trans rfl
  have waits : Waits 1 _ := Or.inr ⟨seqs, holds.lists, List.mem_of_getLast? last⟩
  have run := (WaitRun.refl _).leaves .clock trivial rfl waits
  exact ⟨_, _, rfl, rfl, run, (started.no_overtaking (.inl rfl) run (by decide)).1⟩

end Sched

end Fos
