import Fos.Sched.Conservation

/-!
# The scheduler seen as sequences

A `Roster` is the scheduler's state without the intrusive links: the lists are the
sequences of their elements.  `Shows s r held` says that the state `s` is `r`, with `held`
off the lists; every function of the queues is an edit of the roster, and a searching loop
either edits the environment it finds or leaves the roster alone.

* `Shows.takeMatch`, `Shows.takeNone`: the loops of `sched_exit_env` and `sched_kill_env`;
* `Shows.foreachEnv`: the loops that move a whole queue.
-/

namespace Fos

/-- The scheduler's state with the lists as sequences. -/
structure Roster where
  seqs : EnvList → List Nat
  envs : Nat → EnvSlot
  curenv : Option Nat
  schedulerStatus : SchedulerStatus

namespace Roster

def removeFromQueue (r : Roster) (i : EnvList) (x : Nat) : Roster :=
  { r with seqs := Function.update r.seqs i ((r.seqs i).erase x) }

def enqueue (r : Roster) (i : EnvList) (x : Nat) : Roster :=
  { r with seqs := Function.update r.seqs i (x :: r.seqs i) }

def setEnv (r : Roster) (x : Nat) (slot : EnvSlot) : Roster :=
  { r with envs := Function.update r.envs x slot }

def setStatus (r : Roster) (x : Nat) (st : EnvStatus) : Roster :=
  r.setEnv x { r.envs x with envStatus := st }

/-- An environment taken off a queue goes to another one, in a new state. -/
def move (r : Roster) (i j : EnvList) (st : EnvStatus) (x : Nat) : Roster :=
  ((r.removeFromQueue i x).setStatus x st).enqueue j x

/-- An environment taken off a queue is freed. -/
def release (r : Roster) (i : EnvList) (x : Nat) : Roster :=
  ((r.removeFromQueue i x).setEnv x .zero).enqueue .envFreeList x

end Roster

namespace Sched

/-- The state is `r`, apart from the saved successors of the lists and the links of
environments that are on none. -/
structure Shows (s : Sched) (r : Roster) (held : List Nat) : Prop where
  holds : s.Holds r.seqs held
  envs : s.envs = r.envs
  curenv : s.curenv = r.curenv
  schedulerStatus : s.schedulerStatus = r.schedulerStatus

/-- The roster of a state whose lists have the elements `seqs`. -/
def roster (s : Sched) (seqs : EnvList → List Nat) : Roster :=
  { seqs := seqs, envs := s.envs, curenv := s.curenv, schedulerStatus := s.schedulerStatus }

variable {s : Sched} {r r' : Roster} {held held' : List Nat} {i j : EnvList} {x : Nat}

theorem Holds.shows {seqs : EnvList → List Nat} (holds : s.Holds seqs held) :
    s.Shows (s.roster seqs) held :=
  ⟨holds, rfl, rfl, rfl⟩

/-- A state has one roster. -/
theorem Shows.unique (shows : s.Shows r held) (shows' : s.Shows r' held') : r = r' := by
  cases r
  cases r'
  obtain ⟨holds, rfl, rfl, rfl⟩ := shows
  obtain ⟨holds', envs, curenv, status⟩ := shows'
  have seqs := holds.lists.unique holds'.lists
  dsimp only at seqs envs curenv status
  rw [seqs, envs, curenv, status]

theorem Shows.saveNext (shows : s.Shows r held) (i : EnvList) (var : Option Nat) :
    (saveNext i var s).Shows r held :=
  ⟨shows.holds.congr (shows.holds.lists.savePtrNext i _) fun _ => ⟨rfl, rfl⟩, shows.envs,
    shows.curenv, shows.schedulerStatus⟩

/-- The saved successor is the next element of the list. -/
theorem Shows.ptrNext (shows : s.Shows r held) {pre rest : List Nat}
    (list : r.seqs i = pre ++ x :: rest) :
    ((Fos.saveNext i (some x) s).lists.head i).ptrNext = rest.head? := by
  rw [← shows.holds.lists.next list]
  exact Lists.savePtrNext_ptrNext ..

/-! The functions of the queues leave the saved successors of `LIST_FOREACH` alone. -/

@[simp] theorem setStatus_ptrNext (s : Sched) (x : Nat) (st : EnvStatus) (i : EnvList) :
    ((s.setStatus x st).lists.head i).ptrNext = (s.lists.head i).ptrNext := rfl

@[simp] theorem removeFromQueue_ptrNext (s : Sched) (i j : EnvList) (x : Nat) :
    ((s.removeFromQueue i x).lists.head j).ptrNext = (s.lists.head j).ptrNext :=
  Lists.remove_ptrNext ..

@[simp] theorem enqueue_ptrNext (s : Sched) (i j : EnvList) (x : Nat) :
    ((s.enqueue i x).lists.head j).ptrNext = (s.lists.head j).ptrNext :=
  Lists.insertHead_ptrNext ..

@[simp] theorem startEnvFree_ptrNext (s : Sched) (x : Nat) (i : EnvList) :
    ((s.startEnvFree x).lists.head i).ptrNext = (s.lists.head i).ptrNext :=
  Lists.insertHead_ptrNext ..

theorem Shows.removeFromQueue (shows : s.Shows r held) (queue : i ≠ .envFreeList)
    (member : x ∈ r.seqs i) :
    (s.removeFromQueue i x).Shows (r.removeFromQueue i x) (x :: held) :=
  ⟨shows.holds.removeFromQueue queue member, shows.envs, shows.curenv, shows.schedulerStatus⟩

theorem Shows.enqueue (shows : s.Shows r (x :: held)) (queue : i ≠ .envFreeList) :
    (s.enqueue i x).Shows (r.enqueue i x) held :=
  ⟨shows.holds.enqueue queue, shows.envs, shows.curenv, shows.schedulerStatus⟩

theorem Shows.setStatus (shows : s.Shows r held) (member : x ∈ held) (st : EnvStatus)
    (st_ne : st ≠ .free) : (s.setStatus x st).Shows (r.setStatus x st) held := by
  refine ⟨shows.holds.setStatus member st st_ne, ?_, shows.curenv, shows.schedulerStatus⟩
  simp only [Sched.setStatus, Sched.setEnv, Roster.setStatus, Roster.setEnv, shows.envs]

theorem Shows.startEnvFree (shows : s.Shows r (x :: held)) :
    (s.startEnvFree x).Shows ((r.setEnv x .zero).enqueue .envFreeList x) held := by
  refine ⟨shows.holds.freeEnvironment, ?_, shows.curenv, shows.schedulerStatus⟩
  simp only [Sched.startEnvFree, Sched.freeEnvironment, Sched.enqueue, Sched.setStatus,
    Sched.setEnv, Roster.setEnv, Roster.enqueue, shows.envs, Function.update_self,
    Function.update_idem, EnvSlot.zero]

/-- Giving up `curenv`, or another assignment to it. -/
theorem Shows.setCurenv (shows : s.Shows r held) (cur : Option Nat) :
    ({ s with curenv := cur } : Sched).Shows { r with curenv := cur } held :=
  ⟨shows.holds.congr shows.holds.lists fun _ => ⟨rfl, rfl⟩, shows.envs, rfl,
    shows.schedulerStatus⟩

/-! ## Moves between the lists -/

theorem Shows.move (shows : s.Shows r held) (source : i ≠ .envFreeList)
    (target : j ≠ .envFreeList) {st : EnvStatus} (st_ne : st ≠ .free) (member : x ∈ r.seqs i) :
    (((s.removeFromQueue i x).setStatus x st).enqueue j x).Shows (r.move i j st x) held :=
  ((shows.removeFromQueue source member).setStatus (by simp) st st_ne).enqueue target

theorem Shows.release (shows : s.Shows r held) (source : i ≠ .envFreeList)
    (member : x ∈ r.seqs i) :
    ((s.removeFromQueue i x).startEnvFree x).Shows (r.release i x) held :=
  (shows.removeFromQueue source member).startEnvFree

theorem Shows.new_ready (shows : s.Shows r held) (member : x ∈ r.seqs .envNewQueue) :
    ((s.schedRemoveNew x).schedInsertReady x).Shows
      (r.move .envNewQueue .envReadyQueue .ready x) held := by
  simp only [schedRemoveNew, schedInsertReady, setStatus_setStatus]
  exact shows.move (by decide) (by decide) (by decide) member

theorem Shows.ready_exit (shows : s.Shows r held) (member : x ∈ r.seqs .envReadyQueue) :
    ((s.removeFromQueue .envReadyQueue x).schedInsertExit (some x)).Shows
      (r.move .envReadyQueue .envExitQueue .exit x) held :=
  shows.move (by decide) (by decide) (by decide) member

theorem Shows.new_free (shows : s.Shows r held) (member : x ∈ r.seqs .envNewQueue) :
    ((s.schedRemoveNew x).startEnvFree x).Shows (r.release .envNewQueue x) held := by
  simp only [schedRemoveNew, setStatus_startEnvFree]
  exact shows.release (by decide) member

theorem Shows.exit_free (shows : s.Shows r held) (member : x ∈ r.seqs .envExitQueue) :
    ((s.schedRemoveExit x).startEnvFree x).Shows (r.release .envExitQueue x) held := by
  simp only [schedRemoveExit, setStatus_startEnvFree]
  exact shows.release (by decide) member

/-! ## Loops over a queue -/

/-- An element that has been visited is not visited again. -/
theorem Shows.erase_pre (shows : s.Shows r held) {pre rest : List Nat}
    (list : r.seqs i = pre ++ x :: rest) : (r.seqs i).erase x = pre ++ rest := by
  have nodup := (shows.holds.lists.list i).nodup
  rw [list] at nodup ⊢
  have x_pre : x ∉ pre := fun member =>
    (List.nodup_append.mp nodup).2.2 x member x (by simp) rfl
  rw [List.erase_append_right _ x_pre, List.erase_cons_head]

/-- A loop that moves every element of a queue, with a property of the roster that each
move keeps. -/
theorem Shows.foreachEnv {P : Roster → Prop} {move : Sched → Nat → Sched}
    {edit : Roster → Nat → Roster}
    (moves : ∀ t q x, t.Shows q held → P q → x ∈ q.seqs i →
      (move t x).Shows (edit q x) held ∧ P (edit q x) ∧
        ((move t x).lists.head i).ptrNext = (t.lists.head i).ptrNext)
    (erased : ∀ q x, (edit q x).seqs i = (q.seqs i).erase x) (shows : s.Shows r held)
    (has : P r) :
    ∃ t q, s.foreachEnv i (fun x s => .next (move s x)) = .done none t ∧
      t.Shows q held ∧ P q := by
  rw [Sched.foreachEnv, shows.holds.lists.first i]
  -- the elements that are still to come are the whole list, as the others have moved
  refine listForeach_rule
    (fun rest (t : Sched) => ∃ q, t.Shows q held ∧ P q ∧ q.seqs i = rest)
    (fun result => ∃ t q, result = .done none t ∧ Shows t q held ∧ P q)
    (fun x rest t inv => ?_) (fun t inv => ?_) (shows.holds.length_le i)
    ⟨r, shows, has, rfl⟩
  · obtain ⟨q, shown, hasq, list⟩ := inv
    have moved := moves _ q x (shown.saveNext i (some x)) hasq (by simp [list])
    have whole : q.seqs i = [] ++ x :: rest := list
    have next := shown.ptrNext whole
    refine ⟨⟨edit q x, moved.1, moved.2.1, ?_⟩, moved.2.2.trans next⟩
    rw [erased, list, List.erase_cons_head]
  · obtain ⟨q, shown, hasq, -⟩ := inv
    exact ⟨_, q, rfl, shown.saveNext i none, hasq⟩

/-- A searching loop that finds nothing leaves the roster alone. -/
theorem Shows.takeNone (shows : s.Shows r held) {envId : BitVec 32}
    (take : Sched → Nat → Sched) (stop : Bool)
    (unmatched : ∀ x ∈ r.seqs i, (r.envs x).envId ≠ envId) :
    ∃ t, s.takeMatches i envId take stop = .done none (t, false) ∧ t.Shows r held := by
  rw [Sched.takeMatches, shows.holds.lists.first i]
  refine listForeach_rule (s := (s, false))
    (fun rest t => t.2 = false ∧ t.1.Shows r held ∧ ∃ pre, r.seqs i = pre ++ rest)
    (fun result => ∃ t, result = .done none (t, false) ∧ t.Shows r held)
    (fun x rest t inv => ?_) (fun t inv => ?_) (shows.holds.length_le i)
    ⟨rfl, shows, [], rfl⟩
  · obtain ⟨t, found⟩ := t
    obtain ⟨rfl, shown, pre, list⟩ := inv
    have next := shown.ptrNext list
    have saved := shown.saveNext i (some x)
    have differs : ¬ ((Fos.saveNext i (some x) t).envs x).envId = envId := by
      rw [saved.envs]
      exact unmatched x (by simp [list])
    dsimp only [Fos.saveNext, HasLists.lists, HasLists.setLists] at differs saved next ⊢
    rw [if_neg differs]
    exact ⟨⟨rfl, saved, pre ++ [x], by simp [list]⟩, next⟩
  · obtain ⟨t, found⟩ := t
    obtain ⟨rfl, shown, -⟩ := inv
    exact ⟨_, rfl, shown.saveNext i none⟩

/-- A searching loop that finds the one environment with the identifier.  With a `break`
its variable is that environment, and without one it is null. -/
theorem Shows.takeMatch (shows : s.Shows r held) {envId : BitVec 32} {e : Nat}
    (take : Sched → Nat → Sched) (stop : Bool) (member : e ∈ r.seqs i)
    (matched : ∀ x ∈ r.seqs i, (r.envs x).envId = envId ↔ x = e)
    (taken : ∀ t, t.Shows r held → (take t e).Shows r' held' ∧
      ((take t e).lists.head i).ptrNext = (t.lists.head i).ptrNext)
    (erased : r'.seqs i = (r.seqs i).erase e)
    (kept : ∀ x ∈ r.seqs i, x ≠ e → (r'.envs x).envId = (r.envs x).envId) :
    ∃ t, s.takeMatches i envId take stop = .done (if stop then some e else none) (t, true) ∧
      t.Shows r' held' := by
  -- before the match the roster is `r`, and after it `r'`
  let Before (rest : List Nat) (t : Sched) : Prop :=
    t.Shows r held ∧ ∃ pre, r.seqs i = pre ++ rest ∧ e ∉ pre
  let After (rest : List Nat) (t : Sched) : Prop :=
    stop = false ∧ t.Shows r' held' ∧ ∃ pre, r'.seqs i = pre ++ rest
  rw [Sched.takeMatches, shows.holds.lists.first i]
  refine listForeach_rule (s := (s, false))
    (fun rest t => (t.2 = false ∧ Before rest t.1) ∨ (t.2 = true ∧ After rest t.1))
    (fun result => ∃ t, result = .done (if stop then some e else none) (t, true) ∧
      t.Shows r' held')
    (fun x rest t inv => ?_) (fun t inv => ?_) (shows.holds.length_le i)
    (Or.inl ⟨rfl, shows, [], rfl, by simp⟩)
  · obtain ⟨t, found⟩ := t
    rcases inv with ⟨rfl, shown, pre, list, notin⟩ | ⟨rfl, going, shown, pre, list⟩
    · have next := shown.ptrNext list
      have saved := shown.saveNext i (some x)
      have test : ((Fos.saveNext i (some x) t).envs x).envId = envId ↔ x = e := by
        rw [saved.envs]
        exact matched x (by simp [list])
      have found := taken _ saved
      dsimp only [Fos.saveNext, HasLists.lists, HasLists.setLists] at test saved next found ⊢
      by_cases here : x = e
      · subst here
        rw [if_pos (test.mpr rfl)]
        cases stop with
        | true => exact ⟨_, rfl, found.1⟩
        | false =>
          refine ⟨Or.inr ⟨rfl, rfl, found.1, pre, ?_⟩, found.2.trans next⟩
          rw [erased, shows.erase_pre list]
      · rw [if_neg fun eq => here (test.mp eq)]
        refine ⟨Or.inl ⟨rfl, saved, pre ++ [x], by simp [list], ?_⟩, next⟩
        simpa [notin] using fun eq : e = x => here eq.symm
    · have next := shown.ptrNext list
      have saved := shown.saveNext i (some x)
      have old : x ∈ r.seqs i ∧ x ≠ e := by
        have there : x ∈ (r.seqs i).erase e := by rw [← erased, list]; simp
        exact ((shows.holds.lists.list i).nodup.mem_erase_iff.mp there).symm
      have differs : ¬ ((Fos.saveNext i (some x) t).envs x).envId = envId := by
        rw [saved.envs, kept x old.1 old.2]
        exact fun eq => old.2 ((matched x old.1).mp eq)
      dsimp only [Fos.saveNext, HasLists.lists, HasLists.setLists] at differs saved next ⊢
      rw [if_neg differs]
      exact ⟨Or.inr ⟨rfl, going, saved, pre ++ [x], by simp [list]⟩, next⟩
  · obtain ⟨t, found⟩ := t
    rcases inv with ⟨rfl, shown, pre, list, notin⟩ | ⟨rfl, going, shown, pre, list⟩
    · rw [List.append_nil] at list
      exact absurd (list ▸ member) notin
    · rw [going]
      exact ⟨_, rfl, shown.saveNext i none⟩

end Sched

end Fos
