import Fos.Sched.Contracts

/-!
# The status of an environment and its place

`fos_scheduler` puts `curenv` back into the ready queue without a new status, unlike
`sched_insert_ready`.

* `Sched.panicked`: what `_panic` makes of the status of `curenv`;
* `Settled`: statuses and places agree, and the scheduler runs while there is a `curenv`;
* `Op.after_settled`: every operation keeps that, if no clock interrupt takes the processor
  from an environment while another one is ready;
* `Runs.status_tells`: the same for runs from boot.
-/

namespace Fos

/-- The status of the environments on a list. -/
def EnvList.status : EnvList → EnvStatus
  | .envFreeList => .free
  | .envNewQueue => .new
  | .envReadyQueue => .ready
  | .envExitQueue => .exit

namespace Roster

/-- The environments on the lists have the status of their list. -/
def Labelled (r : Roster) : Prop := ∀ i, ∀ e ∈ r.seqs i, (r.envs e).envStatus = i.status

end Roster

namespace Sched

/-- `_panic`, for which a running environment is one with the status `ENV_RUNNABLE`. -/
def panicked (s : Sched) : Ctl Sched :=
  match s.curenv with
  | some cur =>
    if (s.envs cur).envStatus = .runnable then s.envExit else .leaves s.fosScheduler
  | none => .leaves s.fosScheduler

/-- The state after an operation, which may have panicked. -/
def Op.After (s : Sched) (op : Op) (s' : Sched) : Prop :=
  op.exec s = .returns s' ∨ op.exec s = .leaves s' ∨
    ∃ t : Sched, op.exec s = .panics t ∧ t.panicked = .leaves s'

/-- The runs of `sched_new_env`, `sched_run_env`, `sched_run_all`, the clock, `env_exit`,
`sched_kill_env` and `sched_exit_all_ready_envs` whose steps are all allowed. -/
inductive Runs (Allowed : Sched → Op → Prop) : Sched → Prop
  | boot : Runs Allowed boot
  | step {s s' : Sched} (op : Op) : Runs Allowed s → op ≠ .killAll → Allowed s op →
    op.After s s' → Runs Allowed s'

/-- A clock interrupt finds no environment running, or none ready. -/
def Undisturbed (s : Sched) (op : Op) : Prop :=
  op = .clock → s.curenv = none ∨ (s.lists.head .envReadyQueue).lhFirst = none

/-- The status of an environment tells where it is. -/
def StatusTells (s : Sched) : Prop :=
  ∃ seqs, s.lists.Rep seqs ∧ (∀ i, ∀ e ∈ seqs i, (s.envs e).envStatus = i.status) ∧
    ∀ cur, s.curenv = some cur → (s.envs cur).envStatus = .runnable

/-- The roster of a state between two operations. -/
structure Settled (s : Sched) (r : Roster) : Prop where
  shows : s.Shows r r.curenv.toList
  labelled : r.Labelled
  running : ∀ cur, r.curenv = some cur → (r.envs cur).envStatus = .runnable
  started : r.schedulerStatus = .stopped → r.curenv = none

variable {s : Sched} {r : Roster} {held : List Nat} {i j : EnvList} {x : Nat}

/-! ## Edits of the roster -/

/-- The edit that puts `x` at the head of one list, gone from the others and relabelled. -/
theorem labelled_place {r r' : Roster} (labelled : r.Labelled)
    (label : (r'.envs x).envStatus = j.status) (envs : ∀ f, f ≠ x → r'.envs f = r.envs f)
    (seqs : ∀ k, ∀ e ∈ r'.seqs k, e ≠ x → e ∈ r.seqs k)
    (only : ∀ k, x ∈ r'.seqs k → k = j) : r'.Labelled := by
  intro k e member
  rcases eq_or_ne e x with rfl | ne
  · rw [only k member, label]
  · rw [envs e ne, labelled k e (seqs k e member ne)]

/-- Where an element is after it has gone from one list to another. -/
theorem Shows.only (shows : s.Shows r held) (member : x ∈ r.seqs i) {k : EnvList}
    (there : x ∈ Function.update (Function.update r.seqs i ((r.seqs i).erase x)) j
      (x :: Function.update r.seqs i ((r.seqs i).erase x) j) k) : k = j := by
  by_contra other
  rw [Function.update_of_ne other] at there
  rcases eq_or_ne k i with rfl | ne
  · rw [Function.update_self] at there
    exact ((shows.holds.lists.list k).nodup.mem_erase_iff.mp there).1 rfl
  · rw [Function.update_of_ne ne] at there
    exact shows.holds.lists.disjoint k i ne there member

theorem mem_of_update {seqs : EnvList → List Nat} {k : EnvList} {e : Nat} (ne : e ≠ x)
    (there : e ∈ Function.update (Function.update seqs i ((seqs i).erase x)) j
      (x :: Function.update seqs i ((seqs i).erase x) j) k) : e ∈ seqs k := by
  have erased : ∀ k, e ∈ Function.update seqs i ((seqs i).erase x) k → e ∈ seqs k := by
    intro k there
    rcases eq_or_ne k i with rfl | other
    · rw [Function.update_self] at there
      exact List.mem_of_mem_erase there
    · rwa [Function.update_of_ne other] at there
  rcases eq_or_ne k j with rfl | other
  · rw [Function.update_self, List.mem_cons] at there
    exact erased k (there.resolve_left ne)
  · rw [Function.update_of_ne other] at there
    exact erased k there

theorem Shows.labelled_move (shows : s.Shows r held) (labelled : r.Labelled)
    (member : x ∈ r.seqs i) : (r.move i j j.status x).Labelled := by
  refine labelled_place (x := x) (j := j) labelled ?_ (fun f ne => Function.update_of_ne ne ..)
    (fun k e there ne => mem_of_update ne there) fun k there => shows.only member there
  simp [Roster.move, Roster.enqueue, Roster.setStatus, Roster.setEnv]

theorem Shows.labelled_release (shows : s.Shows r held) (labelled : r.Labelled)
    (member : x ∈ r.seqs i) : (r.release i x).Labelled := by
  refine labelled_place (x := x) (j := .envFreeList) labelled ?_
    (fun f ne => Function.update_of_ne ne ..)
    (fun k e there ne => mem_of_update ne there) fun k there => shows.only member there
  simp [Roster.release, Roster.enqueue, Roster.setEnv, EnvSlot.zero, EnvList.status]

/-! ## The scheduler -/

/-- `env_run` of a held environment settles the state. -/
theorem Shows.envRun (shows : s.Shows r [x]) (labelled : r.Labelled)
    (started : r.schedulerStatus = .started) : ∃ r', (s.envRun x).Settled r' := by
  obtain ⟨holds, running⟩ := shows.holds.runs
  have envs : ∀ f, f ≠ x → (s.envRun x).envs f = s.envs f := by
    intro f ne
    rw [Sched.envRun]
    split <;> simp [Sched.setStatus, setEnv, Function.update_of_ne ne]
  have status : ((s.envRun x).envs x).envStatus = .runnable := by
    simp [Sched.envRun, Sched.setStatus, setEnv]
  have still : (s.envRun x).schedulerStatus = .started := by
    rw [← started, ← shows.schedulerStatus, Sched.envRun]
    split <;> rfl
  refine ⟨(s.envRun x).roster r.seqs, ⟨?_, fun i e member => ?_, fun cur is => ?_,
    fun stopped => ?_⟩⟩
  · have same : ((s.envRun x).roster r.seqs).curenv.toList = [x] := by
      rw [roster, running]
      rfl
    rw [same]
    exact holds.shows
  · have ne : e ≠ x := fun eq => shows.holds.loose (by simp) i (eq ▸ member)
    change ((s.envRun x).envs e).envStatus = _
    rw [envs e ne, shows.envs]
    exact labelled i e member
  · obtain rfl : x = cur := by
      have : (s.envRun x).curenv = some cur := is
      simpa [running] using this
    exact status
  · exact absurd (still.symm.trans stopped) (by decide)

/-- The second half of `fos_scheduler` settles the state; the environment that it runs may
have any status. -/
theorem Shows.runNext (shows : s.Shows r []) (started : r.schedulerStatus = .started)
    (labelled : ∀ i, ∀ e ∈ r.seqs i, (r.seqs .envReadyQueue).getLast? ≠ some e →
      (r.envs e).envStatus = i.status) : ∃ r', s.runNext.Settled r' := by
  have last := shows.holds.lists.last .envReadyQueue
  cases list : (r.seqs .envReadyQueue).getLast? with
  | none =>
    rw [list] at last
    have stops : s.runNext = { s with curenv := none, schedulerStatus := .stopped } := by
      rw [Sched.runNext, Sched.dequeue, last]
    rw [stops]
    exact ⟨{ r with curenv := none, schedulerStatus := .stopped },
      ⟨shows.holds.congr shows.holds.lists fun _ => ⟨rfl, rfl⟩, shows.envs, rfl, rfl⟩,
      fun i e member => labelled i e member (by simp [list]), by simp, fun _ => rfl⟩
  | some x =>
    rw [list] at last
    have runs : s.runNext = (s.removeFromQueue .envReadyQueue x).envRun x := by
      rw [Sched.runNext, Sched.dequeue, last]
    have removed := shows.removeFromQueue (i := .envReadyQueue) (by decide)
      (List.mem_of_getLast? list)
    rw [runs]
    refine removed.envRun (fun i e there => ?_) started
    have ne : e ≠ x := fun eq => removed.holds.loose (by simp) i (eq ▸ there)
    refine labelled i e ?_ (by simpa [list] using ne.symm)
    simp only [Roster.removeFromQueue] at there
    rcases eq_or_ne i .envReadyQueue with rfl | other
    · rw [Function.update_self] at there
      exact List.mem_of_mem_erase there
    · rwa [Function.update_of_ne other] at there

/-- `fos_scheduler` settles the state if it does not have to put `curenv` behind another
environment of the ready queue. -/
theorem Shows.fosScheduler (shows : s.Shows r r.curenv.toList) (labelled : r.Labelled)
    (calm : r.curenv = none ∨ r.seqs .envReadyQueue = []) :
    ∃ r', s.fosScheduler.Settled r' := by
  have started : ({ s with schedulerStatus := .started } : Sched).Shows
      { r with schedulerStatus := .started } r.curenv.toList :=
    ⟨shows.holds.congr shows.holds.lists fun _ => ⟨rfl, rfl⟩, shows.envs, shows.curenv, rfl⟩
  rw [Sched.fosScheduler]
  cases cur : r.curenv with
  | none =>
    have idle : ({ s with schedulerStatus := .started } : Sched).insertCurenv =
        { s with schedulerStatus := .started } := by
      simp [insertCurenv, shows.curenv, cur]
    rw [cur] at started
    rw [idle]
    exact started.runNext rfl fun i e member _ => labelled i e member
  | some c =>
    have empty := calm.resolve_left (by simp [cur])
    have queued : ({ s with schedulerStatus := .started } : Sched).insertCurenv =
        ({ s with schedulerStatus := .started } : Sched).enqueue .envReadyQueue c := by
      simp [insertCurenv, shows.curenv, cur]
    rw [cur] at started
    rw [queued]
    refine (started.enqueue (i := .envReadyQueue) (by decide)).runNext rfl
      fun i e member other => ?_
    simp only [Roster.enqueue] at member other
    rcases eq_or_ne i .envReadyQueue with rfl | ne
    · rw [Function.update_self, empty, List.mem_singleton] at member
      simp [empty, member] at other
    · rw [Function.update_of_ne ne] at member
      exact labelled i e member

/-! ## The operations -/

/-- The function returns, or ends in the scheduler, in a settled state. -/
def Settles (end_ : Ctl Sched) : Prop :=
  ∃ s' r', (end_ = .returns s' ∨ end_ = .leaves s') ∧ Settled s' r'

theorem Settled.returns (settled : s.Settled r) : Settles (.returns s) :=
  ⟨s, r, Or.inl rfl, settled⟩

theorem Shows.leaves (shows : s.Shows r r.curenv.toList) (labelled : r.Labelled)
    (calm : r.curenv = none ∨ r.seqs .envReadyQueue = []) : Settles (.leaves s.fosScheduler) := by
  obtain ⟨r', settled⟩ := shows.fosScheduler labelled calm
  exact ⟨_, r', Or.inr rfl, settled⟩

theorem Settled.startIfStopped (settled : s.Settled r) : Settles s.startIfStopped := by
  rw [Sched.startIfStopped]
  split
  · rename_i stopped
    rw [settled.shows.schedulerStatus] at stopped
    exact settled.shows.leaves settled.labelled (Or.inl (settled.started stopped))
  · exact settled.returns

/-- Another roster with the same `curenv`, which an edit of the queues leaves alone. -/
theorem Settled.edit (settled : s.Settled r) {s' : Sched} {r' : Roster}
    (shows : s'.Shows r' r.curenv.toList) (labelled : r'.Labelled) (curenv : r'.curenv = r.curenv)
    (status : r'.schedulerStatus = r.schedulerStatus)
    (envs : ∀ cur, r.curenv = some cur → r'.envs cur = r.envs cur) : s'.Settled r' := by
  refine ⟨?_, labelled, fun cur running => ?_, fun stopped => ?_⟩
  · rw [curenv]
    exact shows
  · rw [curenv] at running
    rw [envs cur running]
    exact settled.running cur running
  · rw [curenv]
    exact settled.started (status ▸ stopped)

/-- `curenv` is not on the list from which an environment is taken. -/
theorem Settled.ne_curenv (settled : s.Settled r) (member : x ∈ r.seqs i) {cur : Nat}
    (running : r.curenv = some cur) : cur ≠ x := by
  rintro rfl
  exact settled.shows.holds.loose (by simp [running]) i member

theorem Settled.move (settled : s.Settled r) {s' : Sched} (member : x ∈ r.seqs i)
    (shows : s'.Shows (r.move i j j.status x) r.curenv.toList) :
    s'.Settled (r.move i j j.status x) :=
  settled.edit shows (settled.shows.labelled_move settled.labelled member) rfl rfl
    fun _ running => Function.update_of_ne (settled.ne_curenv member running) ..

theorem Settled.release (settled : s.Settled r) {s' : Sched} (member : x ∈ r.seqs i)
    (shows : s'.Shows (r.release i x) r.curenv.toList) : s'.Settled (r.release i x) :=
  settled.edit shows (settled.shows.labelled_release settled.labelled member) rfl rfl
    fun _ running => Function.update_of_ne (settled.ne_curenv member running) ..

/-- A loop that moves a whole queue. -/
theorem Settled.moveAll (settled : s.Settled r) (ne : i ≠ j) {move : Sched → Nat → Sched}
    (moves : ∀ (t : Sched) q x, t.Shows q r.curenv.toList → x ∈ q.seqs i →
      (move t x).Shows (q.move i j j.status x) r.curenv.toList ∧
        ((move t x).lists.head i).ptrNext = (t.lists.head i).ptrNext) :
    ∃ t q, s.foreachEnv i (fun x s => .next (move s x)) = .done none t ∧ t.Settled q := by
  -- `curenv` and its slot stay as they are
  let Moved (q : Roster) : Prop := q.Labelled ∧ q.curenv = r.curenv ∧
    q.schedulerStatus = r.schedulerStatus ∧ ∀ cur, r.curenv = some cur → q.envs cur = r.envs cur
  have pass : ∀ (t : Sched) q x, t.Shows q r.curenv.toList → Moved q → x ∈ q.seqs i →
      (move t x).Shows (q.move i j j.status x) r.curenv.toList ∧ Moved (q.move i j j.status x) ∧
        ((move t x).lists.head i).ptrNext = (t.lists.head i).ptrNext := by
    intro t q x shown ⟨labelled, curenv, status, envs⟩ member
    obtain ⟨moved, saved⟩ := moves t q x shown member
    refine ⟨moved, ⟨shown.labelled_move labelled member, curenv, status, fun cur running => ?_⟩,
      saved⟩
    have other : cur ≠ x := fun eq => shown.holds.loose (by simp [running]) i (eq ▸ member)
    rw [← envs cur running]
    exact Function.update_of_ne other ..
  have erased : ∀ (q : Roster) x, (q.move i j j.status x).seqs i = (q.seqs i).erase x := by
    intro q x
    simp [Roster.move, Roster.enqueue, Roster.setStatus, Roster.setEnv, Roster.removeFromQueue,
      Function.update_of_ne ne]
  obtain ⟨t, q, loop, shown, labelled, curenv, status, envs⟩ :=
    settled.shows.foreachEnv pass erased ⟨settled.labelled, rfl, rfl, fun _ _ => rfl⟩
  exact ⟨t, q, loop, settled.edit shown labelled curenv status envs⟩

theorem Settled.schedRunAll (settled : s.Settled r) : Settles s.schedRunAll := by
  obtain ⟨t, q, loop, moved⟩ := settled.moveAll (i := .envNewQueue) (j := .envReadyQueue)
    (by decide) (fun t q x shown member => ⟨shown.new_ready member,
      by simp [schedRemoveNew, schedInsertReady]⟩)
  rw [Sched.schedRunAll, loop]
  exact moved.startIfStopped

theorem Settled.schedExitAllReadyEnvs (settled : s.Settled r) :
    Settles s.schedExitAllReadyEnvs := by
  rw [Sched.schedExitAllReadyEnvs]
  split
  · exact settled.returns
  · obtain ⟨t, q, loop, moved⟩ := settled.moveAll (i := .envReadyQueue) (j := .envExitQueue)
      (by decide) (fun t q x shown member => ⟨shown.ready_exit member, by simp [schedInsertExit]⟩)
    rw [loop]
    exact moved.returns

/-- The loop of `sched_run_env` leaves at the environment that it starts. -/
theorem Settled.schedRunEnv (settled : s.Settled r) (envId : BitVec 32) :
    Settles (s.schedRunEnv envId) := by
  rw [Sched.schedRunEnv, Sched.foreachEnv, settled.shows.holds.lists.first]
  refine listForeach_rule
    (fun rest (t : Sched) => t.Settled r ∧ ∃ pre, r.seqs .envNewQueue = pre ++ rest)
    (fun result => Settles (result.andThen fun _ s => .returns s))
    (fun x rest t inv => ?_) (fun t inv => ?_) (settled.shows.holds.length_le _)
    ⟨settled, [], rfl⟩
  · obtain ⟨here, pre, list⟩ := inv
    have member : x ∈ r.seqs .envNewQueue := by simp [list]
    have next := here.shows.ptrNext list
    have saved := here.edit (here.shows.saveNext .envNewQueue (some x)) here.labelled rfl rfl
      fun _ _ => rfl
    have started := (saved.move member (saved.shows.new_ready member)).startIfStopped
    split
    · rename_i eq
      split at eq
      · split at eq <;> simp at eq
      · simp only [Flow.next.injEq] at eq
        subst eq
        exact ⟨⟨saved, pre ++ [x], by simp [list]⟩, next⟩
    · rename_i eq
      split at eq
      · split at eq
        · rename_i run
          rw [run] at started
          simp only [Flow.brk.injEq] at eq
          subst eq
          exact started
        · simp at eq
      · simp at eq
    · rename_i eq
      split at eq
      · split at eq
        · simp at eq
        · simp only [Flow.ret.injEq] at eq
          subst eq
          exact started
      · simp at eq
  · obtain ⟨here, -⟩ := inv
    exact (here.edit (here.shows.saveNext .envNewQueue none) here.labelled rfl rfl
      fun _ _ => rfl).returns

/-- `env_create` hands out the first slot of the free list, and writes no other. -/
theorem envCreate_envs {programKnown : Bool} {s' : Sched}
    (created : s.envCreate programKnown = (some x, s')) :
    (s.lists.head .envFreeList).lhFirst = some x ∧ (∀ f, f ≠ x → s'.envs f = s.envs f) ∧
      s'.schedulerStatus = s.schedulerStatus := by
  rw [Sched.envCreate] at created
  cases programKnown with
  | false => simp at created
  | true =>
    rw [allocateEnvironment] at created
    cases first : (s.lists.head .envFreeList).lhFirst with
    | none => simp [first] at created
    | some e =>
      simp only [if_true, first, Prod.mk.injEq, Option.some.injEq] at created
      obtain ⟨rfl, rfl⟩ := created
      refine ⟨rfl, fun f ne => ?_, rfl⟩
      simp [completeEnvironmentInitialization, Sched.removeFromQueue, Sched.setStatus, setEnv,
        Function.update_of_ne ne]

/-- `env_create` followed by `sched_new_env`. -/
theorem Settled.newEnv (settled : s.Settled r) (programKnown : Bool) :
    Settles (.returns ((s.envCreate programKnown).2.schedNewEnv (s.envCreate programKnown).1)) := by
  have holds := settled.shows.holds
  rcases holds.envCreate programKnown with null | ⟨x, s', created, keep, holds'⟩
  · rw [null]
    exact settled.returns
  · obtain ⟨first, envs, status⟩ := envCreate_envs created
    have member : x ∈ r.seqs .envFreeList :=
      List.mem_of_head? ((holds.lists.first _).symm.trans first)
    have new := (holds'.shows.setStatus (x := x) (by simp) .new (by decide)).enqueue
      (i := .envNewQueue) (by decide)
    have stays : ∀ f, f ≠ x → Function.update s'.envs x { s'.envs x with envStatus := .new } f =
        r.envs f := by
      intro f ne
      rw [Function.update_of_ne ne, envs f ne, settled.shows.envs]
    rw [created]
    refine (settled.edit new ?_ (keep.trans settled.shows.curenv)
      (status.trans settled.shows.schedulerStatus) fun cur running => ?_).returns
    · refine labelled_place (x := x) (j := .envNewQueue) settled.labelled ?_ stays
        (fun k e there ne => mem_of_update ne there) fun k there => settled.shows.only member there
      simp [Roster.enqueue, Roster.setStatus, Roster.setEnv, EnvList.status]
    · exact stays cur (settled.ne_curenv member running)

/-- `env_exit` leaves `curenv` in the exit queue and the scheduler without one. -/
theorem Settled.envExit (settled : s.Settled r) {cur : Nat} (running : r.curenv = some cur) :
    Settles s.envExit := by
  have same := settled.shows.curenv
  rw [running] at same
  have nobody : ∀ e, ¬ r.Queued Roster.exitQueues (s.envs cur).envId e := by
    rintro e ⟨⟨i, listed, member⟩, has⟩
    have queue : i ≠ .envFreeList := by
      rintro rfl
      simp [Roster.exitQueues] at listed
    have holds := settled.shows.holds
    rw [← settled.shows.curenv] at holds
    refine holds.curenv_unmatched same queue e member ?_
    rw [settled.shows.envs] at has ⊢
    exact has
  obtain ⟨t, run, shown⟩ := settled.shows.schedExitEnv_unqueued nobody
  have ends := (shown.schedExitCurenv (s.envs cur).envId).2 cur running
  rw [if_pos (by rw [settled.shows.envs])] at ends
  have loose : ∀ i, cur ∉ r.seqs i := settled.shows.holds.loose (by simp [running])
  have labelled : (r.exitRunning cur).Labelled := by
    refine labelled_place (x := cur) (j := .envExitQueue) settled.labelled ?_
      (fun f ne => Function.update_of_ne ne ..) (fun k e there ne => ?_) fun k there => ?_
    · simp [Roster.exitRunning, Roster.enqueue, Roster.setStatus, Roster.setEnv, EnvList.status]
    · simp only [Roster.exitRunning, Roster.enqueue, Roster.setStatus, Roster.setEnv] at there
      rcases eq_or_ne k .envExitQueue with rfl | other
      · rw [Function.update_self, List.mem_cons] at there
        exact there.resolve_left ne
      · rwa [Function.update_of_ne other] at there
    · by_contra other
      simp only [Roster.exitRunning, Roster.enqueue, Roster.setStatus, Roster.setEnv] at there
      rw [Function.update_of_ne other] at there
      exact loose k there
  have left : s.envExit = .leaves
      ({ t.schedInsertExit (some cur) with curenv := none } : Sched).fosScheduler := by
    rw [Sched.envExit, same]
    simp only [run, ends]
  rw [left]
  exact (shown.exitRunning running).leaves labelled (Or.inl rfl)

/-- A panic ends the environment that runs. -/
theorem Settled.panicked (settled : s.Settled r) : Settles s.panicked := by
  have same := settled.shows.curenv
  rw [Sched.panicked]
  cases cur : r.curenv with
  | none =>
    rw [cur] at same
    rw [same]
    exact settled.shows.leaves settled.labelled (Or.inl cur)
  | some c =>
    rw [cur] at same
    simp only [same]
    rw [settled.shows.envs, if_pos (settled.running c cur)]
    exact settled.envExit cur

/-- `sched_kill_env` frees an environment of a queue, does nothing, or panics. -/
theorem Settled.schedKillEnv (settled : s.Settled r) (envId : BitVec 32) :
    Settles (s.schedKillEnv envId) ∨ s.schedKillEnv envId = .nullDeref ∨
      ∃ t, s.schedKillEnv envId = .panics t ∧ Settled t r := by
  by_cases some : ∃ e, r.Queued Roster.killQueues envId e
  · obtain ⟨e, queued⟩ := some
    obtain ⟨i, queue, member, t, run, released⟩ := settled.shows.schedKillEnv_queued queued
    rw [run]
    exact Or.inl (settled.release member released).returns
  · obtain ⟨t, run, shown⟩ := settled.shows.schedKillEnv_unqueued (not_exists.mp some)
    have here : t.Settled r := settled.edit shown settled.labelled rfl rfl fun _ _ => rfl
    rw [run]
    rcases shown.schedKillCurenv envId with ⟨cur, -, -, ends⟩ | ⟨-, ends | ends⟩
    · rw [ends]
      exact Or.inl here.returns
    · exact Or.inr (Or.inl ends)
    · exact Or.inr (Or.inr ⟨t, ends, here⟩)

/-- Every operation but a clock interrupt that takes the processor away keeps statuses and
places in agreement. -/
theorem Op.after_settled {op : Op} {s' : Sched} (settled : s.Settled r) (listed : op ≠ .killAll)
    (calm : Undisturbed s op) (after : op.After s s') : ∃ r', s'.Settled r' := by
  have ends : Settles (op.exec s) ∨ op.exec s = .nullDeref ∨
      ∃ t, op.exec s = .panics t ∧ Settled t r := by
    cases op with
    | newEnv programKnown => exact Or.inl (settled.newEnv programKnown)
    | runEnv envId => exact Or.inl (settled.schedRunEnv envId)
    | runAll => exact Or.inl settled.schedRunAll
    | clock =>
      refine Or.inl (settled.shows.leaves settled.labelled ((calm rfl).imp (fun idle => ?_)
        fun empty => ?_))
      · rw [← settled.shows.curenv, idle]
      · rwa [settled.shows.holds.lists.first, List.head?_eq_none_iff] at empty
    | exit =>
      cases cur : r.curenv with
      | none =>
        have idle := settled.shows.curenv.trans cur
        exact Or.inr (Or.inl (by simp only [Op.exec, Sched.envExit, idle]))
      | some c => exact Or.inl (settled.envExit cur)
    | kill envId => exact settled.schedKillEnv envId
    | exitAllReady => exact Or.inl settled.schedExitAllReadyEnvs
    | killAll => exact absurd rfl listed
  -- a settled end is the state after the operation
  have settles : ∀ {end_ : Ctl Sched}, Settles end_ → end_ = .returns s' ∨ end_ = .leaves s' →
      ∃ r', s'.Settled r' := by
    rintro end_ ⟨t, r', rfl | rfl, here⟩ (eq | eq) <;> cases eq <;> exact ⟨r', here⟩
  rcases ends with ends | null | ⟨t, panics, here⟩
  · refine settles ends ?_
    rcases after with returns | leaves | ⟨t, panics, -⟩
    · exact Or.inl returns
    · exact Or.inr leaves
    · obtain ⟨t', r', eq | eq, -⟩ := ends <;> rw [eq] at panics <;> cases panics
  · rcases after with eq | eq | ⟨t, eq, -⟩ <;> rw [null] at eq <;> cases eq
  · rcases after with eq | eq | ⟨t', eq, ends'⟩ <;> rw [panics] at eq <;> cases eq
    exact settles here.panicked (Or.inr ends')

/-! ## Runs -/

theorem boot_settled : ∃ r, boot.Settled r := by
  obtain ⟨seqs, holds⟩ := boot_placed
  have empty : ∀ i, i ≠ .envFreeList → seqs i = [] := by
    intro i queue
    have first := holds.lists.first i
    have none : (boot.lists.head i).lhFirst = none := by
      cases i with
      | envFreeList => exact absurd rfl queue
      | envNewQueue => rfl
      | envReadyQueue => rfl
      | envExitQueue => rfl
    exact List.head?_eq_none_iff.mp (first.symm.trans none)
  refine ⟨boot.roster seqs, ⟨holds.shows, fun i e member => ?_, fun cur running => ?_,
    fun _ => rfl⟩⟩
  · rcases eq_or_ne i .envFreeList with rfl | queue
    · exact (holds.free e member).1
    · change e ∈ seqs i at member
      simp [empty i queue] at member
  · cases running

theorem Runs.settled {s : Sched} (runs : Runs Undisturbed s) : ∃ r, s.Settled r := by
  induction runs with
  | boot => exact boot_settled
  | step op _ listed calm after settled =>
    obtain ⟨r, settled⟩ := settled
    exact op.after_settled settled listed calm after

theorem Settled.tells (settled : s.Settled r) : s.StatusTells := by
  refine ⟨r.seqs, settled.shows.holds.lists, fun i e member => ?_, fun cur running => ?_⟩
  · rw [settled.shows.envs]
    exact settled.labelled i e member
  · rw [settled.shows.curenv] at running
    rw [settled.shows.envs]
    exact settled.running cur running

/-- **The status of an environment tells where it is** in every run whose clock interrupts
do not take the processor from an environment while another one is ready. -/
theorem Runs.status_tells {s : Sched} (runs : Runs Undisturbed s) : s.StatusTells := by
  obtain ⟨r, settled⟩ := runs.settled
  exact settled.tells

/-- Two environments run in turn, and the one that waits is still called runnable. -/
theorem status_runnable : ¬ ∀ s : Sched, Runs (fun _ _ => True) s → s.StatusTells := by
  intro tells
  have first : Runs (fun _ _ => True) _ :=
    .step (.newEnv true) .boot nofun trivial (.inl rfl)
  have second : Runs (fun _ _ => True) _ :=
    .step (.newEnv true) first nofun trivial (.inl rfl)
  have started : Runs (fun _ _ => True) _ :=
    .step .runAll second nofun trivial (.inr (.inl rfl))
  have switched : Runs (fun _ _ => True) _ :=
    .step .clock started nofun trivial (.inr (.inl rfl))
  obtain ⟨seqs, rep, labelled, -⟩ := tells _ switched
  have waiting : 1 ∈ seqs .envReadyQueue := List.mem_of_head? (rep.first .envReadyQueue).symm
  have status := labelled _ _ waiting
  cases status

/-- One of two environments exits, and the clock interrupts the other one, which is alone. -/
theorem status_tells_exit : ∃ s : Sched, s.curenv = some 0 ∧ (s.envs 1).envStatus = .exit ∧
    s.StatusTells := by
  have first : Runs Undisturbed _ :=
    .step (.newEnv true) .boot nofun nofun (.inl rfl)
  have second : Runs Undisturbed _ :=
    .step (.newEnv true) first nofun nofun (.inl rfl)
  have started : Runs Undisturbed _ :=
    .step .runAll second nofun nofun (.inr (.inl rfl))
  have exited : Runs Undisturbed _ :=
    .step .exit started nofun nofun (.inr (.inl rfl))
  have interrupted : Runs Undisturbed _ :=
    .step .clock exited nofun (fun _ => Or.inr rfl) (.inr (.inl rfl))
  exact ⟨_, rfl, rfl, interrupted.status_tells⟩

end Sched

end Fos
