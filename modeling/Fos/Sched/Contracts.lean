import Fos.Sched.Fairness
import Fos.Sched.Roster

/-!
# Killing and exiting an environment

What `sched_kill_env` and `sched_exit_env` do to the roster, for any identifier and
whether or not there is a `curenv`.

* `KillContract`, `ExitContract`: what the two functions are for;
* `Shows.schedKillEnv_iff`: killing does its work on the queues; it never does on `curenv`,
  and it looks at `curenv` when nobody has the identifier;
* `Shows.schedExitEnv_iff`: exiting loses an environment of the new queue, and follows
  `curenv` even after it has found the environment.
-/

namespace Fos

namespace Roster

/-- The environment `e` has the identifier and is on one of the queues. -/
def Queued (r : Roster) (queues : List EnvList) (envId : BitVec 32) (e : Nat) : Prop :=
  (∃ i ∈ queues, e ∈ r.seqs i) ∧ (r.envs e).envId = envId

/-- The environment `e` has the identifier and is `curenv`. -/
def Running (r : Roster) (envId : BitVec 32) (e : Nat) : Prop :=
  r.curenv = some e ∧ (r.envs e).envId = envId

/-- Without the environment `e`: the others stay where they are, in their order. -/
structure Without (r : Roster) (e : Nat) (r' : Roster) (into : EnvList) : Prop where
  into_ : r'.seqs into = e :: r.seqs into
  others : ∀ i, i ≠ into → r'.seqs i = (r.seqs i).filter (· ≠ e)
  curenv : r'.curenv = r.curenv.filter (· ≠ e)
  envs : ∀ f, f ≠ e → r'.envs f = r.envs f

/-- The roster with `curenv` in the exit queue. -/
def exitRunning (r : Roster) (e : Nat) : Roster :=
  { (r.setStatus e .exit).enqueue .envExitQueue e with curenv := none }

/-- The queues that `sched_kill_env` searches. -/
def killQueues : List EnvList := [.envNewQueue, .envReadyQueue, .envExitQueue]

/-- The queues that `sched_exit_env` searches. -/
def exitQueues : List EnvList := [.envNewQueue, .envReadyQueue]

end Roster

namespace Sched

/-- The function comes to its end, by a return or by invoking the scheduler, with
everything in place and the roster `r'`. -/
def EndsIn (end_ : Ctl Sched) (r' : Roster) : Prop :=
  ∃ t : Sched, (end_ = .returns t ∨ end_ = .leaves t.fosScheduler) ∧ t.Shows r' r'.curenv.toList

/-- `sched_kill_env`: the environment with the identifier has been freed, or there is none
and nothing has changed. -/
def KillContract (r : Roster) (envId : BitVec 32) (end_ : Ctl Sched) : Prop :=
  ∃ r', EndsIn end_ r' ∧
    (∀ e, r.Queued Roster.killQueues envId e ∨ r.Running envId e →
      r.Without e r' .envFreeList ∧ (r'.envs e).envStatus = .free) ∧
    ((∀ e, ¬ (r.Queued Roster.killQueues envId e ∨ r.Running envId e)) → r' = r)

/-- `sched_exit_env`: the environment with the identifier is in the exit queue, or there is
none in the new queue, the ready queue or running, and nothing has changed. -/
def ExitContract (r : Roster) (envId : BitVec 32) (end_ : Ctl Sched) : Prop :=
  ∃ r', EndsIn end_ r' ∧
    (∀ e, r.Queued Roster.exitQueues envId e ∨ r.Running envId e →
      r.Without e r' .envExitQueue ∧ (r'.envs e).envStatus = .exit) ∧
    ((∀ e, ¬ (r.Queued Roster.exitQueues envId e ∨ r.Running envId e)) → r' = r)

variable {s : Sched} {r : Roster} {envId : BitVec 32} {e : Nat} {i : EnvList}

/-! ## Who has the identifier -/

/-- An environment on a queue has the identifier of its slot. -/
theorem Shows.queued_id {held : List Nat} (shows : s.Shows r held) (queue : i ≠ .envFreeList)
    (member : e ∈ r.seqs i) : e < nenv ∧ (r.envs e).envId = usedEnvId e := by
  have lt := shows.holds.lt_of_mem member
  have used := (shows.holds.used e lt fun free =>
    shows.holds.lists.disjoint i _ queue member free).2
  rw [shows.envs] at used
  exact ⟨lt, used⟩

theorem Shows.held_id {held : List Nat} (shows : s.Shows r held) (member : e ∈ held) :
    e < nenv ∧ (r.envs e).envId = usedEnvId e := by
  have lt := shows.holds.lt_of_held member
  have used := (shows.holds.used e lt (shows.holds.loose member _)).2
  rw [shows.envs] at used
  exact ⟨lt, used⟩

theorem Shows.running_id (shows : s.Shows r r.curenv.toList) (running : r.curenv = some e) :
    e < nenv ∧ (r.envs e).envId = usedEnvId e :=
  shows.held_id (by simp [running])

/-- On a queue, the identifier belongs to one environment. -/
theorem Shows.queued_unique {held : List Nat} (shows : s.Shows r held)
    (queue : i ≠ .envFreeList) {x : Nat} (lt : e < nenv) (id : (r.envs e).envId = usedEnvId e)
    (has : (r.envs e).envId = envId) (member : x ∈ r.seqs i) :
    (r.envs x).envId = envId ↔ x = e := by
  obtain ⟨lt', id'⟩ := shows.queued_id queue member
  refine ⟨fun same => ?_, fun eq => eq ▸ has⟩
  rw [id', ← has, id] at same
  exact usedEnvId_inj lt' lt same

/-- An environment is on one queue only, and not on one while it is `curenv`. -/
theorem Shows.not_queued {held : List Nat} (shows : s.Shows r held) (queue : i ≠ .envFreeList)
    (lt : e < nenv) (id : (r.envs e).envId = usedEnvId e) (has : (r.envs e).envId = envId)
    (absent : e ∉ r.seqs i) : ∀ x ∈ r.seqs i, (r.envs x).envId ≠ envId := by
  intro x member same
  obtain rfl := (shows.queued_unique queue lt id has member).mp same
  exact absent member

/-- The edit that takes an environment off its queue and puts it at the head of another. -/
theorem Shows.without {held : List Nat} (shows : s.Shows r held) {into : EnvList}
    (apart : i ≠ into) (member : e ∈ r.seqs i) (free : s.curenv ≠ some e) {r' : Roster}
    (seqs : r'.seqs = Function.update (Function.update r.seqs i ((r.seqs i).erase e)) into
      (e :: Function.update r.seqs i ((r.seqs i).erase e) into))
    (curenv : r'.curenv = r.curenv) (envs : ∀ f, f ≠ e → r'.envs f = r.envs f) :
    r.Without e r' into := by
  refine ⟨?_, fun j ne => ?_, ?_, envs⟩
  · rw [seqs, Function.update_self, Function.update_of_ne apart.symm]
  · rw [seqs, Function.update_of_ne ne]
    rcases eq_or_ne j i with rfl | other
    · rw [Function.update_self, (shows.holds.lists.list j).nodup.erase_eq_filter]
      exact List.filter_congr fun x _ => by rw [bne, beq_eq_decide, decide_not]
    · have absent : e ∉ r.seqs j := fun there =>
        shows.holds.lists.disjoint j i other there member
      rw [Function.update_of_ne other, List.filter_eq_self.mpr]
      intro x there
      simpa using fun eq : x = e => absent (eq ▸ there)
  · rw [curenv]
    rw [shows.curenv] at free
    cases cur : r.curenv with
    | none => rfl
    | some c =>
      have ne : c ≠ e := fun eq => free (by rw [cur, eq])
      exact (Option.filter_eq_some_iff.mpr ⟨rfl, by simpa using ne⟩).symm

/-! ## `sched_kill_env` -/

/-- From the exit queue on. -/
def killExitQueue (s : Sched) (envId : BitVec 32) : Ctl Sched :=
  (s.takeMatches .envExitQueue envId (fun s e => (s.schedRemoveExit e).startEnvFree e)
    false).andThen fun _ (s, found) => if found then .returns s else s.schedKillCurenv envId

theorem schedKillEnv_eq (s : Sched) (envId : BitVec 32) :
    s.schedKillEnv envId =
      (s.takeMatches .envNewQueue envId (fun s e => (s.schedRemoveNew e).startEnvFree e)
        false).andThen fun _ (s, found) =>
          if found then .returns s
          else if (s.lists.head .envReadyQueue).lhFirst = none then s.killExitQueue envId
          else
            (s.takeMatches .envReadyQueue envId
              (fun s e => (s.removeFromQueue .envReadyQueue e).startEnvFree e)
              true).andThen fun _ (s, found) =>
                if found then .returns s else s.killExitQueue envId := rfl

/-- Nobody on the first two queues has the identifier. -/
theorem Shows.schedKillEnv_passes (shows : s.Shows r r.curenv.toList)
    (new : ∀ x ∈ r.seqs .envNewQueue, (r.envs x).envId ≠ envId)
    (ready : ∀ x ∈ r.seqs .envReadyQueue, (r.envs x).envId ≠ envId) :
    ∃ t : Sched, s.schedKillEnv envId = t.killExitQueue envId ∧ t.Shows r r.curenv.toList := by
  obtain ⟨s₁, loop₁, shows₁⟩ :=
    shows.takeNone (fun s e => (s.schedRemoveNew e).startEnvFree e) false new
  rw [schedKillEnv_eq, loop₁]
  simp only [LoopEnd.andThen, Bool.false_eq_true, if_false]
  split
  · exact ⟨s₁, rfl, shows₁⟩
  · obtain ⟨s₂, loop₂, shows₂⟩ :=
      shows₁.takeNone (fun s e => (s.removeFromQueue .envReadyQueue e).startEnvFree e) true ready
    rw [loop₂]
    exact ⟨s₂, rfl, shows₂⟩

/-- The loop that finds the environment on the queue `i` frees it. -/
theorem Shows.takeRelease (shows : s.Shows r r.curenv.toList) (queue : i ≠ .envFreeList)
    (take : Sched → Nat → Sched) (stop : Bool) (member : e ∈ r.seqs i)
    (has : (r.envs e).envId = envId)
    (taken : ∀ t : Sched, t.Shows r r.curenv.toList →
      (take t e).Shows (r.release i e) r.curenv.toList ∧
      ((take t e).lists.head i).ptrNext = (t.lists.head i).ptrNext) :
    ∃ t, s.takeMatches i envId take stop = .done (if stop then some e else none) (t, true) ∧
      t.Shows (r.release i e) r.curenv.toList := by
  obtain ⟨lt, id⟩ := shows.queued_id queue member
  refine shows.takeMatch take stop member (fun x => shows.queued_unique queue lt id has) taken ?_ ?_
  · simp [Roster.release, Roster.enqueue, Roster.setEnv, Roster.removeFromQueue,
      Function.update_of_ne queue]
  · intro x _ ne
    simp [Roster.release, Roster.enqueue, Roster.setEnv, Roster.removeFromQueue,
      Function.update_of_ne ne]

/-- An environment on a queue is taken off it and freed. -/
theorem Shows.schedKillEnv_queued (shows : s.Shows r r.curenv.toList)
    (queued : r.Queued Roster.killQueues envId e) :
    ∃ i, i ≠ EnvList.envFreeList ∧ e ∈ r.seqs i ∧ ∃ t, s.schedKillEnv envId = .returns t ∧
      t.Shows (r.release i e) r.curenv.toList := by
  obtain ⟨⟨i, listed, member⟩, has⟩ := queued
  have queue : i ≠ .envFreeList := by
    rintro rfl
    simp [Roster.killQueues] at listed
  obtain ⟨lt, id⟩ := shows.queued_id queue member
  have absent : ∀ j, j ≠ i → j ≠ .envFreeList → ∀ x ∈ r.seqs j, (r.envs x).envId ≠ envId :=
    fun j ne source => shows.not_queued source lt id has fun there =>
      shows.holds.lists.disjoint j i ne there member
  refine ⟨i, queue, member, ?_⟩
  cases i with
  | envFreeList => exact absurd rfl queue
  | envNewQueue =>
    obtain ⟨t, loop, released⟩ := shows.takeRelease queue
      (fun s e => (s.schedRemoveNew e).startEnvFree e) false member has
      fun t shown => ⟨shown.new_free member, by simp [schedRemoveNew]⟩
    rw [schedKillEnv_eq, loop]
    exact ⟨t, rfl, released⟩
  | envReadyQueue =>
    obtain ⟨s₁, loop₁, shows₁⟩ := shows.takeNone
      (fun s e => (s.schedRemoveNew e).startEnvFree e) false
      (absent .envNewQueue (by decide) (by decide))
    obtain ⟨t, loop, released⟩ := shows₁.takeRelease queue
      (fun s e => (s.removeFromQueue .envReadyQueue e).startEnvFree e) true member has
      fun t shown => ⟨shown.release queue member, by simp⟩
    have occupied : (s₁.lists.head .envReadyQueue).lhFirst ≠ none := by
      rw [shows₁.holds.lists.first, Ne, List.head?_eq_none_iff]
      exact List.ne_nil_of_mem member
    rw [schedKillEnv_eq, loop₁]
    simp only [LoopEnd.andThen, Bool.false_eq_true, if_false, if_neg occupied, loop]
    exact ⟨t, rfl, released⟩
  | envExitQueue =>
    obtain ⟨s₂, passes, shows₂⟩ := shows.schedKillEnv_passes
      (absent .envNewQueue (by decide) (by decide))
      (absent .envReadyQueue (by decide) (by decide))
    obtain ⟨t, loop, released⟩ := shows₂.takeRelease queue
      (fun s e => (s.schedRemoveExit e).startEnvFree e) false member has
      fun t shown => ⟨shown.exit_free member, by simp [schedRemoveExit]⟩
    rw [passes, killExitQueue, loop]
    exact ⟨t, rfl, released⟩

/-- Nobody on the queues has the identifier: the function goes on to `curenv`. -/
theorem Shows.schedKillEnv_unqueued (shows : s.Shows r r.curenv.toList)
    (unqueued : ∀ e, ¬ r.Queued Roster.killQueues envId e) :
    ∃ t : Sched, s.schedKillEnv envId = t.schedKillCurenv envId ∧
      t.Shows r r.curenv.toList := by
  have absent : ∀ i ∈ Roster.killQueues, ∀ x ∈ r.seqs i, (r.envs x).envId ≠ envId :=
    fun i listed x member same => unqueued x ⟨⟨i, listed, member⟩, same⟩
  obtain ⟨s₂, passes, shows₂⟩ := shows.schedKillEnv_passes
    (absent .envNewQueue (by simp [Roster.killQueues]))
    (absent .envReadyQueue (by simp [Roster.killQueues]))
  obtain ⟨s₃, loop, shows₃⟩ := shows₂.takeNone
    (fun s e => (s.schedRemoveExit e).startEnvFree e) false
    (absent .envExitQueue (by simp [Roster.killQueues]))
  rw [passes, killExitQueue, loop]
  exact ⟨s₃, rfl, shows₃⟩

/-- The end of `sched_kill_env` does nothing to another `curenv`, and goes wrong otherwise. -/
theorem Shows.schedKillCurenv (shows : s.Shows r r.curenv.toList) (envId : BitVec 32) :
    (∃ cur, r.curenv = some cur ∧ (r.envs cur).envId ≠ envId ∧
      s.schedKillCurenv envId = .returns s) ∨
    ((∀ cur, r.curenv = some cur → (r.envs cur).envId = envId) ∧
      (s.schedKillCurenv envId = .nullDeref ∨ s.schedKillCurenv envId = .panics s)) := by
  have same := shows.curenv
  rw [Sched.schedKillCurenv]
  cases cur : r.curenv with
  | none =>
    rw [cur] at same
    exact Or.inr ⟨by simp, Or.inl (by rw [same])⟩
  | some c =>
    obtain ⟨-, id⟩ := shows.running_id cur
    rw [cur] at same
    rw [same, shows.envs]
    by_cases eq : (r.envs c).envId = envId
    · refine Or.inr ⟨by simpa using eq, Or.inr ?_⟩
      simp only [if_pos eq]
      rw [if_neg (id ▸ usedEnvId_ne_runnable c)]
    · exact Or.inl ⟨c, rfl, eq, if_neg eq⟩

/-- **`sched_kill_env` meets its contract** exactly if a queue has the environment, or else
some other environment is running: it cannot kill `curenv`, because of its assertion, and
without `curenv` it must not miss. -/
theorem Shows.schedKillEnv_iff (shows : s.Shows r r.curenv.toList) (envId : BitVec 32) :
    KillContract r envId (s.schedKillEnv envId) ↔
      (∃ e, r.Queued Roster.killQueues envId e) ∨
        ∃ cur, r.curenv = some cur ∧ (r.envs cur).envId ≠ envId := by
  by_cases some : ∃ e, r.Queued Roster.killQueues envId e
  · refine iff_of_true ?_ (Or.inl some)
    obtain ⟨e, queued⟩ := some
    obtain ⟨i, queue, member, t, run, released⟩ := shows.schedKillEnv_queued queued
    have notRunning : s.curenv ≠ Option.some e := by
      rw [shows.curenv]
      exact fun running => shows.holds.loose (by simp [running]) i member
    refine ⟨r.release i e, ⟨t, Or.inl run, released⟩, fun f used => ?_, fun nobody => ?_⟩
    · -- the identifier is nobody else's
      have same : f = e := by
        obtain ⟨lt, id⟩ := shows.queued_id queue member
        rcases used with ⟨⟨j, listed, there⟩, has⟩ | ⟨running, has⟩
        · have source : j ≠ .envFreeList := by
            rintro rfl
            simp [Roster.killQueues] at listed
          exact (shows.queued_unique source lt id queued.2 there).mp has
        · obtain ⟨lt', id'⟩ := shows.running_id running
          rw [id', ← queued.2, id] at has
          exact usedEnvId_inj lt' lt has
      subst same
      refine ⟨shows.without queue member notRunning rfl rfl fun f ne => ?_, ?_⟩
      · exact Function.update_of_ne ne ..
      · simp [Roster.release, Roster.enqueue, Roster.setEnv, EnvSlot.zero]
    · exact absurd (Or.inl queued) (nobody e)
  · have nobody : ∀ e, ¬ r.Queued Roster.killQueues envId e := not_exists.mp some
    obtain ⟨t, run, shown⟩ := shows.schedKillEnv_unqueued nobody
    rw [run]
    rcases shown.schedKillCurenv envId with ⟨cur, running, differs, ends⟩ |
      ⟨matches_, ends⟩
    · refine iff_of_true ?_ (Or.inr ⟨cur, running, differs⟩)
      rw [ends]
      refine ⟨r, ⟨t, Or.inl rfl, shown⟩, fun f used => ?_, fun _ => rfl⟩
      rcases used with queued | ⟨running', has⟩
      · exact absurd queued (nobody f)
      · obtain rfl : cur = f := by simpa [running] using running'
        exact absurd has differs
    · refine iff_of_false ?_ ?_
      · rintro ⟨r', ⟨t', returns | leaves, -⟩, -⟩
        · rcases ends with ends | ends <;> simp [ends] at returns
        · rcases ends with ends | ends <;> simp [ends] at leaves
      · rintro (found | ⟨cur, running, differs⟩)
        · exact some found
        · exact differs (matches_ cur running)

/-- An environment kills itself, as `sys_env_destroy` lets it, and the assertion fails. -/
theorem schedKillEnv_self : ¬ ∀ (s : Sched) (r : Roster) (envId : BitVec 32),
    s.Shows r r.curenv.toList → KillContract r envId (s.schedKillEnv envId) := by
  intro meets
  have created : Reach _ := .step (.newEnv true) .boot trivial (.inl rfl)
  have started : Reach _ := .step .runAll created trivial (.inr rfl)
  obtain ⟨seqs, holds⟩ := started.holds
  obtain ⟨r', ⟨t, returns | leaves, -⟩, -⟩ := meets _ _ 4096#32 holds.shows
  · cases returns
  · cases leaves

/-- The environment that was created first is killed before it has run. -/
theorem schedKillEnv_first : ∃ (s : Sched) (r : Roster), (r.envs 0).envId = 4096#32 ∧
    KillContract r 4096#32 (s.schedKillEnv 4096#32) := by
  have created : Reach _ := .step (.newEnv true) .boot trivial (.inl rfl)
  obtain ⟨seqs, holds⟩ := created.holds
  have first := holds.lists.first .envNewQueue
  have member : 0 ∈ seqs .envNewQueue := List.mem_of_head? first.symm
  exact ⟨_, _, rfl, (holds.shows.schedKillEnv_iff _).mpr
    (Or.inl ⟨0, ⟨.envNewQueue, by simp [Roster.killQueues], member⟩, rfl⟩)⟩

/-! ## `sched_exit_env` -/

/-- Nobody on the queues has the identifier: the function goes on to `curenv`. -/
theorem Shows.schedExitEnv_unqueued (shows : s.Shows r r.curenv.toList)
    (unqueued : ∀ e, ¬ r.Queued Roster.exitQueues envId e) :
    ∃ t : Sched, s.schedExitEnv envId = t.schedExitCurenv envId ∧
      t.Shows r r.curenv.toList := by
  have absent : ∀ i ∈ Roster.exitQueues, ∀ x ∈ r.seqs i, (r.envs x).envId ≠ envId :=
    fun i listed x member same => unqueued x ⟨⟨i, listed, member⟩, same⟩
  obtain ⟨s₁, loop₁, shows₁⟩ := shows.takeNone schedRemoveNew false
    (absent .envNewQueue (by simp [Roster.exitQueues]))
  rw [schedExitEnv, loop₁]
  simp only [LoopEnd.andThen, Bool.false_eq_true, if_false]
  split
  · exact ⟨s₁, rfl, shows₁⟩
  · obtain ⟨s₂, loop₂, shows₂⟩ := shows₁.takeNone
      (fun s e => s.removeFromQueue .envReadyQueue e) true
      (absent .envReadyQueue (by simp [Roster.exitQueues]))
    rw [loop₂]
    exact ⟨s₂, rfl, shows₂⟩

/-- An environment of the new queue is taken off it, and the loop variable is null. -/
theorem Shows.schedExitEnv_new (shows : s.Shows r r.curenv.toList)
    (member : e ∈ r.seqs .envNewQueue) (has : (r.envs e).envId = envId) :
    ∃ t : Sched, s.schedExitEnv envId = t.schedExitFound none envId ∧
      t.Shows ((r.removeFromQueue .envNewQueue e).setStatus e .unknown)
        (e :: r.curenv.toList) := by
  obtain ⟨lt, id⟩ := shows.queued_id (by decide) member
  obtain ⟨t, loop, removed⟩ := shows.takeMatch schedRemoveNew false member
    (fun x => shows.queued_unique (by decide) lt id has)
    (fun t (shown : t.Shows r r.curenv.toList) =>
      ⟨(shown.removeFromQueue (by decide) member).setStatus (x := e) (by simp) .unknown
        (by decide), by simp [schedRemoveNew]⟩)
    (by simp [Roster.setStatus, Roster.setEnv, Roster.removeFromQueue])
    (fun x _ ne => by
      simp [Roster.setStatus, Roster.setEnv, Roster.removeFromQueue, Function.update_of_ne ne])
  rw [schedExitEnv, loop]
  exact ⟨t, rfl, removed⟩

/-- An environment of the ready queue is taken off it, and `break` keeps the variable. -/
theorem Shows.schedExitEnv_ready (shows : s.Shows r r.curenv.toList)
    (member : e ∈ r.seqs .envReadyQueue) (has : (r.envs e).envId = envId) :
    ∃ t : Sched, s.schedExitEnv envId = t.schedExitFound (some e) envId ∧
      t.Shows (r.removeFromQueue .envReadyQueue e) (e :: r.curenv.toList) := by
  obtain ⟨lt, id⟩ := shows.queued_id (by decide) member
  have new := shows.not_queued (i := .envNewQueue) (by decide) lt id has fun there =>
    shows.holds.lists.disjoint .envNewQueue .envReadyQueue (by decide) there member
  obtain ⟨s₁, loop₁, shows₁⟩ := shows.takeNone schedRemoveNew false new
  obtain ⟨t, loop, removed⟩ := shows₁.takeMatch
    (fun s e => s.removeFromQueue .envReadyQueue e) true member
    (fun x => shows.queued_unique (by decide) lt id has)
    (fun t shown => ⟨shown.removeFromQueue (by decide) member, by simp⟩)
    (by simp [Roster.removeFromQueue]) (fun x _ ne => rfl)
  have occupied : (s₁.lists.head .envReadyQueue).lhFirst ≠ none := by
    rw [shows₁.holds.lists.first, Ne, List.head?_eq_none_iff]
    exact List.ne_nil_of_mem member
  rw [schedExitEnv, loop₁]
  simp only [LoopEnd.andThen, Bool.false_eq_true, if_false, if_neg occupied, loop]
  exact ⟨t, rfl, removed⟩

/-- `curenv` goes to the exit queue and the scheduler is invoked without it. -/
theorem Shows.exitRunning (shows : s.Shows r r.curenv.toList) (running : r.curenv = some e) :
    ({ s.schedInsertExit (some e) with curenv := none } : Sched).Shows (r.exitRunning e) [] := by
  rw [running] at shows
  exact ((shows.setStatus (x := e) (by simp) .exit (by decide)).enqueue (by decide)).setCurenv none

/-- With the environment found and another one running, the function returns. -/
theorem Shows.schedExitFound {held : List Nat} (shows : s.Shows r held) (found : Option Nat)
    (envId : BitVec 32) :
    (r.curenv = none → s.schedExitFound found envId = .nullDeref) ∧
    ∀ cur, r.curenv = some cur → (r.envs cur).envId ≠ envId → found ≠ some cur →
      s.schedExitFound found envId = .returns (s.schedInsertExit found) := by
  have same := shows.curenv
  have keeps : (s.schedInsertExit found).curenv = s.curenv := by cases found <;> rfl
  refine ⟨fun idle => ?_, fun cur running differs other => ?_⟩
  · rw [idle] at same
    rw [same] at keeps
    simp only [Sched.schedExitFound, keeps]
  · rw [running] at same
    rw [same] at keeps
    have id : ((s.schedInsertExit found).envs cur).envId = (s.envs cur).envId := by
      cases found with
      | none => rfl
      | some e =>
        have ne : cur ≠ e := fun eq => other (by rw [eq])
        simp [schedInsertExit, Sched.enqueue, Sched.setStatus, setEnv, Function.update_of_ne ne]
    simp only [Sched.schedExitFound, keeps, id]
    rw [shows.envs, if_neg differs]

/-- An environment of the ready queue goes to the exit queue while another one runs. -/
theorem Shows.schedExitEnv_moves (shows : s.Shows r r.curenv.toList)
    (member : e ∈ r.seqs .envReadyQueue) (has : (r.envs e).envId = envId) {cur : Nat}
    (running : r.curenv = some cur) :
    ∃ t, s.schedExitEnv envId = .returns t ∧
      t.Shows (r.move .envReadyQueue .envExitQueue .exit e) r.curenv.toList := by
  obtain ⟨t, run, removed⟩ := shows.schedExitEnv_ready member has
  obtain ⟨lt, id⟩ := shows.queued_id (by decide) member
  obtain ⟨lt', id'⟩ := shows.running_id running
  have other : some e ≠ some cur := by
    intro eq
    rw [Option.some_inj] at eq
    exact shows.holds.loose (by simp [running, eq]) .envReadyQueue member
  have differs : (r.envs cur).envId ≠ envId := by
    rw [id', ← has, id]
    exact fun eq => other (by rw [usedEnvId_inj lt lt' eq.symm])
  refine ⟨_, run.trans ((removed.schedExitFound _ _).2 cur running differs other), ?_⟩
  exact (removed.setStatus (by simp) .exit (by decide)).enqueue (by decide)

/-- The end of `sched_exit_env` follows `curenv`. -/
theorem Shows.schedExitCurenv (shows : s.Shows r r.curenv.toList) (envId : BitVec 32) :
    (r.curenv = none → s.schedExitCurenv envId = .nullDeref) ∧
    ∀ cur, r.curenv = some cur →
      s.schedExitCurenv envId = if (r.envs cur).envId = envId then
        .leaves ({ s.schedInsertExit (some cur) with curenv := none } : Sched).fosScheduler
      else .returns s := by
  have same := shows.curenv
  refine ⟨fun idle => ?_, fun cur running => ?_⟩
  · rw [idle] at same
    simp only [Sched.schedExitCurenv, same]
  · rw [running] at same
    simp only [Sched.schedExitCurenv, same, shows.envs]

/-- The environment of the new queue is lost. -/
theorem Shows.schedExitEnv_loses (shows : s.Shows r r.curenv.toList)
    (member : e ∈ r.seqs .envNewQueue) (has : (r.envs e).envId = envId) :
    ¬ ExitContract r envId (s.schedExitEnv envId) := by
  rintro ⟨r', ⟨t', ends, shows'⟩, exited, -⟩
  obtain ⟨t, run, lost⟩ := shows.schedExitEnv_new member has
  rw [run] at ends
  cases cur : r.curenv with
  | none =>
    have null := (lost.schedExitFound none envId).1 cur
    rw [null] at ends
    simp at ends
  | some c =>
    obtain ⟨lt, id⟩ := shows.queued_id (by decide) member
    obtain ⟨lt', id'⟩ := shows.running_id cur
    have ne : c ≠ e := fun eq =>
      shows.holds.loose (by simp [cur, eq]) .envNewQueue member
    have differs : (((r.removeFromQueue .envNewQueue e).setStatus e .unknown).envs c).envId ≠
        envId := by
      simp only [Roster.setStatus, Roster.setEnv, Roster.removeFromQueue,
        Function.update_of_ne ne]
      rw [id', ← has, id]
      exact fun eq => ne (usedEnvId_inj lt' lt eq)
    have returned := (lost.schedExitFound none _).2 c cur differs (by simp)
    rw [returned] at ends
    obtain rfl : t = t' := by simpa [schedInsertExit] using ends
    have there := (exited e (Or.inl ⟨⟨_, by simp [Roster.exitQueues], member⟩, has⟩)).1.into_
    have queued : e ∈ r'.seqs .envExitQueue := by simp [there]
    rw [← lost.unique shows'] at queued
    exact lost.holds.loose (by simp) _ queued

/-- Who has the identifier of an environment of the ready queue is that environment. -/
theorem Shows.exit_unique (shows : s.Shows r r.curenv.toList)
    (member : e ∈ r.seqs .envReadyQueue) (has : (r.envs e).envId = envId) {f : Nat}
    (used : r.Queued Roster.exitQueues envId f ∨ r.Running envId f) : f = e := by
  obtain ⟨lt, id⟩ := shows.queued_id (by decide) member
  rcases used with ⟨⟨j, listed, there⟩, has'⟩ | ⟨running, has'⟩
  · have source : j ≠ .envFreeList := by
      rintro rfl
      simp [Roster.exitQueues] at listed
    exact (shows.queued_unique source lt id has there).mp has'
  · obtain ⟨lt', id'⟩ := shows.running_id running
    rw [id', ← has, id] at has'
    exact usedEnvId_inj lt' lt has'

/-- An environment of the ready queue exits as it should if another one is running. -/
theorem Shows.schedExitEnv_ready_iff (shows : s.Shows r r.curenv.toList)
    (member : e ∈ r.seqs .envReadyQueue) (has : (r.envs e).envId = envId) :
    ExitContract r envId (s.schedExitEnv envId) ↔ r.curenv ≠ none := by
  cases cur : r.curenv with
  | none =>
    obtain ⟨t, run, removed⟩ := shows.schedExitEnv_ready member has
    have null := (removed.schedExitFound (some e) envId).1 cur
    refine iff_of_false ?_ fun h => h rfl
    rintro ⟨r', ⟨t', ends, -⟩, -⟩
    rw [run, null] at ends
    simp at ends
  | some c =>
    refine iff_of_true ?_ (by simp)
    obtain ⟨t, run, moved⟩ := shows.schedExitEnv_moves member has cur
    have notRunning : s.curenv ≠ some e := by
      rw [shows.curenv]
      exact fun running => shows.holds.loose (by simp [running]) _ member
    refine ⟨_, ⟨t, Or.inl run, moved⟩, fun f used => ?_, fun nobody => ?_⟩
    · obtain rfl := shows.exit_unique member has used
      refine ⟨shows.without (by decide) member notRunning rfl rfl fun g ne => ?_, ?_⟩
      · exact Function.update_of_ne ne ..
      · simp [Roster.move, Roster.enqueue, Roster.setStatus, Roster.setEnv]
    · exact absurd (Or.inl ⟨⟨_, by simp [Roster.exitQueues], member⟩, has⟩) (nobody e)

/-- `curenv` in the exit queue is what the contract asks for. -/
theorem Shows.without_running (shows : s.Shows r r.curenv.toList) (running : r.curenv = some e) :
    r.Without e (r.exitRunning e) .envExitQueue ∧ ((r.exitRunning e).envs e).envStatus = .exit := by
  have loose : ∀ i, e ∉ r.seqs i := shows.holds.loose (by simp [running])
  refine ⟨⟨by simp [Roster.exitRunning, Roster.enqueue, Roster.setStatus, Roster.setEnv],
    fun i ne => ?_, ?_, fun g ne => Function.update_of_ne ne ..⟩,
    by simp [Roster.exitRunning, Roster.enqueue, Roster.setStatus, Roster.setEnv]⟩
  · have same : (r.exitRunning e).seqs i = r.seqs i := Function.update_of_ne ne ..
    rw [same, List.filter_eq_self.mpr]
    intro x there
    simpa using fun eq : x = e => loose i (eq ▸ there)
  · rw [running]
    simp [Roster.exitRunning, Option.filter]

/-- With nobody on the queues, all is well if an environment is running. -/
theorem Shows.schedExitEnv_unqueued_iff (shows : s.Shows r r.curenv.toList)
    (nobody : ∀ e, ¬ r.Queued Roster.exitQueues envId e) :
    ExitContract r envId (s.schedExitEnv envId) ↔ r.curenv ≠ none := by
  obtain ⟨t, run, shown⟩ := shows.schedExitEnv_unqueued nobody
  rw [run]
  cases cur : r.curenv with
  | none =>
    refine iff_of_false ?_ fun h => h rfl
    rintro ⟨r', ⟨t', ends, -⟩, -⟩
    rw [(shown.schedExitCurenv _).1 cur] at ends
    simp at ends
  | some c =>
    refine iff_of_true ?_ (by simp)
    have ends := (shown.schedExitCurenv envId).2 c cur
    by_cases has : (r.envs c).envId = envId
    · rw [if_pos has] at ends
      refine ⟨r.exitRunning c, ⟨_, Or.inr ends, shown.exitRunning cur⟩, fun f used => ?_,
        fun none => absurd (Or.inr ⟨cur, has⟩) (none c)⟩
      obtain rfl : c = f := by
        rcases used with queued | ⟨running, -⟩
        · exact absurd queued (nobody f)
        · simpa [cur] using running
      exact shown.without_running cur
    · rw [if_neg has] at ends
      refine ⟨r, ⟨t, Or.inl ends, shown⟩, fun f used => ?_, fun _ => rfl⟩
      rcases used with queued | ⟨running, has'⟩
      · exact absurd queued (nobody f)
      · obtain rfl : c = f := by simpa [cur] using running
        exact absurd has' has

/-- **`sched_exit_env` meets its contract** exactly if an environment is running and the
new queue does not have the one to be exited: that one is taken off the queue and then
lost, and without `curenv` the function follows a null pointer whatever it has found. -/
theorem Shows.schedExitEnv_iff (shows : s.Shows r r.curenv.toList) (envId : BitVec 32) :
    ExitContract r envId (s.schedExitEnv envId) ↔
      r.curenv ≠ none ∧ ∀ e, ¬ r.Queued [.envNewQueue] envId e := by
  by_cases new : ∃ e ∈ r.seqs .envNewQueue, (r.envs e).envId = envId
  · obtain ⟨e, member, has⟩ := new
    exact iff_of_false (shows.schedExitEnv_loses member has)
      fun h => h.2 e ⟨⟨_, by simp, member⟩, has⟩
  have unnew : ∀ e, ¬ r.Queued [.envNewQueue] envId e := by
    rintro e ⟨⟨i, listed, member⟩, has⟩
    obtain rfl := List.mem_singleton.mp listed
    exact new ⟨e, member, has⟩
  rw [and_iff_left unnew]
  by_cases ready : ∃ e ∈ r.seqs .envReadyQueue, (r.envs e).envId = envId
  · obtain ⟨e, member, has⟩ := ready
    exact shows.schedExitEnv_ready_iff member has
  · refine shows.schedExitEnv_unqueued_iff ?_
    rintro e ⟨⟨i, listed, member⟩, has⟩
    simp only [Roster.exitQueues, List.mem_cons, List.not_mem_nil, or_false] at listed
    rcases listed with rfl | rfl
    · exact new ⟨e, member, has⟩
    · exact ready ⟨e, member, has⟩

/-- Of two new environments one is started and exits the other, which is then nowhere. -/
theorem schedExitEnv_new : ¬ ∀ (s : Sched) (r : Roster) (envId : BitVec 32),
    s.Shows r r.curenv.toList → ExitContract r envId (s.schedExitEnv envId) := by
  intro meets
  have first : Reach _ := .step (.newEnv true) .boot trivial (.inl rfl)
  have second : Reach _ := .step (.newEnv true) first trivial (.inl rfl)
  have started : Reach _ := .step (.runEnv 4096#32) second trivial (.inr rfl)
  obtain ⟨seqs, holds⟩ := started.holds
  have head := holds.lists.first .envNewQueue
  have member : 1 ∈ seqs .envNewQueue := List.mem_of_head? head.symm
  obtain ⟨r', ⟨t, ends, shows'⟩, exited, -⟩ := meets _ _ 4097#32 holds.shows
  have there := (exited 1 (Or.inl ⟨⟨.envNewQueue, by simp [Roster.exitQueues], member⟩, rfl⟩)).1
  have exitHead := shows'.holds.lists.first .envExitQueue
  rw [there.into_] at exitHead
  rcases ends with returns | leaves
  · cases returns
    cases exitHead
  · cases leaves

/-- The environment that is running exits itself. -/
theorem schedExitEnv_self : ∃ (s : Sched) (r : Roster), r.curenv = some 0 ∧
    ExitContract r 4096#32 (s.schedExitEnv 4096#32) := by
  have created : Reach _ := .step (.newEnv true) .boot trivial (.inl rfl)
  have started : Reach _ := .step .runAll created trivial (.inr rfl)
  obtain ⟨seqs, holds⟩ := started.holds
  have head := holds.lists.first .envNewQueue
  refine ⟨_, _, rfl, (holds.shows.schedExitEnv_iff _).mpr ⟨Option.some_ne_none 0, ?_⟩⟩
  rintro e ⟨⟨i, listed, member⟩, -⟩
  obtain rfl := List.mem_singleton.mp listed
  have empty : seqs .envNewQueue = [] := List.head?_eq_none_iff.mp head.symm
  simp [roster, empty] at member

end Sched

end Fos
