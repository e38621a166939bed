import Fos.System.Calls
import Fos.System.Model
import Fos.WorkingSet.EnvFree

/-!
# What holds of the system between two events

Every environment that exists can run, and of those that do not there is nothing left, in
memory or in the page file.

* `Orderly`: the invariant, and `Machine.orderly_boot`;
* `Orderly.next`: an event changes one environment only;
* `Orderly.create`, `Orderly.run`, ...: the events, one by one;
* `Orderly.step`, `Machine.Run.orderly`: a run.
-/

namespace Fos

open Arena Exec WriteBack

variable {m : Machine} {s s' : Kernel} {v v' : View} {e e' va size : Nat} {env₀ env₁ : Env}
  {w w' : WorkingSet}

/-- There is nothing of the environment. -/
def View.Vacant (v : View) (e : Nat) : Prop :=
  v.globals.envs e = Env.zero ∧ ∀ o, Obj.Of e o → v.place o = none

/-- The current environment exists, and its address space is the one that the processor uses. -/
def View.Runs (v : View) : Prop :=
  ∀ e, v.globals.curenv = some e → v.place (.pageDir e) ≠ none ∧ v.Current e

/-- Every environment can run, or there is nothing of it; what is not of an environment is as it
was when the machine was started. -/
structure Orderly (m : Machine) (s : Kernel) (v : View) : Prop extends Sound s v where
  slot : ∀ e, (∃ env w, Runnable e env s v w) ∨ v.Vacant e
  low : ∀ e, v.Low e
  runs : v.Runs
  keeps : View.Keeps (fun o => ∃ e, Obj.Of e o) m.bootView v
  envsAddress : v.globals.envsAddress = m.envsAddress

/-! ## One event -/

/-- The other environments can go on. -/
theorem Runnable.spared (runnable : Runnable e' env₀ s v w) (rep : Rep s v) (sound : Sound s' v')
    (spares : v.Spares v' e) (ne : e' ≠ e)
    (address : v'.globals.envsAddress = v.globals.envsAddress) : Runnable e' env₀ s' v' w := by
  have env : s'.globals.envs e' = s.globals.envs e' := by
    rw [sound.rep.globals, rep.globals, spares.envs e' ne]
  have same : WsSame e' s s' := by
    constructor <;> rw [env]
  have ptes : v'.ptes e' = v.ptes e' := funext fun p => spares.ptes ne p
  refine { runnable with
    toSound := sound
    dir := ?_
    listed := runnable.listed.same same
    mapped := ?_
    high := ?_ }
  · rw [spares.dir ne]
    exact runnable.dir
  · rw [ptes]
    exact runnable.mapped
  · rw [address]
    exact runnable.high

theorem View.Vacant.spared (vacant : v.Vacant e') (spares : v.Spares v' e) (ne : e' ≠ e) :
    v'.Vacant e' := by
  refine ⟨(spares.envs e' ne).trans vacant.1, fun o mine => ?_⟩
  rw [spares.keeps.place o fun yours => ne (yours.unique mine)]
  exact vacant.2 o mine

theorem View.Vacates.vacant (vacates : v.Vacates v' e) : v'.Vacant e :=
  ⟨vacates.env, vacates.gone⟩

/-- Nothing is different but the environment `e`. -/
theorem Orderly.next (orderly : Orderly m s v) (sound : Sound s' v') (spares : v.Spares v' e)
    (slot : (∃ env w, Runnable e env s' v' w) ∨ v'.Vacant e) (runs : v'.Runs)
    (address : v'.globals.envsAddress = v.globals.envsAddress) : Orderly m s' v' where
  toSound := sound
  slot e' := by
    rcases eq_or_ne e' e with rfl | ne
    · exact slot
    · rcases orderly.slot e' with ⟨env, w, runnable⟩ | vacant
      · exact Or.inl ⟨env, w, runnable.spared orderly.rep sound spares ne address⟩
      · exact Or.inr (vacant.spared spares ne)
  low e' := by
    rcases eq_or_ne e' e with rfl | ne
    · exact spares.low (orderly.low e')
    · intro i ge
      have mine : Obj.Of e' (.pageTable e' i) := Or.inl rfl
      rw [spares.keeps.place _ fun yours => ne (yours.unique mine)]
      exact orderly.low e' i ge
  runs := runs
  keeps := orderly.keeps.trans (spares.keeps.mono fun _ mine => ⟨e, mine⟩)
  envsAddress := address.trans orderly.envsAddress

/-- The current environment goes on. -/
theorem Orderly.arrive (orderly : Orderly m s v) (underway : Underway e env₁ s' v' w')
    (beside : v.Beside v' e) : Orderly m s' v' := by
  refine orderly.next underway.toSound beside.spares (Or.inl ⟨env₁, w', underway.toRunnable⟩)
    (fun e' is => ?_) beside.envsAddress
  obtain rfl : e = e' := Option.some.inj (underway.curenv.symm.trans is)
  obtain ⟨d, dir⟩ := underway.dir
  exact ⟨by simp [dir], underway.current⟩

theorem Orderly.dir (orderly : Orderly m s v) :
    (s.globals.envs e).envPageDirectory = v.place (.pageDir e) := by
  rw [orderly.rep.globals]
  exact orderly.linked e

theorem Orderly.live (orderly : Orderly m s v) : s.Live e ↔ v.place (.pageDir e) ≠ none := by
  rw [Kernel.Live, orderly.dir]

theorem Orderly.runnable (orderly : Orderly m s v) (live : s.Live e) :
    ∃ env w, Runnable e env s v w :=
  (orderly.slot e).resolve_right fun vacant =>
    orderly.live.mp live (vacant.2 _ (Or.inl rfl))

theorem Orderly.underway (orderly : Orderly m s v) (is : s.globals.curenv = some e) :
    ∃ env w, Underway e env s v w := by
  rw [orderly.rep.globals] at is
  obtain ⟨here, current⟩ := orderly.runs e is
  obtain ⟨env, w, runnable⟩ := orderly.runnable (orderly.live.mpr here)
  exact ⟨env, w, runnable, is, current⟩

/-- The environment has what it had. -/
structure View.Same (v v' : View) (e : Nat) : Prop where
  dir : v'.place (.pageDir e) = v.place (.pageDir e)
  tiers : v'.tiers e = v.tiers e

theorem View.Spares.same (spares : v.Spares v' e) (ne : e' ≠ e) : v.Same v' e' where
  dir := spares.dir ne
  tiers := by
    have ptes : v'.ptes e' = v.ptes e' := funext fun p => spares.ptes ne p
    rw [View.tiers, ptes, spares.memory ne, spares.stored e' ne, View.tiers]

theorem Orderly.goes_on (orderly : Orderly m s v) (next : Orderly m s' v') (same : v.Same v' e)
    (live : s.Live e) : s'.Live e := by
  rw [next.live, same.dir]
  exact orderly.live.mp live

/-! ## The events -/

/-- What an event of the environment `e`, which runs, does to its pages. -/
def Event.Effect (e : Nat) (v v' : View) : Event → Prop
  | .store va b => ∃ p, v.memory e (pageNo va) = some p ∧
      v'.tiers e = (v.tiers e).write (pageNo va) (p.setByte (va % pageSize) b)
  | .fault va => v.Handled v' e va
  | .allocateMem _ _ => v'.ptes e = v.ptes e ∧ v'.memory e = v.memory e ∧
      ∀ p q, v.stored e p = some q → v'.stored e p = some q
  | .freeMem va size => v.FreesRange v' e va size
  | _ => v'.tiers e = v.tiers e

/-- `env_create` makes an environment and leaves the others alone. -/
theorem Orderly.create {program : UserProgram} {size second : Nat} (orderly : Orderly m s v)
    (slot : e < nenv) (free : s.globals.envs e = Env.zero)
    (fits : ∀ seg ∈ program.segments, seg.Fits)
    (apart : program.segments.Pairwise ProgramSegment.Apart) (lt : second < size)
    (run : envCreate e program size second s = .ok () s') :
    ∃ v', Orderly m s' v' ∧ v.Beside v' e := by
  have high : ∀ k < pwsMaxSize, 960 ≤ pdx (elementAddress s.globals.envsAddress e k) := by
    rw [orderly.rep.globals, orderly.envsAddress]
    exact fun k => m.high slot
  obtain ⟨env, v', w, created, -, beside, cr3⟩ :=
    (wp_ok run).mp (orderly.envCreate_lists free high fits apart lt)
  have runnable : Runnable e env s' v' w := { created with few := fun k => (created.all k).mp }
  refine ⟨v', orderly.next created.toSound beside.spares (Or.inl ⟨env, w, runnable⟩)
    (fun e' is => ?_)
    beside.envsAddress, beside⟩
  obtain ⟨here, current⟩ := orderly.runs e' (beside.curenv.symm.trans is)
  have ne : e' ≠ e := by
    rintro rfl
    rw [← orderly.dir, free] at here
    exact here rfl
  rw [View.Current, beside.spares.dir ne, cr3]
  exact ⟨here, current⟩

/-- `env_free` of an environment that does not run. -/
theorem Orderly.free (orderly : Orderly m s v) (live : s.Live e) (other : s.globals.curenv ≠ some e)
    (run : envFree e s = .ok () s') : ∃ v', Orderly m s' v' ∧ v.Spares v' e ∧ v'.Vacant e ∧
      v'.globals.curenv = v.globals.curenv := by
  obtain ⟨env, w, runnable⟩ := orderly.runnable live
  have freed : wp (envFree e) (fun _ s' => ∃ v', Sound s' v' ∧ v.Vacates v' e)
      (fun _ _ => True) s :=
    runnable.envFree_wp (orderly.low e) (fun s' v' sound vacates => ⟨v', sound, vacates⟩)
      fun _ _ => trivial
  obtain ⟨v', sound, vacates⟩ := (wp_ok run).mp freed
  refine ⟨v', orderly.next sound vacates.spares (Or.inr vacates.vacant) (fun e' is => ?_)
    vacates.envsAddress, vacates.spares, vacates.vacant, vacates.curenv⟩
  have is' := vacates.curenv.symm.trans is
  obtain ⟨here, current⟩ := orderly.runs e' is'
  have ne : e' ≠ e := by
    rintro rfl
    exact other (orderly.rep.globals ▸ is')
  rw [View.Current, vacates.spares.dir ne, vacates.cr3]
  exact ⟨here, current⟩

/-- Another environment comes to be the current one, or none. -/
theorem Orderly.switch {g : Globals} (orderly : Orderly m s v) (rep : Rep s' (v.setGlobals g))
    (envs : g.envs = v.globals.envs) (disk : g.disk = v.globals.disk)
    (address : g.envsAddress = v.globals.envsAddress) (runs : (v.setGlobals g).Runs) :
    Orderly m s' (v.setGlobals g) ∧ ∀ e, v.Same (v.setGlobals g) e := by
  have spares : ∀ e, v.Spares (v.setGlobals g) e :=
    fun e => .setGlobals (fun _ _ => by rw [envs]) disk
  have sound : Sound s' (v.setGlobals g) :=
    ⟨orderly.toPointers.congr (fun _ => rfl) (fun _ => rfl) envs, rep,
      orderly.pageFile.congr (fun _ _ => rfl) rfl orderly.pageFile.high⟩
  have same : ∀ e, WsSame e s s' := fun e => by
    have env : s'.globals.envs e = s.globals.envs e := by
      rw [rep.globals, orderly.rep.globals]
      exact congrFun envs e
    constructor <;> rw [env]
  have slot : ∀ e, (∃ env w, Runnable e env s' (v.setGlobals g) w) ∨ (v.setGlobals g).Vacant e := by
    intro e
    rcases orderly.slot e with ⟨env, w, runnable⟩ | vacant
    · refine Or.inl ⟨env, w, { runnable with
        toSound := sound
        listed := runnable.listed.same (same e)
        high := ?_ }⟩
      show ∀ k < pwsMaxSize, 960 ≤ pdx (elementAddress g.envsAddress e k)
      rw [address]
      exact runnable.high
    · refine Or.inr ⟨?_, vacant.2⟩
      show g.envs e = Env.zero
      rw [envs, vacant.1]
  have keeps : View.Keeps (fun o => ∃ e, Obj.Of e o) v (v.setGlobals g) :=
    ⟨fun _ _ => rfl, fun _ _ => rfl, fun _ _ _ => Iff.rfl⟩
  refine ⟨⟨sound, slot, orderly.low, runs, orderly.keeps.trans keeps,
    address.trans orderly.envsAddress⟩, fun e => ⟨rfl, ?_⟩⟩
  have stored : (v.setGlobals g).stored e = v.stored e := View.stored_congr rfl disk
  rw [View.tiers, stored]
  rfl

theorem Orderly.envRun (orderly : Orderly m s v) (live : s.Live e)
    (run : Fos.envRun e s = .ok () s') : ∃ v', Orderly m s' v' ∧ ∀ e', v.Same v' e' := by
  obtain ⟨d, dir⟩ := Option.ne_none_iff_exists'.mp (orderly.live.mp live)
  have ends : wp (Fos.envRun e) (fun _ s' => ∃ v', Orderly m s' v' ∧ ∀ e', v.Same v' e')
      (fun _ _ => True) s := by
    apply envRun_wp orderly.rep
    · exact fun _ => ⟨v, orderly, fun _ => ⟨rfl, rfl⟩⟩
    · intro s₁ _ rep
      refine ⟨_, orderly.switch rep rfl rfl rfl fun e' is => ?_⟩
      obtain rfl : e = e' := Option.some.inj is
      exact ⟨orderly.live.mp live, orderly.toSound.current_runs dir⟩
  exact (wp_ok run).mp ends

/-- There is no current environment any more. -/
theorem Orderly.setNone {g : Globals} (orderly : Orderly m s v) (none : g.curenv = none)
    (envs : g.envs = s.globals.envs) (disk : g.disk = s.globals.disk)
    (address : g.envsAddress = s.globals.envsAddress)
    (frames : g.numberOfFrames = s.globals.numberOfFrames)
    (dir : g.ptrPageDirectory = s.globals.ptrPageDirectory) :
    ∃ v', Orderly m (s.setGlobals g) v' ∧ ∀ e, v.Same v' e := by
  rw [orderly.rep.globals] at envs disk address frames dir
  refine ⟨_, orderly.switch (orderly.rep.setGlobals frames dir) envs disk address fun e is => ?_⟩
  have is' : g.curenv = some e := is
  rw [none] at is'
  cases is'

/-! The events of the environment that runs. -/

/-- An access that goes through. -/
theorem translated {write : Bool} {k : Nat → Prog Unit}
    (run : (do k (← deref (← translate va true write)) : Prog Unit) s = .ok () s') :
    ∃ f s₁, translate va true write s = .ok (some f) s₁ ∧ k f s₁ = .ok () s' := by
  have ends := (wp_ok run (Q := fun _ s₂ => s₂ = s') (E := fun _ _ => False)).mpr rfl
  simp only [wp_bind] at ends
  obtain ⟨r, s₁, ran, rest⟩ := wp_returns ends
  cases r with
  | none => exact rest.elim
  | some f =>
    obtain ⟨_, s₂, ran', rfl⟩ := wp_returns ((wp_deref_some f).mp rest)
    exact ⟨f, s₁, ran, ran'⟩

theorem Orderly.load (orderly : Orderly m s v) (is : s.globals.curenv = some e) (lt : va < word32)
    (user : UserVa va) (run : Event.prog (.load va) s = .ok () s') :
    ∃ v', Orderly m s' v' ∧ v.Beside v' e ∧ Event.Effect e v v' (.load va) := by
  obtain ⟨env, w, underway⟩ := orderly.underway is
  obtain ⟨f, s₁, access, ends⟩ := translated run
  obtain rfl : s₁ = s' := by
    cases ends
    rfl
  obtain ⟨here, v', underway', moved, tiers⟩ := underway.access user lt access (s₁.mem f)
  rw [Kernel.setPage_mem] at underway'
  refine ⟨v', orderly.arrive underway' moved.beside, moved.beside, ?_⟩
  show v'.tiers e = v.tiers e
  rw [tiers, ← here, Function.update_eq_self]
  exact tiersOf_congr (modified_update (by simp [modified, accessed, permUsed]))

theorem Orderly.store {b : BitVec 8} (orderly : Orderly m s v) (is : s.globals.curenv = some e)
    (lt : va < word32) (user : UserVa va) (run : Event.prog (.store va b) s = .ok () s') :
    ∃ v', Orderly m s' v' ∧ v.Beside v' e ∧ Event.Effect e v v' (.store va b) := by
  obtain ⟨env, w, underway⟩ := orderly.underway is
  obtain ⟨f, s₁, access, ends⟩ := translated run
  obtain rfl : s₁.setPage f ((s₁.mem f).setByte (va % pageSize) b) = s' := by
    cases ends
    rfl
  obtain ⟨here, v', underway', moved, tiers⟩ := underway.access user lt access
    ((s₁.mem f).setByte (va % pageSize) b)
  refine ⟨v', orderly.arrive underway' moved.beside, moved.beside, _, here, ?_⟩
  have dirty : modified (accessed (v.ptes e (pageNo va)) true) = true := by
    simp [modified, accessed, permModified]
  rw [tiers, tiersOf_update, dirty]
  rfl

theorem Orderly.fault (orderly : Orderly m s v) (is : s.globals.curenv = some e) (lt : va < word32)
    (user : UserVa va) (absent : ¬ present (pteAt s.mem (ppn s.globals.cr3) (pageNo va)))
    (run : faultHandler va s = .ok () s') :
    ∃ v', Orderly m s' v' ∧ v.Beside v' e ∧ Event.Effect e v v' (.fault va) := by
  obtain ⟨env, w, underway⟩ := orderly.underway is
  have ends : wp (faultHandler va) (fun _ s' => ∃ v', Orderly m s' v' ∧ v.Beside v' e ∧
      v.Handled v' e va) (fun _ _ => True) s :=
    underway.faultHandler_wp lt user absent
      (fun s' env' v' w' next moved handled => ⟨v', orderly.arrive next moved.beside,
        moved.beside, handled⟩)
      ⟨fun _ _ _ => trivial, fun _ _ _ => trivial, fun _ _ => trivial⟩ (fun _ => trivial)
      fun _ _ => trivial
  exact (wp_ok run).mp ends

/-- A system call is for the current environment. -/
theorem called {k : Nat → Prog Unit} (is : s.globals.curenv = some e)
    (run : (do k (← deref (← get).globals.curenv) : Prog Unit) s = .ok () s') :
    k e s = .ok () s' := by
  change (deref s.globals.curenv >>= k) s = .ok () s' at run
  rwa [is] at run

theorem Orderly.allocateMem (orderly : Orderly m s v) (is : s.globals.curenv = some e)
    (heap : va + UserHeap.numOf size * pageSize ≤ userHeapMax)
    (run : Fos.allocateMem e va size s = .ok () s') :
    ∃ v', Orderly m s' v' ∧ v.Beside v' e ∧ Event.Effect e v v' (.allocateMem va size) := by
  obtain ⟨env, w, underway⟩ := orderly.underway is
  obtain ⟨v', next, moved, pages⟩ := (wp_ok run).mp
    (underway.allocateMem_wp fun a mem => below_of_mem_rangeVas heap mem)
  exact ⟨v', orderly.arrive next moved.beside, moved.beside, pages⟩

theorem Orderly.freeMem (orderly : Orderly m s v) (is : s.globals.curenv = some e)
    (aligned : Aligned va) (heap : va + size ≤ userHeapMax)
    (run : Fos.freeMem e va size s = .ok () s') :
    ∃ v', Orderly m s' v' ∧ v.Beside v' e ∧ Event.Effect e v v' (.freeMem va size) := by
  obtain ⟨env, w, underway⟩ := orderly.underway is
  obtain ⟨v', w', next, frees⟩ := (wp_ok run).mp (underway.freeMem_wp aligned heap)
  have beside : v.Beside v' e := ⟨frees.spares, frees.curenv, frees.envsAddress⟩
  exact ⟨v', orderly.arrive next beside, beside, frees⟩

/-! ## Runs -/

/-- What an event does to the environment `e`: its own events have their effect, and those of
others have none. -/
def Event.Does (a : Event) (e : Nat) (s : Kernel) (v v' : View) : Prop :=
  if s.globals.curenv = some e then a.Effect e v v' else v'.tiers e = v.tiers e

/-- The environment that an event makes. -/
def Event.Creates (e : Nat) : Event → Prop
  | .create e' _ _ _ => e' = e
  | _ => False

/-- Another environment may come to run. -/
def Event.Switches : Event → Prop
  | .run _ => True
  | .exit => True
  | .prompt => True
  | _ => False

theorem Orderly.curenv (orderly : Orderly m s v) (next : Orderly m s' v')
    (same : v'.globals.curenv = v.globals.curenv) : s'.globals.curenv = s.globals.curenv := by
  rw [next.rep.globals, orderly.rep.globals, same]

/-- An event of the environment that runs. -/
theorem Orderly.acts {a : Event} (orderly : Orderly m s v) (current : s.globals.curenv ≠ none)
    (acts : ∀ e, s.globals.curenv = some e → ∃ v', Orderly m s' v' ∧ v.Beside v' e ∧
      a.Effect e v v') : ∃ v', Orderly m s' v' ∧ (∀ e, s'.Live e → s.Live e) ∧
      s'.globals.curenv = s.globals.curenv ∧ ∀ e, s.Live e → s'.Live e ∧ a.Does e s v v' := by
  obtain ⟨c, is⟩ := Option.ne_none_iff_exists'.mp current
  obtain ⟨v', next, beside, effect⟩ := acts c is
  refine ⟨v', next, fun e live => ?_, orderly.curenv next beside.curenv, fun e live => ?_⟩
  · rcases eq_or_ne e c with rfl | ne
    · exact orderly.live.mpr (orderly.runs e (orderly.rep.globals ▸ is)).1
    · rw [orderly.live, ← (beside.spares.same ne).dir]
      exact next.live.mp live
  rcases eq_or_ne e c with rfl | ne
  · refine ⟨?_, by rwa [Event.Does, if_pos is]⟩
    rw [orderly.rep.globals, ← beside.curenv] at is
    exact next.live.mpr (next.runs e is).1
  · have same := beside.spares.same ne
    refine ⟨orderly.goes_on next same live, ?_⟩
    rw [Event.Does, if_neg fun is' => ne (Option.some.inj (is'.symm.trans is))]
    exact same.tiers

/-- **An event keeps the system orderly**, and changes the pages of the environment that runs
only. -/
theorem Orderly.step {a : Event} (orderly : Orderly m s v) (allowed : a.Allowed s)
    (run : a.prog s = .ok () s') : ∃ v', Orderly m s' v' ∧
      (∀ e, s'.Live e → s.Live e ∨ a.Creates e) ∧
      (¬ a.Switches → s'.globals.curenv = s.globals.curenv) ∧
      ∀ e, s.Live e → a ≠ .free e → s'.Live e ∧ a.Does e s v v' := by
  -- the events that are not about the environment `e`
  have aside : ∀ {v' e}, Orderly m s' v' → v.Same v' e → s.Live e →
      (a.Effect e v v' ↔ v'.tiers e = v.tiers e) → s'.Live e ∧ a.Does e s v v' := by
    intro v' e next same live none
    rw [Event.Does, none, ite_self]
    exact ⟨orderly.goes_on next same live, same.tiers⟩
  have before : ∀ {v' e}, Orderly m s' v' → v.Same v' e → s'.Live e → s.Live e := by
    intro v' e next same live
    rw [orderly.live, ← same.dir]
    exact next.live.mp live
  cases a with
  | create e program size second =>
    obtain ⟨slot, free, fits, apart, lt⟩ := allowed
    obtain ⟨v', next, beside⟩ := orderly.create slot free fits apart lt run
    refine ⟨v', next, fun e' live => ?_, fun _ => orderly.curenv next beside.curenv,
      fun e' live _ => aside next (beside.spares.same ?_) live Iff.rfl⟩
    · rcases eq_or_ne e e' with is | ne
      · exact Or.inr is
      · exact Or.inl (before next (beside.spares.same ne.symm) live)
    · rintro rfl
      rw [Kernel.Live, free] at live
      exact live rfl
  | run e =>
    obtain ⟨v', next, same⟩ := orderly.envRun allowed run
    exact ⟨v', next, fun e' live => Or.inl (before next (same e') live),
      fun no => (no trivial).elim,
      fun e' live _ => aside next (same e') live Iff.rfl⟩
  | load va =>
    obtain ⟨v', next, back, curenv, does⟩ := orderly.acts allowed.2.2 fun e is =>
      orderly.load is allowed.1 allowed.2.1 run
    exact ⟨v', next, fun e live => Or.inl (back e live), fun _ => curenv,
      fun e live _ => does e live⟩
  | store va b =>
    obtain ⟨v', next, back, curenv, does⟩ := orderly.acts allowed.2.2 fun e is =>
      orderly.store is allowed.1 allowed.2.1 run
    exact ⟨v', next, fun e live => Or.inl (back e live), fun _ => curenv,
      fun e live _ => does e live⟩
  | fault va =>
    obtain ⟨v', next, back, curenv, does⟩ := orderly.acts allowed.2.2.1 fun e is =>
      orderly.fault is allowed.1 allowed.2.1 allowed.2.2.2 run
    exact ⟨v', next, fun e live => Or.inl (back e live), fun _ => curenv,
      fun e live _ => does e live⟩
  | allocateMem va size =>
    obtain ⟨v', next, back, curenv, does⟩ :=
      orderly.acts allowed.2 fun e is => orderly.allocateMem is allowed.1
      (called (k := fun e => Fos.allocateMem e va size) is run)
    exact ⟨v', next, fun e live => Or.inl (back e live), fun _ => curenv,
      fun e live _ => does e live⟩
  | freeMem va size =>
    obtain ⟨v', next, back, curenv, does⟩ :=
      orderly.acts allowed.2.2 fun e is => orderly.freeMem is allowed.1
      allowed.2.1 (called (k := fun e => Fos.freeMem e va size) is run)
    exact ⟨v', next, fun e live => Or.inl (back e live), fun _ => curenv,
      fun e live _ => does e live⟩
  | free e =>
    obtain ⟨v', next, spares, vacant, curenv⟩ := orderly.free allowed.1 allowed.2 run
    have gone : ∀ e', s'.Live e' → e' ≠ e := by
      rintro e' live rfl
      exact next.live.mp live (vacant.2 _ (Or.inl rfl))
    refine ⟨v', next, fun e' live => Or.inl (before next (spares.same (gone e' live)) live),
      fun _ => orderly.curenv next curenv,
      fun e' live other => aside next (spares.same ?_) live Iff.rfl⟩
    rintro rfl
    exact other rfl
  | exit =>
    obtain rfl : s.setGlobals { s.globals with curenv := none } = s' := by
      cases run
      rfl
    obtain ⟨v', next, same⟩ := orderly.setNone (g := { s.globals with curenv := none }) rfl rfl rfl
      rfl rfl rfl
    exact ⟨v', next, fun e live => Or.inl (before next (same e) live), fun no => (no trivial).elim,
      fun e live _ => aside next (same e) live Iff.rfl⟩
  | prompt =>
    obtain rfl : s.setGlobals { s.globals with
        curenv := none
        cr3 := toPhysicalAddress s.globals.ptrPageDirectory } = s' := by
      cases run
      rfl
    obtain ⟨v', next, same⟩ := orderly.setNone (g := { s.globals with
      curenv := none
      cr3 := toPhysicalAddress s.globals.ptrPageDirectory }) rfl rfl rfl rfl rfl rfl
    exact ⟨v', next, fun e live => Or.inl (before next (same e) live), fun no => (no trivial).elim,
      fun e live _ => aside next (same e) live Iff.rfl⟩

/-- Nothing is there when the machine has been started. -/
theorem Machine.orderly_boot (m : Machine) : Orderly m m.boot m.bootView where
  toSound := m.sound_boot
  slot e := by
    refine Or.inr ⟨rfl, fun o mine => m.place_bootView ?_ ?_⟩ <;> rintro rfl <;>
      simp [Obj.Of, Obj.UserOf, Obj.DiskOf] at mine
  low e i _ := m.place_bootView (by simp) (by simp)
  runs e is := by cases is
  keeps := .refl _ _
  envsAddress := rfl

/-- **The system is orderly in every state that it comes to.** -/
theorem Machine.Run.orderly (run : m.Run s) : ∃ v, Orderly m s v := by
  induction run with
  | boot => exact ⟨_, m.orderly_boot⟩
  | step a _ allowed ends ih =>
    obtain ⟨v, orderly⟩ := ih
    obtain ⟨v', next, -, -, -⟩ := orderly.step allowed ends
    exact ⟨v', next⟩

/-- A slot without an environment is empty. -/
theorem Machine.Run.allowed {a : Event} (run : m.Run s) (may : a.May s) : a.Allowed s := by
  cases a with
  | create e program size second =>
    obtain ⟨slot, none, fits, apart, lt⟩ := may
    obtain ⟨v, orderly⟩ := run.orderly
    have vacant := (orderly.slot e).resolve_left fun ⟨env, w, runnable⟩ => by
      obtain ⟨d, dir⟩ := runnable.dir
      exact none (orderly.live.mpr (by simp [dir]))
    exact ⟨slot, orderly.rep.globals ▸ vacant.1, fits, apart, lt⟩
  | _ => exact may

theorem Machine.Run.exec {a : Event} (run : m.Run s) (ends : s.exec a = some s') :
    a.Allowed s ∧ a.prog s = .ok () s' := by
  obtain ⟨may, ends⟩ := Option.ite_none_right_eq_some.mp ends
  obtain ⟨_, ends⟩ := after_eq_some.mp ends
  exact ⟨run.allowed may, ends⟩

/-- The environments that exist after a list of events are old ones or have been created. -/
theorem Machine.Run.execs {evs : List Event} (run : m.Run s)
    (ends : evs.foldlM Kernel.exec s = some s') :
    m.Run s' ∧ ∀ e, s'.Live e → s.Live e ∨ ∃ a ∈ evs, a.Creates e := by
  refine foldlM_steps (l := []) (R := fun evs s' => m.Run s' ∧ ∀ e, s'.Live e → s.Live e ∨
    ∃ a ∈ evs, a.Creates e) ?_ ⟨run, fun e live => Or.inl live⟩ ends
  rintro evs s₁ a s₂ ⟨run₁, old⟩ ends₁
  obtain ⟨allowed, ends₁⟩ := run₁.exec ends₁
  obtain ⟨v, orderly⟩ := run₁.orderly
  obtain ⟨v', -, back, -, -⟩ := orderly.step allowed ends₁
  refine ⟨run₁.step a allowed ends₁, fun e live => ?_⟩
  rcases back e live with was | creates
  · refine (old e was).imp_right ?_
    rintro ⟨a', mem, creates⟩
    exact ⟨a', List.mem_append_left _ mem, creates⟩
  · exact Or.inr ⟨a, List.mem_append_right _ (List.mem_singleton_self a), creates⟩

theorem run_bootKernel : smallMachine.Run bootKernel := boot_smallMachine ▸ .boot

/-- The two lists are no longer than the working set. -/
theorem Runnable.length_le (runnable : Runnable e env₀ s v w) :
    (w.seqs .activeList ++ w.seqs .secondList).length ≤ env₀.pageWSMaxSize := by
  have listed := runnable.listed
  have nodup : (w.seqs .activeList ++ w.seqs .secondList).Nodup :=
    (listed.nodup _).append (listed.nodup _) (listed.rep.disjoint _ _ (by decide))
  have sub : w.seqs .activeList ++ w.seqs .secondList ⊆ List.range env₀.pageWSMaxSize := by
    intro k mem
    rcases List.mem_append.mp mem with mem | mem <;>
      exact List.mem_range.mpr (runnable.few k ⟨_, mem⟩)
  simpa using (nodup.subperm sub).length_le

/-- **No environment has more in memory than its working set.**  In every state that the system
comes to, the pages of an environment that have a page table entry are those on its active list,
which are present, and those on its second list, which are not; no page is on the lists twice, and
they are no longer than the sizes that `env_create` set. -/
theorem Machine.Run.working_sets (run : m.Run s) (live : s.Live e) :
    ∃ seqs, (s.globals.envs e).lists.Rep seqs ∧
      ((seqs .activeList ++ seqs .secondList).map (s.globals.envs e).address).Nodup ∧
      (seqs .activeList ++ seqs .secondList).length ≤ (s.globals.envs e).pageWSMaxSize ∧
      ((seqs .activeList).length : Int) ≤ (s.globals.envs e).activeListSize ∧
      ((seqs .secondList).length : Int) ≤ (s.globals.envs e).secondListSize ∧
      ∀ va, Aligned va → UserVa va →
        (present (s.pageEntry e va) ↔ va ∈ (seqs .activeList).map (s.globals.envs e).address) ∧
        (s.pageEntry e va ≠ 0 ↔
          va ∈ (seqs .activeList ++ seqs .secondList).map (s.globals.envs e).address) := by
  obtain ⟨v, orderly⟩ := run.orderly
  obtain ⟨env, w, runnable⟩ := orderly.runnable live
  obtain ⟨d, dir⟩ := runnable.dir
  have listed := runnable.listed
  have mapped := runnable.mapped
  have address : (s.globals.envs e).address = env.address := by
    funext k
    rw [Env.address, listed.elements, Env.address]
  have queue : (w.seqs .activeList ++ w.seqs .secondList).map env.address =
      w.addresses env .activeList ++ w.addresses env .secondList := List.map_append
  have length := runnable.length_le
  have sum := runnable.sum
  have second := runnable.second
  rw [address, listed.maxSize, listed.activeSize, listed.secondSize]
  refine ⟨w.seqs, listed.rep, ?_, length, runnable.active, ?_, fun va aligned user => ?_⟩
  · rw [queue]
    exact mapped.nodup
  · rw [List.length_append] at length
    by_cases none : w.seqs .secondList = []
    · rw [none, List.length_nil]
      exact second
    · have full := runnable.full none
      omega
  · rw [runnable.toSound.pageEntry dir user, queue]
    exact ⟨mapped.present va aligned user, mapped.entry va aligned user⟩

/-- A program that needs three more pages for its stack than the one that it starts with. -/
abbrev deepStack : List Event :=
  [.create 0 emptyProgram 3 1, .run 0, .fault 0xEEBFC000, .fault 0xEEBFB000, .fault 0xEEBFA000]

/-- Its faults fill both lists, and the last one evicts its first page. -/
theorem working_sets_stack : ∃ s seqs, deepStack.foldlM Kernel.exec bootKernel = some s ∧
    (s.globals.envs 0).lists.Rep seqs ∧
    (seqs .activeList ++ seqs .secondList).length ≤ (s.globals.envs 0).pageWSMaxSize ∧
    (∀ va ∈ [0xEEBFA000, 0xEEBFB000], va ∈ (seqs .activeList).map (s.globals.envs 0).address) ∧
    0xEEBFC000 ∈ (seqs .secondList).map (s.globals.envs 0).address ∧
    0xEEBFD000 ∉ (seqs .activeList ++ seqs .secondList).map (s.globals.envs 0).address := by
  have ends : (deepStack.foldlM Kernel.exec bootKernel).any (fun s => s.Live 0 ∧
      present (s.pageEntry 0 0xEEBFA000) ∧ present (s.pageEntry 0 0xEEBFB000) ∧
      s.pageEntry 0 0xEEBFC000 ≠ 0 ∧ ¬ present (s.pageEntry 0 0xEEBFC000) ∧
      s.pageEntry 0 0xEEBFD000 = 0) = true := by
    decide +kernel
  obtain ⟨s, runs, ends⟩ := (Option.any_eq_true _ _).mp ends
  obtain ⟨live, first, second, mapped, waits, gone⟩ := of_decide_eq_true ends
  obtain ⟨run, -⟩ := run_bootKernel.execs runs
  obtain ⟨seqs, rep, -, length, -, -, pages⟩ := run.working_sets live
  refine ⟨s, seqs, runs, rep, length, ?_, ?_, ?_⟩
  · simp only [List.forall_mem_cons, List.not_mem_nil, false_implies, implies_true, and_true]
    exact ⟨(pages 0xEEBFA000 (by decide) (by decide)).1.mp first,
      (pages 0xEEBFB000 (by decide) (by decide)).1.mp second⟩
  · obtain ⟨active, listed⟩ := pages 0xEEBFC000 (by decide) (by decide)
    have here := listed.mp mapped
    rw [List.map_append, List.mem_append] at here
    exact here.resolve_left (mt active.mpr waits)
  · rw [← (pages 0xEEBFD000 (by decide) (by decide)).2, not_not]
    exact gone

end Fos
