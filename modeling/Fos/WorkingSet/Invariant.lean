import Fos.WorkingSet.Created
import Fos.WorkingSet.Reclaim

/-!
# The working set from the creation on

What the three lists of an environment have to do with its page tables, from `env_create`
through every run of the environment.

* `WsInvariant`: the invariant, in terms of the kernel's state;
* `Running.faultHandler_wp`: a fault keeps it;
* `UserRun`: the environment runs, and its faults are handled;
* `Sound.envCreate_invariant`: it holds of a new environment and in every run of it.
-/

namespace Fos

open Arena Exec Linked

variable {s s' : Kernel} {v : View} {e va : Nat} {env₀ : Env} {w : WorkingSet}
  {E : Stop → Kernel → Prop}

/-! ## The invariant -/

/-- The lists `seqs` of the environment share out the elements of its working set, the pages on
the active list are those with a present page table entry, and those on the second list are the
others that have one. -/
structure WsInvariant (e : Nat) (s : Kernel) (seqs : WSList → List Nat) : Prop where
  rep : (s.globals.envs e).lists.Rep seqs
  shared : ∀ k < (s.globals.envs e).pageWSMaxSize, ∃! i, k ∈ seqs i
  distinct : ((seqs .activeList ++ seqs .secondList).map (s.globals.envs e).address).Nodup
  active : ((seqs .activeList).length : Int) ≤ (s.globals.envs e).activeListSize
  second : ((seqs .secondList).length : Int) ≤ (s.globals.envs e).secondListSize
  full : seqs .secondList ≠ [] →
    ((seqs .activeList).length : Int) = (s.globals.envs e).activeListSize
  present : ∀ va, Aligned va → UserVa va →
    (present (s.pageEntry e va) ↔ va ∈ (seqs .activeList).map (s.globals.envs e).address)
  absent : ∀ va, Aligned va → UserVa va → (s.pageEntry e va ≠ 0 ∧ ¬ Fos.present (s.pageEntry e va) ↔
    va ∈ (seqs .secondList).map (s.globals.envs e).address)

theorem Running.created (running : Running e env₀ s v w) : Created e env₀ s v w :=
  { running with }

/-- The lists of an environment that is ready to run. -/
theorem Created.invariant (created : Created e env₀ s v w) : WsInvariant e s w.seqs := by
  obtain ⟨d, dir⟩ := created.dir
  have listed := created.listed
  have address : (s.globals.envs e).address = env₀.address := by
    funext k
    rw [Env.address, listed.elements, Env.address]
  have entry : ∀ va, UserVa va → s.pageEntry e va = v.ptes e (pageNo va) :=
    fun va user => created.toSound.pageEntry dir user
  have mapped := created.mapped
  have lengths := listed.lengths created.all
  have length := w.length_queue env₀
  have sum := created.sum
  have nonneg := created.second
  refine ⟨listed.rep, fun k lt => ?_, ?_, ?_, ?_, fun some => ?_, fun va aligned user => ?_,
    fun va aligned user => ?_⟩
  · rw [listed.maxSize] at lt
    obtain ⟨i, mem⟩ := (created.all k).mpr lt
    refine ⟨i, mem, fun i' mem' => ?_⟩
    by_contra ne
    exact listed.rep.disjoint _ _ ne mem' mem
  · rw [address, List.map_append]
    exact mapped.nodup
  · rw [listed.activeSize]
    exact created.active
  · rw [listed.secondSize]
    by_cases some : w.seqs .secondList = []
    · rw [some, List.length_nil]
      exact nonneg
    · have full := created.full some
      omega
  · rw [listed.activeSize]
    exact created.full some
  · rw [entry va user, address]
    exact mapped.present va aligned user
  · rw [entry va user, address]
    rw [mapped.entry va aligned user, mapped.present va aligned user, List.mem_append]
    have apart := (List.nodup_append.mp mapped.nodup).2.2
    constructor
    · rintro ⟨active | second, out⟩
      · exact absurd active out
      · exact second
    · exact fun second => ⟨Or.inr second, fun active => apart va active va second rfl⟩

/-! ## Faults -/

/-- Other members of the environment change. -/
theorem Underway.edit {g : Env → Env} (underway : Underway e env₀ s v w)
    (dir : ∀ env, (g env).envPageDirectory = env.envPageDirectory)
    (cr3 : ∀ env, (g env).envCr3 = env.envCr3)
    (diskDir : ∀ env, (g env).diskEnvPgdir = env.diskEnvPgdir)
    (pa : ∀ env, (g env).diskEnvPgdirPA = env.diskEnvPgdirPA)
    (aside : Env.Aside g) :
    Underway e env₀ (s.setGlobals (s.globals.setEnv e g)) (v.setEnv e g) w ∧
      Moved e env₀ v w env₀ (v.setEnv e g) w :=
  ⟨{ underway with
    toSound := underway.toSound.setEnv e g dir cr3 diskDir pa
    listed := underway.listed.same (WsSame.setEnv e s e aside) },
    ⟨rfl, rfl, rfl⟩, fun _ => Iff.rfl, .setEnv v e g, rfl, rfl⟩

def stackUnderflow : Stop := .panic "User: stack underflow exception!"

/-- The fault at `va` has made a page table, or has brought the page into memory. -/
inductive View.Handled (v v' : View) (e va : Nat) : Prop where
  | table : v.place (.pageTable e (pdx va)) = none → v'.place (.pageTable e (pdx va)) ≠ none →
    v'.tiers e = v.tiers e → View.Handled v v' e va
  | page : v.Fetched v' e (roundDown va) → View.Handled v v' e va

/-- **A fault** of the environment, whatever it is. -/
theorem Underway.faultHandler_wp {Q : Unit → Kernel → Prop} (underway : Underway e env₀ s v w)
    (lt : va < word32) (user : UserVa va)
    (absent : ¬ present (pteAt s.mem (ppn s.globals.cr3) (pageNo va)))
    (done : ∀ s' env₁ v' w', Underway e env₁ s' v' w' → Moved e env₀ v w env₁ v' w' →
      v.Handled v' e va → Q () s')
    (stops : FaultStops E v e env₀.pageWSMaxSize (roundDown va))
    (underflow : ustackTop ≤ va → E stackUnderflow s)
    (lost : (∃ k < env₀.pageWSMaxSize, ¬ w.Has k) → ∀ s', E .crash s') :
    wp (faultHandler va) Q E s := by
  obtain ⟨d, dir⟩ := underway.dir
  have curenv : s.globals.curenv = some e := underway.rep.globals ▸ underway.curenv
  have new := underway.new lt user absent
  rw [faultHandler, wp_ite]
  split
  · rename_i beyond
    exact underflow beyond
  · simp only [wp_bind, wp_get, curenv, wp_deref_some]
    apply Fos.envPageDirectory_wp underway.rep (underway.linked e) dir
    simp only [wp_readWord, wp_ite, wp_bind, wp_modifyEnv]
    split
    · rename_i noTable
      obtain ⟨counted, moved⟩ := underway.edit (g := Env.countTableFault) (fun _ => rfl)
        (fun _ => rfl) (fun _ => rfl) (fun _ => rfl)
        ⟨fun _ => rfl, fun _ => rfl, fun _ => rfl, fun _ => rfl, fun _ => rfl, fun _ => rfl⟩
      have absent : v.place (.pageTable e (pdx va)) = none := by
        have word := underway.rep.words (.pageDir e) (pdx va)
        rw [← underway.rep.mem dir] at word
        refine (underway.rep.place_none (Obj.child_pageDir user)).mpr ?_
        rw [← underway.rep.mem dir]
        by_contra some
        exact noTable ((and_present _).mpr (word.1 user some).1)
      refine counted.toSpace.tableFaultHandler_wp user absent
        (fun s' v₁ space next table pages => ?_)
        fun none s' => stops.full ?_ s'
      · have underway₁ := counted.reach space next ⟨rfl, rfl, rfl⟩ counted.ordered fun _ => Iff.rfl
        refine done s' env₀ v₁ w underway₁
          (moved.trans ⟨⟨rfl, rfl, rfl⟩, fun _ => Iff.rfl, next.beside⟩) (.table absent table ?_)
        rw [View.tiers, next.ptes, pages.1, pages.2]
        rfl
      · rw [show v.free = [] from none]
        decide
    · obtain ⟨counted, moved⟩ := underway.edit (g := Env.countPageFault) (fun _ => rfl)
        (fun _ => rfl) (fun _ => rfl) (fun _ => rfl)
        ⟨fun _ => rfl, fun _ => rfl, fun _ => rfl, fun _ => rfl, fun _ => rfl, fun _ => rfl⟩
      exact counted.pageFaultHandler_wp (roundDown_aligned lt) user.roundDown new
        (fun s' env₁ v₁ w₁ _ underway₁ moved₁ _ fetched => done s' env₁ v₁ w₁ underway₁
          (moved.trans moved₁) (.page ⟨fetched.pages, fetched.allows⟩))
        (stops.congr rfl le_rfl) lost

/-- The same where all elements are on the lists. -/
theorem Running.faultHandler_wp {Q : Unit → Kernel → Prop} (running : Running e env₀ s v w)
    (lt : va < word32) (user : UserVa va)
    (absent : ¬ present (pteAt s.mem (ppn s.globals.cr3) (pageNo va)))
    (done : ∀ s' env₁ v' w', Running e env₁ s' v' w' → env₁.SameSizes env₀ →
      v.Handled v' e va → Q () s')
    (stops : FaultStops E v e env₀.pageWSMaxSize (roundDown va))
    (underflow : ustackTop ≤ va → E stackUnderflow s) : wp (faultHandler va) Q E s :=
  running.underway.faultHandler_wp lt user absent
    (fun s' env₁ v' w' underway moved handled => done s' env₁ v' w'
      (underway.runs moved running.all) moved.sizes handled) stops underflow
    fun ⟨k, lt, off⟩ => absurd ((running.all k).mpr lt) off

/-- A page of the page file or of the stack can be had. -/
theorem Running.legal (running : Running e env₀ s v w) (below : va < ustackTop)
    (page : s.pageFileEntry e va ≠ 0 ∨ ustackBottom ≤ va) : Legal (v.entry e) (roundDown va) := by
  refine page.imp (fun entry => ?_) fun stack => ?_
  · rwa [running.toSound.file.pageFileEntry, ← pageNo_roundDown] at entry
  · simp only [roundDown, ustackBottom, ustackTop, pageSize] at *
    omega

/-! ## Runs -/

/-- `UserRun e s s'`: `env_run` starts the environment, which was not the current one, and it
accesses pages; the accesses that fault are handled. -/
inductive UserRun (e : Nat) (s : Kernel) : Kernel → Prop where
  | start {s₁ : Kernel} : s.globals.curenv ≠ some e → envRun e s = .ok () s₁ → UserRun e s s₁
  | access {s₁ s₂ : Kernel} {va f : Nat} {write : Bool} {p : Page} :
    UserRun e s s₁ → va < word32 → UserVa va → translate va true write s₁ = .ok (some f) s₂ →
    (write = false → p = s₂.mem f) → UserRun e s (s₂.setPage f p)
  | fault {s₁ s₂ : Kernel} {va : Nat} :
    UserRun e s s₁ → va < word32 → UserVa va →
    ¬ present (pteAt s₁.mem (ppn s₁.globals.cr3) (pageNo va)) →
    faultHandler va s₁ = .ok () s₂ → UserRun e s s₂

/-- An environment that was not the current one is started. -/
theorem Created.run (created : Created e env₀ s v w) (other : s.globals.curenv ≠ some e)
    (run : envRun e s = .ok () s') : ∃ v', Running e env₀ s' v' w := by
  obtain ⟨d, dir⟩ := created.dir
  have started : wp (envRun e) (fun _ s' => ∃ v', Running e env₀ s' v' w) (fun _ _ => True) s := by
    apply envRun_wp created.rep
    · exact fun same => absurd (created.rep.globals ▸ same) other
    · intro s₁ _ rep
      have env : s₁.globals.envs e = s.globals.envs e := by
        rw [rep.globals, created.rep.globals]
        rfl
      have same : WsSame e s s₁ := by
        constructor <;> rw [env]
      exact ⟨_, { created with
        toSound := created.toSound.runs rep
        listed := created.listed.same same
        curenv := rfl
        current := created.toSound.current_runs dir }⟩
  exact (wp_ok run).mp started

/-- The lists of an environment in a run. -/
theorem Created.userRun (created : Created e env₀ s v w) (run : UserRun e s s') :
    ∃ env₁ v' w', Running e env₁ s' v' w' ∧ env₁.SameSizes env₀ := by
  induction run with
  | start other started =>
    obtain ⟨v', running⟩ := created.run other started
    exact ⟨env₀, v', w, running, rfl, rfl, rfl⟩
  | @access s₁ s₂ va f write p _ lt user access _ ih =>
    obtain ⟨env₁, v₁, w₁, running₁, sizes⟩ := ih
    obtain ⟨-, v₂, running₂, -⟩ := running₁.access user lt access p
    exact ⟨env₁, v₂, w₁, running₂, sizes⟩
  | @fault s₁ s₂ va _ lt user absent handled ih =>
    obtain ⟨env₁, v₁, w₁, running₁, sizes⟩ := ih
    have ends : wp (faultHandler va) (fun _ s' => ∃ env₂ v' w', Running e env₂ s' v' w' ∧
        env₂.SameSizes env₁) (fun _ _ => True) s₁ :=
      running₁.faultHandler_wp lt user absent
        (fun s' env₂ v' w' next same _ => ⟨env₂, v', w', next, same⟩)
        ⟨fun _ _ _ => trivial, fun _ _ _ => trivial, fun _ _ => trivial⟩ fun _ => trivial
    obtain ⟨env₂, v₂, w₂, running₂, sizes₂⟩ := (wp_ok handled).mp ends
    exact ⟨env₂, v₂, w₂, running₂, sizes₂.trans sizes⟩

/-- **The invariant of the working set** holds of a new environment, if no two segments of its
program share a page, and in every state of every run of it; and a fault on a page of the page
file or of the stack keeps it, unless the page file or the memory is full. -/
theorem Sound.envCreate_invariant {program : UserProgram} {size second : Nat} (sound : Sound s v)
    (free : s.globals.envs e = Env.zero)
    (high : ∀ k < pwsMaxSize, 960 ≤ pdx (elementAddress s.globals.envsAddress e k))
    (fits : ∀ seg ∈ program.segments, seg.Fits)
    (apart : program.segments.Pairwise ProgramSegment.Apart) (lt : second < size)
    (run : envCreate e program size second s = .ok () s') :
    (∃ seqs, WsInvariant e s' seqs) ∧ ∀ s₁, UserRun e s' s₁ → (∃ seqs, WsInvariant e s₁ seqs) ∧
      ∀ va < ustackTop, ¬ present (pteAt s₁.mem (ppn s₁.globals.cr3) (pageNo va)) →
        s₁.pageFileEntry e va ≠ 0 ∨ ustackBottom ≤ va →
        wp (faultHandler va) (fun _ s₂ => ∃ seqs, WsInvariant e s₂ seqs)
          (fun x _ => x = noVirtualSpace ∨ x = outOfMemory) s₁ := by
  have lists := (wp_ok run).mp (sound.envCreate_lists free high fits apart lt)
  obtain ⟨env₀, v', w, created, -⟩ := lists
  refine ⟨⟨_, created.invariant⟩, fun s₁ runs => ?_⟩
  obtain ⟨env₁, v₁, w₁, running, -⟩ := created.userRun runs
  refine ⟨⟨_, running.created.invariant⟩, fun va below absent legal => ?_⟩
  have user : UserVa va := userVa_of_lt (below.trans (by decide))
  have page := running.legal below legal
  refine running.faultHandler_wp (below.trans (by decide)) user absent
    (fun s₂ env₂ v₂ w₂ running₂ _ _ => ⟨_, running₂.created.invariant⟩)
    ⟨?_, ?_, ?_⟩ fun beyond => ?_
  · exact fun _ illegal => absurd page illegal
  · exact fun _ _ _ => Or.inl rfl
  · exact fun _ _ => Or.inr rfl
  · exact absurd below (Nat.not_lt_of_le beyond)

theorem Machine.high_boot (m : Machine) (slot : e < nenv) :
    ∀ k < pwsMaxSize, 960 ≤ pdx (elementAddress m.boot.globals.envsAddress e k) := by
  intro k lt
  rw [m.sound_boot.rep.globals]
  exact m.high slot lt

/-- A program of one byte is created, and run. -/
theorem invariant_byte : ∃ s', envCreate 0 (byteProgram 0x800000) 1 0 smallMachine.boot =
    .ok () s' ∧
    (∃ seqs, WsInvariant 0 s' seqs) ∧ ∀ s₁, UserRun 0 s' s₁ → ∃ seqs, WsInvariant 0 s₁ seqs := by
  obtain ⟨s', run⟩ := envCreate_small (byteProgram 0x800000) 1 (by decide +kernel)
  obtain ⟨fits, apart⟩ := byteProgram_fits 0x800000 (by decide)
  obtain ⟨new, runs⟩ := smallMachine.sound_boot.envCreate_invariant boot_starts.2
    (smallMachine.high_boot (by decide)) fits apart (by decide) run
  exact ⟨s', run, new, fun s₁ started => (runs s₁ started).1⟩

/-- A program of two segments of one byte that share a page. -/
def sharingProgram : UserProgram where
  name := "a"
  elfMagic := true
  segments := [⟨fun k => if k = 0 then 1 else 0, 1, 1, 0x800FFE⟩,
    ⟨fun k => if k = 0 then 1 else 0, 1, 1, 0x800FFF⟩]

theorem sharingProgram_fits : ∀ seg ∈ sharingProgram.segments, seg.Fits := by
  intro seg mem
  simp only [sharingProgram, List.mem_cons, List.not_mem_nil, or_false] at mem
  rcases mem with rfl | rfl
  · exact ⟨by decide, by decide⟩
  · exact ⟨by decide, by decide⟩

/-- What there is of the working set of environment 0 after a run that returns. -/
def newLists : EStateM.Result Stop Kernel Unit → Option (Option Nat × Option Nat × Nat × Nat × Nat)
  | .ok _ s => some (((s.globals.envs 0).lists.head .pageWorkingSetList).lhFirst,
    ((s.globals.envs 0).lists.head .secondList).lhFirst, (s.globals.envs 0).pageWSMaxSize,
    (s.globals.envs 0).address 0, (s.globals.envs 0).address 1)
  | .error _ _ => none

/-- The page of the two segments is twice on the active list. -/
theorem invariant_sharing : ¬ ∀ (s s' : Kernel) (v : View) (e : Nat) (program : UserProgram)
    (size second : Nat), Sound s v → s.globals.envs e = Env.zero →
    (∀ k < pwsMaxSize, 960 ≤ pdx (elementAddress s.globals.envsAddress e k)) →
    (∀ seg ∈ program.segments, seg.Fits) → second < size →
    envCreate e program size second s = .ok () s' → ∃ seqs, WsInvariant e s' seqs := by
  intro holds
  have ends : newLists (envCreate 0 sharingProgram 3 0 bootKernel) =
      some (none, none, 3, 0x800000, 0x800000) := by decide +kernel
  cases run : envCreate 0 sharingProgram 3 0 bootKernel with
  | error x s' =>
    rw [run] at ends
    cases ends
  | ok a s' =>
    rw [run] at ends
    simp only [newLists, Option.some.injEq, Prod.mk.injEq] at ends
    obtain ⟨free, second, max, first, next⟩ := ends
    obtain ⟨seqs, inv⟩ := holds smallMachine.boot s' _ 0 sharingProgram 3 0 smallMachine.sound_boot
      boot_starts.2 (smallMachine.high_boot (by decide)) sharingProgram_fits (by decide)
      (by rw [boot_smallMachine, run])
    have noFree : seqs .pageWorkingSetList = [] := by
      rw [inv.rep.first] at free
      exact List.head?_eq_none_iff.mp free
    have noSecond : seqs .secondList = [] := by
      rw [inv.rep.first] at second
      exact List.head?_eq_none_iff.mp second
    have active : ∀ k < 3, k ∈ seqs .activeList := by
      intro k lt
      obtain ⟨i, mem, -⟩ := inv.shared k (max ▸ lt)
      cases i with
      | pageWorkingSetList => simp [noFree] at mem
      | activeList => exact mem
      | secondList => simp [noSecond] at mem
    have distinct := inv.distinct
    rw [noSecond, List.append_nil] at distinct
    exact absurd (List.inj_on_of_nodup_map distinct (active 0 (by decide)) (active 1 (by decide))
      (first.trans next.symm)) (by decide)

end Fos
