import Fos.Memory.Environment
import Fos.Memory.Sound

/-!
# Address spaces

What `env_create` and `env_run` do to the page directory of an environment.

* `newSpace_wp`: a new page directory, and the lists of a new environment;
* `envRun_wp`: the change to the page directory of another environment.
-/

namespace Fos

open Arena Linked Exec

variable {s : Kernel} {E : Stop → Kernel → Prop} {v v' : View} {e f : Nat}

/-! ## A new page directory -/

/-- The lists of a new environment with `n` working-set elements. -/
def startLists (n : Nat) : WSList → List Nat :=
  Function.update (fun _ => []) .pageWorkingSetList (List.range n).reverse

theorem startLists_succ (n : Nat) :
    Function.update (startLists n) .pageWorkingSetList (n :: startLists n .pageWorkingSetList) =
      startLists (n + 1) := by
  simp [startLists, List.range_succ]

/-- The members of a new environment. -/
def Env.created (f pageWSSize LRUSecondListSize : Nat) (L : Lists WSList Nat) (env : Env) : Env :=
  ((env.setSizes pageWSSize LRUSecondListSize).setLists L).initialized f (toPhysicalAddress f)

/-- The environment `e` with a new page directory in the frame `f`. -/
def View.newSpace (v : View) (e f pageWSSize LRUSecondListSize : Nat) (L : Lists WSList Nat) :
    View :=
  ((v.take f).put (.pageDir e) f (newDirectory (v.page .kernelDir) (toPhysicalAddress f))).setEnv e
    (Env.created f pageWSSize LRUSecondListSize L)

theorem newDirectory_user {p : Page} {phys : Nat} {i : Fin 1024} (lt : i < 955) :
    newDirectory p phys i = 0 := by
  have ne : i ≠ pdx vpt := by
    rintro rfl
    exact absurd lt (by decide)
  have ne' : i ≠ pdx uvpt := by
    rintro rfl
    exact absurd lt (by decide)
  rw [newDirectory, Function.update_of_ne ne', Function.update_of_ne ne, if_pos lt]

theorem newDirectory_kernel {p : Page} {phys : Nat} {i : Fin 1024} (ge : 960 ≤ i) :
    newDirectory p phys i = p i := by
  have ne : i ≠ pdx vpt := by
    rintro rfl
    exact absurd ge (by decide)
  have ne' : i ≠ pdx uvpt := by
    rintro rfl
    exact absurd ge (by decide)
  have high : ¬ i < 955 := by
    rw [Fin.lt_def]
    rw [Fin.le_def] at ge
    simp at *
    omega
  rw [newDirectory, Function.update_of_ne ne', Function.update_of_ne ne, if_neg high]

theorem root_pageDir (o : Obj) (i : Fin 1024) : Obj.child o i ≠ some (.pageDir e) := by
  cases o <;> simp [Obj.child]

theorem Rep.newDirectory (rep : Rep s v) (absent : v.place (.pageDir e) = none)
    (taken : v.use f = .taken) :
    Rep ((s.setReferences f 1).setPage f
        (newDirectory (v.page .kernelDir) (toPhysicalAddress f)))
      (v.put (.pageDir e) f (newDirectory (v.page .kernelDir) (toPhysicalAddress f))) := by
  refine rep.root root_pageDir absent taken (fun i => ⟨fun lt page => ?_, fun ge => ?_⟩)
    fun i c child => ?_
  · exact absurd (newDirectory_user lt) page
  · rw [newDirectory_kernel ge]
    exact (rep.words .kernelDir i).2 ge
  · simp only [Obj.child, Option.ite_none_right_eq_some] at child
    exact newDirectory_user child.1

/-- The elements go to the head of the list one after another. -/
theorem insertElements_wp {n : Nat} {Q : PUnit → Kernel → Prop} (rep : Rep s v)
    (fits : n ≤ pwsMaxSize ∨ ∀ s', E .crash s')
    (done : ∀ s' L, ((v.globals.envs e).lists.Rep (fun _ => []) → L.Rep (startLists n)) →
      Rep s' (v.setEnv e (·.setLists L)) → Q ⟨⟩ s') :
    wp ((List.range n).forM fun i => do
      checkElement i
      modifyLists e (·.insertHead .pageWorkingSetList i)) Q E s := by
  rw [List.range_eq_range']
  apply wp_forM fun rest s' => ∃ k L, k + rest.length = n ∧ rest = List.range' k rest.length ∧
    ((v.globals.envs e).lists.Rep (fun _ => []) → L.Rep (startLists k)) ∧
      Rep s' (v.setEnv e (·.setLists L))
  · rintro i rest s₁ ⟨k, L, total, range, lists, rep₁⟩
    simp only [List.length_cons, List.range'_succ, List.cons.injEq] at total range
    obtain ⟨rfl, range⟩ := range
    simp only [checkElement, wp_bind, wp_ite, wp_pure, wp_throw]
    split
    · have rep₂ := rep₁.setEnv e fun env => env.setLists (env.lists.insertHead
        .pageWorkingSetList i)
      have same : (v.setEnv e (·.setLists L)).setEnv e (fun env => env.setLists
          (env.lists.insertHead .pageWorkingSetList i)) =
          v.setEnv e (·.setLists (L.insertHead .pageWorkingSetList i)) := by
        simp [View.setEnv, Globals.setEnv, View.setGlobals, Env.setLists]
      rw [same] at rep₂
      refine ⟨i + 1, _, by omega, range, fun empty => ?_, rep₂⟩
      have inserted := (lists empty).insertHead .pageWorkingSetList (x := i) fun j => by
        cases j <;> simp [startLists]
      rwa [startLists_succ] at inserted
    · rename_i out
      rcases fits with fits | crash
      · omega
      · exact crash _
  · rintro s₁ ⟨k, L, total, -, lists, rep₁⟩
    obtain rfl : k = n := by simpa using total
    exact done s₁ L lists rep₁
  · have self : v.setEnv e (·.setLists (v.globals.envs e).lists) = v := by
      simp [View.setEnv, Globals.setEnv, View.setGlobals, Env.setLists]
    refine ⟨0, (v.globals.envs e).lists, by simp, by simp, fun empty => ?_, self.symm ▸ rep⟩
    have none : startLists 0 = fun _ => [] := by
      funext i
      cases i <;> rfl
    rwa [none]

theorem Sound.newSpace {s' : Kernel} {size second : Nat} {L : Lists WSList Nat}
    (sound : Sound s v) (absent : v.place (.pageDir e) = none)
    (noDisk : v.place (.diskDir e) = none)
    (rep : Rep s' (v.newSpace e f size second L)) : Sound s' (v.newSpace e f size second L) where
  rep := rep
  pageFile := by
    refine sound.pageFile.congr (fun e' i => ?_) rfl fun e' i ge => ?_
    · simp [View.newSpace, View.setEnv]
    · simpa [View.newSpace, View.setEnv] using sound.pageFile.high e' i ge
  linked e' := by
    rcases eq_or_ne e' e with rfl | ne
    · simp [View.Linked, View.newSpace, View.setEnv, Globals.setEnv, Env.created, Env.initialized]
    · have linked := sound.linked e'
      simpa [View.Linked, View.newSpace, View.setEnv, Globals.setEnv, Function.update_of_ne ne,
        ne] using linked
  cr3 e' d here := by
    rcases eq_or_ne e' e with rfl | ne
    · simp only [View.newSpace, View.setEnv, View.setGlobals_toView, View.put_place,
        Function.update_self, Option.some.injEq] at here
      simp [View.newSpace, View.setEnv, Globals.setEnv, Env.created, Env.initialized, here]
    · have old := sound.cr3 e' d (by simpa [View.newSpace, View.setEnv, ne] using here)
      simpa [View.newSpace, View.setEnv, Globals.setEnv, ne] using old
  diskLinked e' := by
    rcases eq_or_ne e' e with rfl | ne
    · refine ⟨?_, fun d here => ?_⟩
      · simp [View.newSpace, View.setEnv, Globals.setEnv, Env.created, Env.initialized, noDisk]
      · simp [View.newSpace, View.setEnv, noDisk] at here
    · have linked := sound.diskLinked e'
      exact ⟨by simpa [View.newSpace, View.setEnv, Globals.setEnv, Function.update_of_ne ne]
        using linked.dir, by simpa [View.newSpace, View.setEnv, Globals.setEnv,
          Function.update_of_ne ne] using linked.pa⟩

theorem newSpace_wp {size second : Nat} {Q : Nat → Kernel → Prop} (sound : Sound s v)
    (absent : v.place (.pageDir e) = none) (noDisk : v.place (.diskDir e) = none)
    (fits : size ≤ pwsMaxSize ∨ ∀ s', E .crash s')
    (done : ∀ f rest s' L, v.free = f :: rest →
      ((v.globals.envs e).lists.Rep (fun _ => []) → L.Rep (startLists size)) →
      Sound s' (v.newSpace e f size second L) → Q (toPhysicalAddress f) s')
    (full : v.free = [] → E outOfMemory s) : wp (newSpace e size second) Q E s := by
  simp only [newSpace, wp_bind]
  apply allocateFrame_wp sound.rep ?_ full
  intro f rest s₁ free taken _
  simp only [wp_setReferences]
  apply staticKernelVirtualAddress_wp
  · have lt := taken.bound f (by simp)
    have globals := taken.globals
    rw [ppn_toPhysicalAddress]
    exact globals ▸ lt
  · have kernel : s₁.mem s₁.globals.ptrPageDirectory = v.page .kernelDir := by
      rw [taken.globals]
      exact taken.mem taken.kernelDir
    have max : ((s₁.globals.setEnv e (Env.setSizes size second)).envs e).pageWSMaxSize = size := by
      simp [Globals.setEnv, Env.setSizes]
    have sized : ∀ p, p = v.page .kernelDir →
        Rep (((s₁.setReferences f 1).setGlobals (s₁.globals.setEnv e
            (Env.setSizes size second))).setPage f (newDirectory p (toPhysicalAddress f)))
          (((v.take f).put (.pageDir e) f (newDirectory (v.page .kernelDir)
            (toPhysicalAddress f))).setEnv e (Env.setSizes size second)) := by
      rintro _ rfl
      exact (taken.newDirectory (e := e) (f := f) absent (by simp)).setEnv e
        (Env.setSizes size second)
    simp only [wp_modifyEnv, initializeEnvironment, wp_bind, wp_get, wp_writePage, wp_getEnv,
      ppn_toPhysicalAddress]
    apply insertElements_wp (v := ((v.take f).put (.pageDir e) f (newDirectory
      (v.page .kernelDir) (toPhysicalAddress f))).setEnv e (Env.setSizes size second))
      (sized _ kernel)
    · change ((s₁.globals.setEnv e (Env.setSizes size second)).envs e).pageWSMaxSize ≤ _ ∨ _
      rwa [max]
    · intro s₂ L lists rep₂
      simp only [wp_pure]
      have rep₃ := rep₂.setEnv e (Env.initialized f (toPhysicalAddress f))
      rw [View.setEnv_setEnv, View.setEnv_setEnv] at rep₃
      refine done f rest _ L free (fun empty => ?_) (sound.newSpace absent noDisk rep₃)
      have started := lists (by
        simpa [View.setEnv, Globals.setEnv, Env.setSizes] using empty)
      change L.Rep (startLists ((s₁.globals.setEnv e
        (Env.setSizes size second)).envs e).pageWSMaxSize) at started
      rwa [max] at started

/-- The address space of the environment becomes the current one. -/
def View.runs (v : View) (e : Nat) : View :=
  v.setGlobals { v.globals with curenv := some e, cr3 := (v.globals.envs e).envCr3 }

theorem Sound.runs {s' : Kernel} (sound : Sound s v) (rep : Rep s' (v.runs e)) :
    Sound s' (v.runs e) where
  toPointers := sound.toPointers.congr (fun _ => rfl) (fun _ => rfl) rfl
  rep := rep
  pageFile := sound.pageFile.congr (fun _ _ => rfl) rfl sound.pageFile.high

theorem Sound.current_runs {d : Nat} (sound : Sound s v) (dir : v.place (.pageDir e) = some d) :
    (v.runs e).Current e := by
  show v.place (.pageDir e) = some (ppn (v.globals.envs e).envCr3)
  rw [dir, sound.cr3 e d dir, ppn_toPhysicalAddress]

theorem envRun_wp {Q : Unit → Kernel → Prop} (rep : Rep s v)
    (stays : v.globals.curenv = some e → Q () s)
    (done : ∀ s', v.globals.curenv ≠ some e → Rep s' (v.runs e) → Q () s') :
    wp (envRun e) Q E s := by
  simp only [envRun, wp_bind, wp_get, wp_ite, wp_modify, wp_pure, wp_getEnv, lcr3, rep.globals]
  split
  · rename_i other
    have runs : Rep (s.setGlobals (v.runs e).globals) (v.runs e) := rep.setGlobals rfl rfl
    exact done _ other runs
  · rename_i same
    exact stays (not_not.mp same)

end Fos
