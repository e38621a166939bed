import Fos.Memory.Steps

/-!
# What leaves the working set alone

Most kernel functions change neither the lists of an environment nor the elements on them,
and have no loop that could go on for ever.  `Quiet e m` says so of the program `m`, from
any state, sound or not.

* `WsSame`: the working set of `e` is the same in two states;
* `Quiet`: programs whose steps are steps of that relation;
* `freeEdits_wsSame`: so are the edits that kernel functions make, which gives `quiet_*`.
-/

namespace Fos

open Exec Linked

/-- The working set of `e` is what it was: the lists, the elements, the sizes and the
index. -/
structure WsSame (e : Nat) (s s' : Kernel) : Prop where
  lists : (s'.globals.envs e).lists = (s.globals.envs e).lists
  elements : (s'.globals.envs e).ptrPageWorkingSet = (s.globals.envs e).ptrPageWorkingSet
  maxSize : (s'.globals.envs e).pageWSMaxSize = (s.globals.envs e).pageWSMaxSize
  activeSize : (s'.globals.envs e).activeListSize = (s.globals.envs e).activeListSize
  secondSize : (s'.globals.envs e).secondListSize = (s.globals.envs e).secondListSize
  lastIndex : (s'.globals.envs e).pageLastWSIndex = (s.globals.envs e).pageLastWSIndex

theorem WsSame.refl (e : Nat) (s : Kernel) : WsSame e s s := ⟨rfl, rfl, rfl, rfl, rfl, rfl⟩

theorem WsSame.trans {e : Nat} {s s' s'' : Kernel} (first : WsSame e s s')
    (second : WsSame e s' s'') : WsSame e s s'' :=
  ⟨second.lists.trans first.lists, second.elements.trans first.elements,
    second.maxSize.trans first.maxSize, second.activeSize.trans first.activeSize,
    second.secondSize.trans first.secondSize, second.lastIndex.trans first.lastIndex⟩

/-- From any state, `m` leaves the working set of `e` alone and does not spin. -/
def Quiet {α : Type} (e : Nat) (m : Prog α) : Prop :=
  ∀ s, wp m (fun _ s' => WsSame e s s') (fun x s' => x ≠ .spins ∧ WsSame e s s') s

/-- A quiet program in the middle of a run. -/
theorem Quiet.wp {α : Type} {e : Nat} {m : Prog α} {Q : α → Kernel → Prop}
    {E : Stop → Kernel → Prop} {s : Kernel} (quiet : Quiet e m)
    (ends : ∀ a s', WsSame e s s' → Q a s')
    (stops : ∀ x s', x ≠ .spins → WsSame e s s' → E x s') : Exec.wp m Q E s :=
  wp_mono (quiet s) ends fun x s' stop => stops x s' stop.1 stop.2

/-- What a quiet program does, and that it is quiet. -/
theorem Quiet.and {α : Type} {e : Nat} {m : Prog α} {P Q : α → Kernel → Prop}
    {F E : Stop → Kernel → Prop} {s : Kernel} (quiet : Quiet e m) (run : Exec.wp m P F s)
    (ends : ∀ a s', P a s' → WsSame e s s' → Q a s') (stops : ∀ x s', F x s' → E x s') :
    Exec.wp m Q E s := by
  have same := quiet s
  simp only [Exec.wp] at *
  cases ran : m s with
  | ok a s' =>
    rw [ran] at run same
    exact ends a s' run same
  | error y s' =>
    rw [ran] at run
    exact stops y s' run

/-! ## The edits -/

instance (e : Nat) : IsPreorder Kernel (WsSame e) where
  refl := WsSame.refl e
  trans _ _ _ := WsSame.trans

/-- Changing other members of an environment. -/
theorem WsSame.setEnv {g : Env → Env} (e : Nat) (s : Kernel) (e' : Nat) (aside : Env.Aside g) :
    WsSame e s (s.setGlobals (s.globals.setEnv e' g)) := by
  by_cases same : e = e'
  · subst same
    have env : (s.setGlobals (s.globals.setEnv e g)).globals.envs e = g (s.globals.envs e) :=
      Function.update_self ..
    constructor <;> rw [env]
    exacts [aside.lists _, aside.elements _, aside.maxSize _, aside.activeSize _,
      aside.secondSize _, aside.lastIndex _]
  · have env : (s.setGlobals (s.globals.setEnv e' g)).globals.envs e = s.globals.envs e :=
      Function.update_of_ne same ..
    constructor <;> rw [env]

theorem freeEdits_wsSame (e : Nat) : FreeEdits (WsSame e) (· ≠ .spins) where
  panic _ := nofun
  crash := nofun
  page _ _ _ := ⟨rfl, rfl, rfl, rfl, rfl, rfl⟩
  references _ _ _ := ⟨rfl, rfl, rfl, rfl, rfl, rfl⟩
  take _ _ _ := ⟨rfl, rfl, rfl, rfl, rfl, rfl⟩
  takeDisk _ _ := ⟨rfl, rfl, rfl, rfl, rfl, rfl⟩
  disk _ _ := ⟨rfl, rfl, rfl, rfl, rfl, rfl⟩
  env s e' _ aside := WsSame.setEnv e s e' aside
  give _ _ := ⟨rfl, rfl, rfl, rfl, rfl, rfl⟩
  giveDisk _ _ := ⟨rfl, rfl, rfl, rfl, rfl, rfl⟩

theorem edits_wsSame (e : Nat) : Edits (WsSame e) (· ≠ .spins) := (freeEdits_wsSame e).toEdits

theorem Quiet.bind {α β : Type} {e : Nat} {m : Prog α} {k : α → Prog β} (first : Quiet e m)
    (next : ∀ a, Quiet e (k a)) : Quiet e (m >>= k) := Steps.bind first next

/-! ## The functions -/

variable (e : Nat)

theorem quiet_envPageDirectory (e' : Nat) : Quiet e (envPageDirectory e') :=
  steps_envPageDirectory (edits_wsSame e) e'

theorem quiet_setReferences (f : Nat) (n : BitVec 16) : Quiet e (setReferences f n) :=
  steps_setReferences (edits_wsSame e) f n

theorem quiet_staticKernelVirtualAddress (pa : Nat) : Quiet e (staticKernelVirtualAddress pa) :=
  steps_staticKernelVirtualAddress (edits_wsSame e) pa

theorem quiet_writePage (f : Nat) (p : Page) : Quiet e (writePage f p) :=
  steps_writePage (edits_wsSame e) f p

theorem quiet_allocateFrame : Quiet e allocateFrame := steps_allocateFrame (edits_wsSame e)

theorem quiet_getPageTable (dir va : Nat) : Quiet e (getPageTable dir va) :=
  steps_getPageTable (edits_wsSame e) dir va

theorem quiet_getFrameInfo (dir va : Nat) : Quiet e (getFrameInfo dir va) :=
  steps_getFrameInfo (edits_wsSame e) dir va

theorem quiet_loadtimeMapFrame (dir f va : Nat) (perm : Word) :
    Quiet e (loadtimeMapFrame dir f va perm) :=
  steps_loadtimeMapFrame (edits_wsSame e) dir f va perm

theorem quiet_kernelFrame (va : Nat) : Quiet e (kernelFrame va) :=
  steps_kernelFrame (edits_wsSame e) va

theorem quiet_storeByte (va : Nat) (b : BitVec 8) : Quiet e (storeByte va b) :=
  steps_storeByte (edits_wsSame e) va b

theorem quiet_ptSetPagePermissions (e' va : Nat) (set clear : Word) :
    Quiet e (ptSetPagePermissions e' va set clear) :=
  steps_ptSetPagePermissions (edits_wsSame e) e' va set clear

theorem quiet_pfAddEmptyEnvPage (e' va : Nat) (initializeByZero : Bool) :
    Quiet e (pfAddEmptyEnvPage e' va initializeByZero) :=
  steps_pfAddEmptyEnvPage (edits_wsSame e) e' va initializeByZero

theorem quiet_unmapFrame (dir va : Nat) : Quiet e (unmapFrame dir va) :=
  steps_unmapFrame (freeEdits_wsSame e) dir va

theorem quiet_freeEmptyTable (e' va : Nat) : Quiet e (freeEmptyTable e' va) :=
  steps_freeEmptyTable (freeEdits_wsSame e) e' va

theorem quiet_pfRemoveEnvPage (e' va : Nat) : Quiet e (pfRemoveEnvPage e' va) :=
  steps_pfRemoveEnvPage (freeEdits_wsSame e) e' va

end Fos
