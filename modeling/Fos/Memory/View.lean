import Fos.Arena.Tree
import Fos.Memory.Frames

/-!
# Physical memory as a store of tables

The abstract state of the memory manager: which frame holds which directory, table or
page, what is in them, and the two free lists as sequences.  `Rep s v` says that the
kernel's state `s` is the abstract state `v` in physical memory, and the `Rep.*` lemmas
that the steps kernel functions are made of are edits of the abstract state.

* `Obj`, `shape`: the directories, tables and pages, and which entry leads to which;
* `View`, `Rep`: the abstract state and what it has to do with the kernel's;
* `Rep.setWord`, `Rep.setPage`, `Rep.loosePage`, `Rep.link`, `Rep.root`, `Rep.unlink`,
  `Rep.take`, `Rep.give`, `Rep.forget`, `Rep.setGlobals`: the steps.
-/

namespace Fos

open Arena Linked

/-- What frames hold: the kernel's page directory, the page of zeroes, and for every environment
its page directory, page tables and pages, its disk page directory and disk page tables. -/
inductive Obj where
  | kernelDir
  | zeroPage
  | pageDir (e : Nat)
  | pageTable (e : Nat) (i : Fin 1024)
  | userPage (e : Nat) (i j : Fin 1024)
  | diskDir (e : Nat)
  | diskTable (e : Nat) (i : Fin 1024)
  deriving DecidableEq

/-- The object that an entry leads to.  The entries of a page directory from `USER_TOP` on
are the kernel's. -/
def Obj.child : Obj → Fin 1024 → Option Obj
  | .pageDir e, i => if i < 955 then some (.pageTable e i) else none
  | .pageTable e i, j => some (.userPage e i j)
  | .diskDir e, i => some (.diskTable e i)
  | _, _ => none

theorem Obj.child_pageDir {e : Nat} {i : Fin 1024} (lt : i < 955) :
    Obj.child (.pageDir e) i = some (.pageTable e i) := if_pos lt

theorem Obj.child_inj {o o' c : Obj} {i i' : Fin 1024} (h : Obj.child o i = some c)
    (h' : Obj.child o' i' = some c) : o = o' ∧ i = i' := by
  cases o with
  | pageDir e =>
    simp only [Obj.child, Option.ite_none_right_eq_some, Option.some.injEq] at h
    obtain ⟨-, rfl⟩ := h
    cases o' <;> simp_all [Obj.child]
  | pageTable e k =>
    simp only [Obj.child, Option.some.injEq] at h
    subst h
    cases o' <;> simp_all [Obj.child]
  | diskDir e =>
    simp only [Obj.child, Option.some.injEq] at h
    subst h
    cases o' <;> simp_all [Obj.child]
  | _ => cases h

/-- Directories, tables and pages as a tree of tables. -/
def shape : Shape Obj (Fin 1024) Word where
  child := Obj.child
  frameOf := frameOf
  zero := 0
  child_inj := Obj.child_inj

/-- The abstract state. -/
structure View extends Arena.View Obj (Fin 1024) Word where
  free : List Nat
  diskFree : List Nat
  globals : Globals

/-- What the words of directories are: an entry that is not zero is present, and a user's
table can be written; the kernel's entries refer to frames that exist. -/
def WordOk (n : Nat) (o : Obj) (i : Fin 1024) (w : Word) : Prop :=
  match o with
  | .kernelDir => (i < 955 → w = 0) ∧ (960 ≤ i → w ≠ 0 → present w ∧ frameOf w < n)
  | .pageDir _ =>
    (i < 955 → w ≠ 0 → present w ∧ writeable w ∧ user w) ∧
      (960 ≤ i → w ≠ 0 → present w ∧ frameOf w < n)
  | .diskDir _ => w ≠ 0 → present w
  | _ => True

theorem wordOk_zero (n : Nat) (o : Obj) (i : Fin 1024) : WordOk n o i 0 := by
  cases o <;> simp [WordOk]

/-- The kernel's state `s` is the abstract state `v`. -/
structure Rep (s : Kernel) (v : View) : Prop where
  wf : v.Wf shape
  stores : Stores s.mem v.toView
  freeList : s.freeFrameList.Rep s.frameLinks v.free
  free_use : ∀ f, f ∈ v.free ↔ v.use f = .free
  bound : ∀ f, v.use f ≠ .reserved → f < v.globals.numberOfFrames
  low : ∀ f, f < 3 → f ≠ 1 → v.use f = .reserved
  small : v.globals.numberOfFrames ≤ 65536
  refs : ∀ f o, v.use f = .holds o → s.references f = 1
  taken : ∀ f, v.use f = .taken → s.references f = 0
  words : ∀ o i, WordOk v.globals.numberOfFrames o i (v.page o i)
  kernelDir : v.place .kernelDir = some v.globals.ptrPageDirectory
  zeroPage : v.place .zeroPage = some 1
  diskFree : s.diskFreeFrameList.Rep s.diskLinks v.diskFree
  globals : s.globals = v.globals

/-! ## The edits -/

namespace View

def write (v : View) (o : Obj) (i : Fin 1024) (w : Word) : View :=
  { v with toView := v.toView.write o i w }

def setPage (v : View) (o : Obj) (p : Page) : View :=
  { v with toView := v.toView.setPage o p }

def put (v : View) (c : Obj) (f : Nat) (p : Page) : View :=
  { v with toView := v.toView.put c f p }

def drop (v : View) (c : Obj) (f : Nat) : View :=
  { v with toView := v.toView.drop shape c f }

def forget (v : View) (S : Obj → Prop) [DecidablePred S] : View :=
  { v with toView := v.toView.forget S shape }

/-- The frame `f` comes off the free list. -/
def take (v : View) (f : Nat) : View :=
  { v with toView := v.toView.retire f .taken, free := v.free.tail }

/-- The frame `f` goes to the free list. -/
def give (v : View) (f : Nat) : View :=
  { v with toView := v.toView.retire f .free, free := f :: v.free }

def setGlobals (v : View) (g : Globals) : View := { v with globals := g }

def setDiskFree (v : View) (ds : List Nat) : View := { v with diskFree := ds }

section Fields

variable (v : View) (o c : Obj) (i : Fin 1024) (w : Word) (p : Page) (f : Nat) (g : Globals)
  (ds : List Nat) (S : Obj → Prop) [DecidablePred S]

@[simp] theorem write_use : (v.write o i w).use = v.use := rfl
@[simp] theorem write_place : (v.write o i w).place = v.place := rfl
@[simp] theorem write_page : (v.write o i w).page =
    Function.update v.page o (Function.update (v.page o) i w) := rfl
@[simp] theorem write_free : (v.write o i w).free = v.free := rfl
@[simp] theorem write_diskFree : (v.write o i w).diskFree = v.diskFree := rfl
@[simp] theorem write_globals : (v.write o i w).globals = v.globals := rfl

@[simp] theorem setPage_use : (v.setPage o p).use = v.use := rfl
@[simp] theorem setPage_place : (v.setPage o p).place = v.place := rfl
@[simp] theorem setPage_page : (v.setPage o p).page = Function.update v.page o p := rfl
@[simp] theorem setPage_free : (v.setPage o p).free = v.free := rfl
@[simp] theorem setPage_diskFree : (v.setPage o p).diskFree = v.diskFree := rfl
@[simp] theorem setPage_globals : (v.setPage o p).globals = v.globals := rfl

@[simp] theorem put_use : (v.put c f p).use = Function.update v.use f (.holds c) := rfl
@[simp] theorem put_place : (v.put c f p).place = Function.update v.place c (some f) := rfl
@[simp] theorem put_page : (v.put c f p).page = Function.update v.page c p := rfl
@[simp] theorem put_free : (v.put c f p).free = v.free := rfl
@[simp] theorem put_diskFree : (v.put c f p).diskFree = v.diskFree := rfl
@[simp] theorem put_globals : (v.put c f p).globals = v.globals := rfl

@[simp] theorem drop_use : (v.drop c f).use = Function.update v.use f .lost := rfl
@[simp] theorem drop_place : (v.drop c f).place = Function.update v.place c none := rfl
@[simp] theorem drop_page : (v.drop c f).page = Function.update v.page c zeroes := rfl
@[simp] theorem drop_free : (v.drop c f).free = v.free := rfl
@[simp] theorem drop_diskFree : (v.drop c f).diskFree = v.diskFree := rfl
@[simp] theorem drop_globals : (v.drop c f).globals = v.globals := rfl

@[simp] theorem take_use : (v.take f).use = Function.update v.use f .taken := rfl
@[simp] theorem take_place : (v.take f).place = v.place := rfl
@[simp] theorem take_page : (v.take f).page = v.page := rfl
@[simp] theorem take_free : (v.take f).free = v.free.tail := rfl
@[simp] theorem take_diskFree : (v.take f).diskFree = v.diskFree := rfl
@[simp] theorem take_globals : (v.take f).globals = v.globals := rfl

@[simp] theorem give_use : (v.give f).use = Function.update v.use f .free := rfl
@[simp] theorem give_place : (v.give f).place = v.place := rfl
@[simp] theorem give_page : (v.give f).page = v.page := rfl
@[simp] theorem give_free : (v.give f).free = f :: v.free := rfl
@[simp] theorem give_diskFree : (v.give f).diskFree = v.diskFree := rfl
@[simp] theorem give_globals : (v.give f).globals = v.globals := rfl

@[simp] theorem setGlobals_toView : (v.setGlobals g).toView = v.toView := rfl
@[simp] theorem setGlobals_free : (v.setGlobals g).free = v.free := rfl
@[simp] theorem setGlobals_diskFree : (v.setGlobals g).diskFree = v.diskFree := rfl
@[simp] theorem setGlobals_globals : (v.setGlobals g).globals = g := rfl

@[simp] theorem setDiskFree_toView : (v.setDiskFree ds).toView = v.toView := rfl
@[simp] theorem setDiskFree_free : (v.setDiskFree ds).free = v.free := rfl
@[simp] theorem setDiskFree_diskFree : (v.setDiskFree ds).diskFree = ds := rfl
@[simp] theorem setDiskFree_globals : (v.setDiskFree ds).globals = v.globals := rfl

@[simp] theorem forget_place : (v.forget S).place = fun o => if S o then none else v.place o := rfl
@[simp] theorem forget_page : (v.forget S).page = fun o => if S o then zeroes else v.page o := rfl
@[simp] theorem forget_free : (v.forget S).free = v.free := rfl
@[simp] theorem forget_diskFree : (v.forget S).diskFree = v.diskFree := rfl
@[simp] theorem forget_globals : (v.forget S).globals = v.globals := rfl

end Fields

end View

/-- The disk page directory and the disk page tables of an environment. -/
def Obj.DiskOf (e : Nat) : Obj → Prop
  | .diskDir e' => e' = e
  | .diskTable e' _ => e' = e
  | _ => False

/-- The page directory, the page tables and the pages of an environment. -/
def Obj.UserOf (e : Nat) : Obj → Prop
  | .pageDir e' => e' = e
  | .pageTable e' _ => e' = e
  | .userPage e' _ _ => e' = e
  | _ => False

instance (e : Nat) : DecidablePred (Obj.DiskOf e) := fun o => by
  cases o <;> unfold Obj.DiskOf <;> infer_instance

instance (e : Nat) : DecidablePred (Obj.UserOf e) := fun o => by
  cases o <;> unfold Obj.UserOf <;> infer_instance

theorem Obj.diskOf_child {e : Nat} {o c : Obj} {i : Fin 1024} (child : o.child i = some c) :
    Obj.DiskOf e o ↔ Obj.DiskOf e c := by
  cases o <;> simp only [Obj.child, Option.ite_none_right_eq_some, Option.some.injEq,
    reduceCtorEq] at child
  · obtain ⟨-, rfl⟩ := child
    rfl
  all_goals
    subst child
    rfl

theorem Obj.userOf_child {e : Nat} {o c : Obj} {i : Fin 1024} (child : o.child i = some c) :
    Obj.UserOf e o ↔ Obj.UserOf e c := by
  cases o <;> simp only [Obj.child, Option.ite_none_right_eq_some, Option.some.injEq,
    reduceCtorEq] at child
  · obtain ⟨-, rfl⟩ := child
    rfl
  all_goals
    subst child
    rfl

/-- `v'` differs from `v` in the objects `S` only, and no frame was lost on the way. -/
structure View.Keeps (S : Obj → Prop) (v v' : View) : Prop where
  place : ∀ o, ¬ S o → v'.place o = v.place o
  page : ∀ o, ¬ S o → v'.page o = v.page o
  use : ∀ f u, u = .taken ∨ u = .lost ∨ u = .reserved → (v'.use f = u ↔ v.use f = u)

theorem View.Keeps.refl (S : Obj → Prop) (v : View) : Keeps S v v :=
  ⟨fun _ _ => rfl, fun _ _ => rfl, fun _ _ _ => Iff.rfl⟩

theorem View.Keeps.trans {S : Obj → Prop} {v v' v'' : View} (first : Keeps S v v')
    (second : Keeps S v' v'') : Keeps S v v'' where
  place o out := (second.place o out).trans (first.place o out)
  page o out := (second.page o out).trans (first.page o out)
  use f u kind := (second.use f u kind).trans (first.use f u kind)

theorem View.Keeps.mono {S T : Obj → Prop} {v v' : View} (keeps : Keeps S v v')
    (sub : ∀ o, S o → T o) : Keeps T v v' where
  place o out := keeps.place o fun h => out (sub o h)
  page o out := keeps.page o fun h => out (sub o h)
  use := keeps.use

/-! ## The steps -/

section Steps

variable {s : Kernel} {v : View} {o c : Obj} {i : Fin 1024} {w : Word} {f g : Nat} {p : Page}

/-- A frame that holds no object is not reserved or free if it is taken or lost. -/
theorem Rep.not_low (rep : Rep s v) (use : v.use f ≠ .reserved) : 0 < f := by
  refine Nat.pos_of_ne_zero fun zero => use ?_
  rw [zero]
  exact rep.low 0 (by decide) (by decide)

theorem Rep.place_lt (rep : Rep s v) (here : v.place o = some f) :
    f < v.globals.numberOfFrames := by
  apply rep.bound
  rw [(rep.wf.place_use o f).mp here]
  rintro ⟨⟩

theorem Rep.place_pos (rep : Rep s v) (here : v.place o = some f) : 0 < f := by
  apply rep.not_low
  rw [(rep.wf.place_use o f).mp here]
  rintro ⟨⟩

theorem Rep.mem (rep : Rep s v) (here : v.place o = some f) : s.mem f = v.page o :=
  rep.stores o f here

/-- Changing the globals, less the constants of the machine. -/
theorem Rep.setGlobals (rep : Rep s v) {globals : Globals}
    (frames : globals.numberOfFrames = v.globals.numberOfFrames)
    (dir : globals.ptrPageDirectory = v.globals.ptrPageDirectory) :
    Rep (s.setGlobals globals) (v.setGlobals globals) :=
  { rep with
    bound := by simpa [frames] using rep.bound
    small := by simpa [frames] using rep.small
    words := by simpa [frames] using rep.words
    kernelDir := by simpa [dir] using rep.kernelDir
    globals := rfl }

theorem View.write_self (v : View) (o : Obj) (i : Fin 1024) : v.write o i (v.page o i) = v := by
  simp [View.write, Arena.View.write]

theorem Kernel.setWord_setWord (s : Kernel) (f : Nat) (i : Fin 1024) (w w' : Word) :
    (s.setWord f i w).setWord f i w' = s.setWord f i w' := by
  simp [Kernel.setWord, Kernel.setPage]

/-- Writing a word that leads where the old one did, or nowhere. -/
theorem Rep.setWord (rep : Rep s v) (here : v.place o = some f)
    (ok : WordOk v.globals.numberOfFrames o i w)
    (same : ∀ c, o.child i = some c →
      v.page o i ≠ 0 ∧ w ≠ 0 ∧ frameOf w = frameOf (v.page o i)) :
    Rep (s.setWord f i w) (v.write o i w) :=
  { rep with
    wf := rep.wf.rewrite (by simp [here]) same
    stores := rep.stores.write rep.wf here i w
    words := fun o' i' => by
      rcases eq_or_ne o' o with rfl | ne
      · rcases eq_or_ne i' i with rfl | ne'
        · simpa using ok
        · simpa [Function.update_of_ne ne'] using rep.words o' i'
      · simpa [Function.update_of_ne ne] using rep.words o' i' }

/-- Writing the word that is there. -/
theorem Rep.setWord_self (rep : Rep s v) (here : v.place o = some f) (i : Fin 1024) :
    Rep (s.setWord f i (v.page o i)) v := by
  have eq : s.setWord f i (v.page o i) = s := by
    simp [Kernel.setWord, Kernel.setPage, ← rep.mem here]
  rwa [eq]

/-- Overwriting a page, which leads nowhere. -/
theorem Rep.setPage (rep : Rep s v) (here : v.place o = some f)
    (ok : ∀ i, WordOk v.globals.numberOfFrames o i (p i)) (leaf : ∀ i, o.child i = none) :
    Rep (s.setPage f p) (v.setPage o p) :=
  { rep with
    wf := rep.wf.setPage (by simp [here]) leaf
    stores := rep.stores.setPage rep.wf here p
    words := fun o' i' => by
      rcases eq_or_ne o' o with rfl | ne
      · simpa using ok i'
      · simpa [Function.update_of_ne ne] using rep.words o' i' }

/-- Overwriting a frame that holds no object. -/
theorem Rep.loosePage (rep : Rep s v) (loose : (v.use f).Loose) (p : Page) :
    Rep (s.setPage f p) v :=
  { rep with stores := rep.stores.loose rep.wf loose p }

/-- Putting a new object into a taken frame, linked or not. -/
theorem Rep.put (rep : Rep s v) (taken : v.use f = .taken) {arena : Arena.View Obj (Fin 1024) Word}
    {mem : Nat → Page} (wf : (arena.put c f p).Wf shape) (stores : Stores mem (arena.put c f p))
    (use : arena.use = v.use) (place : arena.place = v.place)
    (fresh : c ≠ .kernelDir) (fresh' : c ≠ .zeroPage)
    (words : ∀ o i, WordOk v.globals.numberOfFrames o i ((arena.put c f p).page o i)) :
    Rep { s with mem := mem, references := Function.update s.references f 1 }
      { v with toView := arena.put c f p } where
  wf := wf
  stores := stores
  freeList := rep.freeList
  free_use g := by
    have free := rep.free_use g
    rcases eq_or_ne g f with rfl | ne
    · simp only [taken] at free
      simp [Arena.View.put, free]
    · simpa [Arena.View.put, use, Function.update_of_ne ne] using free
  bound g ne := by
    rcases eq_or_ne g f with rfl | ne'
    · exact rep.bound g (by simp [taken])
    · simp only [Arena.View.put, use, Function.update_of_ne ne'] at ne
      exact rep.bound g ne
  low g lt ne := by
    have low := rep.low g lt ne
    have ne : g ≠ f := by
      rintro rfl
      rw [taken] at low
      cases low
    simpa [Arena.View.put, use, Function.update_of_ne ne] using low
  small := rep.small
  refs g o' holds := by
    rcases eq_or_ne g f with rfl | ne
    · simp
    · simp only [Arena.View.put, use, Function.update_of_ne ne] at holds
      simpa [Function.update_of_ne ne] using rep.refs g o' holds
  taken g h := by
    rcases eq_or_ne g f with rfl | ne
    · simp [Arena.View.put] at h
    · simp only [Arena.View.put, use, Function.update_of_ne ne] at h
      simpa [Function.update_of_ne ne] using rep.taken g h
  words := words
  kernelDir := by
    simpa [Arena.View.put, place, Function.update_of_ne fresh.symm] using rep.kernelDir
  zeroPage := by
    simpa [Arena.View.put, place, Function.update_of_ne fresh'.symm] using rep.zeroPage
  diskFree := rep.diskFree
  globals := rep.globals

/-- An entry that was zero comes to refer to a taken frame with a new object. -/
theorem Rep.link (rep : Rep s v) (child : o.child i = some c) (here : v.place o = some g)
    (empty : v.page o i = 0) (taken : v.use f = .taken) (frame : frameOf w = f)
    (ok : WordOk v.globals.numberOfFrames o i w)
    (oks : ∀ j, WordOk v.globals.numberOfFrames c j (p j))
    (bare : ∀ j c', c.child j = some c' → p j = 0) :
    Rep (((s.setReferences f 1).setWord g i w).setPage f p) ((v.write o i w).put c f p) := by
  have pos : 0 < f := rep.not_low (by simp [taken])
  have entry : w ≠ 0 := ne_zero_of_frameOf (by omega)
  have loose : (v.use f).Loose := by
    rw [taken]
    exact loose_taken
  have fresh : c ≠ .kernelDir := by
    rintro rfl
    cases o <;> simp [Obj.child] at child
  have fresh' : c ≠ .zeroPage := by
    rintro rfl
    cases o <;> simp [Obj.child] at child
  have g_f : g ≠ f := by
    rintro rfl
    exact rep.wf.not_placed loose o here
  refine rep.put taken (rep.wf.link child (by simp [here]) empty loose entry frame bare) ?_ rfl rfl
    fresh fresh' fun o' i' => ?_
  · have stores := ((rep.stores.loose rep.wf loose p).write rep.wf here i w).put (f := f) c
    rw [Function.update_of_ne g_f, Function.update_of_ne g_f.symm, Function.update_self,
      Function.update_comm g_f.symm] at stores
    exact stores
  · rcases eq_or_ne o' c with rfl | ne
    · simpa [Arena.View.put] using oks i'
    · rcases eq_or_ne o' o with rfl | ne'
      · rcases eq_or_ne i' i with rfl | ne''
        · simpa [Arena.View.put, Arena.View.write, Function.update_of_ne ne] using ok
        · simpa [Arena.View.put, Arena.View.write, Function.update_of_ne ne,
            Function.update_of_ne ne''] using rep.words o' i'
      · simpa [Arena.View.put, Arena.View.write, Function.update_of_ne ne,
          Function.update_of_ne ne'] using rep.words o' i'

/-- The new object is what lies in the frame. -/
theorem Rep.link_mem (rep : Rep s v) (child : o.child i = some c) (here : v.place o = some g)
    (empty : v.page o i = 0) (taken : v.use f = .taken) (frame : frameOf w = f)
    (ok : WordOk v.globals.numberOfFrames o i w)
    (oks : ∀ j, WordOk v.globals.numberOfFrames c j (s.mem f j))
    (bare : ∀ j c', c.child j = some c' → s.mem f j = 0) :
    Rep ((s.setReferences f 1).setWord g i w) ((v.write o i w).put c f (s.mem f)) := by
  have g_f : g ≠ f := by
    rintro rfl
    refine rep.wf.not_placed ?_ o here
    rw [taken]
    exact loose_taken
  have linked := rep.link child here empty taken frame ok oks bare
  have same : ((s.setReferences f 1).setWord g i w).setPage f (s.mem f) =
      (s.setReferences f 1).setWord g i w := by
    have keep : Function.update s.mem g (Function.update (s.mem g) i w) f = s.mem f :=
      Function.update_of_ne g_f.symm ..
    simp [Kernel.setPage, Kernel.setWord, Kernel.setReferences, ← keep]
  rwa [same] at linked

/-- A directory comes to lie in a taken frame. -/
theorem Rep.root (rep : Rep s v) (root : ∀ o i, Obj.child o i ≠ some c) (absent : v.place c = none)
    (taken : v.use f = .taken) (oks : ∀ j, WordOk v.globals.numberOfFrames c j (p j))
    (bare : ∀ j c', c.child j = some c' → p j = 0) :
    Rep ((s.setReferences f 1).setPage f p) (v.put c f p) := by
  have loose : (v.use f).Loose := by
    rw [taken]
    exact loose_taken
  have fresh : c ≠ .kernelDir := by
    rintro rfl
    rw [rep.kernelDir] at absent
    cases absent
  have fresh' : c ≠ .zeroPage := by
    rintro rfl
    rw [rep.zeroPage] at absent
    cases absent
  refine rep.put taken (rep.wf.root root absent loose bare) ?_ rfl rfl fresh fresh'
    fun o' i' => ?_
  · have stores := (rep.stores.loose rep.wf loose p).put (f := f) c
    rwa [Function.update_self] at stores
  · rcases eq_or_ne o' c with rfl | ne
    · simpa [Arena.View.put] using oks i'
    · simpa [Arena.View.put, Function.update_of_ne ne] using rep.words o' i'

/-- An entry is cleared; the frame it referred to is lost. -/
theorem Rep.unlink (rep : Rep s v) (child : o.child i = some c) (parent : v.place o = some g)
    (here : v.place c = some f) (bare : ∀ j c', c.child j = some c' → v.page c j = 0) :
    Rep (s.setWord g i 0) ((v.write o i 0).drop c f) := by
  have fresh : c ≠ .kernelDir := by
    rintro rfl
    cases o <;> simp [Obj.child] at child
  have fresh' : c ≠ .zeroPage := by
    rintro rfl
    cases o <;> simp [Obj.child] at child
  have holds := (rep.wf.place_use c f).mp here
  have kernel : f ≠ v.globals.ptrPageDirectory := by
    rintro rfl
    exact fresh (rep.wf.place_inj here rep.kernelDir)
  have uses : ∀ h u, h ≠ f → (Function.update v.use f .lost h = u ↔ v.use h = u) := by
    intro h u ne
    rw [Function.update_of_ne ne]
  exact
    { wf := rep.wf.unlink child here bare
      stores := (rep.stores.write rep.wf parent i 0).drop
      freeList := rep.freeList
      free_use := fun h => by
        have free := rep.free_use h
        rcases eq_or_ne h f with rfl | ne
        · rw [holds] at free
          simp [free]
        · simpa [Function.update_of_ne ne] using free
      bound := fun h ne => by
        rcases eq_or_ne h f with rfl | ne'
        · exact rep.place_lt here
        · exact rep.bound h (by simpa [Function.update_of_ne ne'] using ne)
      low := fun h lt ne' => by
        have low := rep.low h lt ne'
        have ne : h ≠ f := by
          rintro rfl
          rw [holds] at low
          cases low
        simpa [Function.update_of_ne ne] using low
      small := rep.small
      refs := fun h o' use => by
        rcases eq_or_ne h f with rfl | ne
        · simp at use
        · exact rep.refs h o' (by simpa [Function.update_of_ne ne] using use)
      taken := fun h use => by
        rcases eq_or_ne h f with rfl | ne
        · simp at use
        · exact rep.taken h (by simpa [Function.update_of_ne ne] using use)
      words := fun o' i' => by
        rcases eq_or_ne o' c with rfl | ne
        · simpa [zeroes] using wordOk_zero ..
        · rcases eq_or_ne o' o with rfl | ne'
          · rcases eq_or_ne i' i with rfl | ne''
            · simpa [Function.update_of_ne ne] using wordOk_zero ..
            · simpa [Function.update_of_ne ne, Function.update_of_ne ne''] using rep.words o' i'
          · simpa [Function.update_of_ne ne, Function.update_of_ne ne'] using rep.words o' i'
      kernelDir := by simpa [Function.update_of_ne fresh.symm] using rep.kernelDir
      zeroPage := by simpa [Function.update_of_ne fresh'.symm] using rep.zeroPage
      diskFree := rep.diskFree
      globals := rep.globals }

/-- `allocate_frame` takes the first free frame. -/
theorem Rep.take {rest : List Nat} (rep : Rep s v) (free : v.free = f :: rest) :
    Rep ((s.removeFrame f).initializeFrameInfo f) (v.take f) := by
  have list := rep.freeList
  rw [free] at list
  have nodup := List.nodup_cons.mp list.nodup
  have isFree : v.use f = .free := (rep.free_use f).mp (by simp [free])
  have others : ∀ h ≠ f, ∀ u, Function.update v.use f .taken h = u ↔ v.use h = u := by
    intro h ne u
    rw [Function.update_of_ne ne]
  exact
    { wf := rep.wf.retire (by rw [isFree]; exact loose_free) loose_taken
      stores := rep.stores
      freeList := by
        simp only [View.take_free, free, List.tail_cons]
        exact takeFrame_rep list
      free_use := fun h => by
        have old := rep.free_use h
        rcases eq_or_ne h f with rfl | ne
        · simp [free, nodup.1]
        · rw [free] at old
          simp only [View.take_free, View.take_use, free, List.tail_cons, others h ne]
          simpa [ne] using old
      bound := fun h use => by
        rcases eq_or_ne h f with rfl | ne
        · exact rep.bound h (by simp [isFree])
        · exact rep.bound h (by simpa [others h ne] using use)
      low := fun h lt ne' => by
        have low := rep.low h lt ne'
        have ne : h ≠ f := by
          rintro rfl
          rw [isFree] at low
          cases low
        exact (others h ne _).mpr low
      small := rep.small
      refs := fun h o use => by
        rcases eq_or_ne h f with rfl | ne
        · simp at use
        · have old := rep.refs h o (by simpa [others h ne] using use)
          simpa [Kernel.initializeFrameInfo, Kernel.removeFrame, Function.update_of_ne ne] using old
      taken := fun h use => by
        rcases eq_or_ne h f with rfl | ne
        · simp [Kernel.initializeFrameInfo]
        · have old := rep.taken h (by simpa [others h ne] using use)
          simpa [Kernel.initializeFrameInfo, Kernel.removeFrame, Function.update_of_ne ne] using old
      words := rep.words
      kernelDir := rep.kernelDir
      zeroPage := rep.zeroPage
      diskFree := rep.diskFree
      globals := rep.globals }

/-- `free_frame` of a frame that is taken or lost. -/
theorem Rep.give (rep : Rep s v) (use : v.use f = .taken ∨ v.use f = .lost) :
    Rep ((s.initializeFrameInfo f).insertFrame f) (v.give f) := by
  have loose : (v.use f).Loose := by
    rcases use with h | h <;> rw [h]
    · exact loose_taken
    · exact loose_lost
  have notFree : f ∉ v.free := by
    rw [rep.free_use]
    rcases use with h | h <;> simp [h]
  have others : ∀ h ≠ f, ∀ u, Function.update v.use f .free h = u ↔ v.use h = u := by
    intro h ne u
    rw [Function.update_of_ne ne]
  exact
    { wf := rep.wf.retire loose loose_free
      stores := rep.stores
      freeList := freeFrame_rep rep.freeList notFree
      free_use := fun h => by
        have old := rep.free_use h
        rcases eq_or_ne h f with rfl | ne
        · simp
        · simpa [others h ne, ne] using old
      bound := fun h ne => by
        rcases eq_or_ne h f with rfl | ne'
        · exact rep.bound h (by rcases use with u | u <;> simp [u])
        · exact rep.bound h (by simpa [others h ne'] using ne)
      low := fun h lt ne' => by
        have low := rep.low h lt ne'
        have ne : h ≠ f := by
          rintro rfl
          rcases use with u | u <;> simp [u] at low
        exact (others h ne _).mpr low
      small := rep.small
      refs := fun h o holds => by
        rcases eq_or_ne h f with rfl | ne
        · simp at holds
        · have old := rep.refs h o (by simpa [others h ne] using holds)
          simpa [Kernel.initializeFrameInfo, Kernel.insertFrame, Function.update_of_ne ne] using old
      taken := fun h taken => by
        rcases eq_or_ne h f with rfl | ne
        · simp at taken
        · have old := rep.taken h (by simpa [others h ne] using taken)
          simpa [Kernel.initializeFrameInfo, Kernel.insertFrame, Function.update_of_ne ne] using old
      words := rep.words
      kernelDir := rep.kernelDir
      zeroPage := rep.zeroPage
      diskFree := rep.diskFree
      globals := rep.globals }

/-- The objects `S` are forgotten; their frames are lost. -/
theorem Rep.forget (rep : Rep s v) (S : Obj → Prop) [DecidablePred S]
    (down : ∀ o i c, Obj.child o i = some c → (S o ↔ S c)) (kernel : ¬ S .kernelDir)
    (zero : ¬ S .zeroPage) :
    Rep s (v.forget S) := by
  have uses : ∀ f u, u ≠ .lost → (∀ o, u ≠ .holds o) → ((v.forget S).use f = u ↔ v.use f = u) := by
    intro f u notLost loose
    simp only [View.forget, Arena.View.forget]
    split
    · rename_i o holds
      rw [holds]
      refine iff_of_false ?_ (loose o).symm
      split
      · exact notLost.symm
      · exact (loose o).symm
    · rfl
  exact
    { wf := rep.wf.forget S down
      stores := rep.stores.forget
      freeList := rep.freeList
      free_use := fun f => by
        rw [uses f .free (by simp) (by simp)]
        exact rep.free_use f
      bound := fun f ne => rep.bound f fun h => ne ((uses f .reserved (by simp) (by simp)).mpr h)
      low := fun f lt ne => (uses f .reserved (by simp) (by simp)).mpr (rep.low f lt ne)
      small := rep.small
      refs := fun f o use => by
        refine rep.refs f o ?_
        simp only [View.forget, Arena.View.forget] at use
        split at use
        · rename_i o' holds
          split at use
          · cases use
          · rw [holds, use]
        · exact use
      taken := fun f use => rep.taken f ((uses f .taken (by simp) (by simp)).mp use)
      words := fun o i => by
        simp only [View.forget_page]
        split
        · exact wordOk_zero ..
        · exact rep.words o i
      kernelDir := by simpa [kernel] using rep.kernelDir
      zeroPage := by simpa [zero] using rep.zeroPage
      diskFree := rep.diskFree
      globals := rep.globals }

end Steps

end Fos
