import Fos.PageFile.Allocate

/-!
# What an environment has in its page file and in memory

While a program is loaded, the environment is an abstract state of two parts: the pages
of its page file and the pages that have frames, each by the number of the page.

* `Contents`, `Holds`: the abstract state, and that the kernel's state is it;
* `Holds.add`, `Holds.map`, `Holds.kernelFrame`, `Holds.setElement`: the steps of the loader;
* `Holds.filePage`, `Holds.pageEntry`: what the walks through the tables find;
* `Sound.newSpace_holds`: a new environment has no pages.
-/

namespace Fos

open Arena Linked Exec

/-! ## Pages by number -/

/-- The page with the number `q` is below `USER_TOP`. -/
abbrev UserPage (q : Nat) : Prop := q * pageSize < userTop

theorem userPage_div {va : Nat} (lt : va < userTop) : UserPage (va / pageSize) :=
  (Nat.div_mul_le_self va pageSize).trans_lt lt

theorem pageNo_div (va : Nat) : pageNo (va / pageSize * pageSize) = pageNo va := by
  refine Prod.ext (Fin.ext ?_) (Fin.ext ?_)
  · simp only [pageNo, pdx, ptSize, pageSize]
    omega
  · simp only [pageNo, ptx, pageSize]
    omega

theorem userPageAt_div (e va : Nat) :
    userPageAt e (va / pageSize * pageSize) = userPageAt e va := by
  have same := pageNo_div va
  rw [userPageAt, show pdx (va / pageSize * pageSize) = pdx va from congrArg Prod.fst same,
    show ptx (va / pageSize * pageSize) = ptx va from congrArg Prod.snd same]

theorem pageNo_page_inj {q q' : Nat} (lt : UserPage q) (lt' : UserPage q')
    (eq : pageNo (q * pageSize) = pageNo (q' * pageSize)) : q = q' := by
  have aligned : ∀ {r}, UserPage r → Aligned (r * pageSize) := fun {r} lt =>
    ⟨Nat.mul_mod_left .., lt.trans (by decide)⟩
  exact Nat.eq_of_mul_eq_mul_right (by decide) ((aligned lt).pageNo_inj (aligned lt') eq)

theorem userPageAt_page_inj {e q q' : Nat} (lt : UserPage q) (lt' : UserPage q')
    (eq : userPageAt e (q * pageSize) = userPageAt e (q' * pageSize)) : q = q' := by
  obtain ⟨-, eq₁, eq₂⟩ := Obj.userPage.inj eq
  exact pageNo_page_inj lt lt' (Prod.ext eq₁ eq₂)

/-! ## Contents -/

/-- The pages of an environment in the page file, and those that have frames. -/
@[ext] structure Contents where
  file : Nat → Option Page
  frames : Nat → Option Page

namespace Contents

def setFile (c : Contents) (q : Nat) (p : Page) : Contents :=
  { c with file := Function.update c.file q (some p) }

def setFrame (c : Contents) (q : Nat) (p : Page) : Contents :=
  { c with frames := Function.update c.frames q (some p) }

@[simp] theorem setFile_frames (c : Contents) (q : Nat) (p : Page) :
    (c.setFile q p).frames = c.frames := rfl

@[simp] theorem setFrame_file (c : Contents) (q : Nat) (p : Page) :
    (c.setFrame q p).file = c.file := rfl

theorem setFrame_setFrame (c : Contents) (q : Nat) (p p' : Page) :
    (c.setFrame q p).setFrame q p' = c.setFrame q p' := by
  simp [setFrame]

theorem setFrame_here (c : Contents) (q : Nat) (p : Page) : (c.setFrame q p).frames q ≠ none := by
  simp [setFrame]

theorem setFrame_other {c : Contents} {q q' : Nat} {p : Page} (ne : q' ≠ q) :
    (c.setFrame q p).frames q' = c.frames q' := Function.update_of_ne ne ..

theorem setFile_other {c : Contents} {q q' : Nat} {p : Page} (ne : q' ≠ q) :
    (c.setFile q p).file q' = c.file q' := Function.update_of_ne ne ..

end Contents

variable {s s' : Kernel} {v v' : View} {e va : Nat} {c : Contents}

/-- The page with the number `q` in the page file. -/
def View.filed (v : View) (e q : Nat) : Option Page :=
  if UserPage q ∧ v.dfn e (q * pageSize) ≠ 0 then some (v.diskPage (v.dfn e (q * pageSize)).toNat)
  else none

/-- The page with the number `q` in memory. -/
def View.held (v : View) (e q : Nat) : Option Page :=
  if UserPage q then
    (v.place (userPageAt e (q * pageSize))).map fun _ => v.page (userPageAt e (q * pageSize))
  else none

def View.contents (v : View) (e : Nat) : Contents := ⟨v.filed e, v.held e⟩

theorem View.held_ne_none {q : Nat} :
    v.held e q ≠ none ↔ UserPage q ∧ v.place (userPageAt e (q * pageSize)) ≠ none := by
  rw [View.held]
  split
  · rename_i lt
    simp [lt]
  · rename_i out
    simp [out]

theorem View.held_of_place {f : Nat} (lt : va < userTop)
    (here : v.place (userPageAt e va) = some f) :
    v.held e (va / pageSize) = some (v.page (userPageAt e va)) := by
  rw [View.held, if_pos (userPage_div lt), userPageAt_div, here, Option.map_some]

/-- The book of a page file says what is in it. -/
theorem View.Records.filed {b : Book} (records : v.Records b)
    (known : ∀ p, b e p ≠ some none) (q : Nat) :
    v.filed e q = if UserPage q then (b e (pageNo (q * pageSize))).join else none := by
  rw [View.filed]
  by_cases lt : UserPage q
  · have pages := records.pages e (pageNo (q * pageSize))
    rw [if_pos lt]
    cases here : b e (pageNo (q * pageSize)) with
    | none =>
      have zero : v.dfn e (q * pageSize) = 0 := pages.mp here
      rw [if_neg fun h => h.2 zero]
      rfl
    | some content =>
      cases content with
      | none => exact absurd here (known _)
      | some data =>
        have stored := records.content e _ data here
        have entry : v.dfn e (q * pageSize) ≠ 0 := fun zero => by
          rw [pages.mpr zero] at here
          cases here
        rw [if_pos ⟨lt, entry⟩]
        exact congrArg some stored
  · rw [if_neg lt, if_neg fun h => lt h.1]

/-- The book that has everything. -/
def View.book (v : View) : Book := fun e p =>
  if v.entry e p = 0 then none else some (some (v.diskPage (v.entry e p).toNat))

theorem View.book_known (v : View) (e : Nat) (p : PageNo) : v.book e p ≠ some none := by
  rw [View.book]
  split <;> simp

theorem View.records_book (v : View) : v.Records v.book := by
  refine ⟨fun e p => ?_, fun e p d here => ?_⟩
  · rw [View.book]
    split <;> simp_all
  · rw [View.book] at here
    split at here
    · cases here
    · simpa using here

theorem Rep.filed_store {data : Page} (rep : Rep s v) (pf : PageFile v) (lt : va < userTop)
    (page : (v.addPage e va).dfn e va ≠ 0) :
    ((v.addPage e va).storePage e va data).filed e =
      Function.update (v.filed e) (va / pageSize) (some data) := by
  have added := pf.addPage (e := e) rep (userVa_of_lt lt)
  have records := (v.records_book.addPage rep page).storePage (p := data) added page
  funext q
  have value : ∀ p, ((v.book.touch e (pageNo va)).set e (pageNo va) (some (some data))) e p =
      if p = pageNo va then some (some data) else v.book e p := by
    intro p
    simp only [Book.touch, Book.set, Function.update_self, Function.update_idem,
      Function.update_apply]
  have known : ∀ p, ((v.book.touch e (pageNo va)).set e (pageNo va) (some (some data))) e p ≠
      some none := by
    intro p
    rw [value]
    split
    · simp
    · exact v.book_known e p
  rw [records.filed known q, value, Function.update_apply]
  by_cases user : UserPage q
  · rw [if_pos user]
    by_cases same : q = va / pageSize
    · rw [if_pos same, if_pos (same ▸ pageNo_div va)]
      rfl
    · have ne : pageNo (q * pageSize) ≠ pageNo va := fun eq =>
        same (pageNo_page_inj user (userPage_div lt) (eq.trans (pageNo_div va).symm))
      rw [if_neg same, if_neg ne, v.records_book.filed (v.book_known e) q, if_pos user]
  · have ne : q ≠ va / pageSize := by
      rintro rfl
      exact user (userPage_div lt)
    rw [if_neg user, if_neg ne, View.filed, if_neg fun h => user h.1]

/-- The pages in memory stay if their places and contents do. -/
theorem View.held_congr (place : ∀ a, v'.place (userPageAt e a) = v.place (userPageAt e a))
    (page : ∀ a, v'.page (userPageAt e a) = v.page (userPageAt e a)) : v'.held e = v.held e := by
  funext q
  rw [View.held, View.held, place, page]

/-- One page gets a frame or new contents. -/
theorem View.held_update {f : Nat} {p : Page} (lt : va < userTop)
    (here : v'.place (userPageAt e va) = some f) (stored : v'.page (userPageAt e va) = p)
    (place : ∀ a, userPageAt e a ≠ userPageAt e va →
      v'.place (userPageAt e a) = v.place (userPageAt e a))
    (page : ∀ a, userPageAt e a ≠ userPageAt e va →
      v'.page (userPageAt e a) = v.page (userPageAt e a)) :
    v'.held e = Function.update (v.held e) (va / pageSize) (some p) := by
  funext q
  rw [Function.update_apply]
  by_cases user : UserPage q
  · by_cases same : q = va / pageSize
    · rw [if_pos same, same, View.held_of_place lt here, stored]
    · have ne : userPageAt e (q * pageSize) ≠ userPageAt e va := fun eq =>
        same (userPageAt_page_inj user (userPage_div lt) (eq.trans (userPageAt_div e va).symm))
      rw [if_neg same, View.held, View.held, place _ ne, page _ ne]
  · have ne : q ≠ va / pageSize := by
      rintro rfl
      exact user (userPage_div lt)
    rw [if_neg ne, View.held, View.held, if_neg user, if_neg user]

/-- Edits in memory leave the page file alone. -/
theorem View.UserEdit.filed (edit : v.UserEdit v' e) : v'.filed e = v.filed e := by
  funext q
  have dfn : v'.dfn e (q * pageSize) = v.dfn e (q * pageSize) := by
    rw [View.dfn, edit.page _ id, View.dfn]
  have disk : v'.diskPage = v.diskPage := View.diskPage_congr (by rw [edit.globals])
  rw [View.filed, View.filed, dfn, disk]

/-! ## The environment that is being loaded -/

/-- The address space of `e` is the current one, the page of zeroes has zeroes, every page of
the working set has a frame, and `n` frames and disk frames are free. -/
structure Loading (e n : Nat) (s : Kernel) (v : View) : Prop extends Sound s v where
  current : v.Current e
  zero : v.page .zeroPage = zeroes
  user : ∀ k, ((v.globals.envs e).ptrPageWorkingSet k).virtualAddress < userTop
  elements : ∀ k < (v.globals.envs e).pageWSMaxSize,
    ((v.globals.envs e).ptrPageWorkingSet k).empty = false →
      v.held e (((v.globals.envs e).ptrPageWorkingSet k).virtualAddress / pageSize) ≠ none
  room : n ≤ v.free.length
  diskRoom : n ≤ v.diskFree.length

/-- The kernel has the contents `c` for the environment that is being loaded. -/
def Holds (e n : Nat) (c : Contents) (s : Kernel) : Prop :=
  ∃ v, Loading e n s v ∧ v.contents e = c

variable {n : Nat}

/-- What a step of the loader may not change. -/
structure View.Steps (v v' : View) (e : Nat) : Prop where
  dir : v'.place (.pageDir e) = v.place (.pageDir e)
  cr3 : v'.globals.cr3 = v.globals.cr3
  zero : v'.page .zeroPage = v.page .zeroPage
  elements : (v'.globals.envs e).ptrPageWorkingSet = (v.globals.envs e).ptrPageWorkingSet
  maxSize : (v'.globals.envs e).pageWSMaxSize = (v.globals.envs e).pageWSMaxSize
  held : ∀ q, v.held e q ≠ none → v'.held e q ≠ none

theorem Loading.next {m : Nat} (loading : Loading e n s v) (steps : v.Steps v' e)
    (sound : Sound s' v') (room : m ≤ v'.free.length) (diskRoom : m ≤ v'.diskFree.length) :
    Loading e m s' v' where
  toSound := sound
  current := by
    rw [View.Current, steps.dir, steps.cr3]
    exact loading.current
  zero := steps.zero.trans loading.zero
  user k := by
    rw [steps.elements]
    exact loading.user k
  elements k := by
    rw [steps.elements, steps.maxSize]
    exact fun lt taken => steps.held _ (loading.elements k lt taken)
  room := room
  diskRoom := diskRoom

theorem View.UserEdit.steps (edit : v.UserEdit v' e)
    (held : ∀ q, v.held e q ≠ none → v'.held e q ≠ none) : v.Steps v' e :=
  ⟨edit.dir, by rw [edit.globals], edit.page _ id, by rw [edit.globals], by rw [edit.globals], held⟩

theorem update_ne_none {h : Nat → Option Page} {q q' : Nat} {p : Page} (some : h q' ≠ none) :
    Function.update h q (Option.some p) q' ≠ none := by
  rw [Function.update_apply]
  split
  · simp
  · exact some

/-! ### The tables of the page file -/

theorem View.withTables_steps (v v' : View) (e va : Nat)
    (pages : ∀ o, ¬ Obj.DiskOf e o → v'.page o = v.page o)
    (place : v'.place = (v.withTables e va).place)
    (cr3 : v'.globals.cr3 = (v.withTables e va).globals.cr3)
    (envs : v'.globals.envs = (v.withTables e va).globals.envs) :
    v.Steps v' e ∧ v'.held e = v.held e := by
  have places : ∀ o, ¬ Obj.DiskOf e o → v'.place o = v.place o := fun o out => by
    rw [place]
    exact View.withTables_place (by rintro rfl; exact out rfl) (by rintro rfl; exact out rfl)
  have held : v'.held e = v.held e := View.held_congr (fun _ => places _ id) fun _ => pages _ id
  have globals : (v.withTables e va).globals.cr3 = v.globals.cr3 ∧
      ((v.withTables e va).globals.envs e).ptrPageWorkingSet =
        (v.globals.envs e).ptrPageWorkingSet ∧
      ((v.withTables e va).globals.envs e).pageWSMaxSize =
        (v.globals.envs e).pageWSMaxSize := by
    rw [View.withTables, View.withDiskTable_globals]
    rcases View.withDiskDir_globals (v := v) (e := e) with same | ⟨f, same⟩ <;> rw [same]
    · exact ⟨rfl, rfl, rfl⟩
    · simp [Globals.setEnv, Env.setDiskDir]
  refine ⟨⟨places _ id, cr3.trans globals.1, pages _ id, ?_, ?_, fun q => ?_⟩, held⟩
  · rw [envs]
    exact globals.2.1
  · rw [envs]
    exact globals.2.2
  · rw [held]
    exact id

theorem Rep.addPage_page (rep : Rep s v) {o : Obj} (out : ¬ Obj.DiskOf e o) :
    (v.addPage e va).page o = v.page o := by
  have same : (v.withTables e va).page o = v.page o :=
    rep.withTables_page (by rintro rfl; exact out rfl)
  rw [View.addPage]
  rcases (v.withTables e va).assignDfn_eq e va with eq | ⟨d, ds, -, -, eq⟩
  · rw [eq, same]
  · have ne : o ≠ .diskTable e (pdx va) := by
      rintro rfl
      exact out rfl
    rw [eq, ← same]
    simp [View.takeDfn, ne]

theorem View.length_addPage_diskFree (v : View) (e va : Nat) :
    v.diskFree.length ≤ (v.addPage e va).diskFree.length + 1 := by
  have tables : (v.withTables e va).diskFree = v.diskFree := by simp [View.withTables]
  rw [View.addPage, ← tables]
  rcases (v.withTables e va).assignDfn_eq e va with same | ⟨d, ds, free, -, same⟩
  · rw [same]
    exact Nat.le_succ _
  · rw [same]
    simp [View.takeDfn, free]

/-! ### Loading a page -/

/-- The frame `f` off the free list holds the page at `va`, as `loadtime_map_frame` has it. -/
def View.loadMap (v : View) (e va f : Nat) (w : Word) (p : Page) : View :=
  (((v.take f).withTable e (pdx va)).lose e va).mapPage e va f w p

theorem View.UserEdit.loadMap (v : View) (e va f : Nat) (w : Word) (p : Page) :
    v.UserEdit (v.loadMap e va f w p) e :=
  (((take v e f).trans (withTable ..)).trans (lose ..)).trans (mapPage ..)

theorem View.length_loadMap (v : View) (e va f : Nat) (w : Word) (p : Page) :
    v.free.length ≤ (v.loadMap e va f w p).free.length + 2 := by
  have table := (v.take f).length_withTable e (pdx va)
  show v.free.length ≤ (View.lose _ e va).free.length + 2
  rw [View.lose_free]
  simp only [View.take_free, List.length_tail] at table
  omega

theorem View.loadMap_held {f : Nat} {w : Word} {p : Page} (lt : va < userTop) :
    (v.loadMap e va f w p).held e = Function.update (v.held e) (va / pageSize) (some p) := by
  have table : ∀ a, ((v.take f).withTable e (pdx va)).place (userPageAt e a) =
      v.place (userPageAt e a) ∧
      ((v.take f).withTable e (pdx va)).page (userPageAt e a) = v.page (userPageAt e a) := by
    intro a
    unfold View.withTable
    split
    · simp [View.newTable]
    · simp
  have lost : ∀ (w : View) a, userPageAt e a ≠ userPageAt e va →
      (w.lose e va).place (userPageAt e a) = w.place (userPageAt e a) ∧
        (w.lose e va).page (userPageAt e a) = w.page (userPageAt e a) := by
    intro w a ne
    unfold View.lose
    split
    · simp only [View.drop_place, View.drop_page, Function.update_of_ne ne]
      simp [View.setPte]
    · exact ⟨rfl, rfl⟩
  refine View.held_update (f := f) lt (by simp [View.loadMap, View.mapPage])
    (by simp [View.loadMap, View.mapPage]) (fun a ne => ?_) fun a ne => ?_
  · simp only [View.loadMap, View.mapPage, View.put_place, Function.update_of_ne ne]
    exact (lost _ a ne).1.trans (table a).1
  · simp only [View.loadMap, View.mapPage, View.put_page, Function.update_of_ne ne, View.setPte,
      View.write_page]
    rw [Function.update_of_ne (by simp)]
    exact (lost _ a ne).2.trans (table a).2

/-! ### The steps -/

namespace Holds

/-- Other members of the environment change. -/
theorem setEnv (holds : Holds e n c s) (g : Env → Env)
    (dir : ∀ env, (g env).envPageDirectory = env.envPageDirectory)
    (cr3 : ∀ env, (g env).envCr3 = env.envCr3)
    (diskDir : ∀ env, (g env).diskEnvPgdir = env.diskEnvPgdir)
    (pa : ∀ env, (g env).diskEnvPgdirPA = env.diskEnvPgdirPA)
    (elements : ∀ env, (g env).ptrPageWorkingSet = env.ptrPageWorkingSet)
    (maxSize : ∀ env, (g env).pageWSMaxSize = env.pageWSMaxSize) :
    Holds e n c (s.setGlobals (s.globals.setEnv e g)) := by
  obtain ⟨v, loading, rfl⟩ := holds
  have env : (v.setEnv e g).globals.envs e = g (v.globals.envs e) := Function.update_self ..
  refine ⟨v.setEnv e g, loading.next ⟨rfl, rfl, rfl, ?_, ?_, fun _ => id⟩
    (loading.toSound.setEnv e g dir cr3 diskDir pa) loading.room loading.diskRoom, rfl⟩
  · rw [env, elements]
  · rw [env, maxSize]

/-- The working set takes a page that has a frame. -/
theorem setElement (holds : Holds e n c s) (lt : va < userTop)
    (here : c.frames (va / pageSize) ≠ none) :
    Holds e n c (s.setGlobals (s.globals.setEnv e (Env.setWSElement va))) := by
  obtain ⟨v, loading, rfl⟩ := holds
  have env : (v.setEnv e (Env.setWSElement va)).globals.envs e =
      (v.globals.envs e).setWSElement va := Function.update_self ..
  have element : ∀ k, ((v.globals.envs e).setWSElement va).ptrPageWorkingSet k =
      if k = (v.globals.envs e).pageLastWSIndex then ⟨va, false⟩
      else (v.globals.envs e).ptrPageWorkingSet k := fun k => Function.update_apply ..
  refine ⟨v.setEnv e (Env.setWSElement va),
    { loading.toSound.setEnv e (Env.setWSElement va) (fun _ => rfl) (fun _ => rfl) (fun _ => rfl)
        fun _ => rfl with
      current := loading.current
      zero := loading.zero
      user := fun k => ?_
      elements := fun k bound taken => ?_
      room := loading.room
      diskRoom := loading.diskRoom }, rfl⟩
  · rw [env, element]
    split
    · exact lt
    · exact loading.user k
  · rw [env] at bound
    rw [env, element] at taken ⊢
    split at taken
    · rename_i same
      rw [if_pos same]
      exact here
    · rename_i other
      rw [if_neg other]
      exact loading.elements k bound taken

/-- A frame that holds no object is overwritten. -/
theorem writeTemp (holds : Holds e n c s) (p : Page) : Holds e n c (s.setPage tempPage p) := by
  obtain ⟨v, loading, rfl⟩ := holds
  have loose : (v.use tempPage).Loose := by
    rw [loading.rep.low tempPage (by decide) (by decide)]
    rintro o ⟨⟩
  exact ⟨v, { loading with rep := loading.rep.loosePage loose p }, rfl⟩

/-- A page is stored in the page file, unless the page file is full. -/
theorem add {E : Stop → Kernel → Prop} {Q : Int → Kernel → Prop} {data : Page}
    (holds : Holds e n c s) (lt : va < userTop)
    (done : ∀ s', Holds e (n - 2) (c.setFile (va / pageSize) data) s' → Q 0 s')
    (noSpace : ∀ s', n = 0 → Holds e 0 c s' → Q eNoPageFileSpace s')
    (full : ∀ s', n < 2 → E outOfMemory s') : wp (pfAddEnvPage e va data) Q E s := by
  obtain ⟨v, loading, rfl⟩ := holds
  have user := userVa_of_lt lt
  have room := loading.room
  have diskRoom := loading.diskRoom
  have dirRoom := View.length_withDiskDir v e
  have tableRoom := View.length_withTables v e va
  have diskLeft := View.length_addPage_diskFree v e va
  apply pfAddEnvPage_wp loading.rep (loading.diskLinked e) loading.pageFile.toSharedOut
    (lt_kernelBase lt)
  · intro s₁ rep₁ page
    have globals : (v.addPage e va).globals = (v.withTables e va).globals :=
      View.assignDfn_globals ..
    have cr3 : ((v.addPage e va).storePage e va data).globals.cr3 =
        (v.withTables e va).globals.cr3 := congrArg (·.cr3) globals
    have envs : ((v.addPage e va).storePage e va data).globals.envs =
        (v.withTables e va).globals.envs := congrArg (·.envs) globals
    obtain ⟨steps, held⟩ := v.withTables_steps
      ((v.addPage e va).storePage e va data) e va (fun o => loading.rep.addPage_page)
      (View.assignDfn_place ..) cr3 envs
    refine done s₁ ⟨_, loading.next steps (loading.storeAdded user rep₁) ?_ ?_,
      Contents.ext (loading.rep.filed_store loading.pageFile lt page) held⟩
    · show n - 2 ≤ (v.addPage e va).free.length
      rw [View.addPage, View.assignDfn_free]
      omega
    · show n - 2 ≤ (v.addPage e va).diskFree.length
      omega
  · intro s₁ rep₁ _ none
    rw [none, List.length_nil] at diskRoom
    obtain ⟨steps, held⟩ := v.withTables_steps (v.withTables e va) e va
      (fun o out => loading.rep.withTables_page (by rintro rfl; exact out rfl)) rfl rfl rfl
    refine noSpace s₁ (by omega) ⟨_, loading.next steps (loading.withTables user rep₁)
      (Nat.zero_le _) (Nat.zero_le _), Contents.ext (funext fun q => ?_) held⟩
    show (v.withTables e va).filed e q = v.filed e q
    rw [(v.records_book.withTables loading.rep).filed (v.book_known e) q,
      v.records_book.filed (v.book_known e) q]
  · rintro s₁ v₁ _ (rfl | rfl) none _
    · rw [none, List.length_nil] at room
      exact full s₁ (by omega)
    · rw [none, List.length_nil] at dirRoom
      exact full s₁ (by omega)

/-- `allocate_frame` and `loadtime_map_frame` one after the other. -/
theorem map {E : Stop → Kernel → Prop} {Q : Unit → Kernel → Prop} (holds : Holds e n c s)
    (lt : va < userTop)
    (done : ∀ p s', Holds e (n - 2) (c.setFrame (va / pageSize) p) s' → Q () s')
    (full : ∀ s', n < 2 → E outOfMemory s') :
    wp allocateFrame (fun f s' => wp (envPageDirectory e) (fun d s' =>
      wp (loadtimeMapFrame d f va (permUser ||| permWriteable)) Q E s') E s') E s := by
  obtain ⟨v, loading, rfl⟩ := holds
  have user := userVa_of_lt lt
  have room := loading.room
  have dir := loading.current
  apply allocateFrame_wp loading.rep
  · intro f rest s₁ free taken _
    have linked : (v.take f).Linked e := loading.linked e
    apply envPageDirectory_wp taken linked dir
    apply loadtimeMapFrame_wp taken dir user (by simp) (by decide)
    · intro s₂ p mapped
      have edit := View.UserEdit.loadMap v e va f (constructEntry (toPhysicalAddress f)
        (permUser ||| permWriteable ||| permPresent)) p
      have held := View.loadMap_held (v := v) (e := e) (f := f) (w := constructEntry
        (toPhysicalAddress f) (permUser ||| permWriteable ||| permPresent)) (p := p) lt
      have length := View.length_loadMap v e va f (constructEntry (toPhysicalAddress f)
        (permUser ||| permWriteable ||| permPresent)) p
      refine done p s₂ ⟨_, loading.next (edit.steps fun q some => ?_)
        (loading.editUser edit mapped) (by omega) ?_, Contents.ext edit.filed held⟩
      · rw [held]
        exact update_ne_none some
      · rw [edit.diskFree]
        exact (Nat.sub_le n 2).trans loading.diskRoom
    · intro _ none
      rw [View.take_free, free, List.tail_cons] at none
      rw [free, none, List.length_singleton] at room
      exact full s₁ (by omega)
  · intro none
    rw [none, List.length_nil] at room
    exact full s (by omega)

/-- A kernel write to a user address. -/
theorem kernelFrame {E : Stop → Kernel → Prop} {Q : Nat → Kernel → Prop} (holds : Holds e n c s)
    (lt : va < userTop)
    (done : ∀ f p s', c.frames (va / pageSize) = some p → s'.mem f = p →
      (∀ p', Holds e n (c.setFrame (va / pageSize) p') (s'.setPage f p')) → Q f s')
    (fault : E .crash s) : wp (kernelFrame va) Q E s := by
  obtain ⟨v, loading, rfl⟩ := holds
  simp only [Fos.kernelFrame, wp_bind]
  apply translate_wp _ _ loading.rep loading.current (userVa_of_lt lt)
  · intro f s₁ _ page rep₁
    rw [wp_deref_some]
    have place : (v.touch e va true).place (userPageAt e va) = some f := page
    have touched : ∀ o, o ≠ .pageDir e → o ≠ .pageTable e (pdx va) →
        (v.touch e va true).page o = v.page o := by
      intro o ne ne'
      simp [View.touch, View.setPte, ne, ne']
    have same : (v.touch e va true).page (userPageAt e va) = v.page (userPageAt e va) :=
      touched _ (by simp) (by simp)
    refine done f _ s₁ (View.held_of_place lt page) ((rep₁.mem place).trans same) fun p' => ?_
    have edit := (View.UserEdit.touch v e va true).trans
      (View.UserEdit.setPage (v.touch e va true) e va p')
    have held : ((v.touch e va true).setPage (userPageAt e va) p').held e =
        Function.update (v.held e) (va / pageSize) (some p') := by
      refine View.held_update lt place (by simp) (fun _ _ => rfl) fun a ne => ?_
      rw [View.setPage_page, Function.update_of_ne ne]
      exact touched _ (by simp) (by simp)
    refine ⟨_, loading.next (edit.steps fun q some => ?_)
      (loading.editUser edit (rep₁.setPage place (fun _ => trivial) fun _ => rfl)) loading.room
      ?_, Contents.ext edit.filed held⟩
    · rw [held]
      exact update_ne_none some
    · exact loading.diskRoom
  · intro _
    exact fault

/-- The bits of the entry of a page change. -/
theorem setPte {w : Word} (loading : Loading e n s v) (rep : Rep s' (v.setPte e va w)) :
    Holds e n (v.contents e) s' := by
  have edit := View.UserEdit.setPte v e va w
  have held : (v.setPte e va w).held e = v.held e := by
    refine View.held_congr (fun _ => rfl) fun a => ?_
    simp [View.setPte]
  refine ⟨_, loading.next (edit.steps fun q => ?_) (loading.editUser edit rep) loading.room ?_,
    Contents.ext edit.filed held⟩
  · rw [held]
    exact id
  · rw [edit.diskFree]
    exact loading.diskRoom

/-- The modified bit of a page of the working set is cleared. -/
theorem clearEntry {E : Stop → Kernel → Prop} {Q : Unit → Kernel → Prop} {k : Nat}
    (holds : Holds e n c s) (bound : k < (s.globals.envs e).pageWSMaxSize)
    (taken : ((s.globals.envs e).ptrPageWorkingSet k).empty = false)
    (done : ∀ s', s'.globals = s.globals → Holds e n c s' → Q () s') :
    wp (do
      let va := ((s.globals.envs e).ptrPageWorkingSet k).virtualAddress
      let table ← deref (← getPageTable (← envPageDirectory e) va)
      let entry ← readWord table (ptx va)
      writeWord table (ptx va) (entry &&& ~~~permModified)) Q E s := by
  obtain ⟨v, loading, rfl⟩ := holds
  rw [loading.rep.globals] at bound taken ⊢
  have lt := loading.user k
  have here := View.held_ne_none.mp (loading.elements k bound taken)
  generalize ((v.globals.envs e).ptrPageWorkingSet k).virtualAddress = va at lt here ⊢
  obtain ⟨f, page⟩ := Option.ne_none_iff_exists'.mp here.2
  rw [userPageAt_div] at page
  have entry : v.pte e va ≠ 0 := fun zero => by
    rw [loading.rep.place_userPage_none.mpr zero] at page
    cases page
  obtain ⟨t, table⟩ := loading.rep.place_table entry
  simp only [wp_bind]
  apply envPageDirectory_wp loading.rep (loading.linked e) loading.current
  apply getPageTable_wp loading.rep loading.current (userVa_of_lt lt)
  simp only [table, wp_deref_some, wp_readWord, wp_writeWord, loading.rep.mem table]
  refine done _ rfl (setPte loading (loading.rep.setPte table ?_))
  exact Or.inr ⟨entry, frameOf_andNot _ (by decide)⟩

/-- `pt_set_page_permissions(e, va, 0, PERM_PRESENT)`. -/
theorem clearPresent {E : Stop → Kernel → Prop} {Q : Unit → Kernel → Prop} (holds : Holds e n c s)
    (lt : va < userTop) (done : ∀ s', Holds e n c s' → Q () s')
    (noTable : ∀ m, E (.panic m) s) : wp (ptSetPagePermissions e va 0 permPresent) Q E s := by
  obtain ⟨v, loading, rfl⟩ := holds
  apply ptSetPagePermissions_wp loading.rep (loading.linked e) loading.current (userVa_of_lt lt)
    (by decide) (by decide) (Or.inr rfl)
  · intro s₁ rep₁
    exact done s₁ (setPte loading rep₁)
  · exact fun m _ => noTable m

theorem user (holds : Holds e n c s) (k : Nat) :
    ((s.globals.envs e).ptrPageWorkingSet k).virtualAddress < userTop := by
  obtain ⟨v, loading, rfl⟩ := holds
  rw [loading.rep.globals]
  exact loading.user k

/-! ### The lists -/

theorem modifyLists (holds : Holds e n c s) (g : Lists WSList Nat → Lists WSList Nat) :
    Holds e n c (s.setGlobals (s.globals.setEnv e fun env => env.setLists (g env.lists))) :=
  holds.setEnv _ (fun _ => rfl) (fun _ => rfl) (fun _ => rfl) (fun _ => rfl) (fun _ => rfl)
    fun _ => rfl

theorem addToLists {E : Stop → Kernel → Prop} {Q : Unit → Kernel → Prop} {k limit : Nat}
    (holds : Holds e n c s) (done : ∀ s', Holds e n c s' → Q () s') :
    wp (addToLists e k limit) Q E s := by
  simp only [Fos.addToLists, Fos.modifyLists, listSize, wp_bind, wp_modifyEnv, wp_getEnv, wp_pure,
    wp_ite]
  split
  · exact done _ ((holds.modifyLists (·.remove .pageWorkingSetList k)).modifyLists
      (·.insertHead .activeList k))
  · exact done _ ((holds.modifyLists (·.remove .pageWorkingSetList k)).modifyLists
      (·.insertHead .secondList k))

theorem nextWSIndex {Q : Unit → Kernel → Prop} (holds : Holds e n c s)
    (done : ∀ s', Holds e n c s' → Q () s') : wp (nextWSIndex e) Q (fun _ _ => True) s := by
  simp only [Fos.nextWSIndex, wp_bind, wp_getEnv, wp_ite, wp_modifyEnv, wp_throw]
  split
  · trivial
  · exact done _ (holds.setEnv Env.stepWSIndex (fun _ => rfl) (fun _ => rfl) (fun _ => rfl)
      (fun _ => rfl) (fun _ => rfl) fun _ => rfl)

/-- A loop over a list of `e` whose passes keep the contents. -/
theorem wsForeach {β ρ : Type} {list : WSList} {body : β → Nat → Prog (Pass β ρ)}
    (pass : ∀ b k s, Holds e n c s →
      wp (body b k) (fun _ s' => Holds e n c s') (fun _ _ => True) s)
    {fuel : Nat} {x : Option Nat} {b : β} (holds : Holds e n c s) :
    wp (wsForeach e list body fuel x b) (fun _ s' => Holds e n c s') (fun _ _ => True) s := by
  induction fuel generalizing x b s with
  | zero => trivial
  | succ fuel ih =>
    simp only [Fos.wsForeach, wp_bind]
    have saved := holds.modifyLists fun S => S.savePtrNext list (x.bind S.links.next)
    cases x with
    | none => exact saved
    | some k =>
      show wp (body b k >>= _) _ _ _
      rw [wp_bind]
      refine wp_mono (pass b k _ saved) ?_ fun _ _ _ => trivial
      rintro (b' | r) s₁ holds₁
      · exact ih holds₁
      · exact holds₁

end Holds

/-! ### Reading the tables -/

/-- The page at `va` in the page file. -/
def Kernel.filePage (s : Kernel) (e va : Nat) : Page :=
  sectorsPage s.globals.disk (startSector (s.pageFileEntry e va).toNat)

/-- The page table entry of `va`, 0 if there is no page table. -/
def Kernel.pageEntry (s : Kernel) (e va : Nat) : Word :=
  match (s.globals.envs e).envPageDirectory with
  | none => 0
  | some dir =>
    if s.mem dir (pdx va) = 0 then 0 else s.mem (frameOf (s.mem dir (pdx va))) (ptx va)

/-- It is the entry of the abstract state. -/
theorem Sound.pageEntry {d : Nat} (sound : Sound s v) (dir : v.place (.pageDir e) = some d)
    (user : UserVa va) : s.pageEntry e va = v.pte e va := by
  have child := Obj.child_pageDir (e := e) user
  have linked : (v.globals.envs e).envPageDirectory = some d := (sound.linked e).trans dir
  rw [Kernel.pageEntry, sound.rep.globals, linked]
  simp only [sound.rep.mem dir]
  split
  · rename_i zero
    exact (congrFun (sound.rep.wf.absent _ ((sound.rep.place_none child).mpr zero)) _).symm
  · rename_i entry
    rw [sound.rep.mem (sound.rep.place_child child entry)]
    rfl

namespace Holds

theorem filePage (holds : Holds e n c s) (lt : va < userTop) :
    c.file (va / pageSize) =
      if s.pageFileEntry e va ≠ 0 then some (s.filePage e va) else none := by
  obtain ⟨v, loading, rfl⟩ := holds
  have entry : s.pageFileEntry e va = v.dfn e va := loading.toSound.file.pageFileEntry e va
  have same : v.dfn e (va / pageSize * pageSize) = v.dfn e va := by
    show v.entry e (pageNo _) = v.entry e (pageNo va)
    rw [pageNo_div]
  show v.filed e (va / pageSize) = _
  rw [View.filed, same, Kernel.filePage, entry, loading.rep.globals]
  by_cases page : v.dfn e va ≠ 0
  · rw [if_pos page, if_pos ⟨userPage_div lt, page⟩]
    rfl
  · rw [if_neg page, if_neg fun h => page h.2]

theorem pageEntry (holds : Holds e n c s) (lt : va < userTop) :
    c.frames (va / pageSize) =
      if s.pageEntry e va ≠ 0 then some (s.mem (frameOf (s.pageEntry e va))) else none := by
  obtain ⟨v, loading, rfl⟩ := holds
  have walk := loading.toSound.pageEntry loading.current (userVa_of_lt lt)
  show v.held e (va / pageSize) = _
  rw [View.held, if_pos (userPage_div lt), userPageAt_div, walk]
  by_cases page : v.pte e va ≠ 0
  · have here := loading.rep.place_child (child_userPageAt e va) page
    have frame : v.place (userPageAt e va) = some (frameOf (v.pte e va)) := here
    rw [if_pos page, frame, Option.map_some, loading.rep.mem frame]
  · rw [if_neg page, loading.rep.place_userPage_none.mpr (not_not.mp page), Option.map_none]

theorem elements (holds : Holds e n c s) {k : Nat} (bound : k < (s.globals.envs e).pageWSMaxSize)
    (taken : ((s.globals.envs e).ptrPageWorkingSet k).empty = false) :
    c.frames (((s.globals.envs e).ptrPageWorkingSet k).virtualAddress / pageSize) ≠ none := by
  obtain ⟨v, loading, rfl⟩ := holds
  rw [loading.rep.globals] at bound taken ⊢
  exact loading.elements k bound taken

end Holds

/-! ## A new environment -/

/-- An environment without a page directory has no pages. -/
theorem Sound.contents_none (sound : Sound s v) (dir : v.place (.pageDir e) = none)
    (diskDir : v.place (.diskDir e) = none) : v.contents e = ⟨fun _ => none, fun _ => none⟩ := by
  refine Contents.ext (funext fun q => ?_) (funext fun q => ?_)
  · have table : v.place (.diskTable e (pdx (q * pageSize))) = none := by
      by_contra there
      obtain ⟨t, here⟩ := Option.ne_none_iff_exists'.mp there
      obtain ⟨d, parent⟩ := sound.rep.wf.place_parent (o := .diskDir e) rfl here
      rw [diskDir] at parent
      cases parent
    have zero : v.dfn e (q * pageSize) = 0 := congrFun (sound.rep.wf.absent _ table) _
    show v.filed e q = none
    rw [View.filed, if_neg fun h => h.2 zero]
  · show v.held e q = none
    rw [View.held]
    split
    · rename_i lt
      have page : v.place (userPageAt e (q * pageSize)) = none := by
        by_contra there
        obtain ⟨f, here⟩ := Option.ne_none_iff_exists'.mp there
        have child : shape.child (.pageDir e) (pdx (q * pageSize)) =
            some (.pageTable e (pdx (q * pageSize))) := Obj.child_pageDir (userVa_of_lt lt)
        have leaf : shape.child (.pageTable e (pdx (q * pageSize))) (ptx (q * pageSize)) =
            some (userPageAt e (q * pageSize)) := rfl
        obtain ⟨t, table⟩ := sound.rep.wf.place_parent leaf here
        obtain ⟨d, parent⟩ := sound.rep.wf.place_parent child table
        rw [dir] at parent
        cases parent
      rw [page, Option.map_none]
    · rfl

theorem Sound.lcr3 (sound : Sound s v) (pa : Nat) :
    Sound (s.setGlobals { s.globals with cr3 := pa })
      (v.setGlobals { v.globals with cr3 := pa }) where
  toPointers := sound.toPointers.congr (fun _ => rfl) (fun _ => rfl) rfl
  rep := by
    rw [sound.rep.globals]
    exact sound.rep.setGlobals rfl rfl
  pageFile := sound.pageFile.congr (fun _ _ => rfl) rfl sound.pageFile.high

/-- The address space of a new environment is empty. -/
theorem Sound.newSpace_holds {E : Stop → Kernel → Prop} {Q : Nat → Unit → Kernel → Prop} {n : Nat}
    {name : String} {size second : Nat} (sound : Sound s v) (zero : v.page .zeroPage = zeroes)
    (free : s.globals.envs e = Env.zero) (room : n ≤ v.free.length)
    (diskRoom : n ≤ v.diskFree.length) (fits : size ≤ pwsMaxSize ∨ ∀ s', E .crash s')
    (done : ∀ pa s', Holds e (n - 1) ⟨fun _ => none, fun _ => none⟩ s' → Q pa () s')
    (full : ∀ s', n < 1 → E outOfMemory s') :
    wp (modifyEnv e (Env.setProgName name)) (fun _ s' => wp (Fos.newSpace e size second)
      (fun phys s' => wp (Fos.lcr3 phys) (Q s'.globals.cr3) E s') E s') E s := by
  have env : v.globals.envs e = Env.zero := sound.rep.globals ▸ free
  have dir : v.place (.pageDir e) = none := by
    rw [← sound.linked e, env]
    rfl
  have diskDir : v.place (.diskDir e) = none := by
    rw [← (sound.diskLinked e).dir, env]
    rfl
  have named := sound.setEnv e (Env.setProgName name) (fun _ => rfl) (fun _ => rfl)
    (fun _ => rfl) fun _ => rfl
  rw [wp_modifyEnv]
  apply newSpace_wp named dir diskDir fits
  · intro f rest s₁ L list _ sound₁
    have switched := sound₁.lcr3 (toPhysicalAddress f)
    have members : ((v.setEnv e (Env.setProgName name)).newSpace e f size second L).globals.envs e =
        Env.created f size second L (Env.zero.setProgName name) := by
      simp [View.newSpace, View.setEnv, Globals.setEnv, env]
    have element : ∀ k, (Env.created f size second L (Env.zero.setProgName name)).ptrPageWorkingSet
        k = if k < size then ⟨0, true⟩ else ⟨0, false⟩ := fun _ => rfl
    have listed : v.free = f :: rest := list
    refine done _ _ ⟨_, ⟨switched, ?_, ?_, fun k => ?_, fun k bound taken => ?_, ?_, ?_⟩, ?_⟩
    · simp [View.Current, View.newSpace, View.setEnv, ppn_toPhysicalAddress]
    · simpa [View.newSpace, View.setEnv] using zero
    · rw [View.setGlobals_globals]
      show (((View.newSpace _ e f size second L).globals.envs e).ptrPageWorkingSet k).virtualAddress
        < userTop
      rw [members, element]
      split <;> decide
    · change k < ((View.newSpace _ e f size second L).globals.envs e).pageWSMaxSize at bound
      change (((View.newSpace _ e f size second L).globals.envs e).ptrPageWorkingSet k).empty =
        false at taken
      rw [members] at bound
      have small : k < size := bound
      rw [members, element, if_pos small] at taken
      cases taken
    · show n - 1 ≤ v.free.tail.length
      rw [List.length_tail]
      omega
    · exact (Nat.sub_le n 1).trans diskRoom
    · rw [← sound.contents_none dir diskDir]
      refine Contents.ext (funext fun q => ?_) (View.held_congr (fun a => ?_) fun a => ?_)
      · show View.filed _ e q = v.filed e q
        simp [View.filed, View.newSpace, View.setEnv, View.dfn, View.diskPage]
        rfl
      · simp [View.newSpace, View.setEnv]
      · simp [View.newSpace, View.setEnv]
  · intro none
    have none' : v.free = [] := none
    rw [none', List.length_nil] at room
    exact full _ (by omega)

end Fos
