import Fos.Memory.Boot
import Fos.Memory.Spaces

/-!
# Runs of page-file operations

Every order of operations on the page file, of any environments, from the start of the
kernel.  Address spaces come and go between them, since a page is read into the current
one.  The run carries a book of what was stored where; a call that fails or panics leaves
the book as it was.

* `FileCall`, `FileReach`: the operations and the states they lead to, with the book;
* `View.Records`: the page file has what the book says, and `FileReach.tracks`: so it is in
  every state reached.
-/

namespace Fos

open Arena Linked Exec

/-- What is known of the pages of the page file: `none` for a page that is not there, and
`some none` for one that nothing was stored in. -/
abbrev Book := Nat → PageNo → Option (Option Page)

def Book.set (b : Book) (e : Nat) (p : PageNo) (c : Option (Option Page)) : Book :=
  Function.update b e (Function.update (b e) p c)

/-- A page is added without contents: what was there stays. -/
def Book.touch (b : Book) (e : Nat) (p : PageNo) : Book := b.set e p (some (b e p).join)

/-- All pages of an environment go. -/
def Book.clear (b : Book) (e : Nat) : Book := Function.update b e fun _ => none

/-- The operations on the page file, and those that make, change and switch address
spaces. -/
inductive FileCall where
  | add (e va : Nat) (data : Page)
  | addEmpty (e va : Nat) (initializeByZero : Bool)
  | update (e va modifiedPageFrameInfo : Nat)
  | read (e va : Nat)
  | remove (e va : Nat)
  | free (e : Nat)
  | newSpace (e pageWSSize LRUSecondListSize : Nat)
  | run (e : Nat)
  | map (e va : Nat) (perm : Word)
  | unmap (e va : Nat)

namespace FileCall

/-- The call, with 0 for a function that has no result. -/
def prog : FileCall → Prog Int
  | .add e va data => pfAddEnvPage e va data
  | .addEmpty e va initializeByZero => pfAddEmptyEnvPage e va initializeByZero
  | .update e va f => pfUpdateEnvPage e va f
  | .read e va => pfReadEnvPage e va
  | .remove e va => do
    pfRemoveEnvPage e va
    return 0
  | .free e => do
    pfFreeEnv e
    return 0
  | .newSpace e pageWSSize LRUSecondListSize => do
    let _ ← Fos.newSpace e pageWSSize LRUSecondListSize
    return 0
  | .run e => do
    envRun e
    return 0
  | .map e va perm => do
    let f ← allocateFrame
    mapFrame (← envPageDirectory e) f va perm
    return 0
  | .unmap e va => do
    unmapFrame (← envPageDirectory e) va
    return 0

/-- The calls that the kernel makes: addresses are below `USER_TOP`, frames exist, a new
address space is for an environment that has nothing, and others are for one that has a
page directory. -/
def Legal (s : Kernel) : FileCall → Prop
  | .add _ va _ | .addEmpty _ va _ | .remove _ va => va < userTop
  | .update _ va f => va < userTop ∧ f < s.globals.numberOfFrames
  | .read _ va => va < userTop ∧ s.globals.curenv ≠ none
  | .free _ => True
  | .newSpace e _ _ =>
    (s.globals.envs e).envPageDirectory = none ∧ (s.globals.envs e).diskEnvPgdir = none
  | .run e => (s.globals.envs e).envPageDirectory ≠ none
  | .map e va perm => va < userTop ∧ IsPerm perm ∧ (s.globals.envs e).envPageDirectory ≠ none
  | .unmap e va => va < userTop ∧ (s.globals.envs e).envPageDirectory ≠ none

instance decidableLegal (s : Kernel) : (call : FileCall) → Decidable (call.Legal s)
  | .add _ va _ | .addEmpty _ va _ | .remove _ va => inferInstanceAs (Decidable (va < userTop))
  | .update _ va f => inferInstanceAs (Decidable (va < userTop ∧ f < s.globals.numberOfFrames))
  | .read _ va => inferInstanceAs (Decidable (va < userTop ∧ s.globals.curenv ≠ none))
  | .free _ => inferInstanceAs (Decidable True)
  | .newSpace e _ _ => inferInstanceAs (Decidable
      ((s.globals.envs e).envPageDirectory = none ∧ (s.globals.envs e).diskEnvPgdir = none))
  | .run e => inferInstanceAs (Decidable ((s.globals.envs e).envPageDirectory ≠ none))
  | .map e va perm => inferInstanceAs (Decidable
      (va < userTop ∧ IsPerm perm ∧ (s.globals.envs e).envPageDirectory ≠ none))
  | .unmap e va => inferInstanceAs (Decidable
      (va < userTop ∧ (s.globals.envs e).envPageDirectory ≠ none))

/-- The book after the call has returned `r`. -/
def book (s : Kernel) (r : Int) (b : Book) : FileCall → Book
  | .add e va data => if r = 0 then b.set e (pageNo va) (some (some data)) else b
  | .addEmpty e va true =>
    if r = 0 then b.set e (pageNo va) (some (some (s.mem zeroPage))) else b
  | .addEmpty e va false => if r = 0 then b.touch e (pageNo va) else b
  | .update e va f => if r = 0 then b.set e (pageNo va) (some (some (s.mem f))) else b
  | .remove e va => b.set e (pageNo va) none
  | .free e => b.clear e
  | _ => b

end FileCall

/-- The states that calls lead to.  The kernel goes on after a panic, in the state it was
left in. -/
inductive FileReach (m : Machine) : Kernel → Book → Prop
  | boot : FileReach m m.boot fun _ _ => none
  | returns {s s' b r} (call : FileCall) (reach : FileReach m s b) (legal : call.Legal s)
    (run : call.prog s = .ok r s') : FileReach m s' (call.book s r b)
  | panics {s s' b message} (call : FileCall) (reach : FileReach m s b) (legal : call.Legal s)
    (run : call.prog s = .error (.panic message) s') : FileReach m s' b

/-! ## The page file and the book -/

variable {s s' : Kernel} {v v' : View} {b b' : Book} {e va : Nat}

/-- The disk frame of a page. -/
def View.entry (v : View) (e : Nat) (p : PageNo) : Word := v.page (.diskTable e p.1) p.2

/-- The page file has what the book says. -/
structure View.Records (v : View) (b : Book) : Prop where
  pages : ∀ e p, b e p = none ↔ v.entry e p = 0
  content : ∀ e p d, b e p = some (some d) → v.diskPage (v.entry e p).toNat = d

theorem View.diskPage_congr (disk : v'.globals.disk = v.globals.disk) :
    v'.diskPage = v.diskPage := by
  funext d
  rw [View.diskPage, disk, View.diskPage]

namespace View.Records

theorem congr (records : v.Records b) (entry : ∀ e p, v'.entry e p = v.entry e p)
    (disk : v'.globals.disk = v.globals.disk) : v'.Records b where
  pages e p := by
    rw [entry]
    exact records.pages e p
  content e p := by
    rw [entry, View.diskPage_congr disk]
    exact records.content e p

/-- One page of one environment changes. -/
theorem set {c : Option (Option Page)} {p : PageNo} (records : v.Records b)
    (entry : ∀ e' p', (e', p') ≠ (e, p) → v'.entry e' p' = v.entry e' p')
    (disk : ∀ e' p', (e', p') ≠ (e, p) → v.entry e' p' ≠ 0 →
      v'.diskPage (v.entry e' p').toNat = v.diskPage (v.entry e' p').toNat)
    (page : c = none ↔ v'.entry e p = 0)
    (stored : ∀ d, c = some (some d) → v'.diskPage (v'.entry e p).toNat = d) :
    v'.Records (b.set e p c) := by
  have other : ∀ e' p', (e', p') ≠ (e, p) → b.set e p c e' p' = b e' p' := by
    intro e' p' ne
    rcases eq_or_ne e' e with rfl | ne'
    · have ne'' : p' ≠ p := by
        rintro rfl
        exact ne rfl
      simp [Book.set, ne'']
    · simp [Book.set, ne']
  have self : b.set e p c e p = c := by simp [Book.set]
  refine ⟨fun e' p' => ?_, fun e' p' d => ?_⟩
  · by_cases same : (e', p') = (e, p)
    · cases same
      rwa [self]
    · rw [other e' p' same, entry e' p' same]
      exact records.pages e' p'
  · by_cases same : (e', p') = (e, p)
    · cases same
      rw [self]
      exact stored d
    · rw [other e' p' same, entry e' p' same]
      intro here
      have nonzero : v.entry e' p' ≠ 0 := fun zero => by
        rw [(records.pages e' p').mpr zero] at here
        cases here
      rw [disk e' p' same nonzero]
      exact records.content e' p' d here

end View.Records

theorem View.write_entry {e' : Nat} {p' : PageNo} {w : Word}
    (ne : (e', p') ≠ (e, pageNo va)) :
    (v.write (.diskTable e (pdx va)) (ptx va) w).entry e' p' = v.entry e' p' := by
  simp only [View.entry, View.write_page, Function.update_apply]
  by_cases same : Obj.diskTable e' p'.1 = .diskTable e (pdx va)
  · obtain ⟨rfl, eq⟩ := Obj.diskTable.inj same
    have ne' : p'.2 ≠ ptx va := fun eq' => ne (Prod.ext rfl (Prod.ext eq eq'))
    rw [if_pos same, Function.update_of_ne ne', eq]
  · rw [if_neg same]

theorem View.takeDfn_entry {d e' : Nat} {p' : PageNo} (ne : (e', p') ≠ (e, pageNo va)) :
    (v.takeDfn e va d).entry e' p' = v.entry e' p' := View.write_entry ne

theorem View.dropDfn_entry_of_ne {e' : Nat} {p' : PageNo} (ne : (e', p') ≠ (e, pageNo va)) :
    (v.dropDfn e (pdx va) (ptx va)).entry e' p' = v.entry e' p' := by
  unfold View.dropDfn
  split
  · rfl
  · exact View.write_entry ne

theorem Rep.withTables_entry (rep : Rep s v) (e' : Nat) (p' : PageNo) :
    (v.withTables e va).entry e' p' = v.entry e' p' := by
  rw [View.entry, rep.withTables_page (by simp), View.entry]

theorem View.withDiskDir_disk : (v.withDiskDir e).globals.disk = v.globals.disk := by
  rcases View.withDiskDir_globals (v := v) (e := e) with same | ⟨f, same⟩ <;> rw [same]
  rfl

theorem View.withTables_disk : (v.withTables e va).globals.disk = v.globals.disk := by
  rw [View.withTables, View.withDiskTable_globals, View.withDiskDir_disk]

/-- The other pages keep their disk frames when a page is added. -/
theorem Rep.addPage_entry {e' : Nat} {p' : PageNo} (rep : Rep s v)
    (ne : (e', p') ≠ (e, pageNo va)) : (v.addPage e va).entry e' p' = v.entry e' p' := by
  rw [← (rep.withTables_entry e' p' : (v.withTables e va).entry e' p' = _), View.addPage]
  rcases (v.withTables e va).assignDfn_eq e va with same | ⟨d, ds, -, -, same⟩ <;> rw [same]
  exact View.takeDfn_entry ne

/-- And so does the page itself if it has one. -/
theorem Rep.addPage_dfn (rep : Rep s v) (page : v.dfn e va ≠ 0) :
    (v.addPage e va).dfn e va = v.dfn e va := by
  have dfn : (v.withTables e va).dfn e va = v.dfn e va := rep.withTables_entry e (pageNo va)
  rw [View.addPage]
  rcases (v.withTables e va).assignDfn_eq e va with same | ⟨d, ds, -, zero, -⟩
  · rw [same, dfn]
  · rw [dfn] at zero
    exact absurd zero page

/-- The page of zeroes is none of the tables of the page file. -/
theorem Rep.addPage_zeroPage (rep : Rep s v) :
    (v.addPage e va).page .zeroPage = v.page .zeroPage := by
  have tables : (v.withTables e va).page .zeroPage = v.page .zeroPage :=
    rep.withTables_page (by simp)
  rw [View.addPage]
  rcases (v.withTables e va).assignDfn_eq e va with same | ⟨d, ds, -, -, same⟩
  · rw [same, tables]
  · rw [same, ← tables]
    simp [View.takeDfn]

/-- The current environment is the one it was. -/
theorem View.addPage_globals (v : View) (e va : Nat) :
    (v.addPage e va).globals.cr3 = v.globals.cr3 ∧
      (v.addPage e va).globals.curenv = v.globals.curenv := by
  rw [View.addPage, View.assignDfn_globals, View.withTables, View.withDiskTable_globals]
  rcases View.withDiskDir_globals (v := v) (e := e) with same | ⟨f, same⟩ <;> rw [same]
  · exact ⟨rfl, rfl⟩
  · exact ⟨rfl, rfl⟩

@[simp] theorem View.addPage_disk : (v.addPage e va).globals.disk = v.globals.disk := by
  rw [View.addPage, View.assignDfn_globals, View.withTables_disk]

namespace View.Records

theorem withTables (records : v.Records b) (rep : Rep s v) : (v.withTables e va).Records b :=
  records.congr rep.withTables_entry withTables_disk

theorem withDiskDir (records : v.Records b) (rep : Rep s v) : (v.withDiskDir e).Records b :=
  records.congr (fun e' p => by rw [View.entry, rep.withDiskDir_page, View.entry]) withDiskDir_disk

theorem addPage (records : v.Records b) (rep : Rep s v) (page : (v.addPage e va).dfn e va ≠ 0) :
    (v.addPage e va).Records (b.touch e (pageNo va)) := by
  refine records.set (fun e' p' ne => rep.addPage_entry ne)
    (fun e' p' _ _ => by rw [View.diskPage_congr View.addPage_disk]) ?_ fun d stored => ?_
  · exact iff_of_false (by simp) page
  · have there : b e (pageNo va) = some (some d) := by
      cases here : b e (pageNo va) with
      | none => simp [here] at stored
      | some c => simpa [here] using stored
    have nonzero : v.dfn e va ≠ 0 := fun zero => by
      rw [(records.pages e (pageNo va)).mpr zero] at there
      cases there
    have dfn : (v.addPage e va).entry e (pageNo va) = v.entry e (pageNo va) :=
      rep.addPage_dfn nonzero
    rw [dfn, View.diskPage_congr View.addPage_disk]
    exact records.content e (pageNo va) d there

theorem storePage {p : Page} (records : v.Records b) (pf : PageFile v) (page : v.dfn e va ≠ 0) :
    (v.storePage e va p).Records (b.set e (pageNo va) (some (some p))) := by
  have own : (v.dfn e va).toNat < pagesPerFile := pf.range e (pdx va) (ptx va) page
  refine records.set (fun _ _ _ => rfl) (fun e' p' ne nonzero => ?_) ?_ fun d stored => ?_
  · have other : (v.entry e' p').toNat < pagesPerFile := pf.range e' p'.1 p'.2 nonzero
    have apart : (v.entry e' p').toNat ≠ (v.dfn e va).toNat := fun eq => by
      obtain ⟨rfl, eq₁, eq₂⟩ := pf.inj e' p'.1 p'.2 e (pdx va) (ptx va) nonzero
        (BitVec.eq_of_toNat_eq eq)
      exact ne (Prod.ext rfl (Prod.ext eq₁ eq₂))
    rw [View.storePage, setDisk_diskPage own other, if_neg apart]
  · exact iff_of_false (by simp) page
  · obtain rfl : p = d := by simpa using stored
    show (v.setDisk _ p).diskPage (v.dfn e va).toNat = p
    rw [setDisk_diskPage own own, if_pos rfl]

theorem dropDfn (records : v.Records b) :
    (v.dropDfn e (pdx va) (ptx va)).Records (b.set e (pageNo va) none) := by
  have edit : v.TableEdit (v.dropDfn e (pdx va) (ptx va)) e (pdx va) :=
    View.TableEdit.dropDfn ⟨rfl, rfl, fun _ _ => rfl, rfl⟩ _
  refine records.set (fun e' p' ne => View.dropDfn_entry_of_ne ne)
    (fun e' p' _ _ => congrFun (View.diskPage_congr (by rw [edit.globals])) _) ?_
    fun d stored => ?_
  · refine iff_of_true rfl ?_
    have zero := v.dropDfn_entry e (pdx va) (ptx va) (ptx va)
    rwa [if_pos rfl] at zero
  · cases stored

theorem freed (records : v.Records b) (rep : Rep s v') (freed : v.Freed v' e) :
    v'.Records (b.clear e) := by
  have disk : v'.globals.disk = v.globals.disk := by
    rw [freed.globals]
    rfl
  have tables : ∀ e' p, e' ≠ e → v'.entry e' p = v.entry e' p := fun e' p ne => by
    rw [View.entry, freed.keeps.page (.diskTable e' p.1) ne, View.entry]
  refine ⟨fun e' p => ?_, fun e' p d => ?_⟩
  · rcases eq_or_ne e' e with rfl | ne
    · refine iff_of_true (by simp [Book.clear]) ?_
      exact congrFun (rep.wf.absent _ (freed.gone (.diskTable e' p.1) rfl)) _
    · rw [tables e' p ne, Book.clear, Function.update_of_ne ne]
      exact records.pages e' p
  · rcases eq_or_ne e' e with rfl | ne
    · simp [Book.clear]
    · rw [tables e' p ne, Book.clear, Function.update_of_ne ne, View.diskPage_congr disk]
      exact records.content e' p d

end View.Records

/-! ## The run -/

/-- The state is consistent and has what the book says, and `z` in the page of zeroes. -/
structure Tracks (z : Page) (s : Kernel) (b : Book) (v : View) : Prop extends Sound s v where
  current : ∀ c, v.globals.curenv = some c → v.Current c
  records : v.Records b
  zero : v.page .zeroPage = z

/-- Whichever abstract state it is. -/
def Tracked (z : Page) (s : Kernel) (b : Book) : Prop := ∃ v, Tracks z s b v

variable {z : Page}

/-- A step that leaves the page directories where they are and the current one current. -/
theorem Tracks.next (tracks : Tracks z s b v) (sound : Sound s' v')
    (dirs : ∀ c, v'.place (.pageDir c) = v.place (.pageDir c))
    (curenv : v'.globals.curenv = v.globals.curenv) (cr3 : v'.globals.cr3 = v.globals.cr3)
    (records : v'.Records b') (zero : v'.page .zeroPage = v.page .zeroPage) :
    Tracked z s' b' := by
  refine ⟨v', { sound with
    current := fun c current => ?_, records := records, zero := zero.trans tracks.zero }⟩
  rw [View.Current, dirs, cr3]
  exact tracks.current c (curenv ▸ current)

theorem lt_kernelBase (lt : va < userTop) : va < kernelBase := by
  simp only [userTop, kernelBase] at *
  omega

theorem IsPerm.or {p q : Word} (perm : IsPerm p) (perm' : IsPerm q) : IsPerm (p ||| q) := by
  rw [IsPerm, BitVec.toNat_or]
  exact Nat.or_lt_two_pow (n := 12) perm perm'

/-- A panic leaves the book as it was. -/
abbrev Stopped (z : Page) (b : Book) (x : Stop) (s : Kernel) : Prop :=
  ∀ message, x = .panic message → Tracked z s b

/-- What the call does to a state that the book describes. -/
def FileCall.Keeps (z : Page) (call : FileCall) (s : Kernel) (b : Book) : Prop :=
  wp call.prog (fun r s' => Tracked z s' (call.book s r b)) (Stopped z b) s

theorem Tracks.withTables (tracks : Tracks z s b v) (lt : UserVa va)
    (rep : Rep s' (v.withTables e va)) : Tracked z s' b := by
  refine tracks.next (tracks.toSound.withTables lt rep)
    (fun c => View.withTables_place (by simp) (by simp)) ?_ ?_
    (tracks.records.withTables tracks.rep)
    (tracks.rep.withTables_page (by simp))
  all_goals
    rw [View.withTables, View.withDiskTable_globals]
    rcases View.withDiskDir_globals (v := v) (e := e) with same | ⟨f, same⟩ <;> rw [same]
    try rfl

theorem Tracks.withDiskDir (tracks : Tracks z s b v) (rep : Rep s' (v.withDiskDir e)) :
    Tracked z s' b := by
  refine tracks.next (tracks.toSound.withDiskDir rep)
    (fun c => View.withDiskDir_place (by simp)) ?_ ?_ (tracks.records.withDiskDir tracks.rep)
    (congrFun tracks.rep.withDiskDir_page _)
  all_goals
    rcases View.withDiskDir_globals (v := v) (e := e) with same | ⟨f, same⟩ <;> rw [same]
    try rfl

theorem Tracks.self (tracks : Tracks z s b v) (rep : Rep s' v) : Tracked z s' b :=
  ⟨v, { tracks with rep := rep }⟩

theorem Tracks.cut (tracks : Tracks z s b v) (rep : Rep s' v') (cut : v.Cut e v') :
    Tracked z s' b := by
  rcases cut with rfl | rfl
  · exact tracks.self rep
  · exact tracks.withDiskDir rep

/-- Adding a page leaves the page directories and the current address space alone. -/
theorem Tracks.nextAdded (tracks : Tracks z s b v) (sound : Sound s' v')
    (place : v'.place = (v.addPage e va).place) (curenv : v'.globals.curenv =
      (v.addPage e va).globals.curenv) (cr3 : v'.globals.cr3 = (v.addPage e va).globals.cr3)
    (records : v'.Records b') (zero : v'.page .zeroPage = (v.addPage e va).page .zeroPage) :
    Tracked z s' b' := by
  have tables : ∀ c, (v.withTables e va).place (.pageDir c) = v.place (.pageDir c) :=
    fun c => View.withTables_place (by simp) (by simp)
  refine tracks.next sound (fun c => by rw [place, View.addPage, View.assignDfn_place, tables])
    (curenv.trans (View.addPage_globals v e va).2) (cr3.trans (View.addPage_globals v e va).1)
    records (zero.trans (tracks.rep.addPage_zeroPage))

/-- A page is added, or the page file is full, or the memory for its tables is. -/
theorem Tracks.add {data : Page} (tracks : Tracks z s b v) (lt : va < userTop) :
    wp (pfAddEnvPage e va data) (fun r s' => Tracked z s'
      (if r = 0 then b.set e (pageNo va) (some (some data)) else b)) (Stopped z b) s := by
  have user := userVa_of_lt lt
  apply pfAddEnvPage_wp tracks.rep (tracks.diskLinked e) tracks.pageFile.toSharedOut
    (lt_kernelBase lt)
  · intro s₁ rep₁ page
    have added := tracks.pageFile.addPage (e := e) tracks.rep user
    have records := (tracks.records.addPage tracks.rep page).storePage (p := data) added page
    have same : (b.touch e (pageNo va)).set e (pageNo va) (some (some data)) =
        b.set e (pageNo va) (some (some data)) := by
      simp [Book.touch, Book.set]
    rw [if_pos rfl]
    rw [same] at records
    exact tracks.nextAdded (tracks.storeAdded user rep₁) rfl rfl rfl records rfl
  · intro s₁ rep₁ _ _
    exact tracks.withTables user rep₁
  · intro s₁ v₁ rep₁ cut _ _ message _
    exact tracks.cut rep₁ cut

theorem Tracks.addEmpty {initializeByZero : Bool} (tracks : Tracks z s b v) (lt : va < userTop) :
    (FileCall.addEmpty e va initializeByZero).Keeps z s b := by
  have user := userVa_of_lt lt
  cases initializeByZero with
  | true =>
    simp only [FileCall.Keeps, FileCall.prog, pfAddEmptyEnvPage, if_true, wp_bind, wp_get]
    exact tracks.add lt
  | false =>
    apply pfAddEmptyEnvPage_wp tracks.rep (tracks.diskLinked e) tracks.pageFile.toSharedOut
      (lt_kernelBase lt)
    · intro s₁ rep₁ page
      simp only [FileCall.book, if_true]
      exact tracks.nextAdded (tracks.addPage user rep₁) rfl rfl rfl
        (tracks.records.addPage tracks.rep page) rfl
    · intro s₁ rep₁ _ _
      exact tracks.withTables user rep₁
    · intro s₁ v₁ rep₁ cut _ _ message _
      exact tracks.cut rep₁ cut

/-- Counting a transfer. -/
theorem Tracks.counted {g : Env → Env} (tracks : Tracks z s b v)
    (dir : ∀ env, (g env).envPageDirectory = env.envPageDirectory)
    (cr3 : ∀ env, (g env).envCr3 = env.envCr3)
    (diskDir : ∀ env, (g env).diskEnvPgdir = env.diskEnvPgdir)
    (pa : ∀ env, (g env).diskEnvPgdirPA = env.diskEnvPgdirPA) :
    Tracks z (s.setGlobals (s.globals.setEnv e g)) b (v.setEnv e g) :=
  { tracks.toSound.setEnv e g dir cr3 diskDir pa with
    current := tracks.current
    records := tracks.records.congr (fun _ _ => rfl) rfl
    zero := tracks.zero }

theorem Tracks.update {f : Nat} (tracks : Tracks z s b v) (lt : va < userTop)
    (frame : f < s.globals.numberOfFrames) : (FileCall.update e va f).Keeps z s b := by
  have counted := tracks.counted (e := e) (g := Env.countOut) (fun _ => rfl) (fun _ => rfl)
    (fun _ => rfl) fun _ => rfl
  apply pfUpdateEnvPage_wp tracks.rep (tracks.diskLinked e) (lt_kernelBase lt)
    (tracks.rep.globals ▸ frame)
  · intro s₁ page rep₁
    simp only [FileCall.book, if_true]
    exact counted.next (counted.storePage rep₁) (fun _ => rfl) rfl rfl
      (counted.records.storePage counted.pageFile page) rfl
  · intro s₁ _ rep₁
    exact counted.withDiskDir rep₁
  · intro s₁ rep₁ _ _ message _
    exact counted.self rep₁

theorem Tracks.remove (tracks : Tracks z s b v) : (FileCall.remove e va).Keeps z s b := by
  simp only [FileCall.Keeps, FileCall.prog, wp_bind]
  apply pfRemoveEnvPage_wp tracks.rep (tracks.diskLinked e) tracks.pageFile
  intro s₁ rep₁
  have edit : v.TableEdit (v.dropDfn e (pdx va) (ptx va)) e (pdx va) :=
    View.TableEdit.dropDfn ⟨rfl, rfl, fun _ _ => rfl, rfl⟩ _
  exact tracks.next (tracks.dropDfn rep₁) (fun _ => by rw [edit.place]) (by rw [edit.globals])
    (by rw [edit.globals]) tracks.records.dropDfn (edit.page _ (by simp))

theorem Tracks.free (tracks : Tracks z s b v) : (FileCall.free e).Keeps z s b := by
  simp only [FileCall.Keeps, FileCall.prog, wp_bind]
  apply pfFreeEnv_wp tracks.rep (tracks.diskLinked e) tracks.pageFile
  · intro s₁ v₁ _ rep₁ pf₁ freed
    exact tracks.next (tracks.freed rep₁ pf₁ freed) (fun _ => freed.keeps.place _ id)
      (by rw [freed.globals]; rfl) (by rw [freed.globals]; rfl) (tracks.records.freed rep₁ freed)
      (freed.keeps.page _ id)
  · rintro _ message ⟨⟩

/-- Reading a page in changes memory and page tables of the current environment. -/
theorem Tracks.userEdit {c : Nat} (tracks : Tracks z s b v) (edit : v.UserEdit v' c)
    (rep : Rep s' v') : Tracked z s' b := by
  refine tracks.next (tracks.editUser edit rep) (fun e' => ?_) (by rw [edit.globals])
    (by rw [edit.globals]) (tracks.records.congr (fun e' p => ?_) (by rw [edit.globals]))
    (edit.page _ id)
  · rcases eq_or_ne e' c with rfl | ne
    · exact edit.dir
    · exact edit.place _ ne
  · rw [View.entry, edit.page _ id, View.entry]

theorem Tracks.readPage (tracks : Tracks z s b v) (lt : va < userTop)
    (running : s.globals.curenv ≠ none) : (FileCall.read e va).Keeps z s b := by
  obtain ⟨c, curenv⟩ := Option.ne_none_iff_exists'.mp running
  rw [tracks.rep.globals] at curenv
  have counted := tracks.counted (e := e) (g := Env.countIn) (fun _ => rfl) (fun _ => rfl)
    (fun _ => rfl) fun _ => rfl
  apply pfReadEnvPage_wp tracks.rep (tracks.diskLinked e) curenv (tracks.linked c)
    (tracks.current c curenv) (userVa_of_lt lt)
  · intro s₁ _ _ rep₁
    exact counted.userEdit (View.UserEdit.readIn ..) rep₁
  · intro s₁ _ rep₁
    exact counted.self rep₁
  · rintro _ _ _ _ message ⟨⟩

/-! ### Address spaces -/

theorem Tracks.newSpace {size second : Nat} (tracks : Tracks z s b v)
    (noDir : (s.globals.envs e).envPageDirectory = none)
    (noDisk : (s.globals.envs e).diskEnvPgdir = none) :
    (FileCall.newSpace e size second).Keeps z s b := by
  rw [tracks.rep.globals] at noDir noDisk
  have absent : v.place (.pageDir e) = none := (tracks.linked e).symm.trans noDir
  have absent' : v.place (.diskDir e) = none := (tracks.diskLinked e).dir.symm.trans noDisk
  simp only [FileCall.Keeps, FileCall.prog, wp_bind]
  apply newSpace_wp tracks.toSound absent absent' (Or.inr ?_)
  · intro f rest s₁ L _ _ sound₁
    refine ⟨_, { sound₁ with current := fun c curenv => ?_, records := ?_, zero := ?_ }⟩
    · have current := tracks.current c curenv
      have ne : c ≠ e := by
        rintro rfl
        rw [View.Current, absent] at current
        cases current
      simpa [View.Current, View.newSpace, View.setEnv, Globals.setEnv, ne] using current
    · refine tracks.records.congr (fun e' p => ?_) rfl
      simp [View.entry, View.newSpace, View.setEnv]
    · simpa [View.newSpace, View.setEnv] using tracks.zero
  · intro _ message _
    exact ⟨v, tracks⟩
  · rintro _ message ⟨⟩

theorem Tracks.dir (tracks : Tracks z s b v) (live : (s.globals.envs e).envPageDirectory ≠ none) :
    ∃ d, v.place (.pageDir e) = some d := by
  rw [tracks.rep.globals, tracks.linked e] at live
  exact Option.ne_none_iff_exists'.mp live

theorem Tracks.run (tracks : Tracks z s b v) (live : (s.globals.envs e).envPageDirectory ≠ none) :
    (FileCall.run e).Keeps z s b := by
  obtain ⟨d, dir⟩ := tracks.dir live
  simp only [FileCall.Keeps, FileCall.prog, wp_bind]
  apply envRun_wp tracks.rep
  · intro _
    exact ⟨v, tracks⟩
  · intro s₁ _ rep₁
    refine ⟨_, { tracks.runs rep₁ with
      current := fun c curenv => ?_
      records := tracks.records.congr (fun _ _ => rfl) rfl
      zero := tracks.zero }⟩
    obtain rfl : e = c := Option.some.inj curenv
    exact tracks.current_runs dir

theorem Tracks.map {perm : Word} (tracks : Tracks z s b v) (lt : va < userTop)
    (isPerm : IsPerm perm)
    (live : (s.globals.envs e).envPageDirectory ≠ none) : (FileCall.map e va perm).Keeps z s b := by
  obtain ⟨d, dir⟩ := tracks.dir live
  simp only [FileCall.Keeps, FileCall.prog, wp_bind]
  apply mapNew_wp tracks.toSound dir (userVa_of_lt lt) (isPerm.or (by decide))
  · intro f rest s₁ p _ sound₁
    exact tracks.userEdit (View.UserEdit.mapNew ..) sound₁.rep
  · rintro s₁ _ sound₁ (⟨rfl, -⟩ | ⟨f, rfl, -⟩) message _
    · exact tracks.self sound₁.rep
    · exact tracks.userEdit (View.UserEdit.take v e f) sound₁.rep

theorem Tracks.unmap (tracks : Tracks z s b v) (lt : va < userTop)
    (live : (s.globals.envs e).envPageDirectory ≠ none) : (FileCall.unmap e va).Keeps z s b := by
  obtain ⟨d, dir⟩ := tracks.dir live
  simp only [FileCall.Keeps, FileCall.prog, wp_bind]
  apply envPageDirectory_wp tracks.rep (tracks.linked e) dir
  apply unmapFrame_wp tracks.rep dir (userVa_of_lt lt)
  intro s₁ rep₁
  exact tracks.userEdit (View.UserEdit.unmap v e va) rep₁

/-- Every call keeps the book. -/
theorem Tracked.step (call : FileCall) (tracked : Tracked z s b) (legal : call.Legal s) :
    call.Keeps z s b := by
  obtain ⟨v, tracks⟩ := tracked
  cases call with
  | add e va data => exact tracks.add legal
  | addEmpty e va initializeByZero => exact tracks.addEmpty legal
  | update e va f => exact tracks.update legal.1 legal.2
  | read e va => exact tracks.readPage legal.1 legal.2
  | remove e va => exact tracks.remove
  | free e => exact tracks.free
  | newSpace e size second => exact tracks.newSpace legal.1 legal.2
  | run e => exact tracks.run legal
  | map e va perm => exact tracks.map legal.1 legal.2.1 legal.2.2
  | unmap e va => exact tracks.unmap legal.1 legal.2

theorem Machine.tracked_boot (m : Machine) :
    Tracked (clearPage (m.mem zeroPage)) m.boot fun _ _ => none := by
  refine ⟨m.bootView, { m.sound_boot with
    current := fun c curenv => by cases curenv
    records := ⟨fun e p => ?_, fun e p d here => by cases here⟩
    zero := rfl }⟩
  refine iff_of_true rfl ?_
  rw [View.entry, m.page_bootView (by simp) (by simp)]
  rfl

/-- The book is right in every state that a run reaches. -/
theorem FileReach.tracked {m : Machine} (reach : FileReach m s b) :
    Tracked (Machine.clearPage (m.mem zeroPage)) s b := by
  induction reach with
  | boot => exact m.tracked_boot
  | returns call _ legal run ih =>
    have kept := ih.step call legal
    rw [FileCall.Keeps, wp_ok run] at kept
    exact kept
  | panics call _ legal run ih =>
    have kept := ih.step call legal
    rw [FileCall.Keeps, wp_error run] at kept
    exact kept _ rfl

end Fos
