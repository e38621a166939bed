import Fos.PageFile.Conservation

/-!
# Reading a page gives what was stored last

* `Reaches`: the frame that an access to an address leads to;
* `FileReach.read`: after any calls, `pf_read_env_page` finds the pages of the book with
  their contents, and no others.
-/

namespace Fos

open Arena Linked Exec

variable {s : Kernel} {v : View} {b : Book} {z : Page} {e va c f : Nat}

/-- A kernel write to `va` goes to the frame `f`. -/
def Reaches (s : Kernel) (va f : Nat) : Prop := ∃ s', translate va false true s = .ok (some f) s'

/-- The page is mapped in the address space of the current environment. -/
theorem Tracks.reaches (tracks : Tracks z s b v) (lt : va < userTop)
    (curenv : v.globals.curenv = some c) (reaches : Reaches s va f) :
    Allows (v.pte c va) false true ∧ v.place (userPageAt c va) = some f := by
  obtain ⟨s', run⟩ := reaches
  have ends := translate_wp (Q := fun r _ => ∀ f, r = some f → Allows (v.pte c va) false true ∧
      v.place (userPageAt c va) = some f) (E := fun _ _ => True) false true
    tracks.rep (tracks.current c curenv) (userVa_of_lt lt)
    (fun g _ allowed page _ f eq => ⟨allowed, Option.some.inj eq ▸ page⟩)
    (fun _ f eq => by cases eq)
  exact (wp_ok run).mp ends f rfl

/-- The page that was read in lies in the frame. -/
theorem Rep.readIn_mem {p : Page} (rep : Rep s (v.readIn c va p))
    (place : v.place (userPageAt c va) = some f) : s.mem f = p := by
  have here : (v.readIn c va p).place (userPageAt c va) = some f := place
  rw [rep.mem here]
  simp [View.readIn, View.setPte]

theorem userPageAt_roundDown (c va : Nat) : userPageAt c (roundDown va) = userPageAt c va := by
  rw [userPageAt, pdx_roundDown, ptx_roundDown]

/-- What a read does, for a page that an access reaches. -/
theorem Tracks.read_ends (tracks : Tracks z s b v) (lt : va < userTop)
    (curenv : v.globals.curenv = some c) (reaches : Reaches s va f) :
    wp (pfReadEnvPage e va) (fun r s' =>
      r = ePageNotExistInPF ∧ b e (pageNo va) = none ∨
      r = 0 ∧ ∃ content, b e (pageNo va) = some content ∧
        ∀ data, content = some data → s'.mem f = data) (fun _ _ => False) s := by
  obtain ⟨allowed, place⟩ := tracks.reaches lt curenv reaches
  apply pfReadEnvPage_wp tracks.rep (tracks.diskLinked e) curenv (tracks.linked c)
    (tracks.current c curenv) (userVa_of_lt lt)
  · intro s₁ page _ rep₁
    obtain ⟨content, here⟩ := Option.ne_none_iff_exists'.mp fun none =>
      page ((tracks.records.pages e (pageNo va)).mp none)
    refine Or.inr ⟨rfl, content, here, fun data eq => ?_⟩
    have place' : (v.setEnv e Env.countIn).place (userPageAt c (roundDown va)) = some f := by
      rw [userPageAt_roundDown]
      exact place
    rw [rep₁.readIn_mem place']
    exact tracks.records.content e (pageNo va) data (eq ▸ here)
  · intro s₁ zero _
    exact Or.inl ⟨rfl, (tracks.records.pages e (pageNo va)).mpr zero⟩
  · intro s₁ _ denied _
    exact denied allowed

/-- **Reads see the last write, and environments are isolated.**  In every state that
operations on the page file lead to, `pf_read_env_page(e, va)` returns
`E_PAGE_NOT_EXIST_IN_PF` exactly if the page was never added, or was removed; and else 0,
with the page that was stored last at `va`. -/
theorem FileReach.read {m : Machine} (reach : FileReach m s b) (lt : va < userTop)
    (running : s.globals.curenv ≠ none) (reaches : Reaches s va f) :
    ((∃ s', pfReadEnvPage e va s = .ok ePageNotExistInPF s') ↔ b e (pageNo va) = none) ∧
      ∀ content, b e (pageNo va) = some content →
        ∃ s', pfReadEnvPage e va s = .ok 0 s' ∧ ∀ data, content = some data → s'.mem f = data := by
  obtain ⟨v, tracks⟩ := reach.tracked
  obtain ⟨c, curenv⟩ := Option.ne_none_iff_exists'.mp running
  have ends := tracks.read_ends (e := e) lt (tracks.rep.globals ▸ curenv) reaches
  rw [wp] at ends
  cases run : pfReadEnvPage e va s with
  | error x s' =>
    rw [run] at ends
    exact ends.elim
  | ok r s' =>
    rw [run] at ends
    rcases ends with ⟨rfl, absent⟩ | ⟨rfl, content, here, stored⟩
    · refine ⟨iff_of_true ⟨s', rfl⟩ absent, fun content here => ?_⟩
      rw [absent] at here
      cases here
    · refine ⟨iff_of_false (fun h => ?_) (by simp [here]), fun content' here' => ?_⟩
      · obtain ⟨_, eq⟩ := h
        injection eq with code _
        exact absurd code (by decide)
      · obtain rfl : content = content' := Option.some.inj (here.symm.trans here')
        exact ⟨s', rfl, stored⟩

/-- The page table entry of a page that was just mapped. -/
theorem View.mapNew_pte {w : Word} {p : Page} : (v.mapNew e va f w p).pte e va = w := by
  simp [View.pte, View.mapNew, View.mapPage, View.setPte]

theorem allows_mapped (f : Nat) : Allows (constructEntry (toPhysicalAddress f)
    (permUser ||| permWriteable ||| permPresent)) false true := by
  have bits : ∀ k < 12, (constructEntry (toPhysicalAddress f)
      (permUser ||| permWriteable ||| permPresent)).getLsbD k =
        (permUser ||| permWriteable ||| permPresent).getLsbD k :=
    fun k lt => getLsbD_constructEntry f _ lt
  exact ⟨(bits 0 (by decide)).trans (by decide),
    fun _ => (bits 1 (by decide)).trans (by decide), nofun⟩

/-- The environment `e` runs, and `n` frames are free. -/
structure Ready (s : Kernel) (v : View) (e n : Nat) : Prop extends Sound s v where
  room : n ≤ v.free.length
  dir : v.place (.pageDir e) ≠ none
  runs : v.Current e
  running : v.globals.curenv = some e

theorem Ready.live {n : Nat} (ready : Ready s v e n) :
    (s.globals.envs e).envPageDirectory ≠ none := by
  rw [ready.rep.globals, ready.linked e]
  exact ready.dir

/-- Two frames are enough to map a page. -/
theorem Ready.maps {n : Nat} (ready : Ready s v e (n + 2)) (lt : va < userTop) :
    ∃ r s', (FileCall.map e va (permUser ||| permWriteable)).prog s = .ok r s' ∧
      (∃ f, Reaches s' va f) ∧ ∃ v', Ready s' v' e n := by
  obtain ⟨d, dir⟩ := Option.ne_none_iff_exists'.mp ready.dir
  have room := ready.room
  have mapped : ∃ r s', (FileCall.map e va (permUser ||| permWriteable)).prog s = .ok r s' ∧
      ∃ v' f, Ready s' v' e n ∧ Allows (v'.pte e va) false true ∧
        v'.place (userPageAt e va) = some f := by
    apply wp_returns
    simp only [FileCall.prog, wp_bind]
    apply mapNew_wp ready.toSound dir (userVa_of_lt lt) (by decide)
    · intro f rest s₁ p free sound₁
      have edit := View.UserEdit.mapNew v e va f (constructEntry (toPhysicalAddress f)
        (permUser ||| permWriteable ||| permPresent)) p
      refine ⟨_, f, { sound₁ with
        room := ?_
        dir := edit.dir ▸ ready.dir
        runs := by
          rw [View.Current, edit.dir, edit.globals]
          exact ready.runs
        running := edit.globals ▸ ready.running }, ?_, ?_⟩
      · have length := View.length_mapNew v e va f (constructEntry (toPhysicalAddress f)
          (permUser ||| permWriteable ||| permPresent)) p
        omega
      · rw [View.mapNew_pte]
        exact allows_mapped f
      · simp [View.mapNew, View.mapPage]
    · rintro s₁ _ _ (⟨-, none⟩ | ⟨f, -, one⟩)
      · simp [none] at room
      · simp [one] at room
  obtain ⟨r, s₁, run, v₁, f, ready₁, allowed, place⟩ := mapped
  obtain ⟨_, s₂, run₂, rfl⟩ := wp_returns (translate_wp false true
    (Q := fun r _ => r = some f) (E := fun _ _ => False) ready₁.rep ready₁.runs
    (userVa_of_lt lt) (fun g s' _ page _ => page.symm.trans place) fun denied =>
      absurd allowed denied)
  exact ⟨r, s₁, run, ⟨f, s₂, run₂⟩, v₁, ready₁⟩

/-- Two frames and a disk frame are enough to add a page. -/
theorem Ready.adds {n : Nat} (ready : Ready s v e (n + 2)) (diskRoom : v.diskFree ≠ [])
    (lt : va < userTop) (data : Page) :
    ∃ s', pfAddEnvPage e va data s = .ok 0 s' ∧ ∃ v', Ready s' v' e n := by
  have room := ready.room
  have user := userVa_of_lt lt
  have cut := View.length_withDiskDir v e
  have tables := View.length_withTables v e va
  have added : ∃ r s', pfAddEnvPage e va data s = .ok r s' ∧ r = 0 ∧
      Sound s' ((v.addPage e va).storePage e va data) := by
    apply wp_returns
    apply pfAddEnvPage_wp ready.rep (ready.diskLinked e) ready.pageFile.toSharedOut
      (lt_kernelBase lt)
    · exact fun s₁ rep₁ page => ⟨rfl, ready.toSound.storeAdded user rep₁⟩
    · exact fun s₁ _ _ full => absurd full diskRoom
    · rintro s₁ v₁ _ (rfl | rfl) none _
      · simp [none] at room
      · rw [none, List.length_nil] at cut
        omega
  obtain ⟨_, s₁, run, rfl, sound₁⟩ := added
  have globals := View.addPage_globals v e va
  have dirs : (v.addPage e va).place (.pageDir e) = v.place (.pageDir e) := by
    rw [View.addPage, View.assignDfn_place, View.withTables_place (by simp) (by simp)]
  refine ⟨s₁, run, _, { sound₁ with
    room := ?_, dir := dirs ▸ ready.dir, runs := ?_, running := globals.2.trans ready.running }⟩
  · show n ≤ (v.addPage e va).free.length
    rw [View.addPage, View.assignDfn_free]
    omega
  · show (v.addPage e va).place _ = some (ppn (v.addPage e va).globals.cr3)
    rw [dirs, globals.1]
    exact ready.runs

/-- An environment is created and run. -/
theorem Machine.ready (m : Machine) :
    ∃ s v, FileReach m s (fun _ _ => none) ∧ Ready s v 0 156 ∧ v.diskFree ≠ [] := by
  have sound := m.sound_boot
  have absent : m.bootView.place (.pageDir 0) = none := m.place_bootView (by simp) (by simp)
  have noDisk : m.bootView.place (.diskDir 0) = none := m.place_bootView (by simp) (by simp)
  have room := m.free_bootView
  obtain ⟨r₁, s₁, run₁, v₁, d, sound₁, room₁, disk₁, dir₁, idle₁⟩ : ∃ r s',
      (FileCall.newSpace 0 1 0).prog m.boot = .ok r s' ∧ ∃ v' d, Sound s' v' ∧
        156 ≤ v'.free.length ∧ v'.diskFree = m.bootView.diskFree ∧
        v'.place (.pageDir 0) = some d ∧ v'.globals.curenv = none := by
    apply wp_returns
    simp only [FileCall.prog, wp_bind]
    apply newSpace_wp sound absent noDisk (Or.inl (by decide))
    · intro f rest s' L free _ sound'
      rw [free] at room
      refine ⟨_, f, sound', ?_, rfl, by simp [View.newSpace, View.setEnv], rfl⟩
      simpa [View.newSpace, View.setEnv, free] using Nat.le_of_succ_le_succ room
    · intro none
      simp [none] at room
  obtain ⟨r₂, s₂, run₂, sound₂⟩ : ∃ r s', (FileCall.run 0).prog s₁ = .ok r s' ∧
      Sound s' (v₁.runs 0) := by
    apply wp_returns
    simp only [FileCall.prog, wp_bind]
    apply envRun_wp sound₁.rep
    · intro running
      rw [idle₁] at running
      cases running
    · intro s' _ rep'
      exact sound₁.runs rep'
  have live : (s₁.globals.envs 0).envPageDirectory ≠ none := by
    rw [sound₁.rep.globals, sound₁.linked 0, dir₁]
    simp
  have reach := (FileReach.boot.returns (.newSpace 0 1 0) ⟨?_, ?_⟩ run₁).returns (.run 0) live run₂
  · refine ⟨s₂, _, reach, { sound₂ with
      room := room₁
      dir := fun none => ?_
      runs := sound₁.current_runs dir₁
      running := rfl }, fun none => ?_⟩
    · exact absurd (dir₁.symm.trans none) (by simp)
    · have some : 1 ∈ v₁.diskFree :=
        disk₁ ▸ List.mem_reverse.mpr (mem_diskFrames.mpr ⟨by decide, by decide⟩)
      have none' : v₁.diskFree = [] := none
      rw [none'] at some
      cases some
  all_goals
    rw [sound.rep.globals]
    rfl

/-- Two environments store pages at `0x900000`, and 1 replaces the contents of its page by those of
its next page, which are read into the frame 1020 first; then the next page is removed. -/
abbrev replaceCalls : List FileCall :=
  [.newSpace 0 1 0, .run 0, .map 0 0x900000 (permUser ||| permWriteable),
    .map 0 0x901000 (permUser ||| permWriteable), .add 1 0x900000 fun _ => 5,
    .add 1 0x901000 fun _ => 6, .read 1 0x901000, .update 1 0x900000 1020,
    .add 2 0x900000 fun _ => 7, .remove 1 0x901000]

/-- The frame that a kernel write to `va` goes to. -/
def Kernel.reached (s : Kernel) (va : Nat) : Option Nat :=
  match translate va false true s with
  | .ok f _ => f
  | .error _ _ => none

theorem Kernel.reaches_of_reached (reached : s.reached va = some f) : Reaches s va f := by
  unfold Kernel.reached at reached
  split at reached
  · rename_i f' s' run
    exact ⟨s', reached ▸ run⟩
  · cases reached

/-- The page that was stored last is read back, and the one that was removed is not found. -/
theorem read_replaced : ∃ s b n s' s'',
    bootKernel.calls 1 (fun _ _ => none) 0 replaceCalls = some (s, b, n) ∧
      pfReadEnvPage 1 0x900000 s = .ok 0 s' ∧ s'.mem 1022 3 = 6 ∧
      pfReadEnvPage 1 0x901000 s = .ok ePageNotExistInPF s'' := by
  have ends : (bootKernel.calls 1 (fun _ _ => none) 0 replaceCalls).any (fun r =>
      r.1.globals.curenv ≠ none ∧ r.1.reached 0x900000 = some 1022 ∧
        r.1.reached 0x901000 = some 1020 ∧ r.2.1 1 (pageNo 0x901000) = none ∧
        ((r.2.1 1 (pageNo 0x900000)).join.map fun data => data 3) = some 6) = true := by
    decide +kernel
  obtain ⟨⟨s, b, n⟩, run, ends⟩ := (Option.any_eq_true _ _).mp ends
  obtain ⟨running, reached, reached', removed, stored⟩ : s.globals.curenv ≠ none ∧
    s.reached 0x900000 = some 1022 ∧ s.reached 0x901000 = some 1020 ∧
    b 1 (pageNo 0x901000) = none ∧
    ((b 1 (pageNo 0x900000)).join.map fun data => data 3) = some 6 := of_decide_eq_true ends
  obtain ⟨data, here, six⟩ := Option.map_eq_some_iff.mp stored
  obtain ⟨reach, -⟩ := FileReach.calls_boot run
  obtain ⟨s', read, content⟩ := (reach.read (by decide) running
    (Kernel.reaches_of_reached reached)).2 _ (Option.join_eq_some_iff.mp here)
  obtain ⟨s'', gone⟩ := (reach.read (by decide) running
    (Kernel.reaches_of_reached reached')).1.mpr removed
  refine ⟨s, b, n, s', s'', run, read, ?_, gone⟩
  rw [content data rfl]
  exact six

end Fos
