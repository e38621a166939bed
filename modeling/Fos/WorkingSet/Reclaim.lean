import Fos.WorkingSet.Release
import Fos.WorkingSet.Termination

/-!
# The page tables that `freeMem` frees

* `View.Reclaims`: the unused tables among some have been freed, and no others;
* `Space.freeEmptyTable_wp`, `Space.freeEmptyTables_wp`: the last loop does that to the tables
  that it comes to, `Visited`;
* `Resident.freeMem_wp`: the whole function;
* `Resident.removes`, `Resident.reclaims_iff`: what is gone after it.
-/

namespace Fos

open Arena Exec Linked

variable {s s' : Kernel} {v v' v'' : View} {e va endVa size t : Nat} {env₀ : Env}
  {w w' : WorkingSet} {i : Fin 1024} {I I' : Fin 1024 → Prop} {E : Stop → Kernel → Prop}

/-- No entry of the table `i` is used. -/
def View.Unused (v : View) (e : Nat) (i : Fin 1024) : Prop := ∀ j, v.ptes e (i, j) = 0

/-- The table `i` goes, and the frame `t` that it lies in. -/
def View.dropTable (v : View) (e : Nat) (i : Fin 1024) (t : Nat) : View :=
  ((v.write (.pageDir e) i 0).drop (.pageTable e i) t).give t

/-- Those of the page tables `I` of `e` that are not used have been freed, and no others; the
pages and the other environments are as they were. -/
structure View.Reclaims (v v' : View) (e : Nat) (I : Fin 1024 → Prop) : Prop where
  dir : v'.place (.pageDir e) = v.place (.pageDir e)
  ptes : v'.ptes e = v.ptes e
  entry : v'.entry e = v.entry e
  kept : ∀ i, (I i → ¬ v.Unused e i) → v'.place (.pageTable e i) = v.place (.pageTable e i)
  gone : ∀ i, I i → v.Unused e i → v'.place (.pageTable e i) = none
  freed : ∀ i, I i → v.Unused e i → ∀ t, v.place (.pageTable e i) = some t → t ∈ v'.free
  free : ∀ f ∈ v.free, f ∈ v'.free
  memory : v'.memory e = v.memory e
  stored : v'.stored e = v.stored e
  globals : v'.globals = v.globals
  spares : v.Spares v' e

theorem View.Unused.congr (unused : v.Unused e i) (ptes : v'.ptes e = v.ptes e) :
    v'.Unused e i := by
  rw [View.Unused, ptes]
  exact unused

namespace View.Reclaims

theorem none (v : View) (e : Nat) : v.Reclaims v e fun _ => False :=
  ⟨rfl, rfl, rfl, fun _ _ => rfl, fun _ => False.elim, fun _ => False.elim, fun _ h => h, rfl, rfl,
    rfl, .refl v e⟩

theorem trans (first : v.Reclaims v' e I) (second : v'.Reclaims v'' e I') :
    v.Reclaims v'' e fun i => I i ∨ I' i where
  dir := second.dir.trans first.dir
  ptes := second.ptes.trans first.ptes
  entry := second.entry.trans first.entry
  kept i used := by
    have used' : I' i → ¬ v'.Unused e i := fun mem unused =>
      used (Or.inr mem) (unused.congr first.ptes.symm)
    rw [second.kept i used', first.kept i fun mem => used (Or.inl mem)]
  gone i mem unused := by
    by_cases later : I' i
    · exact second.gone i later (unused.congr first.ptes)
    · rw [second.kept i fun mem => absurd mem later]
      exact first.gone i (mem.resolve_right later) unused
  freed i mem unused t table := by
    by_cases earlier : I i
    · exact second.free t (first.freed i earlier unused t table)
    · refine second.freed i (mem.resolve_left earlier) (unused.congr first.ptes) t ?_
      rwa [first.kept i fun mem => absurd mem earlier]
  free f mem := second.free f (first.free f mem)
  memory := second.memory.trans first.memory
  stored := second.stored.trans first.stored
  globals := second.globals.trans first.globals
  spares := first.spares.trans second.spares

theorem congr (reclaims : v.Reclaims v' e I) (same : ∀ i, I i ↔ I' i) : v.Reclaims v' e I' := by
  have eq : I = I' := funext fun i => propext (same i)
  exact eq ▸ reclaims

/-- A table that is used, or is not there, stays so. -/
theorem keep (used : v.Unused e i → v.place (.pageTable e i) = Option.none) :
    v.Reclaims v e (· = i) where
  dir := rfl
  ptes := rfl
  entry := rfl
  kept _ _ := rfl
  gone := by
    rintro _ rfl unused
    exact used unused
  freed := by
    rintro _ rfl unused t table
    rw [used unused] at table
    cases table
  free _ mem := mem
  memory := rfl
  stored := rfl
  globals := rfl
  spares := .refl v e

end View.Reclaims

theorem View.UserEdit.dropTable (v : View) (e : Nat) (i : Fin 1024) (t : Nat) :
    v.UserEdit (v.dropTable e i t) e := by
  refine ⟨fun o out => ?_, by simp [View.dropTable], fun o out => ?_, rfl, rfl⟩
  · have ne : o ≠ .pageTable e i := Obj.ne_of_not_userOf out rfl
    simp [View.dropTable, ne]
  · have ne : o ≠ .pageTable e i := Obj.ne_of_not_userOf out rfl
    have ne' : o ≠ .pageDir e := Obj.ne_of_not_userOf out rfl
    simp [View.dropTable, ne, ne']

/-- A table that is not used goes. -/
theorem Rep.reclaims_dropTable (rep : Rep s v) (unused : v.Unused e i)
    (table : v.place (.pageTable e i) = some t) :
    v.Reclaims (v.dropTable e i t) e (· = i) where
  dir := by simp [View.dropTable]
  ptes := by
    funext p
    rcases eq_or_ne p.1 i with eq | ne
    · have zero : v.ptes e p = 0 := by
        rw [← Prod.mk.eta (p := p), eq]
        exact unused p.2
      rw [zero]
      simp [View.ptes, View.dropTable, eq, zeroes]
    · simp [View.ptes, View.dropTable, ne]
  entry := by
    funext p
    simp [View.entry, View.dropTable]
  kept i' used := by
    have ne : i' ≠ i := by
      rintro rfl
      exact used rfl unused
    simp [View.dropTable, ne]
  gone i' here _ := by
    subst here
    simp [View.dropTable]
  freed i' here _ t' table' := by
    subst here
    obtain rfl : t = t' := Option.some.inj (table.symm.trans table')
    simp [View.dropTable]
  free f mem := by simp [View.dropTable, mem]
  memory := View.memory_congr (fun _ _ => by simp [View.dropTable]) fun _ _ => by
    simp [View.dropTable]
  stored := (View.UserEdit.dropTable v e i t).stored
  globals := rfl
  spares := by
    refine (View.UserEdit.dropTable v e i t).spares ?_ fun low i' ge => ?_
    rotate_left
    · rcases eq_or_ne i' i with rfl | ne
      · simp [View.dropTable]
      · simpa [View.dropTable, ne] using low i' ge
    have use : (v.dropTable e i t).use = Function.update v.use t .free := by simp [View.dropTable]
    rw [use]
    exact use_update (rep.used_place table) (Or.inl rfl)

/-! ## The last loop -/

theorem Space.freeEmptyTable_wp {Q : Unit → Kernel → Prop} (space : Space e env₀ s v w)
    (user : UserVa va)
    (done : ∀ s' v', Space e env₀ s' v' w → v.Reclaims v' e (· = pdx va) → Q () s') :
    wp (freeEmptyTable e va) Q E s := by
  have rep := space.rep
  obtain ⟨d, dir⟩ := space.dir
  apply space.quiet (quiet_freeEmptyTable e e va) (F := fun _ _ => False) (P := fun _ s' =>
    ∃ v', Sound s' v' ∧ v.Reclaims v' e (· = pdx va))
  · simp only [freeEmptyTable, wp_bind]
    apply Fos.envPageDirectory_wp rep (space.linked e) dir
    apply getPageTable_wp rep dir user
    cases table : v.place (.pageTable e (pdx va)) with
    | none => exact ⟨v, space.toSound, View.Reclaims.keep fun _ => table⟩
    | some t =>
      simp only [wp_bind, wp_get, wp_ite]
      split
      · rename_i all
        have unused : v.Unused e (pdx va) := fun j => by
          have zero := List.all_eq_true.mp all j (mem_tableEntries j)
          rw [decide_eq_true_eq, rep.mem table] at zero
          exact zero
        have child := Obj.child_pageDir (e := e) user
        have entry : v.page (.pageDir e) (pdx va) ≠ 0 := fun zero => by
          rw [(rep.place_none child).mpr zero] at table
          cases table
        have frame : frameOf (v.page (.pageDir e) (pdx va)) = t := by
          rw [rep.place_child child entry] at table
          exact Option.some.inj table
        have page : ppn (frameOf (s.mem d (pdx va)) * pageSize) = t := by
          rw [rep.mem dir, frame]
          exact Nat.mul_div_cancel _ (by decide)
        rw [wp_readWord]
        apply toFrameInfo_wp
        · rw [page, rep.globals]
          exact rep.place_lt table
        · have lost := rep.unlink child dir table fun j _ _ => unused j
          have given := lost.give (f := t) (Or.inr (Function.update_self ..))
          have linked : (s.globals.envs e).envPageDirectory = some d := by
            rw [rep.globals, space.linked e, dir]
          rw [page]
          have cleared : wp (pdClearPageDirEntry e va) (fun _ s' => ∃ v', Sound s' v' ∧
              v.Reclaims v' e (· = pdx va)) (fun _ _ => False)
                ((s.initializeFrameInfo t).insertFrame t) := by
            have here :
                (((s.initializeFrameInfo t).insertFrame t).globals.envs e).envPageDirectory =
                some d := linked
            simp only [pdClearPageDirEntry, envPageDirectory, wp_bind, wp_getEnv, here,
              wp_deref_some, wp_writeWord]
            exact ⟨_, space.toSound.editUser (View.UserEdit.dropTable v e (pdx va) t) given,
              rep.reclaims_dropTable unused table⟩
          simpa only [freeFrame, wp_bind, wp_modify] using cleared
      · rename_i used
        refine ⟨v, space.toSound, View.Reclaims.keep fun unused => absurd ?_ used⟩
        rw [List.all_eq_true]
        intro j _
        rw [decide_eq_true_eq, rep.mem table]
        exact unused j
  · rintro _ s' ⟨v', sound, reclaims⟩ listed
    exact done s' v' ⟨sound, ⟨d, reclaims.dir.trans dir⟩, listed⟩ reclaims
  · exact fun _ _ => False.elim

/-- The page tables that the loop comes to from the address `va`. -/
def Visited (va endVa : Nat) (i : Fin 1024) : Prop := ∃ k, va + k * ptSize ≤ endVa ∧
  pdx (va + k * ptSize) = i

theorem visited_step (le : va ≤ endVa) :
    (i = pdx va ∨ Visited (va + ptSize) endVa i) ↔ Visited va endVa i := by
  have shift : ∀ k, va + ptSize + k * ptSize = va + (k + 1) * ptSize := fun k => by
    rw [Nat.add_mul, Nat.one_mul]
    omega
  constructor
  · rintro (rfl | ⟨k, inside, rfl⟩)
    · exact ⟨0, by simpa using le, by simp⟩
    · exact ⟨k + 1, by rwa [← shift], by rw [shift]⟩
  · rintro ⟨k, inside, rfl⟩
    cases k with
    | zero => exact Or.inl (by simp)
    | succ k => exact Or.inr ⟨k, by rwa [shift], by rw [shift]⟩

theorem userVa_of_le (le : va ≤ userHeapMax) : UserVa va := by
  simp only [UserVa, Fin.lt_def, pdx, ptSize, userHeapMax] at *
  have small := Nat.mod_eq_of_lt (show va / 4194304 < 1024 by omega)
  simp [small]
  omega

/-- The last loop. -/
theorem Space.freeEmptyTables_wp {Q : Unit → Kernel → Prop} (passes : Nat)
    (space : Space e env₀ s v w) (heap : endVa ≤ userHeapMax) (near : va ≤ endVa + ptSize)
    (enough : endVa + ptSize < va + passes * ptSize)
    (done : ∀ s' v', Space e env₀ s' v' w → v.Reclaims v' e (Visited va endVa) → Q () s') :
    wp (freeEmptyTables e endVa passes va) Q E s := by
  induction passes generalizing va s v with
  | zero =>
    rw [Nat.zero_mul] at enough
    exact absurd enough (Nat.not_lt_of_le near)
  | succ passes ih =>
    simp only [freeEmptyTables, wp_ite, wp_bind]
    split
    · rename_i le
      have wraps : (va + ptSize) % word32 = va + ptSize := by
        apply Nat.mod_eq_of_lt
        simp only [ptSize, userHeapMax, word32] at *
        omega
      apply space.freeEmptyTable_wp (userVa_of_le (le.trans heap))
      intro s₁ v₁ space₁ first
      rw [wraps]
      apply ih space₁ (Nat.add_le_add_right le ptSize)
      · rw [Nat.add_mul, Nat.one_mul] at enough
        omega
      · intro s' v' space' second
        exact done s' v' space' ((first.trans second).congr fun i => visited_step le)
    · rename_i past
      refine done s v space ((View.Reclaims.none v e).congr fun i => iff_of_false id ?_)
      rintro ⟨k, inside, -⟩
      exact past ((Nat.le_add_right va _).trans inside)

/-! ## The whole function -/

/-- The pages that are left are as they were, and so are the other environments. -/
structure View.Remains (v v' : View) (e : Nat) : Prop where
  memory : ∀ p, v'.memory e p ≠ none →
    v'.memory e p = v.memory e p ∧ modified (v'.ptes e p) = modified (v.ptes e p)
  stored : ∀ p, v'.stored e p ≠ none → v'.stored e p = v.stored e p
  curenv : v'.globals.curenv = v.globals.curenv
  cr3 : v'.globals.cr3 = v.globals.cr3
  envsAddress : v'.globals.envsAddress = v.globals.envsAddress
  spares : v.Spares v' e

/-- The pages that are freed. -/
theorem mem_freedPages {p : Nat} (aligned : Aligned va) (heap : va + size ≤ userHeapMax) :
    p ∈ freedPages va size ↔ Aligned p ∧ va ≤ p ∧ p < va + size := by
  have page := aligned.page
  rw [freedPages, List.mem_map]
  simp only [List.mem_range, roundUp, roundDown, pageSize, userHeapMax, word32] at *
  constructor
  · rintro ⟨i, lt, rfl⟩
    exact ⟨⟨by simp only [pageSize]; omega, by simp only [word32]; omega⟩, by omega, by omega⟩
  · rintro ⟨⟨page', -⟩, ge, lt⟩
    simp only [pageSize] at page'
    exact ⟨(p - va) / 4096, by omega, by omega⟩

/-- What `freeMem` does to a page table entry, the lists and the page file, and then to the
page tables. -/
theorem Resident.freed_wp {Q : Unit → Kernel → Prop} (resident : Resident e env₀ s v w)
    (heap : va + size ≤ userHeapMax)
    (done : ∀ s' (v₁ v' : View) w', Resident e env₀ s' v' w' →
      Gone env₀ (freedPages va size) (v.ptes e) (v'.ptes e) w w' →
      v'.entry e = cleared (v.entry e) (freedPages va size) →
      v'.place (.pageDir e) = v.place (.pageDir e) →
      (∀ i, v₁.place (.pageTable e i) = v.place (.pageTable e i)) →
      v₁.Reclaims v' e (Visited va (va + size)) → v.Remains v' e → w.Less w' → Q () s') :
    wp (freeMem e va size) Q E s := by
  have wraps : (va + size) % word32 = va + size :=
    Nat.mod_eq_of_lt (lt_of_le_of_lt heap (by decide))
  rw [freeMem, wp_bind, wraps]
  apply resident.shed.freePages_wp resident.mapped resident.full resident.pos
  rintro s₁ T₁ w₁ ⟨_, _, ⟨v₁, space₁, next, rfl, rfl⟩, memory, stored⟩ gone full less
  apply space₁.freeEmptyTables_wp 1025 heap
  · exact (Nat.le_add_right va size).trans (Nat.le_add_right _ _)
  · have small : va + size ≤ 0xA0000000 := heap
    show va + size + 4194304 < va + 1025 * 4194304
    omega
  · intro s' v' space' reclaims
    have ptes := reclaims.ptes.trans next.ptes
    rw [← ptes] at gone memory
    refine done s' v₁ v' w₁ ⟨space', gone.mapped, resident.pos, full⟩ gone
      (reclaims.entry.trans next.entry) (reclaims.dir.trans next.dir) (next.kept rfl) reclaims
      ⟨?_, ?_, ?_, ?_, ?_, next.spares.trans reclaims.spares⟩ less
    · rw [reclaims.memory]
      exact memory
    · rw [reclaims.stored]
      exact stored
    · rw [reclaims.globals, next.curenv]
    · rw [reclaims.globals, next.cr3]
    · rw [reclaims.globals, next.envsAddress]

theorem Resident.freeMem_wp {Q : Unit → Kernel → Prop} (resident : Resident e env₀ s v w)
    (heap : va + size ≤ userHeapMax)
    (done : ∀ s' (v₁ v' : View) w', Resident e env₀ s' v' w' →
      Gone env₀ (freedPages va size) (v.ptes e) (v'.ptes e) w w' →
      v'.entry e = cleared (v.entry e) (freedPages va size) →
      v'.place (.pageDir e) = v.place (.pageDir e) →
      (∀ i, v₁.place (.pageTable e i) = v.place (.pageTable e i)) →
      v₁.Reclaims v' e (Visited va (va + size)) → Q () s') :
    wp (freeMem e va size) Q E s :=
  resident.freed_wp heap fun s' v₁ v' w' resident' gone entry dir tables reclaims _ _ =>
    done s' v₁ v' w' resident' gone entry dir tables reclaims

theorem mem_map_pageNo {p : Nat} (aligned : Aligned va) (aligned' : Aligned p)
    (heap : va + size ≤ userHeapMax) :
    pageNo p ∈ (freedPages va size).map pageNo ↔ va ≤ p ∧ p < va + size := by
  rw [List.mem_map]
  constructor
  · rintro ⟨q, mem, eq⟩
    obtain ⟨aligned'', inside⟩ := (mem_freedPages aligned heap).mp mem
    obtain rfl := aligned''.pageNo_inj aligned' eq
    exact inside
  · exact fun inside => ⟨p, (mem_freedPages aligned heap).mpr ⟨aligned', inside⟩, rfl⟩

/-- **`freeMem` removes exactly the range**: its pages are in the page file, on the lists and
in the page tables no more, and nothing else of the other pages is different than whether
they are active. -/
theorem Resident.removes (resident : Resident e env₀ s v w) (aligned : Aligned va)
    (heap : va + size ≤ userHeapMax) :
    ∃ s' v' w', freeMem e va size s = .ok () s' ∧ Resident e env₀ s' v' w' ∧
      (∀ p, Aligned p → va ≤ p → p < va + size → v'.entry e (pageNo p) = 0 ∧
        p ∉ w'.addresses env₀ .activeList ∧ p ∉ w'.addresses env₀ .secondList ∧
        v'.ptes e (pageNo p) = 0) ∧
      (∀ p, Aligned p → ¬ (va ≤ p ∧ p < va + size) →
        v'.entry e (pageNo p) = v.entry e (pageNo p) ∧
        (p ∈ w'.queue env₀ ↔ p ∈ w.queue env₀) ∧
        frameOf (v'.ptes e (pageNo p)) = frameOf (v.ptes e (pageNo p))) ∧
      ∀ p, Aligned p → UserVa p →
        (present (v'.ptes e (pageNo p)) ↔ p ∈ w'.addresses env₀ .activeList) := by
  have ends : wp (freeMem e va size) (fun _ s' => ∃ v' w', Resident e env₀ s' v' w' ∧
      Gone env₀ (freedPages va size) (v.ptes e) (v'.ptes e) w w' ∧
      v'.entry e = cleared (v.entry e) (freedPages va size)) (fun _ _ => False) s :=
    resident.freeMem_wp heap fun s' v₁ v' w' resident' gone entry _ _ _ =>
      ⟨v', w', resident', gone, entry⟩
  obtain ⟨_, s', run, v', w', resident', gone, entry⟩ := wp_returns ends
  refine ⟨s', v', w', run, resident', fun p aligned' ge lt => ?_, fun p aligned' out => ?_,
    resident'.mapped.present⟩
  · have mem := (mem_freedPages aligned heap).mpr ⟨aligned', ge, lt⟩
    have none : p ∉ w'.queue env₀ := fun here => ((gone.queue p).mp here).2 mem
    have user := userVa_of_le (lt.le.trans heap)
    refine ⟨?_, fun here => none (List.mem_append_left _ here),
      fun here => none (List.mem_append_right _ here), ?_⟩
    · rw [entry, cleared, if_pos ((mem_map_pageNo aligned aligned' heap).mpr ⟨ge, lt⟩)]
    · by_contra some
      exact none ((resident'.mapped.entry p aligned' user).mp some)
  · have out' : p ∉ freedPages va size := fun mem =>
      out ((mem_freedPages aligned heap).mp mem).2
    refine ⟨?_, ?_, gone.frames p aligned' out'⟩
    · rw [entry, cleared, if_neg fun mem => out ((mem_map_pageNo aligned aligned' heap).mp mem)]
    · rw [gone.queue]
      exact and_iff_left out'

/-- A new environment allocates three pages of its heap, and they fault: the last two are active,
and the first one is on the second list. -/
theorem resident_heap : ∃ s s₁ s₂ env v w, startSpace 0 3 1 bootKernel = .ok () s ∧
    allocateMem 0 0x80000000 0x3000 s = .ok () s₁ ∧
    FaultRun 0 s₁ [0x80000000, 0x80001000, 0x80002000] s₂ ∧ Resident 0 env s₂ v w ∧
    w.addresses env .activeList = [0x80002000, 0x80001000] ∧
    w.addresses env .secondList = [0x80000000] ∧ v.entry 0 (pageNo 0x80002000) ≠ 0 := by
  obtain ⟨s, env, v, w, running, empty, size, -, -, -, started⟩ :=
    smallMachine.running_boot 0 3 1 (by decide) (by decide) (by decide)
  rw [boot_smallMachine] at started
  have ends : (after (startSpace 0 3 1) bootKernel).any (fun s =>
      (s.globals.envs 0).activeListSize = 2 ∧
      (after (allocateMem 0 0x80000000 0x3000) s).any fun s₁ =>
      (s₁.fault 0 0x80000000).any fun s₂ => (s₂.fault 0 0x80001000).any fun s₃ =>
      (s₃.fault 0 0x80002000).any fun s₄ => s₄.pageFileEntry 0 0x80002000 ≠ 0) = true := by
    decide +kernel
  rw [after_eq_some.mpr ⟨(), started⟩, Option.any_some] at ends
  obtain ⟨active, ends⟩ := of_decide_eq_true ends
  obtain ⟨s₁, allocated, ends⟩ := (Option.any_eq_true _ _).mp ends
  obtain ⟨s₂, fault₁, ends⟩ := (Option.any_eq_true _ _).mp ends
  obtain ⟨s₃, fault₂, ends⟩ := (Option.any_eq_true _ _).mp ends
  obtain ⟨s₄, fault₃, ends⟩ := (Option.any_eq_true _ _).mp ends
  have file := of_decide_eq_true ends
  obtain ⟨_, allocated⟩ := after_eq_some.mp allocated
  have faults : FaultRun 0 s₁ [0x80000000, 0x80001000, 0x80002000] s₄ :=
    ((FaultRun.start.next fault₁).next fault₂).next fault₃
  have heap : ∀ a ∈ rangeVas 0x80000000 0x3000, UserVa a ∧ a < kernelBase := by decide
  obtain ⟨v₁, underway₁, moved, -⟩ := (wp_ok allocated).mp
    (running.underway.allocateMem_wp heap)
  obtain ⟨env', v', w', running', sizes, queue⟩ :=
    (underway₁.runs moved running.all).faultRun faults
  rw [size, empty] at queue
  have queue' : w'.queue env' = [0x80002000, 0x80001000, 0x80000000] := queue.trans (by decide)
  have sized : env'.activeListSize = 2 :=
    sizes.active.trans (running.listed.activeSize.symm.trans active)
  have front : w'.addresses env' .activeList = [0x80002000, 0x80001000] := by
    rw [running'.active_eq, queue', sized]
    rfl
  refine ⟨s, s₁, s₄, env', v', w', started, allocated, faults, running'.toResident, front, ?_, ?_⟩
  · rw [WorkingSet.queue, front] at queue'
    exact List.append_cancel_left queue'
  · rwa [← running'.toSound.file.pageFileEntry]

/-- A page of the second list and an active one are freed, and their neighbour stays. -/
theorem removes_heap : ∃ s env v w s' v' w', Resident 0 env s v w ∧
    w.addresses env .activeList = [0x80002000, 0x80001000] ∧
    w.addresses env .secondList = [0x80000000] ∧ v.entry 0 (pageNo 0x80002000) ≠ 0 ∧
    freeMem 0 0x80000000 0x2000 s = .ok () s' ∧ Resident 0 env s' v' w' ∧
    (∀ p ∈ [0x80000000, 0x80001000], v'.entry 0 (pageNo p) = 0 ∧
      p ∉ w'.addresses env .activeList ∧ p ∉ w'.addresses env .secondList ∧
      v'.ptes 0 (pageNo p) = 0) ∧
    v'.entry 0 (pageNo 0x80002000) ≠ 0 ∧ 0x80002000 ∈ w'.queue env ∧
    frameOf (v'.ptes 0 (pageNo 0x80002000)) = frameOf (v.ptes 0 (pageNo 0x80002000)) := by
  obtain ⟨-, -, s, env, v, w, -, -, -, resident, active, second, file⟩ := resident_heap
  have aligned : Aligned 0x80000000 := ⟨by decide, by decide⟩
  have heap : 0x80000000 + 0x2000 ≤ userHeapMax := by decide
  obtain ⟨s', v', w', run, resident', inside, outside, -⟩ := resident.removes aligned heap
  obtain ⟨entry, queue, frame⟩ := outside 0x80002000 ⟨by decide, by decide⟩ (by decide)
  refine ⟨s, env, v, w, s', v', w', resident, active, second, file, run, resident', ?_, ?_, ?_,
    frame⟩
  · simp only [List.forall_mem_cons, List.not_mem_nil, false_implies, implies_true, and_true]
    exact ⟨inside 0x80000000 aligned (by decide) (by decide),
      inside 0x80001000 ⟨by decide, by decide⟩ (by decide) (by decide)⟩
  · rwa [entry]
  · rw [queue, WorkingSet.queue, active]
    simp

/-! ## The tables that are missed -/

/-- The steps of 4 MB from `va` pass over the last region of the range. -/
def PassesLast (va size : Nat) : Prop := size / ptSize < (va % ptSize + size - 1) / ptSize

instance (va size : Nat) : Decidable (PassesLast va size) := Nat.decLt ..

theorem pdx_eq_iff {a b : Nat} (lt : a ≤ userHeapMax) (lt' : b ≤ userHeapMax) :
    pdx a = pdx b ↔ a / ptSize = b / ptSize := by
  simp only [pdx, Fin.mk.injEq, ptSize, userHeapMax] at *
  omega

/-- The loop comes to every other region. -/
theorem visited_or_last {a : Nat} (heap : va + size ≤ userHeapMax) (ge : va ≤ a)
    (lt : a < va + size) :
    Visited va (va + size) (pdx a) ∨ PassesLast va size ∧ pdx a = pdx (va + size - 1) := by
  rw [pdx_eq_iff (by omega) (by omega), PassesLast, Visited]
  by_cases within : a / ptSize - va / ptSize ≤ size / ptSize
  · refine Or.inl ⟨a / ptSize - va / ptSize, ?_, ?_⟩
    · simp only [ptSize] at *
      omega
    · rw [pdx_eq_iff]
      all_goals
        simp only [ptSize] at *
        omega
  · simp only [ptSize] at *
    omega

theorem not_visited_last (heap : va + size ≤ userHeapMax) (passes : PassesLast va size) :
    ¬ Visited va (va + size) (pdx (va + size - 1)) := by
  rintro ⟨k, inside, same⟩
  rw [pdx_eq_iff (inside.trans heap) (by omega)] at same
  simp only [PassesLast, ptSize] at *
  omega

/-- The page tables after `freeMem`. -/
theorem Resident.freeMem_tables (resident : Resident e env₀ s v w) (aligned : Aligned va)
    (heap : va + size ≤ userHeapMax) :
    ∃ s' v' w', freeMem e va size s = .ok () s' ∧ Resident e env₀ s' v' w' ∧
      v'.place (.pageDir e) = v.place (.pageDir e) ∧
      (∀ i, Visited va (va + size) i → v'.Unused e i → v'.place (.pageTable e i) = none ∧
        ∀ t, v.place (.pageTable e i) = some t → t ∈ v'.free) ∧
      (∀ i, ¬ Visited va (va + size) i →
        v'.place (.pageTable e i) = v.place (.pageTable e i)) ∧
      ∀ p, Aligned p → UserVa p →
        (v'.ptes e (pageNo p) = 0 ↔ v.ptes e (pageNo p) = 0 ∨ va ≤ p ∧ p < va + size) := by
  have ends : wp (freeMem e va size) (fun _ s' => ∃ (v₁ v' : View) (w' : WorkingSet),
      Resident e env₀ s' v' w' ∧
      Gone env₀ (freedPages va size) (v.ptes e) (v'.ptes e) w w' ∧
      v'.place (.pageDir e) = v.place (.pageDir e) ∧
      (∀ i, v₁.place (.pageTable e i) = v.place (.pageTable e i)) ∧
      v₁.Reclaims v' e (Visited va (va + size))) (fun _ _ => False) s :=
    resident.freeMem_wp heap fun s' v₁ v' w' resident' gone _ dir same reclaims =>
      ⟨v₁, v', w', resident', gone, dir, same, reclaims⟩
  obtain ⟨_, s', run, v₁, v', w', resident', gone, dir, same, reclaims⟩ := wp_returns ends
  refine ⟨s', v', w', run, resident', dir, fun i visited unused => ?_, fun i out => ?_,
    fun p aligned' user => ?_⟩
  · have unused' := unused.congr reclaims.ptes.symm
    refine ⟨reclaims.gone i visited unused', fun t table => ?_⟩
    exact reclaims.freed i visited unused' t ((same i).trans table)
  · rw [reclaims.kept i fun visited => absurd visited out, same]
  · have before := resident.mapped.entry p aligned' user
    have after := resident'.mapped.entry p aligned' user
    have queue := gone.queue p
    rw [mem_freedPages aligned heap] at queue
    rw [ne_eq] at before after
    rw [← not_iff_not, not_or, after, before]
    simpa only [WorkingSet.queue, aligned', true_and] using queue

/-- The pages of a region. -/
theorem exists_page (i j : Fin 1024) : ∃ p, Aligned p ∧ pageNo p = (i, j) := by
  have lt := i.isLt
  have lt' := j.isLt
  refine ⟨i * ptSize + j * pageSize, ⟨?_, ?_⟩, Prod.ext (Fin.ext ?_) (Fin.ext ?_)⟩ <;>
    simp only [pageNo, pdx, ptx, ptSize, pageSize, word32] <;> omega

/-- After a run from `s` to `s'`, every region of the range without an entry has no page table
under the directory `d`, and the frame that its table lay in is free. -/
def Reclaimed (s s' : Kernel) (d va size : Nat) : Prop :=
  ∀ a, va ≤ a → a < va + size → (∀ j, pteAt s'.mem d (pdx a, j) = 0) →
    s'.mem d (pdx a) = 0 ∧ (s.mem d (pdx a) ≠ 0 →
      ∃ free, s'.freeFrameList.Rep s'.frameLinks free ∧ frameOf (s.mem d (pdx a)) ∈ free)

/-- There is no table in the last region of the range, or a page behind the range is mapped
there. -/
def LastUsed (s : Kernel) (d va size : Nat) : Prop :=
  s.mem d (pdx (va + size - 1)) = 0 ∨ ∃ p, Aligned p ∧ va + size ≤ p ∧
    pdx p = pdx (va + size - 1) ∧ pteAt s.mem d (pageNo p) ≠ 0

/-- The table of the last region is left without entries. -/
theorem View.unused_last (heap : va + size ≤ userHeapMax) (passes : PassesLast va size)
    (behind : ∀ p, Aligned p → va + size ≤ p → pdx p = pdx (va + size - 1) →
      v.ptes e (pageNo p) = 0)
    (pages : ∀ p, Aligned p → UserVa p →
      (v'.ptes e (pageNo p) = 0 ↔ v.ptes e (pageNo p) = 0 ∨ va ≤ p ∧ p < va + size)) :
    v'.Unused e (pdx (va + size - 1)) := by
  intro j
  obtain ⟨p, aligned, page⟩ := exists_page (pdx (va + size - 1)) j
  have dir : pdx p = pdx (va + size - 1) := congrArg Prod.fst page
  have user : UserVa p := by
    rw [UserVa, dir]
    exact userVa_of_le (by omega)
  rw [← page]
  refine (pages p aligned user).mpr ?_
  by_cases past : va + size ≤ p
  · exact Or.inl (behind p aligned past dir)
  · have same := (pdx_eq_iff (by omega) (by omega)).mp dir
    refine Or.inr ⟨?_, by omega⟩
    simp only [PassesLast, ptSize] at *
    omega

/-- What the directory says of the table of a region. -/
theorem Space.table_word {d : Nat} (space : Space e env₀ s v w)
    (dir : v.place (.pageDir e) = some d) (user : i < 955) :
    (s.mem d i = 0 ↔ v.place (.pageTable e i) = none) ∧
      (s.mem d i ≠ 0 → v.place (.pageTable e i) = some (frameOf (s.mem d i))) ∧
      ((∀ j, Fos.pteAt s.mem d (i, j) = 0) ↔ v.Unused e i) := by
  have child := Obj.child_pageDir (e := e) user
  rw [space.rep.mem dir]
  refine ⟨(space.rep.place_none child).symm, space.rep.place_child child, ?_⟩
  exact forall_congr' fun j => by rw [space.pteAt dir user]

/-- An empty table in a last region that is passed over stays. -/
theorem Resident.missed {d : Nat} (resident : Resident e env₀ s v w)
    (dir : v.place (.pageDir e) = some d) (aligned : Aligned va) (pos : 0 < size)
    (heap : va + size ≤ userHeapMax) (run : freeMem e va size s = .ok () s')
    (passes : PassesLast va size) (left : ¬ LastUsed s d va size) : ¬ Reclaimed s s' d va size := by
  obtain ⟨s₁, v', w', run₁, resident', dir', -, kept, pages⟩ := resident.freeMem_tables aligned heap
  obtain rfl : s₁ = s' := by
    rw [run₁] at run
    injection run
  have user : UserVa (va + size - 1) := userVa_of_le (by omega)
  obtain ⟨table, -, -⟩ := resident.table_word dir user
  obtain ⟨table', -, unused'⟩ := resident'.table_word (dir'.trans dir) user
  rw [LastUsed, not_or] at left
  obtain ⟨some, behind⟩ := left
  intro reclaimed
  have unused : v'.Unused e (pdx (va + size - 1)) := by
    refine View.unused_last heap passes (fun p aligned' past same => ?_) pages
    by_contra mapped
    have user' : UserVa p := by
      rw [UserVa, same]
      exact user
    rw [← resident.pteAt dir user'] at mapped
    exact behind ⟨p, aligned', past, same, mapped⟩
  have zero := (reclaimed (va + size - 1) (by omega) (by omega) (unused'.mpr unused)).1
  rw [table', kept _ (not_visited_last heap passes), ← table] at zero
  exact some zero

/-- **The empty page tables are freed** if and only if the loop comes to the last region of the
range, or there is nothing to free in it. -/
theorem Resident.reclaims_iff {d : Nat} (resident : Resident e env₀ s v w)
    (here : (s.globals.envs e).envPageDirectory = some d) (aligned : Aligned va) (pos : 0 < size)
    (heap : va + size ≤ userHeapMax) :
    ∃ s', freeMem e va size s = .ok () s' ∧
      (Reclaimed s s' d va size ↔ (PassesLast va size → LastUsed s d va size)) := by
  have dir : v.place (.pageDir e) = some d := by
    rw [← resident.linked e, ← resident.rep.globals, here]
  obtain ⟨s', v', w', run, resident', dir', freed, kept, pages⟩ :=
    resident.freeMem_tables aligned heap
  refine ⟨s', run, fun reclaimed passes => ?_, fun used a ge lt zero => ?_⟩
  · by_contra left
    exact resident.missed dir aligned pos heap run passes left reclaimed
  · have user : UserVa a := userVa_of_le (lt.le.trans heap)
    obtain ⟨table, held, -⟩ := resident.table_word dir user
    obtain ⟨table', -, unused'⟩ := resident'.table_word (dir'.trans dir) user
    have unused := unused'.mp zero
    rcases visited_or_last heap ge lt with visited | ⟨passes, last⟩
    · obtain ⟨none, free⟩ := freed _ visited unused
      exact ⟨table'.mpr none, fun some => ⟨v'.free, resident'.rep.freeList, free _ (held some)⟩⟩
    · rcases used passes with none | ⟨p, aligned', past, same, some⟩
      · rw [← last] at none
        refine ⟨?_, fun some => absurd none some⟩
        rw [table', last, kept _ (not_visited_last heap passes), ← last, ← table]
        exact none
      · have region : pdx p = pdx a := same.trans last.symm
        have user' : UserVa p := by
          rw [UserVa, region]
          exact user
        have entry : v'.ptes e (pageNo p) = 0 := by
          rw [← unused (ptx p), pageNo, region]
        rw [resident.pteAt dir user'] at some
        rcases (pages p aligned' user').mp entry with none | ⟨-, inside⟩
        · exact absurd none some
        · exact absurd inside (Nat.not_lt_of_le past)

/-- A table without entries is created. -/
theorem Space.tableFaultHandler_wp {Q : Unit → Kernel → Prop} (space : Space e env₀ s v w)
    (user : UserVa va) (absent : v.place (.pageTable e (pdx va)) = none)
    (done : ∀ s' v', Space e env₀ s' v' w → v.Then v' e (v.ptes e) (v.entry e) 1 →
      v'.place (.pageTable e (pdx va)) ≠ none →
      v'.memory e = v.memory e ∧ v'.stored e = v.stored e → Q () s')
    (full : v.free = [] → ∀ s', E outOfMemory s') : wp (tableFaultHandler e va) Q E s := by
  obtain ⟨d, dir⟩ := space.dir
  have quiet : Quiet e (tableFaultHandler e va) :=
    (quiet_envPageDirectory e e).bind fun d =>
      (steps_staticCpt (edits_wsSame e) d va).bind fun _ => steps_pure _
  apply space.quiet quiet (F := fun x _ => x = outOfMemory ∧ v.free = []) (P := fun _ s' =>
    Rep s' (v.withTable e (pdx va)) ∧
      (v.withTable e (pdx va)).place (.pageTable e (pdx va)) ≠ none)
  · simp only [tableFaultHandler, wp_bind]
    apply Fos.envPageDirectory_wp space.rep (space.linked e) dir
    apply staticCpt_wp space.rep dir user absent
    · intro t s' rep table
      exact ⟨rep, by simp [table]⟩
    · exact fun none => ⟨rfl, none⟩
  · rintro _ s' ⟨rep, table⟩ listed
    have edit := View.UserEdit.withTable v e (pdx va)
    have ptes : (v.withTable e (pdx va)).ptes e = v.ptes e :=
      View.ptes_withTable (fun i none => space.rep.wf.absent _ none) _
    have space' : Space e env₀ s' (v.withTable e (pdx va)) w :=
      ⟨space.toSound.editUser edit rep, ⟨d, edit.dir.trans dir⟩, listed⟩
    have next := edit.then (n := 1) ptes (fun i => View.withTable_place_table)
      (fun zero => by cases zero) (v.length_withTable e _) (space.rep.spares_withTable e user)
    exact done s' _ space' next table ⟨View.memory_withTable .., edit.stored⟩
  · rintro x s' ⟨rfl, none⟩
    exact full none s'

theorem Resident.tableFaultHandler_wp {Q : Unit → Kernel → Prop} (resident : Resident e env₀ s v w)
    (user : UserVa va) (absent : v.place (.pageTable e (pdx va)) = none)
    (done : ∀ (s' : Kernel) (v' : View), Resident e env₀ s' v' w →
      v'.place (.pageTable e (pdx va)) ≠ none → Q () s')
    (full : v.free = [] → ∀ s', E outOfMemory s') : wp (tableFaultHandler e va) Q E s := by
  refine resident.toSpace.tableFaultHandler_wp user absent (fun s' v' space next table _ => ?_) full
  exact done s' v' ⟨space, next.ptes ▸ resident.mapped, resident.pos, resident.full⟩ table

/-- A new environment with a page table for the region of 0x80400000. -/
theorem exists_table : ∃ env s v w, Resident 0 env s v w ∧
    v.place (.pageTable 0 (pdx 0x80400000)) ≠ none ∧ w.queue env = [] := by
  obtain ⟨s, env, v, w, running, queue, -, -, -, free, -⟩ :=
    smallMachine.running_boot 0 3 1 (by decide) (by decide) (by decide)
  by_cases absent : v.place (.pageTable 0 (pdx 0x80400000)) = none
  · have ends : wp (tableFaultHandler 0 0x80400000) (fun _ s' => ∃ v', Resident 0 env s' v' w ∧
        v'.place (.pageTable 0 (pdx 0x80400000)) ≠ none) (fun _ _ => False) s := by
      apply running.toResident.tableFaultHandler_wp (by decide) absent
      · exact fun s' v' resident table => ⟨v', resident, table⟩
      · intro none
        simp [none] at free
    obtain ⟨_, s', -, v', resident, table⟩ := wp_returns ends
    exact ⟨env, s', v', w, resident, table, queue⟩
  · exact ⟨env, s, v, w, running.toResident, absent, queue⟩

/-- Two pages on either side of a 4 MB boundary are freed, and the empty page table of the
second stays. -/
theorem reclaims_misses : ¬ ∀ (e va size d : Nat) (env : Env) (s s' : Kernel) (v : View)
    (w : WorkingSet), Resident e env s v w → (s.globals.envs e).envPageDirectory = some d →
    Aligned va → 0 < size → userHeapStart ≤ va → va + size ≤ userHeapMax →
    freeMem e va size s = .ok () s' → Reclaimed s s' d va size := by
  intro reclaims
  obtain ⟨env, s, v, w, resident, table, queue⟩ := exists_table
  have aligned : Aligned 0x803FF000 := ⟨by decide, by decide⟩
  have heap : 0x803FF000 + 0x2000 ≤ userHeapMax := by decide
  obtain ⟨d, dir⟩ := resident.dir
  have here : (s.globals.envs 0).envPageDirectory = some d := by
    rw [resident.rep.globals, resident.linked 0, dir]
  obtain ⟨s', -, -, run, -⟩ := resident.freeMem_tables aligned heap
  refine resident.missed dir aligned (by decide) heap run (by decide) ?_
    (reclaims 0 0x803FF000 0x2000 d env s s' v w resident here aligned (by decide) (by decide) heap
      run)
  obtain ⟨word, -, -⟩ := resident.table_word dir (i := pdx 0x80400000) (by decide)
  rintro (none | ⟨p, aligned', -, same, some⟩)
  · exact table (word.mp none)
  · have user : UserVa p := by
      rw [UserVa, same]
      decide
    rw [resident.pteAt dir user] at some
    have mem : p ∈ w.queue env := (resident.mapped.entry p aligned' user).mp some
    rw [queue] at mem
    cases mem

/-- The only three pages of a region are freed, and its page table with them. -/
theorem reclaims_heap : ∃ s env v w d s', Resident 0 env s v w ∧
    (s.globals.envs 0).envPageDirectory = some d ∧
    (∀ p ∈ [0x80000000, 0x80001000, 0x80002000], pteAt s.mem d (pageNo p) ≠ 0) ∧
    freeMem 0 0x80000000 0x3000 s = .ok () s' ∧ Reclaimed s s' d 0x80000000 0x3000 ∧
    s'.mem d (pdx 0x80000000) = 0 ∧ ∃ free, s'.freeFrameList.Rep s'.frameLinks free ∧
      frameOf (s.mem d (pdx 0x80000000)) ∈ free := by
  obtain ⟨-, -, s, env, v, w, -, -, -, resident, active, second, -⟩ := resident_heap
  have aligned : Aligned 0x80000000 := ⟨by decide, by decide⟩
  have heap : 0x80000000 + 0x3000 ≤ userHeapMax := by decide
  obtain ⟨d, dir⟩ := resident.dir
  have here : (s.globals.envs 0).envPageDirectory = some d := by
    rw [resident.rep.globals, resident.linked 0, dir]
  have queue : w.queue env = [0x80002000, 0x80001000, 0x80000000] := by
    rw [WorkingSet.queue, active, second]
    rfl
  have entry : ∀ p, Aligned p → UserVa p → (pteAt s.mem d (pageNo p) ≠ 0 ↔
      p ∈ [0x80002000, 0x80001000, 0x80000000]) := fun p aligned' user => by
    rw [resident.pteAt dir user, ← queue]
    exact resident.mapped.entry p aligned' user
  obtain ⟨s', run, iff⟩ := resident.reclaims_iff here aligned (by decide) heap
  have reclaimed := iff.mpr fun passes => absurd passes (by decide)
  obtain ⟨s'', v', w', run', resident', dir', -, -, pages⟩ := resident.freeMem_tables aligned heap
  obtain rfl : s' = s'' := by
    rw [run] at run'
    exact (EStateM.Result.ok.inj run').2
  have empty : ∀ j, pteAt s'.mem d (pdx 0x80000000, j) = 0 := by
    intro j
    obtain ⟨p, aligned', page⟩ := exists_page (pdx 0x80000000) j
    have user : UserVa p := by
      rw [UserVa, show pdx p = pdx 0x80000000 from congrArg Prod.fst page]
      decide
    rw [← page, resident'.pteAt (dir'.trans dir) user, pages p aligned' user,
      ← resident.pteAt dir user]
    by_contra left
    obtain ⟨some, out⟩ := not_or.mp left
    have listed := (entry p aligned' user).mp some
    simp only [List.mem_cons, List.not_mem_nil, or_false] at listed
    omega
  have table : s.mem d (pdx 0x80000000) ≠ 0 := by
    intro none
    refine (entry 0x80000000 aligned (by decide)).mpr (by decide) ?_
    rw [pteAt, show (pageNo 0x80000000).1 = pdx 0x80000000 from rfl, none]
    exact if_neg (by decide)
  obtain ⟨gone, free⟩ := reclaimed 0x80000000 (by decide) (by decide) empty
  refine ⟨s, env, v, w, d, s', resident, here, ?_, run, reclaimed, gone, free table⟩
  simp only [List.forall_mem_cons, List.not_mem_nil, false_implies, implies_true, and_true]
  exact ⟨(entry _ aligned (by decide)).mpr (by decide),
    (entry _ ⟨by decide, by decide⟩ (by decide)).mpr (by decide),
    (entry _ ⟨by decide, by decide⟩ (by decide)).mpr (by decide)⟩

end Fos
