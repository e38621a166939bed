import Fos.WorkingSet.Faults

/-!
# The pages that `freeMem` removes

* `Gone`: the pages `vas` have left the lists and the page tables, and no others have;
* `Shed`: the pages that are left are as they were;
* `Shed.freeSecond_wp`, `Shed.freePage_wp`: the loops over the two lists do that to a page;
* `Shed.freePages_wp`: the loop over the pages does it to the range.
-/

namespace Fos

open Arena Exec Linked

variable {s s' : Kernel} {v : View} {e va x t n : Nat} {env₀ : Env} {T T' T'' D : PageNo → Word}
  {w w' w'' : WorkingSet} {vas vas' : List Nat} {E : Stop → Kernel → Prop}

/-- The active list is full if there is a page on the second list. -/
def WorkingSet.Full (w : WorkingSet) (env : Env) : Prop :=
  w.seqs .secondList ≠ [] → ((w.seqs .activeList).length : Int) = env.activeListSize

theorem WorkingSet.Full.congr (full : w.Full env₀) (seqs : w'.seqs = w.seqs) : w'.Full env₀ := by
  rw [WorkingSet.Full, seqs]
  exact full

theorem WorkingSet.queue_congr (seqs : w'.seqs = w.seqs) : w'.queue env₀ = w.queue env₀ := by
  simp only [WorkingSet.queue, WorkingSet.addresses, seqs]

/-- The mapped pages are those on the lists. -/
abbrev WorkingSet.Maps (w : WorkingSet) (env : Env) (T : PageNo → Word) : Prop :=
  Mapped T (w.addresses env .activeList) (w.addresses env .secondList)

theorem WorkingSet.Maps.congr (mapped : w.Maps env₀ T) (seqs : w'.seqs = w.seqs) :
    w'.Maps env₀ T := by
  simpa only [WorkingSet.Maps, WorkingSet.addresses, seqs] using mapped

/-- The pages `vas` are gone from the lists and the entries, and no others are. -/
structure Gone (env : Env) (vas : List Nat) (T T' : PageNo → Word) (w w' : WorkingSet) : Prop where
  mapped : w'.Maps env T'
  queue : ∀ va, va ∈ w'.queue env ↔ va ∈ w.queue env ∧ va ∉ vas
  frames : ∀ va, Aligned va → va ∉ vas → frameOf (T' (pageNo va)) = frameOf (T (pageNo va))

theorem Gone.trans (first : Gone env₀ vas T T' w w') (second : Gone env₀ vas' T' T'' w' w'') :
    Gone env₀ (vas ++ vas') T T'' w w'' where
  mapped := second.mapped
  queue va := by
    rw [second.queue, first.queue, List.mem_append, not_or, and_assoc]
  frames va aligned out := by
    rw [List.mem_append, not_or] at out
    rw [second.frames va aligned out.2, first.frames va aligned out.1]

/-- A page that is on no list is gone. -/
theorem Gone.absent (mapped : w.Maps env₀ T) (out : va ∉ w.queue env₀) :
    Gone env₀ [va] T T w w where
  mapped := mapped
  queue va' := by
    rw [List.mem_singleton]
    refine ⟨fun mem => ⟨mem, ?_⟩, And.left⟩
    rintro rfl
    exact out mem
  frames _ _ _ := rfl

/-- The lists are the same but for the saved successors. -/
theorem Gone.congr {u u' : WorkingSet} (gone : Gone env₀ vas T T' w w') (before : u.seqs = w.seqs)
    (after : u'.seqs = w'.seqs) : Gone env₀ vas T T' u u' := by
  refine ⟨?_, fun va => ?_, gone.frames⟩
  · simpa only [WorkingSet.Maps, WorkingSet.addresses, after] using gone.mapped
  · rw [WorkingSet.queue_congr after, WorkingSet.queue_congr before]
    exact gone.queue va

/-- A page leaves the lists. -/
theorem Gone.evict (mapped : w.Maps env₀ T) (mem : va ∈ w.queue env₀)
    (active : w'.addresses env₀ .activeList = (w.addresses env₀ .activeList).erase va)
    (second : w'.addresses env₀ .secondList = (w.addresses env₀ .secondList).erase va) :
    Gone env₀ [va] T (Function.update T (pageNo va) 0) w w' where
  mapped := by
    rw [WorkingSet.Maps, active, second]
    exact mapped.evict mem
  queue va' := by
    obtain ⟨nodup, nodup', -⟩ := List.nodup_append.mp mapped.nodup
    rw [WorkingSet.queue, WorkingSet.queue, active, second, List.mem_append, List.mem_append,
      nodup.mem_erase_iff, nodup'.mem_erase_iff, List.mem_singleton, ← and_or_left, and_comm]
  frames va' aligned other := by
    rw [List.mem_singleton] at other
    have ne : pageNo va' ≠ pageNo va := fun eq =>
      other (aligned.pageNo_inj (mapped.user va mem).1 eq)
    rw [Function.update_of_ne ne]

/-- A page of the second list becomes the last active one. -/
theorem Gone.refill (mapped : w.Maps env₀ T) (mem : va ∈ w.addresses env₀ .secondList)
    (active : w'.addresses env₀ .activeList = w.addresses env₀ .activeList ++ [va])
    (second : w'.addresses env₀ .secondList = (w.addresses env₀ .secondList).erase va) :
    Gone env₀ [] T (Function.update T (pageNo va) ((T (pageNo va) ||| permPUW) &&& ~~~0)) w w' where
  mapped := by
    rw [WorkingSet.Maps, active, second]
    exact mapped.promote mem (List.perm_append_singleton va _) (present_permPUW _)
  queue va' := by
    obtain ⟨-, nodup, -⟩ := List.nodup_append.mp mapped.nodup
    rw [WorkingSet.queue, WorkingSet.queue, active, second, List.mem_append, List.mem_append,
      List.mem_append, List.mem_singleton, nodup.mem_erase_iff]
    rcases eq_or_ne va' va with rfl | ne
    · simp [mem]
    · simp [ne]
  frames va' aligned _ := by
    rcases eq_or_ne va' va with rfl | ne
    · rw [Function.update_self, frameOf_andNot _ (by decide), frameOf_or _ isPerm_permPUW]
    · have ne' : pageNo va' ≠ pageNo va := fun eq =>
        ne (aligned.pageNo_inj (mapped.user va (List.mem_append_right _ mem)).1 eq)
      rw [Function.update_of_ne ne']

/-- What a loop that looks for a page has done: all, or nothing yet. -/
def GoneIf (env : Env) (va : Nat) (T T' : PageNo → Word) (w w' : WorkingSet) : Bool → Prop
  | true => Gone env [va] T T' w w'
  | false => T' = T ∧ w'.seqs = w.seqs

theorem GoneIf.congr {u u' : WorkingSet} {found : Bool} (gone : GoneIf env₀ va T T' w w' found)
    (before : u.seqs = w.seqs) (after : u'.seqs = w'.seqs) : GoneIf env₀ va T T' u u' found := by
  cases found with
  | true => exact Gone.congr gone before after
  | false => exact ⟨gone.1, (after.trans gone.2).trans before.symm⟩

/-- No element has come to a list, and the active list has not grown. -/
structure WorkingSet.Less (w w' : WorkingSet) : Prop where
  has : ∀ k, w'.Has k → w.Has k
  active : (w'.seqs .activeList).length ≤ (w.seqs .activeList).length

theorem WorkingSet.Less.refl (w : WorkingSet) : w.Less w := ⟨fun _ h => h, le_rfl⟩

theorem WorkingSet.Less.trans (first : w.Less w') (second : w'.Less w'') : w.Less w'' :=
  ⟨fun k has => first.has k (second.has k has), second.active.trans first.active⟩

theorem WorkingSet.Less.congr {u u' : WorkingSet} (less : w.Less w') (before : u.seqs = w.seqs)
    (after : u'.seqs = w'.seqs) : u.Less u' := by
  refine ⟨fun k => ?_, ?_⟩
  · rw [WorkingSet.Has, WorkingSet.Has, before, after]
    exact less.has k
  · rw [before, after]
    exact less.active

/-! ## Removing pages -/

/-- A stage of a run that removes pages: those that are left in memory and in the page file are
as they were, and modified if they were. -/
def Shed (e : Nat) (env₀ : Env) (v : View) (T D : PageNo → Word) (n : Nat) (s : Kernel)
    (w : WorkingSet) : Prop :=
  ∃ m g, Followed e env₀ v T D m g n s w ∧
    (∀ p, m p ≠ none → m p = v.memory e p ∧ modified (T p) = modified (v.ptes e p)) ∧
    ∀ p, g p ≠ none → g p = v.stored e p

theorem Space.shed (space : Space e env₀ s v w) :
    Shed e env₀ v (v.ptes e) (v.entry e) 0 s w :=
  ⟨_, _, space.followed, fun _ _ => ⟨rfl, rfl⟩, fun _ _ => rfl⟩

namespace Shed

theorem listed (shed : Shed e env₀ v T D n s w) : Listed e env₀ s w := by
  obtain ⟨_, _, followed, -⟩ := shed
  exact followed.listed

section Lists

variable {Q : Unit → Kernel → Prop} {i : WSList}

theorem lists_wp {f : Lists WSList Nat → Lists WSList Nat} (shed : Shed e env₀ v T D n s w)
    (listed : wp (modifyLists e f) (fun _ s' => Listed e env₀ s' w') (fun _ _ => False) s)
    (done : ∀ s', Shed e env₀ v T D n s' w' → Q () s') : wp (modifyLists e f) Q E s := by
  obtain ⟨m, g, followed, pages⟩ := shed
  exact followed.lists_wp listed fun s' next => done s' ⟨m, g, next, pages⟩

theorem remove_wp (shed : Shed e env₀ v T D n s w) (mem : x ∈ w.seqs i)
    (done : ∀ s', Shed e env₀ v T D n s' (w.remove i x) → Q () s') :
    wp (modifyLists e (·.remove i x)) Q E s :=
  shed.lists_wp (Fos.remove_wp shed.listed mem fun _ h => h) done

theorem insertHead_wp (shed : Shed e env₀ v T D n s w) (loose : ¬ w.Has x) (lt : x < pwsMaxSize)
    (done : ∀ s', Shed e env₀ v T D n s' (w.insertHead i x) → Q () s') :
    wp (modifyLists e (·.insertHead i x)) Q E s :=
  shed.lists_wp (Fos.insertHead_wp shed.listed loose lt fun _ h => h) done

theorem insertTail_wp (shed : Shed e env₀ v T D n s w) (loose : ¬ w.Has x) (lt : x < pwsMaxSize)
    (done : ∀ s', Shed e env₀ v T D n s' (w.insertTail i x) → Q () s') :
    wp (modifyLists e (·.insertTail i x)) Q E s :=
  shed.lists_wp (Fos.insertTail_wp shed.listed loose lt fun _ h => h) done

theorem save (shed : Shed e env₀ v T D n s w) (i : WSList) (p : Option Nat) :
    Shed e env₀ v T D n (s.saved e i p) (w.save i p) := by
  obtain ⟨m, g, followed, pages⟩ := shed
  exact ⟨m, g, followed.save i p, pages⟩

end Lists

theorem envPageDirectory_wp {Q : Nat → Kernel → Prop} (shed : Shed e env₀ v T D n s w)
    (done : ∀ d, v.place (.pageDir e) = some d → Q d s) : wp (envPageDirectory e) Q E s := by
  obtain ⟨_, _, followed, -⟩ := shed
  exact followed.envPageDirectory_wp done

/-- A page becomes active. -/
theorem activate_wp {Q : Unit → Kernel → Prop} (shed : Shed e env₀ v T D n s w)
    (user : UserVa va) (entry : T (pageNo va) ≠ 0)
    (done : ∀ s', Shed e env₀ v (Function.update T (pageNo va)
      ((T (pageNo va) ||| permPUW) &&& ~~~0)) D n s' w → Q () s') :
    wp (ptSetPagePermissions e va permPUW 0) Q E s := by
  obtain ⟨m, g, followed, memory, stored⟩ := shed
  refine followed.ptSetPagePermissions_wp user isPerm_permPUW (by decide) (Or.inl entry)
    fun s' next => done s' ⟨m, g, next, fun p here => ?_, stored⟩
  rw [modified_update (modified_permPUW _).1]
  exact memory p here

theorem unmapFrame_wp {d : Nat} {Q : Unit → Kernel → Prop} (shed : Shed e env₀ v T D n s w)
    (dir : v.place (.pageDir e) = some d) (user : UserVa va)
    (done : ∀ s', Shed e env₀ v (Function.update T (pageNo va) 0) D n s' w → Q () s') :
    wp (unmapFrame d va) Q E s := by
  obtain ⟨m, g, followed, memory, stored⟩ := shed
  refine followed.unmapFrame_wp dir user fun s' next =>
    done s' ⟨_, g, next, fun p here => ?_, stored⟩
  rcases eq_or_ne p (pageNo va) with rfl | ne
  · exact absurd (Function.update_self ..) here
  · rw [Function.update_of_ne ne] at here ⊢
    rw [Function.update_of_ne ne]
    exact memory p here

theorem pfRemoveEnvPage_wp {Q : Unit → Kernel → Prop} (shed : Shed e env₀ v T D n s w)
    (done : ∀ s', Shed e env₀ v T (Function.update D (pageNo va) 0) n s' w → Q () s') :
    wp (pfRemoveEnvPage e va) Q E s := by
  obtain ⟨m, g, followed, memory, stored⟩ := shed
  refine followed.pfRemoveEnvPage_wp fun s' next => done s' ⟨m, _, next, memory, fun p here => ?_⟩
  rcases eq_or_ne p (pageNo va) with rfl | ne
  · exact absurd (Function.update_self ..) here
  · rw [Function.update_of_ne ne] at here ⊢
    exact stored p here

end Shed

/-! ## The loop over the second list -/

/-- The loop over the second list, which has been entered with the lists `w`. -/
structure SeeksSecond (e : Nat) (env : Env) (v : View) (T D : PageNo → Word) (n va : Nat)
    (w : WorkingSet) (todo : List Nat) (w' : WorkingSet) (found : Bool) (s : Kernel) : Prop where
  gone : ∃ T', Shed e env v T' D n s w' ∧ GoneIf env va T T' w w' found
  full : w'.Full env
  active : w'.seqs .activeList = w.seqs .activeList
  next : w'.next .activeList = w.next .activeList
  second : (w'.seqs .secondList).length ≤ (w.seqs .secondList).length
  has : ∀ k, w'.Has k → w.Has k
  seen : found = false → ∃ seen, w.seqs .secondList = seen ++ todo ∧ va ∉ seen.map env.address

theorem SeeksSecond.save {todo : List Nat} {found : Bool}
    (seeks : SeeksSecond e env₀ v T D n va w todo w' found s) (p : Option Nat) :
    SeeksSecond e env₀ v T D n va w todo (w'.save .secondList p) found
      (s.saved e .secondList p) := by
  obtain ⟨T', shed, gone⟩ := seeks.gone
  exact ⟨⟨T', shed.save .secondList p, gone.congr rfl rfl⟩, seeks.full.congr rfl, seeks.active,
    by simpa using seeks.next, seeks.second, seeks.has, seeks.seen⟩

/-- A page on a list has not gone. -/
theorem GoneIf.not_found {found : Bool} {i : WSList} (gone : GoneIf env₀ va T T' w w' found)
    (mem : x ∈ w'.seqs i) (ne : i ≠ .pageWorkingSetList) (here : env₀.address x = va) :
    found = false := by
  cases found with
  | false => rfl
  | true =>
    have out := ((Gone.queue gone va).mp (here ▸ WorkingSet.mem_queue mem ne)).2
    exact absurd (List.mem_singleton_self va) out

/-- The element of the page goes back to `PageWorkingSetList`. -/
theorem Shed.goBack_wp {before after : List Nat} {Q : Unit → Kernel → Prop}
    (shed : Shed e env₀ v T D n s w) (mapped : w.Maps env₀ T)
    (at_ : w.seqs .secondList = before ++ x :: after) (here : env₀.address x = va)
    (done : ∀ s', Shed e env₀ v (Function.update T (pageNo va) 0) D n s' (w.goBack x) →
      Gone env₀ [va] T (Function.update T (pageNo va) 0) w (w.goBack x) →
      (w.goBack x).seqs .secondList = before ++ after → Q () s') :
    wp (modifyLists e (·.remove .secondList x)) (fun _ s' =>
      wp (modifyLists e (·.insertHead .pageWorkingSetList x)) (fun _ s' =>
        wp (envPageDirectory e) (fun d s' => wp (unmapFrame d va) Q E s') E s') E s') E s := by
  have listed := shed.listed
  have mem : x ∈ w.seqs .secondList := by simp [at_]
  have queued : va ∈ w.queue env₀ := here ▸ WorkingSet.mem_queue mem (by simp)
  have user := (mapped.user va queued).2
  apply shed.remove_wp mem
  intro s₁ shed₁
  apply shed₁.insertHead_wp (listed.loose mem) (listed.small _ x mem)
  intro s₂ shed₂
  apply shed₂.envPageDirectory_wp
  intro d dir
  apply shed₂.unmapFrame_wp dir user
  intro s₃ shed₃
  have second : (w.goBack x).seqs .secondList = before ++ after := by
    simpa [WorkingSet.goBack] using listed.remove_middle at_
  have nodup := mapped.nodup
  rw [WorkingSet.addresses_eq env₀ at_, List.map_append, List.map_cons, here] at nodup
  have active : va ∉ w.addresses env₀ .activeList := fun mem =>
    (List.nodup_append.mp nodup).2.2 va mem va (by simp) rfl
  have out : va ∉ before.map env₀.address := fun mem => by
    have inner := (List.nodup_append.mp nodup).2.1
    exact (List.nodup_append.mp inner).2.2 va mem va (by simp) rfl
  refine done s₃ shed₃ (Gone.evict mapped queued ?_ ?_) second
  · rw [List.erase_of_not_mem active]
    simp [WorkingSet.goBack, WorkingSet.addresses]
  · rw [WorkingSet.addresses_eq env₀ second, WorkingSet.addresses_eq env₀ at_, List.map_append,
      List.map_append, List.map_cons, here, erase_middle out]

theorem Shed.freeSecond_wp {Q : Pass Bool Unit → Kernel → Prop}
    (shed : Shed e env₀ v T D n s w) (mapped : w.Maps env₀ T) (full : w.Full env₀)
    (done : ∀ found s' w', SeeksSecond e env₀ v T D n va w [] w' found s' → Q (.next found) s') :
    wp (freeSecond e va) Q E s := by
  have listed := shed.listed
  rw [freeSecond, wp_bind]
  apply listFirst_wp listed
  refine wsForeach_state_wp [] (fun m todo w' found s' => todo.length = m ∧
    SeeksSecond e env₀ v T D n va w todo w' found s') ?_ ?_ ?_ ?_
    (n := (w.seqs .secondList).length) ⟨rfl, ⟨T, shed, rfl, rfl⟩, full, rfl, rfl, le_rfl,
      fun _ has => has, fun _ => ⟨[], rfl, by simp⟩⟩ listed rfl
      (Nat.lt_succ_of_le (listed.length_le _))
  · rintro m todo w' found p s' ⟨length, seeks⟩
    exact ⟨length, seeks.save p⟩
  · rintro m x rest before w₁ found s₁ ⟨length, seeks⟩ listed₁ at_ next
    have mem : x ∈ w₁.seqs .secondList := at_ ▸ by simp
    obtain ⟨T₁, shed₁, gone⟩ := seeks.gone
    have length' : rest.length = m := Nat.succ.inj length
    rw [wp_bind]
    apply virtualAddress_wp listed₁
    rw [wp_ite]
    split
    · rename_i here
      obtain rfl := gone.not_found mem (by simp) here
      obtain ⟨rfl, seqs⟩ := gone
      have mapped₁ : w₁.Maps env₀ T₁ := WorkingSet.Maps.congr mapped seqs
      simp only [wp_bind]
      apply shed₁.goBack_wp mapped₁ at_ here
      intro s₂ shed₂ gone second
      refine ⟨rest, before, w₁.goBack x,
        ⟨length', ⟨_, shed₂, gone.congr seqs.symm rfl⟩, fun _ => ?_,
        ?_, seeks.next, ?_, fun k has => ?_, nofun⟩, shed₂.listed, second, next⟩
      · simpa [WorkingSet.goBack] using seeks.full (List.ne_nil_of_mem mem)
      · simpa [WorkingSet.goBack] using seeks.active
      · have le := seeks.second
        rw [at_, List.length_append, List.length_cons] at le
        rw [second, List.length_append]
        omega
      · exact seeks.has k (((listed₁.goneBack mem).has k).mp has)
    · rename_i other
      refine ⟨rest, before ++ [x], w₁, ⟨length', seeks.gone, seeks.full, seeks.active, seeks.next,
        seeks.second, seeks.has, fun none => ?_⟩, listed₁, by simp [at_], next⟩
      obtain ⟨seen, split_, out⟩ := seeks.seen none
      refine ⟨seen ++ [x], by simp [split_], ?_⟩
      rw [List.map_append, List.mem_append, List.map_singleton, List.mem_singleton]
      exact fun mem => mem.elim out fun eq => other eq.symm
  · rintro x rest w' found s' ⟨length, -⟩
    simp at length
  · rintro m w' found s' ⟨-, seeks⟩ -
    exact done found s' w' seeks

/-! ## The loop over the active list -/

/-- The element of the page leaves the active list, and the first page of the second list
takes its place. -/
theorem Shed.freeActive_wp {before after : List Nat} {Q : Unit → Kernel → Prop}
    (shed : Shed e env₀ v T D n s w) (mapped : w.Maps env₀ T) (full : w.Full env₀)
    (at_ : w.seqs .activeList = before ++ x :: after) (here : env₀.address x = va)
    (done : ∀ s' T' w', Shed e env₀ v T' D n s' w' → Gone env₀ [va] T T' w w' → w'.Full env₀ →
      w'.next .activeList = w.next .activeList → w.Less w' →
      (w'.seqs .activeList = before ++ after ∨ w.seqs .secondList ≠ [] ∧
        ∃ t, w'.seqs .activeList = before ++ after ++ [t]) → Q () s') :
    wp (freeActive e va x) Q E s := by
  have listed := shed.listed
  have mem : x ∈ w.seqs .activeList := by simp [at_]
  have queued : va ∈ w.queue env₀ := here ▸ WorkingSet.mem_queue mem (by simp)
  obtain ⟨aligned, user⟩ := mapped.user va queued
  have active := listed.remove_middle at_
  have second : (w.remove .activeList x).seqs .secondList = w.seqs .secondList := by simp
  have nodup := mapped.nodup
  rw [WorkingSet.addresses_eq env₀ at_, List.map_append, List.map_cons, here] at nodup
  have out : va ∉ before.map env₀.address := fun mem => by
    have inner := (List.nodup_append.mp nodup).1
    exact (List.nodup_append.mp inner).2.2 va mem va (by simp) rfl
  have out' : va ∉ w.addresses env₀ .secondList := fun mem =>
    (List.nodup_append.mp nodup).2.2 va (by simp) va mem rfl
  have evicted : Gone env₀ [va] T (Function.update T (pageNo va) 0) w (w.remove .activeList x) := by
    refine Gone.evict mapped queued ?_ ?_
    · rw [WorkingSet.addresses_eq env₀ active, WorkingSet.addresses_eq env₀ at_, List.map_append,
        List.map_append, List.map_cons, here, erase_middle out]
    · rw [List.erase_of_not_mem out']
      simp [WorkingSet.addresses]
  simp only [freeActive, wp_bind]
  apply shed.remove_wp mem
  intro s₁ shed₁
  apply listSize_wp shed₁.listed
  rw [wp_ite, second]
  cases list : w.seqs .secondList with
  | nil =>
    simp only [List.length_nil, lt_irrefl, if_false, wp_bind]
    apply shed₁.envPageDirectory_wp
    intro d dir
    apply shed₁.unmapFrame_wp dir user
    intro s₂ shed₂
    refine done s₂ _ _ shed₂ evicted (fun some => ?_) rfl
      ⟨fun k has => ((listed.has_remove mem).mp has).1, ?_⟩ (Or.inl active)
    · exact absurd (second.trans list) some
    · rw [active, at_]
      simp
  | cons t ts =>
    have size := full (by simp [list])
    have mem₁ : t ∈ (w.remove .activeList x).seqs .secondList := by simp [second, list]
    have second' := WorkingSet.addresses_eq env₀ (second.trans list)
    rw [List.map_cons] at second'
    have here' : env₀.address t ∈ (w.remove .activeList x).addresses env₀ .secondList := by
      simp [second']
    have queued' : env₀.address t ∈ w.queue env₀ :=
      WorkingSet.mem_queue (i := .secondList) (by simp [list]) (by simp)
    obtain ⟨alignedt, usert⟩ := mapped.user _ queued'
    have entry := (mapped.entry _ alignedt usert).mpr queued'
    simp only [List.length_cons, Nat.zero_lt_succ, if_true, wp_bind]
    apply listFirst_wp shed₁.listed
    simp only [second, list, List.head?_cons, wp_deref_some]
    apply shed₁.remove_wp mem₁
    intro s₂ shed₂
    apply shed₂.insertTail_wp (shed₁.listed.loose mem₁) (shed₁.listed.small _ t mem₁)
    intro s₃ shed₃
    apply virtualAddress_wp shed₃.listed
    apply shed₃.activate_wp usert entry
    intro s₄ shed₄
    apply shed₄.envPageDirectory_wp
    intro d dir
    apply shed₄.unmapFrame_wp dir user
    intro s₅ shed₅
    have other : pageNo (env₀.address t) ≠ pageNo va := fun eq => by
      have same : env₀.address t = va := alignedt.pageNo_inj aligned eq
      refine out' ?_
      rw [WorkingSet.addresses_eq env₀ list, List.map_cons, same]
      exact List.mem_cons_self ..
    have filled : Gone env₀ [] _ _ _ ((w.remove .activeList x).refill t) :=
      Gone.refill evicted.mapped here' (by simp [WorkingSet.refill, WorkingSet.addresses])
        (by simp [WorkingSet.refill, WorkingSet.addresses, list])
    rw [Function.update_of_ne other, Function.update_comm other.symm] at filled
    have active' :
        ((w.remove .activeList x).refill t).seqs .activeList = before ++ after ++ [t] := by
      rw [← active]
      simp [WorkingSet.refill]
    have length : (((w.remove .activeList x).refill t).seqs .activeList).length =
        (w.seqs .activeList).length := by
      rw [active', at_]
      simp
    refine done s₅ _ _ shed₅ (evicted.trans filled) (fun _ => (congrArg Nat.cast length).trans size)
      rfl ⟨fun k has => ?_, le_of_eq length⟩ (Or.inr ⟨by simp [list], t, active'⟩)
    exact ((listed.has_remove mem).mp ((shed₁.listed.has_refill mem₁).mp has)).1

/-- The loop over the active list, which has been entered with the lists `w`. -/
structure SeeksActive (e : Nat) (env : Env) (v : View) (T D : PageNo → Word) (n va m : Nat)
    (w : WorkingSet) (todo : List Nat) (w' : WorkingSet) (found : Bool) (s : Kernel) : Prop where
  gone : ∃ T', Shed e env v T' D n s w' ∧ GoneIf env va T T' w w' found
  full : w'.Full env
  less : w.Less w'
  bound : found = true → todo.length ≤ m
  seen : found = false → todo.length + (w.seqs .secondList).length ≤ m ∧
    ∃ seen, w.seqs .activeList = seen ++ todo ∧ va ∉ seen.map env.address ∧
      (seen ≠ [] → va ∉ w.addresses env .secondList)

theorem SeeksActive.save {m : Nat} {todo : List Nat} {found : Bool}
    (seeks : SeeksActive e env₀ v T D n va m w todo w' found s) (p : Option Nat) :
    SeeksActive e env₀ v T D n va m w todo (w'.save .activeList p) found
      (s.saved e .activeList p) := by
  obtain ⟨T', shed, gone⟩ := seeks.gone
  exact ⟨⟨T', shed.save .activeList p, gone.congr rfl rfl⟩, seeks.full.congr rfl,
    seeks.less.congr rfl rfl, seeks.bound, seeks.seen⟩

/-- A pass of the loop over the pages. -/
theorem Shed.freePage_wp {Q : Unit → Kernel → Prop} (shed : Shed e env₀ v T D n s w)
    (mapped : w.Maps env₀ T) (full : w.Full env₀) (pos : 0 < env₀.activeListSize)
    (done : ∀ s' T' w', Shed e env₀ v T' (Function.update D (pageNo va) 0) n s' w' →
      Gone env₀ [va] T T' w w' → w'.Full env₀ → w.Less w' → Q () s') :
    wp (freePage e va) Q E s := by
  rw [freePage, wp_bind]
  apply shed.pfRemoveEnvPage_wp
  intro s₀ shed₀
  have listed := shed₀.listed
  rw [wp_bind]
  apply listFirst_wp listed
  rw [wp_bind]
  refine wsForeach_state_wp [] (fun m todo w' found s' =>
    SeeksActive e env₀ v T (Function.update D (pageNo va) 0) n va m w todo w' found s') ?_ ?_ ?_ ?_
    (n := (w.seqs .activeList).length + (w.seqs .secondList).length)
    ⟨⟨T, shed₀, rfl, rfl⟩, full, .refl w,
    (fun found => by cases found), fun _ => ⟨le_rfl, [], rfl, by simp, by simp⟩⟩ listed rfl
    (Nat.lt_succ_of_le (listed.lengths_le (by simp)))
  · exact fun m todo w' found p s' seeks => seeks.save p
  · intro m x rest before w₁ found s₁ seeks listed₁ at_ next
    have mem : x ∈ w₁.seqs .activeList := at_ ▸ by simp
    obtain ⟨T₁, shed₁, gone⟩ := seeks.gone
    simp only [wp_bind]
    apply virtualAddress_wp listed₁
    rw [wp_ite]
    split
    · rename_i here
      obtain rfl := gone.not_found mem (by simp) here
      obtain ⟨rfl, seqs⟩ := gone
      obtain ⟨bound, -⟩ := seeks.seen rfl
      have mapped₁ : w₁.Maps env₀ T₁ := WorkingSet.Maps.congr mapped seqs
      simp only [wp_bind, wp_pure, if_true]
      apply shed₁.freeActive_wp mapped₁ seeks.full at_ here
      intro s₂ T₂ w₂ shed₂ gone₂ full₂ next₂ less₂ active₂
      have gone' := gone₂.congr seqs.symm rfl
      have less' := seeks.less.trans less₂
      rw [List.length_cons] at bound
      rcases active₂ with active₂ | ⟨some, t, active₂⟩
      · exact ⟨rest, before, w₂,
          ⟨⟨T₂, shed₂, gone'⟩, full₂, less', fun _ => by omega, fun lost => by cases lost⟩,
          shed₂.listed, active₂, next₂.trans next⟩
      · obtain ⟨rest', short, head, tail, split_⟩ := head?_refill rest t
        have some' := List.length_pos_of_ne_nil (seqs ▸ some)
        refine ⟨rest', before ++ tail, w₂,
          ⟨⟨T₂, shed₂, gone'⟩, full₂, less', fun _ => by omega, fun lost => by cases lost⟩,
          shed₂.listed, ?_, (next₂.trans next).trans head.symm⟩
        rw [active₂, List.append_assoc, split_, List.append_assoc]
    · rename_i other
      simp only [wp_bind, wp_pure]
      rw [wp_ite]
      split
      · rename_i found
        subst found
        exact ⟨rest, before ++ [x], w₁, ⟨seeks.gone, seeks.full, seeks.less,
          fun _ => Nat.le_of_succ_le_succ (seeks.bound rfl), fun lost => by cases lost⟩,
          listed₁, by simp [at_], next⟩
      · rename_i none
        obtain rfl : found = false := by simpa using none
        obtain ⟨rfl, seqs⟩ := gone
        obtain ⟨bound, seen, split_, out, -⟩ := seeks.seen rfl
        rw [List.length_cons] at bound
        have mapped₁ : w₁.Maps env₀ T₁ := WorkingSet.Maps.congr mapped seqs
        apply shed₁.freeSecond_wp mapped₁ seeks.full
        intro found' s₂ w₂ second
        obtain ⟨T₂, shed₂, gone₂⟩ := second.gone
        refine ⟨rest, before ++ [x], w₂, ⟨⟨T₂, shed₂, gone₂.congr seqs.symm rfl⟩, second.full,
          seeks.less.trans ⟨second.has, second.active ▸ le_rfl⟩, fun _ => by omega, fun lost =>
            ⟨by omega, seen ++ [x], by simp [split_], ?_, fun _ => ?_⟩⟩,
          shed₂.listed, by simp [second.active, at_], second.next.trans next⟩
        · rw [List.map_append, List.mem_append, List.map_singleton, List.mem_singleton]
          exact fun mem => mem.elim out fun eq => other eq.symm
        · obtain ⟨seen', split', out'⟩ := second.seen lost
          rw [List.append_nil, seqs] at split'
          rwa [WorkingSet.addresses_eq env₀ split']
  · intro x rest w' found s' seeks
    cases found with
    | true => simpa using seeks.bound rfl
    | false =>
      have bound := (seeks.seen rfl).1
      simp at bound
  · intro m w' found s' seeks _
    obtain ⟨T', shed', gone⟩ := seeks.gone
    refine done s' T' w' shed' ?_ seeks.full seeks.less
    cases found with
    | true => exact gone
    | false =>
      obtain ⟨rfl, seqs⟩ := gone
      obtain ⟨-, seen, split_, out, out'⟩ := seeks.seen rfl
      rw [List.append_nil] at split_
      refine (Gone.absent mapped fun mem => ?_).congr rfl seqs
      rcases List.mem_append.mp mem with mem | mem
      · rw [WorkingSet.addresses_eq env₀ split_] at mem
        exact out mem
      · refine out' (fun none => ?_) mem
        have some : w.seqs .secondList ≠ [] := by
          rintro empty
          rw [WorkingSet.addresses_eq env₀ empty] at mem
          cases mem
        have size := full some
        rw [split_, none, List.length_nil] at size
        omega

/-! ## The range -/

/-- The page file without the pages `vas`. -/
def cleared (D : PageNo → Word) (vas : List Nat) : PageNo → Word :=
  fun p => if p ∈ vas.map pageNo then 0 else D p

theorem cleared_append (D : PageNo → Word) (vas : List Nat) (va : Nat) :
    Function.update (cleared D vas) (pageNo va) 0 = cleared D (vas ++ [va]) := by
  funext p
  rw [cleared, List.map_append, List.map_singleton]
  rcases eq_or_ne p (pageNo va) with rfl | ne
  · simp
  · simp [cleared, ne]

/-- The loop over the pages. -/
theorem Shed.freePages_wp {size : Nat} {Q : Unit → Kernel → Prop}
    (shed : Shed e env₀ v T D n s w) (mapped : w.Maps env₀ T) (full : w.Full env₀)
    (pos : 0 < env₀.activeListSize)
    (done : ∀ s' T' w', Shed e env₀ v T' (cleared D (freedPages va size)) n s' w' →
      Gone env₀ (freedPages va size) T T' w w' → w'.Full env₀ → w.Less w' → Q () s') :
    wp ((List.range (roundUp size / pageSize)).forM fun i =>
      freePage e ((va + i * pageSize) % word32)) Q E s := by
  refine wp_forM (fun rest s' => ∃ before T' w', List.range (roundUp size / pageSize) =
      before ++ rest ∧ Shed e env₀ v T'
        (cleared D (before.map fun i => (va + i * pageSize) % word32)) n s' w' ∧
      Gone env₀ (before.map fun i => (va + i * pageSize) % word32) T T' w w' ∧ w'.Full env₀ ∧
      w.Less w')
    ?_ ?_ ?_
  · rintro i rest s₁ ⟨before, T₁, w₁, split_, shed₁, gone₁, full₁, less₁⟩
    apply shed₁.freePage_wp gone₁.mapped full₁ pos
    intro s₂ T₂ w₂ shed₂ gone₂ full₂ less₂
    refine ⟨before ++ [i], T₂, w₂, by simp [split_], ?_, ?_, full₂, less₁.trans less₂⟩
    · rw [List.map_append, List.map_singleton, ← cleared_append]
      exact shed₂
    · rw [List.map_append, List.map_singleton]
      exact gone₁.trans gone₂
  · rintro s₁ ⟨before, T₁, w₁, split_, shed₁, gone₁, full₁, less₁⟩
    rw [List.append_nil] at split_
    rw [freedPages, split_] at done
    exact done s₁ T₁ w₁ shed₁ gone₁ full₁ less₁
  · refine ⟨[], T, w, rfl, ?_, ⟨mapped, by simp, fun _ _ _ => rfl⟩, full, .refl w⟩
    have none : cleared D ([].map fun i => (va + i * pageSize) % word32) = D := by
      funext p
      simp [cleared]
    rwa [none]

end Fos
