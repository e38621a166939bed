import Fos.WorkingSet.FreeMem
import Fos.WorkingSet.Loading

/-!
# The size of the working set

`env_page_ws_get_size` counts the elements whose `empty` is 0.  The loader clears the flag of
an element that it puts on a list, but `Placement` does not, and `freeMem` does not set that
of an element that it takes off.

* `Marked`: the flags are 0 for the elements on the active and the second list;
* `Alike`: the same elements are on the two lists, with the same flags;
* `Listed.pageFaultHandler_marks`, `Listed.freeMem_marks`, `envCreate_marks`: when the calls
  keep them so;
* `WsReach.reported`: the size is right in every run of such calls.
-/

namespace Fos

open Exec Linked

/-- `env_page_ws_get_size(e)`. -/
def envPageWSGetSize (env : Env) : Nat :=
  (List.range env.pageWSMaxSize).countP fun i => (env.ptrPageWorkingSet i).empty = false

/-- The flags are 0 exactly for the elements on the active and the second list, and the size is
that of the two. -/
def Reported (env : Env) : Prop :=
  ∃ seqs, env.lists.Rep seqs ∧
    (∀ k < env.pageWSMaxSize, (env.ptrPageWorkingSet k).empty = false ↔
      k ∈ seqs .activeList ∨ k ∈ seqs .secondList) ∧
    envPageWSGetSize env = (seqs .activeList).length + (seqs .secondList).length

/-- So the flags are, and the lists have no other elements than those of the working set. -/
structure Marked (env : Env) (seqs : WSList → List Nat) : Prop where
  lists : env.lists.Rep seqs
  small : ∀ i, ∀ k ∈ seqs i, k < env.pageWSMaxSize
  fits : env.pageWSMaxSize ≤ pwsMaxSize
  flags : ∀ k < env.pageWSMaxSize, (env.ptrPageWorkingSet k).empty = false ↔
    k ∈ seqs .activeList ∨ k ∈ seqs .secondList

theorem Marked.size_eq {env : Env} {seqs : WSList → List Nat} (marked : Marked env seqs) :
    Reported env := by
  refine ⟨seqs, marked.lists, marked.flags, ?_⟩
  have nodup : (seqs .activeList ++ seqs .secondList).Nodup :=
    (marked.lists.list _).nodup.append (marked.lists.list _).nodup
      (marked.lists.disjoint _ _ (by simp))
  have perm : ((List.range env.pageWSMaxSize).filter fun i =>
      (env.ptrPageWorkingSet i).empty = false).Perm (seqs .activeList ++ seqs .secondList) := by
    rw [List.perm_ext_iff_of_nodup (List.nodup_range.filter _) nodup]
    intro k
    rw [List.mem_filter, List.mem_range, List.mem_append, decide_eq_true_iff]
    constructor
    · exact fun ⟨lt, taken⟩ => (marked.flags k lt).mp taken
    · intro mem
      have lt : k < env.pageWSMaxSize := mem.elim (marked.small _ k) (marked.small _ k)
      exact ⟨lt, (marked.flags k lt).mpr mem⟩
  rw [envPageWSGetSize, List.countP_eq_length_filter, perm.length_eq, List.length_append]

/-! ## The elements in use -/

/-- The element is on the active or the second list. -/
def WorkingSet.Busy (w : WorkingSet) (k : Nat) : Prop := ∃ i ≠ .pageWorkingSetList, k ∈ w.seqs i

variable {e : Nat} {env₀ env₁ env₂ : Env} {s s' : Kernel} {w w' w'' : WorkingSet} {x k va : Nat}
  {i : WSList}

theorem WorkingSet.busy_iff : w.Busy k ↔ k ∈ w.seqs .activeList ∨ k ∈ w.seqs .secondList := by
  constructor
  · rintro ⟨i, ne, mem⟩
    cases i with
    | pageWorkingSetList => exact absurd rfl ne
    | activeList => exact Or.inl mem
    | secondList => exact Or.inr mem
  · rintro (mem | mem)
    · exact ⟨_, by simp, mem⟩
    · exact ⟨_, by simp, mem⟩

theorem Listed.busy_remove (listed : Listed e env₀ s w) (mem : x ∈ w.seqs i)
    (ne : i ≠ .pageWorkingSetList) : (w.remove i x).Busy k ↔ w.Busy k ∧ k ≠ x := by
  constructor
  · rintro ⟨j, ne', mem'⟩
    rcases eq_or_ne j i with rfl | other
    · rw [WorkingSet.remove_seqs, Function.update_self, (listed.nodup j).mem_erase_iff] at mem'
      exact ⟨⟨j, ne', mem'.2⟩, mem'.1⟩
    · rw [WorkingSet.remove_seqs, Function.update_of_ne other] at mem'
      refine ⟨⟨j, ne', mem'⟩, ?_⟩
      rintro rfl
      exact other (listed.only mem' mem)
  · rintro ⟨⟨j, ne', mem'⟩, other⟩
    rcases eq_or_ne j i with rfl | ne''
    · refine ⟨j, ne', ?_⟩
      rw [WorkingSet.remove_seqs, Function.update_self, (listed.nodup j).mem_erase_iff]
      exact ⟨other, mem'⟩
    · refine ⟨j, ne', ?_⟩
      rwa [WorkingSet.remove_seqs, Function.update_of_ne ne'']

theorem WorkingSet.busy_remove_free : (w.remove .pageWorkingSetList x).Busy k ↔ w.Busy k := by
  simp [busy_iff]

theorem WorkingSet.busy_insertHead (ne : i ≠ .pageWorkingSetList) :
    (w.insertHead i x).Busy k ↔ w.Busy k ∨ k = x := by
  cases i with
  | pageWorkingSetList => exact absurd rfl ne
  | activeList =>
    simp only [busy_iff, insertHead_seqs, Function.update_self, List.mem_cons, ne_eq, reduceCtorEq,
      not_false_eq_true, Function.update_of_ne]
    tauto
  | secondList =>
    simp only [busy_iff, insertHead_seqs, Function.update_self, List.mem_cons, ne_eq, reduceCtorEq,
      not_false_eq_true, Function.update_of_ne]
    tauto

theorem WorkingSet.busy_insertHead_free :
    (w.insertHead .pageWorkingSetList x).Busy k ↔ w.Busy k := by
  simp [busy_iff]

/-- The elements in use and their flags are the same, and no element is new to the lists. -/
structure Alike (env env' : Env) (w w' : WorkingSet) : Prop where
  max : env'.pageWSMaxSize = env.pageWSMaxSize
  empty : ∀ k, (env'.ptrPageWorkingSet k).empty = (env.ptrPageWorkingSet k).empty
  busy : ∀ k, w'.Busy k ↔ w.Busy k
  has : ∀ k, w'.Has k → w.Has k

theorem Alike.of_seqs (seqs : w'.seqs = w.seqs) : Alike env₀ env₀ w w' where
  max := rfl
  empty _ := rfl
  busy k := by rw [WorkingSet.busy_iff, WorkingSet.busy_iff, seqs]
  has _ := fun ⟨i, mem⟩ => ⟨i, seqs ▸ mem⟩

theorem Alike.trans (first : Alike env₀ env₁ w w') (second : Alike env₁ env₂ w' w'') :
    Alike env₀ env₂ w w'' where
  max := second.max.trans first.max
  empty k := (second.empty k).trans (first.empty k)
  busy k := (second.busy k).trans (first.busy k)
  has k has := first.has k (second.has k has)

theorem Marked.listed {seqs : WSList → List Nat} (marked : Marked (s.globals.envs e) seqs) :
    Listed e (s.globals.envs e) s ⟨seqs, fun i => ((s.globals.envs e).lists.head i).ptrNext⟩ where
  rep := marked.lists
  next _ := rfl
  small i k mem := (marked.small i k mem).trans_le marked.fits
  elements := rfl
  maxSize := rfl
  activeSize := rfl
  secondSize := rfl

/-- What has changed is not about the flags. -/
theorem Marked.after {seqs : WSList → List Nat} (marked : Marked env₀ seqs)
    (listed : Listed e env₁ s' w') (alike : Alike env₀ env₁ ⟨seqs, w.next⟩ w') :
    Marked (s'.globals.envs e) w'.seqs := by
  have max : (s'.globals.envs e).pageWSMaxSize = env₀.pageWSMaxSize :=
    listed.maxSize.trans alike.max
  refine ⟨listed.rep, fun i k mem => ?_, ?_, fun k lt => ?_⟩
  · obtain ⟨j, mem'⟩ := alike.has k ⟨i, mem⟩
    exact max ▸ marked.small j k mem'
  · exact max ▸ marked.fits
  · rw [listed.elements, alike.empty, marked.flags k (max ▸ lt), ← WorkingSet.busy_iff,
      alike.busy, WorkingSet.busy_iff]

/-! ## Page faults -/

section Fault

variable {Q : Unit → Kernel → Prop}

/-- A program that leaves the working set alone. -/
theorem Listed.quiet {α : Type} {m : Prog α} {Q : α → Kernel → Prop} (listed : Listed e env₀ s w)
    (quiet : Quiet e m) (done : ∀ a s', Listed e env₀ s' w → Q a s') :
    wp m Q (fun _ _ => True) s :=
  quiet.wp (fun a s' same => done a s' (listed.same same)) fun _ _ _ _ => trivial

/-- An element of the second list changes places with the oldest active one. -/
theorem Listed.promote_marks (listed : Listed e env₀ s w) (mem : x ∈ w.seqs .secondList)
    (done : ∀ s' w', Listed e env₀ s' w' → Alike env₀ env₀ w w' → Q () s') :
    wp (promote e x) Q (fun _ _ => True) s := by
  simp only [promote, wp_bind]
  apply remove_wp listed mem
  intro s₁ listed₁
  apply listLast_wp listed₁
  cases last : ((w.remove .secondList x).seqs .activeList).getLast? with
  | none => trivial
  | some tmp =>
    have mem₁ : tmp ∈ (w.remove .secondList x).seqs .activeList := List.mem_of_getLast? last
    have loose : ¬ ((w.remove .secondList x).remove .activeList tmp).Has x := fun has =>
      listed.loose mem ((listed₁.has_remove mem₁).mp has).1
    have other : tmp ≠ x := fun eq => listed.loose mem ⟨_, eq ▸ mem₁⟩
    simp only [deref, wp_pure]
    apply remove_wp listed₁ mem₁
    intro s₂ listed₂
    apply insertHead_wp listed₂ loose (listed.small _ x mem)
    intro s₃ listed₃
    have loose₃ : ¬ (((w.remove .secondList x).remove .activeList tmp).insertHead .activeList x).Has
        tmp := fun has => (WorkingSet.has_insertHead.mp has).elim (listed₁.loose mem₁) other
    apply insertHead_wp listed₃ loose₃ (listed₁.small _ tmp mem₁)
    intro s₄ listed₄
    apply listed₄.quiet (steps_virtualAddress e x)
    intro va₁ s₅ listed₅
    apply listed₅.quiet (quiet_ptSetPagePermissions e e va₁ permPUW 0)
    intro _ s₆ listed₆
    apply listed₆.quiet (steps_virtualAddress e tmp)
    intro va₂ s₇ listed₇
    apply listed₇.quiet (quiet_ptSetPagePermissions e e va₂ 0 permPUW)
    intro _ s₈ listed₈
    refine done s₈ _ listed₈ ⟨rfl, fun _ => rfl, fun k => ?_, fun k has => ?_⟩
    · rw [WorkingSet.busy_insertHead (by simp), WorkingSet.busy_insertHead (by simp),
        listed₁.busy_remove mem₁ (by simp), listed.busy_remove mem (by simp)]
      have here : w.Busy x := ⟨_, by simp, mem⟩
      have there : w.Busy tmp :=
        ((listed.busy_remove mem (by simp)).mp ⟨_, by simp, mem₁⟩).1
      constructor
      · rintro ((⟨⟨busy, -⟩, -⟩ | rfl) | rfl)
        exacts [busy, here, there]
      · intro busy
        by_cases first : k = x
        · exact Or.inl (Or.inr first)
        · by_cases second : k = tmp
          · exact Or.inr second
          · exact Or.inl (Or.inl ⟨⟨busy, first⟩, second⟩)
    · rw [WorkingSet.has_insertHead, WorkingSet.has_insertHead, listed₁.has_remove mem₁,
        listed.has_remove mem] at has
      rcases has with (⟨⟨has, -⟩, -⟩ | rfl) | rfl
      · exact has
      · exact ⟨_, mem⟩
      · exact ((listed.has_remove mem).mp ⟨_, mem₁⟩).1

/-- The end of `Placement`: the new element is in use. -/
theorem Listed.placeElement_marks (listed : Listed e env₀ s w) (loose : ¬ w.Has x)
    (lt : x < pwsMaxSize)
    (done : ∀ s' w', Listed e env₀ s' w' → (∀ k, w'.Busy k ↔ w.Busy k ∨ k = x) →
      (∀ k, w'.Has k ↔ w.Has k ∨ k = x) → Q () s') :
    wp (placeElement e x) Q (fun _ _ => True) s := by
  simp only [placeElement, wp_bind]
  apply listSize_wp listed
  simp only [wp_getEnv, wp_ite]
  split
  · apply insertHead_wp listed loose lt
    intro s₁ listed₁
    exact done s₁ _ listed₁ (fun _ => WorkingSet.busy_insertHead (by simp))
      fun _ => WorkingSet.has_insertHead
  · rw [wp_bind]
    apply listLast_wp listed
    cases last : (w.seqs .activeList).getLast? with
    | none => trivial
    | some tmp =>
      have mem : tmp ∈ w.seqs .activeList := List.mem_of_getLast? last
      have other : tmp ≠ x := fun eq => loose (eq ▸ ⟨_, mem⟩)
      have loose₁ : ¬ (w.remove .activeList tmp).Has x := fun has =>
        loose ((listed.has_remove mem).mp has).1
      simp only [deref, wp_bind, wp_pure]
      apply remove_wp listed mem
      intro s₁ listed₁
      apply insertHead_wp listed₁ loose₁ lt
      intro s₂ listed₂
      have loose₂ : ¬ ((w.remove .activeList tmp).insertHead .activeList x).Has tmp := fun has =>
        (WorkingSet.has_insertHead.mp has).elim (listed.loose mem) other
      apply insertHead_wp listed₂ loose₂ (listed.small _ tmp mem)
      intro s₃ listed₃
      apply listed₃.quiet (steps_virtualAddress e tmp)
      intro va₁ s₄ listed₄
      apply listed₄.quiet (quiet_ptSetPagePermissions e e va₁ 0 permPUW)
      intro _ s₅ listed₅
      apply listed₅.quiet (steps_virtualAddress e x)
      intro va₂ s₆ listed₆
      apply listed₆.quiet (quiet_ptSetPagePermissions e e va₂ permPUW 0)
      intro _ s₇ listed₇
      have there : w.Busy tmp := ⟨_, by simp, mem⟩
      refine done s₇ _ listed₇ (fun k => ?_) fun k => ?_
      · rw [WorkingSet.busy_insertHead (by simp), WorkingSet.busy_insertHead (by simp),
          listed.busy_remove mem (by simp)]
        constructor
        · rintro ((⟨busy, -⟩ | new) | rfl)
          exacts [Or.inl busy, Or.inr new, Or.inl there]
        · rintro (busy | new)
          · exact (eq_or_ne k tmp).elim Or.inr fun ne => Or.inl (Or.inl ⟨busy, ne⟩)
          · exact Or.inl (Or.inr new)
      · rw [WorkingSet.has_insertHead, WorkingSet.has_insertHead, or_right_comm,
          listed.has_back mem]

/-- An element is given another page. -/
theorem Listed.setVirtualAddress (listed : Listed e env₀ s w) (x va : Nat) :
    Listed e (env₀.setVirtualAddress x va)
      (s.setGlobals (s.globals.setEnv e (Env.setVirtualAddress x va))) w := by
  refine ⟨?_, ?_, listed.small, ?_, ?_, ?_, ?_⟩ <;> rw [setEnv_envs]
  · exact listed.rep
  · exact listed.next
  · simp only [Env.setVirtualAddress, Env.setElement, listed.elements]
  · exact listed.maxSize
  · exact listed.activeSize
  · exact listed.secondSize

theorem Env.empty_setVirtualAddress (env : Env) (x va k : Nat) :
    ((env.setVirtualAddress x va).ptrPageWorkingSet k).empty = (env.ptrPageWorkingSet k).empty := by
  rcases eq_or_ne k x with rfl | ne
  · simp [Env.setVirtualAddress, Env.setElement]
  · simp [Env.setVirtualAddress, Env.setElement, ne]

theorem quiet_placePage (va : Nat) : Quiet e (placePage e va) := by
  have edits := edits_wsSame e
  refine (steps_pfReadEnvPage edits e va).bind fun ret => Steps.ite ?_ (steps_pure _)
  refine Steps.ite ?_ (steps_panic edits _)
  exact (steps_pfAddEmptyEnvPage edits e va false).bind fun _ =>
    (steps_panic edits _).ite (steps_pure _)

/-- `Placement` takes the last element of `PageWorkingSetList`. -/
theorem Listed.placement_marks (listed : Listed e env₀ s w) (mem : x ∈ w.seqs .pageWorkingSetList)
    (last : (w.seqs .pageWorkingSetList).getLast? = some x)
    (done : ∀ s' w', Listed e (env₀.setVirtualAddress x va) s' w' →
      (∀ k, w'.Busy k ↔ w.Busy k ∨ k = x) → (∀ k, w'.Has k ↔ w.Has k) → Q () s') :
    wp (placement e va) Q (fun _ _ => True) s := by
  have edits := freeEdits_wsSame e
  simp only [placement, wp_bind]
  apply listLast_wp listed
  simp only [last, deref, wp_pure, wp_modifyEnv]
  apply remove_wp (listed.setVirtualAddress x va) mem
  intro s₁ listed₁
  apply listed₁.quiet (quiet_allocateFrame e)
  intro f s₂ listed₂
  apply listed₂.quiet (quiet_envPageDirectory e e)
  intro dir s₃ listed₃
  apply listed₃.quiet (steps_mapFrame edits dir f va _)
  intro _ s₄ listed₄
  apply listed₄.quiet (quiet_placePage va)
  intro _ s₅ listed₅
  apply listed₅.placeElement_marks (listed.loose mem) (listed.small _ x mem)
  intro s₆ w₆ listed₆ busy has
  refine done s₆ w₆ listed₆ (fun k => ?_) fun k => ?_
  · rw [busy, WorkingSet.busy_remove_free]
  · rw [has, listed.has_back mem]

theorem quiet_writeBack (x : Nat) : Quiet e (writeBack e x) := by
  have edits := edits_wsSame e
  refine (steps_virtualAddress e x).bind fun va => ?_
  refine (steps_ptGetPagePermissions edits e va).bind fun perm => Steps.ite ?_ (steps_pure _)
  refine (steps_envPageDirectory edits e).bind fun dir => steps_get.bind fun t => ?_
  refine (steps_getPageTable edits dir _).bind fun _ =>
    (steps_getFrameInfo edits dir va).bind fun info => ?_
  exact (steps_deref edits _).bind fun f =>
    (steps_pfUpdateEnvPage edits e va f).bind fun _ => steps_pure _

/-- The victim goes back to `PageWorkingSetList`. -/
theorem Listed.releaseVictim_marks (listed : Listed e env₀ s w)
    (done : ∀ s' x, x ∈ w.seqs i →
      Listed e env₀ s' ((w.remove i x).insertHead .pageWorkingSetList x) → Q () s') :
    wp (releaseVictim e i) Q (fun _ _ => True) s := by
  have edits := freeEdits_wsSame e
  simp only [releaseVictim, wp_bind]
  apply listLast_wp listed
  cases last : (w.seqs i).getLast? with
  | none => trivial
  | some x =>
    have mem : x ∈ w.seqs i := List.mem_of_getLast? last
    simp only [deref, wp_pure]
    apply listed.quiet (quiet_writeBack x)
    intro _ s₁ listed₁
    apply remove_wp listed₁ mem
    intro s₂ listed₂
    apply insertHead_wp listed₂ (listed₁.loose mem) (listed.small _ x mem)
    intro s₃ listed₃
    apply listed₃.quiet (quiet_envPageDirectory e e)
    intro dir s₄ listed₄
    apply listed₄.quiet (steps_virtualAddress e x)
    intro va s₅ listed₅
    apply listed₅.quiet (quiet_unmapFrame e dir va)
    intro _ s₆ listed₆
    rw [wp_ite]
    split
    · rw [wp_bind]
      apply listed₆.quiet (steps_virtualAddress e x)
      intro va' s₇ listed₇
      apply listed₇.quiet (quiet_ptSetPagePermissions e e va' 0 _)
      exact fun _ s₈ listed₈ => done s₈ x mem listed₈
    · exact done s₆ x mem listed₆

/-- With no free element, the victim's is used again. -/
theorem Listed.replace_marks (listed : Listed e env₀ s w) (ne : i ≠ .pageWorkingSetList)
    (none : w.seqs .pageWorkingSetList = [])
    (done : ∀ s' env₁ w', Listed e env₁ s' w' → Alike env₀ env₁ w w' → Q () s') :
    wp (do
      releaseVictim e i
      placement e va) Q (fun _ _ => True) s := by
  rw [wp_bind]
  apply listed.releaseVictim_marks
  intro s₁ x mem listed₁
  have free : ((w.remove i x).insertHead .pageWorkingSetList x).seqs .pageWorkingSetList = [x] := by
    simp [Function.update_of_ne ne.symm, none]
  apply listed₁.placement_marks (x := x) (by simp [free]) (by simp [free])
  intro s₂ w₂ listed₂ busy has
  refine done s₂ _ w₂ listed₂ ⟨rfl, fun k => Env.empty_setVirtualAddress .., fun k => ?_,
    fun k has' => ?_⟩
  · rw [busy, WorkingSet.busy_insertHead_free, listed.busy_remove mem ne]
    have here : w.Busy x := ⟨i, ne, mem⟩
    constructor
    · rintro (⟨busy, -⟩ | rfl)
      exacts [busy, here]
    · exact fun busy => (eq_or_ne k x).elim Or.inr fun other => Or.inl ⟨busy, other⟩
  · rwa [has, WorkingSet.has_insertHead, listed.has_back mem] at has'

/-- A fault on a page of the second list, or without a free element, keeps the elements in use;
any other puts a free element on the active list, with its flag as it was. -/
theorem Listed.pageFaultHandler_marks (listed : Listed e env₀ s w)
    (kept : (w.seqs .pageWorkingSetList = [] ∨
        ∃ k ∈ w.seqs .secondList, env₀.address k = roundDown va) →
      ∀ s' env₁ w', Listed e env₁ s' w' → Alike env₀ env₁ w w' → Q () s')
    (placed : (∀ k ∈ w.seqs .secondList, env₀.address k ≠ roundDown va) →
      ∀ s' x w', x ∈ w.seqs .pageWorkingSetList → Listed e
        (env₀.setVirtualAddress x (roundDown va)) s' w' → w'.Busy x → Q () s') :
    wp (pageFaultHandler e va) Q (fun _ _ => True) s := by
  simp only [pageFaultHandler, wp_bind]
  apply listFirst_wp listed
  refine wsForeach_wp [] (fun n todo w' _ => todo.length = n ∧ w'.seqs = w.seqs ∧
    ∀ k ∈ w.seqs .secondList, k ∉ todo → env₀.address k ≠ roundDown va)
    (fun n todo w' b p inv => inv) ?_ ?_ ?_ (n := (w.seqs .secondList).length)
    ⟨rfl, rfl, fun k mem out => absurd mem out⟩ listed rfl (Nat.lt_succ_of_le (listed.length_le _))
  · rintro n x rest before w' b s' ⟨length, seqs, seen⟩ listed' at' next'
    rw [wp_bind]
    apply virtualAddress_wp listed'
    rw [wp_ite]
    split
    · rename_i here
      have mem : x ∈ w.seqs .secondList := by
        rw [← seqs, at']
        simp
      rw [wp_bind]
      apply listed'.promote_marks (seqs ▸ mem)
      exact fun s₁ w₁ listed₁ alike =>
        kept (Or.inr ⟨x, mem, here⟩) s₁ env₀ w₁ listed₁ ((Alike.of_seqs seqs).trans alike)
    · rename_i other
      refine ⟨rest, before ++ [x], w', ⟨by simpa using length, seqs, fun k mem out => ?_⟩, listed',
        by simpa using at', next'⟩
      rcases eq_or_ne k x with rfl | ne
      · exact other
      · exact seen k mem fun mem' => out ((List.mem_cons.mp mem').resolve_left ne)
  · rintro x rest w' b ⟨length, -⟩
    simp at length
  · rintro n w' b s' ⟨-, seqs, seen⟩ listed'
    simp only [wp_bind]
    apply listSize_wp listed'
    cases free : (w.seqs .pageWorkingSetList).getLast? with
    | some x =>
      have mem : x ∈ w'.seqs .pageWorkingSetList := seqs ▸ List.mem_of_getLast? free
      rw [if_pos (List.length_pos_of_mem mem)]
      apply listed'.placement_marks mem (seqs ▸ free)
      exact fun s₁ w₁ listed₁ busy _ =>
        placed (fun k there => seen k there (by simp)) s₁ x w₁ (seqs ▸ mem) listed₁
        ((busy x).mpr (Or.inr rfl))
    | none =>
      have none : w.seqs .pageWorkingSetList = [] := List.getLast?_eq_none_iff.mp free
      have none' : w'.seqs .pageWorkingSetList = [] := seqs ▸ none
      have alike : Alike env₀ env₀ w w' := Alike.of_seqs seqs
      have ends : ∀ s₁ env₁ w₁, Listed e env₁ s₁ w₁ → Alike env₀ env₁ w' w₁ → Q () s₁ :=
        fun s₁ env₁ w₁ listed₁ alike' =>
          kept (Or.inl none) s₁ env₁ w₁ listed₁ (alike.trans alike')
      rw [none', if_neg (by simp), wp_bind, wp_getEnv, wp_ite]
      split
      · exact listed'.replace_marks (by simp) none' ends
      · rw [wp_bind, wp_getEnv, wp_ite]
        split
        · exact listed'.replace_marks (by simp) none' ends
        · exact kept (Or.inl none) s' env₀ w' listed' alike

end Fault

/-! ## `freeMem` -/

/-- No element of the second list has the page. -/
theorem Listed.freeSecond_marks {Q : Pass Bool Unit → Kernel → Prop} (listed : Listed e env₀ s w)
    (out : ∀ k ∈ w.seqs .secondList, env₀.address k ≠ va)
    (done : ∀ found s' w', Listed e env₀ s' w' → w'.seqs = w.seqs →
      w'.next .activeList = w.next .activeList → Q (.next found) s') :
    wp (freeSecond e va) Q (fun _ _ => True) s := by
  simp only [freeSecond, wp_bind]
  apply listFirst_wp listed
  refine wsForeach_wp [] (fun n todo w' _ => todo.length = n ∧ w'.seqs = w.seqs ∧
    w'.next .activeList = w.next .activeList) (fun n todo w' b p inv => ?_) ?_ ?_ ?_
    (n := (w.seqs .secondList).length) ⟨rfl, rfl, rfl⟩ listed rfl
    (Nat.lt_succ_of_le (listed.length_le _))
  · exact ⟨inv.1, inv.2.1, by simpa using inv.2.2⟩
  · rintro n x rest before w' found s' ⟨length, seqs, next⟩ listed' at' next'
    have mem : x ∈ w.seqs .secondList := by
      rw [← seqs, at']
      simp
    rw [wp_bind]
    apply virtualAddress_wp listed'
    have other : ¬ (env₀.ptrPageWorkingSet x).virtualAddress = va := out x mem
    rw [wp_ite, if_neg other]
    exact ⟨rest, before ++ [x], w', ⟨by simpa using length, seqs, next⟩, listed',
      by simpa using at', next'⟩
  · rintro x rest w' b ⟨length, -⟩
    simp at length
  · rintro n w' found s' ⟨-, seqs, next⟩ listed'
    exact done found s' w' listed' seqs next

/-- The active list is empty, or none of the pages is on one of the two lists. -/
def WorkingSet.Spared (w : WorkingSet) (env : Env) (vas : List Nat) : Prop :=
  w.seqs .activeList = [] ∨ ∀ k, w.Busy k → env.address k ∉ vas

/-- A pass of the loop over the pages. -/
theorem Listed.freePage_marks {Q : Unit → Kernel → Prop} (listed : Listed e env₀ s w)
    (spared : w.Spared env₀ [va])
    (done : ∀ s' w', Listed e env₀ s' w' → w'.seqs = w.seqs → Q () s') :
    wp (freePage e va) Q (fun _ _ => True) s := by
  simp only [freePage, wp_bind]
  apply listed.quiet (quiet_pfRemoveEnvPage e e va)
  intro _ s₀ listed₀
  apply listFirst_wp listed₀
  refine wsForeach_wp [] (fun n todo w' _ => todo.length = n ∧ w'.seqs = w.seqs)
    (fun n todo w' b p inv => inv) ?_ ?_ ?_ (n := (w.seqs .activeList).length)
    ⟨rfl, rfl⟩ listed₀ rfl
    (Nat.lt_succ_of_le (listed.length_le _))
  · rintro n x rest before w₁ found s₁ ⟨length, seqs⟩ listed₁ at_ next
    have mem : x ∈ w.seqs .activeList := by
      rw [← seqs, at_]
      simp
    have out : ∀ k, w.Busy k → env₀.address k ≠ va := by
      rcases spared with none | out
      · simp [none] at mem
      · simpa using out
    have at' : w₁.seqs .activeList = (before ++ [x]) ++ rest := by simpa using at_
    simp only [wp_bind]
    apply virtualAddress_wp listed₁
    have other : ¬ (env₀.ptrPageWorkingSet x).virtualAddress = va := out x ⟨_, by simp, mem⟩
    rw [wp_ite, if_neg other]
    simp only [wp_bind, wp_pure]
    rw [wp_ite]
    split
    · exact ⟨rest, before ++ [x], w₁, ⟨by simpa using length, seqs⟩, listed₁, at', next⟩
    · apply listed₁.freeSecond_marks fun k there => out k ⟨_, by simp, seqs ▸ there⟩
      intro found' s₂ w₂ listed₂ seqs₂ next₂
      exact ⟨rest, before ++ [x], w₂, ⟨by simpa using length, seqs₂.trans seqs⟩, listed₂,
        seqs₂ ▸ at', next₂.trans next⟩
  · rintro x rest w' b ⟨length, -⟩
    simp at length
  · rintro n w₁ found s₁ ⟨-, seqs⟩ listed₁
    exact done s₁ w₁ listed₁ seqs

/-- No page of the range is in use. -/
theorem Listed.freeMem_marks {size : Nat} {Q : Unit → Kernel → Prop} (listed : Listed e env₀ s w)
    (spared : w.Spared env₀ (freedPages va size))
    (done : ∀ s' w', Listed e env₀ s' w' → Alike env₀ env₀ w w' → Q () s') :
    wp (freeMem e va size) Q (fun _ _ => True) s := by
  simp only [freeMem, wp_bind]
  refine wp_forM (fun rest s' => (∀ i ∈ rest, (va + i * pageSize) % word32 ∈ freedPages va size) ∧
    ∃ w', Listed e env₀ s' w' ∧ w'.seqs = w.seqs) ?_ ?_
    ⟨fun i mem => List.mem_map_of_mem mem, w, listed, rfl⟩
  · rintro i rest s₁ ⟨pages, w₁, listed₁, seqs⟩
    apply listed₁.freePage_marks
    · rw [WorkingSet.Spared, seqs]
      refine spared.imp_right fun out k busy => ?_
      rw [List.mem_singleton]
      rw [WorkingSet.busy_iff, seqs, ← WorkingSet.busy_iff] at busy
      exact fun here => out k busy (here ▸ pages i (by simp))
    · intro s₂ w₂ listed₂ seqs₂
      exact ⟨fun i' mem => pages i' (by simp [mem]), w₂, listed₂, seqs₂.trans seqs⟩
  · rintro s₁ ⟨-, w₁, listed₁, seqs⟩
    exact wp_mono (quiet_freeEmptyTables_ok 1025)
      (fun _ s₂ same => done s₂ w₁ (listed₁.same same) (Alike.of_seqs seqs)) fun _ _ h => h

end Fos
