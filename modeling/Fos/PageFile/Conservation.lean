import Mathlib.Algebra.BigOperators.Fin
import Fos.PageFile.Run

/-!
# No disk frame is lost or given out twice

* `Conserved`: the entries of the disk page tables and `disk_free_frame_list` share out the
  disk frames from 1 on, read off the kernel's state;
* `FileReach.conserved`: so it is in every state that page-file operations lead to, and
  `pf_calculate_allocated_pages` counts the pages in the book.
-/

namespace Fos

open Arena Linked Exec

variable {s : Kernel} {v : View} {b : Book} {z : Page} {e : Nat}

/-- The entry of a disk page table for a page, 0 if the table or the directory is missing. -/
def Kernel.diskEntry (s : Kernel) (e : Nat) (p : PageNo) : Word :=
  match (s.globals.envs e).diskEnvPgdir with
  | none => 0
  | some dir =>
    if s.mem dir p.1 = 0 then 0 else s.mem (frameOf (s.mem dir p.1)) p.2

/-- Every disk frame from 1 on is on the free list, once, or in one entry. -/
structure Conserved (s : Kernel) (free : List Nat) : Prop where
  list : s.diskFreeFrameList.Rep s.diskLinks free
  nodup : free.Nodup
  free_range : ∀ d ∈ free, 1 ≤ d ∧ d < pagesPerFile
  range : ∀ e p, s.diskEntry e p ≠ 0 → 1 ≤ (s.diskEntry e p).toNat ∧
    (s.diskEntry e p).toNat < pagesPerFile
  distinct : ∀ e p e' p', s.diskEntry e p ≠ 0 → s.diskEntry e p = s.diskEntry e' p' →
    e = e' ∧ p = p'
  disjoint : ∀ e p, s.diskEntry e p ≠ 0 → (s.diskEntry e p).toNat ∉ free
  cover : ∀ d, 1 ≤ d → d < pagesPerFile → d ∈ free ∨ ∃ e p, (s.diskEntry e p).toNat = d

theorem Sound.diskEntry (sound : Sound s v) (e : Nat) (p : PageNo) :
    s.diskEntry e p = v.entry e p := by
  have child : (Obj.diskDir e).child p.1 = some (.diskTable e p.1) := rfl
  rw [Kernel.diskEntry, sound.rep.globals, (sound.diskLinked e).dir]
  cases dir : v.place (.diskDir e) with
  | none =>
    have empty : v.page (.diskDir e) p.1 = 0 := congrFun (sound.rep.wf.absent _ dir) _
    exact (congrFun (sound.rep.wf.absent _ ((sound.rep.place_none child).mpr empty)) _).symm
  | some d =>
    simp only [sound.rep.mem dir]
    by_cases entry : v.page (.diskDir e) p.1 = 0
    · rw [if_pos entry]
      exact (congrFun (sound.rep.wf.absent _ ((sound.rep.place_none child).mpr entry)) _).symm
    · rw [if_neg entry, sound.rep.mem (sound.rep.place_child child entry), View.entry]

theorem Sound.conserves (sound : Sound s v) : Conserved s v.diskFree where
  list := sound.rep.diskFree
  nodup := sound.pageFile.nodup
  free_range := sound.pageFile.free_range
  range e p page := by
    rw [sound.diskEntry] at page ⊢
    refine ⟨Nat.pos_of_ne_zero fun zero => page (BitVec.eq_of_toNat_eq zero), ?_⟩
    exact sound.pageFile.range e p.1 p.2 page
  distinct e p e' p' page same := by
    rw [sound.diskEntry] at page
    rw [sound.diskEntry, sound.diskEntry] at same
    obtain ⟨rfl, eq₁, eq₂⟩ := sound.pageFile.inj e p.1 p.2 e' p'.1 p'.2 page same
    exact ⟨rfl, Prod.ext eq₁ eq₂⟩
  disjoint e p page := by
    rw [sound.diskEntry] at page ⊢
    exact sound.pageFile.apart e p.1 p.2 page
  cover d pos lt := by
    rcases sound.pageFile.cover d pos lt with free | ⟨e, i, j, eq⟩
    · exact Or.inl free
    · exact Or.inr ⟨e, (i, j), by rw [sound.diskEntry, View.entry, eq]⟩

/-! ## Counting -/

/-- The number of pages of an environment that are in the book. -/
def Book.count (b : Book) (e : Nat) : Nat :=
  (Finset.univ.filter fun p : PageNo => b e p ≠ none).card

theorem countEntries_eq (p : Page) : countEntries p = ∑ j, if p j ≠ 0 then 1 else 0 := by
  rw [← Finset.card_filter, countEntries, List.countP_eq_length_filter,
    ← List.toFinset_card_of_nodup (nodup_tableEntries.filter _)]
  refine congrArg Finset.card (Finset.ext fun j => ?_)
  simp [mem_tableEntries]

theorem nodup_userEntries : userEntries.Nodup := by
  unfold userEntries
  exact (List.nodup_finRange 1024).filter _

/-- The count over the tables below `USER_TOP` is the count over all pages. -/
theorem View.Records.count (records : v.Records b) (pf : PageFile v) (rep : Rep s v) :
    v.countIn e userEntries = b.count e := by
  have tables : ∀ i, i ∉ userEntries → countEntries (v.page (.diskTable e i)) = 0 := by
    intro i high
    rw [mem_userEntries, Fin.not_lt] at high
    have absent := (rep.place_none (o := .diskDir e) rfl).mpr (pf.high e i high)
    rw [rep.wf.absent _ absent]
    exact countEntries_zeroes
  have listed : v.countIn e userEntries = ∑ i, countEntries (v.page (.diskTable e i)) := by
    rw [View.countIn, ← List.sum_toFinset _ nodup_userEntries]
    exact Finset.sum_subset (Finset.subset_univ _) fun i _ notin =>
      tables i (by simpa using notin)
  rw [listed, Book.count, Finset.card_filter, Fintype.sum_prod_type]
  refine Finset.sum_congr rfl fun i _ => ?_
  rw [countEntries_eq]
  refine Finset.sum_congr rfl fun j _ => ?_
  have pages := records.pages e (i, j)
  rw [View.entry] at pages
  simp only [ne_eq, pages]

/-- The program returns `a` and leaves the state as it is. -/
abbrev Reports {α : Type} (m : Prog α) (s : Kernel) (a : α) : Prop := m s = .ok a s

theorem Tracks.calculate (tracks : Tracks z s b v) (e : Nat) :
    Reports (pfCalculateAllocatedPages e) s (b.count e) ↔
      (s.globals.envs e).diskEnvPgdir ≠ none := by
  have pointer : (s.globals.envs e).diskEnvPgdir = v.place (.diskDir e) := by
    rw [tracks.rep.globals, (tracks.diskLinked e).dir]
  rw [pointer]
  cases dir : v.place (.diskDir e) with
  | none =>
    refine iff_of_false (fun reports => ?_) (by simp)
    have crash := pfCalculateAllocatedPages_none_wp (Q := fun _ _ => False)
      (E := fun _ _ => True) tracks.rep (tracks.diskLinked e) dir trivial
    exact (wp_ok reports).mp crash
  | some d =>
    refine iff_of_true ?_ (by simp)
    have done := pfCalculateAllocatedPages_wp (Q := fun n s' => n = b.count e ∧ s' = s)
      (E := fun _ _ => False) tracks.rep (tracks.diskLinked e) dir
      ⟨tracks.records.count tracks.pageFile tracks.rep, rfl⟩
    rw [wp] at done
    cases run : pfCalculateAllocatedPages e s with
    | ok n s' =>
      rw [run] at done
      obtain ⟨count, same⟩ : n = b.count e ∧ s' = s := done
      rw [Reports, run, count, same]
    | error x s' =>
      rw [run] at done
      exact done.elim

/-- `pf_free_env` comes back for an environment that has a disk page directory. -/
theorem Tracks.free_returns (tracks : Tracks z s b v) (e : Nat) :
    (∃ s', pfFreeEnv e s = .ok () s') ↔ (s.globals.envs e).diskEnvPgdir ≠ none := by
  have pointer : (s.globals.envs e).diskEnvPgdir = v.place (.diskDir e) := by
    rw [tracks.rep.globals, (tracks.diskLinked e).dir]
  rw [pointer]
  have ends := pfFreeEnv_wp (Q := fun _ _ => v.place (.diskDir e) ≠ none)
    (E := fun _ _ => v.place (.diskDir e) = none) tracks.rep (tracks.diskLinked e)
    tracks.pageFile (fun _ _ dir _ _ _ => dir) id
  rw [wp] at ends
  cases run : pfFreeEnv e s with
  | ok u s' =>
    rw [run] at ends
    exact iff_of_true ⟨s', rfl⟩ ends
  | error x s' =>
    rw [run] at ends
    exact iff_of_false (by rintro ⟨_, ⟨⟩⟩) (not_not.mpr ends)

/-- **The page file is conserved.**  In every state that operations on the page file lead
to, each disk frame from 1 on is on the free list or belongs to one page, and
`pf_calculate_allocated_pages` returns the number of pages added and not removed since,
exactly if the environment has a disk page directory; so does `pf_free_env` return. -/
theorem FileReach.conserved {m : Machine} (reach : FileReach m s b) :
    (∃ free, Conserved s free) ∧ ∀ e,
      (Reports (pfCalculateAllocatedPages e) s (b.count e) ↔
        (s.globals.envs e).diskEnvPgdir ≠ none) ∧
      ((∃ s', pfFreeEnv e s = .ok () s') ↔ (s.globals.envs e).diskEnvPgdir ≠ none) := by
  obtain ⟨v, tracks⟩ := reach.tracked
  exact ⟨⟨_, tracks.conserves⟩, fun e => ⟨tracks.calculate e, tracks.free_returns e⟩⟩

/-- Nothing was added for environment 0, and counting its pages follows a null pointer. -/
theorem calculate_new : ¬ ∀ (m : Machine) (s : Kernel) (b : Book), FileReach m s b → ∀ e,
    ∃ s', pfCalculateAllocatedPages e s = .ok (b.count e) s' := by
  intro counts
  obtain ⟨s', run⟩ := counts smallMachine _ _ .boot 0
  have crash := pfCalculateAllocatedPages_none_wp (Q := fun _ _ => False)
    (E := fun _ _ => True) smallMachine.rep_boot (smallMachine.diskLinked_boot 0)
    (smallMachine.place_bootView (by simp) (by simp)) trivial
  exact (wp_ok run).mp crash

/-! ## A run with several environments -/

/-- One member of a family changes. -/
theorem card_update {α β : Type} [Fintype α] [DecidableEq α] [DecidableEq β] (f : α → Option β)
    (p : α) (c : Option β) :
    (Finset.univ.filter fun q => Function.update f p c q ≠ none).card +
    (if f p = none then 0 else 1) =
      (Finset.univ.filter fun q => f q ≠ none).card + if c = none then 0 else 1 := by
  have others : ∑ q ∈ Finset.univ.erase p, (if Function.update f p c q ≠ none then 1 else 0) =
      ∑ q ∈ Finset.univ.erase p, if f q ≠ none then 1 else 0 := by
    refine Finset.sum_congr rfl fun q mem => ?_
    rw [Function.update_of_ne (Finset.mem_erase.mp mem).1]
  rw [Finset.card_filter, Finset.card_filter, ← Finset.add_sum_erase _ _ (Finset.mem_univ p),
    others,
    ← Finset.add_sum_erase _ (fun q => if f q ≠ none then 1 else 0) (Finset.mem_univ p),
    Function.update_self]
  simp only [ne_eq, ite_not]
  omega

/-- One entry of the book changes. -/
theorem Book.count_set (b : Book) (e : Nat) (p : PageNo) (c : Option (Option Page)) :
    (b.set e p c).count e + (if b e p = none then 0 else 1) =
      b.count e + if c = none then 0 else 1 := by
  have row : (b.set e p c) e = Function.update (b e) p c := Function.update_self ..
  rw [Book.count, row]
  exact card_update (b e) p c

theorem Book.count_set_of_ne {e' : Nat} {p : PageNo} {c : Option (Option Page)} (ne : e ≠ e') :
    (b.set e' p c).count e = b.count e := by
  have row : (b.set e' p c) e = b e := Function.update_of_ne ne ..
  rw [Book.count, row, Book.count]

/-- What a call that has returned `r` makes of the number of pages of `e` in the book. -/
def FileCall.counts (e : Nat) (r : Int) (b : Book) (n : Nat) : FileCall → Nat
  | .add e' va _ | .addEmpty e' va _ | .update e' va _ =>
    if r = 0 ∧ e = e' ∧ b e (pageNo va) = none then n + 1 else n
  | .remove e' va => if e = e' ∧ b e (pageNo va) ≠ none then n - 1 else n
  | .free e' => if e = e' then 0 else n
  | _ => n

theorem FileCall.count_book (call : FileCall) (e : Nat) (r : Int) (b : Book) :
    (call.book s r b).count e = call.counts e r b (b.count e) := by
  have sets : ∀ e' va c, c ≠ none → (if r = 0 then b.set e' (pageNo va) c else b).count e =
      if r = 0 ∧ e = e' ∧ b e (pageNo va) = none then b.count e + 1 else b.count e := by
    intro e' va c some
    by_cases done : r = 0
    · rcases eq_or_ne e e' with rfl | ne
      · have one := b.count_set e (pageNo va) c
        rw [if_neg some] at one
        rw [if_pos done]
        by_cases new : b e (pageNo va) = none
        · rw [if_pos new, Nat.add_zero] at one
          rw [if_pos ⟨done, rfl, new⟩]
          exact one
        · rw [if_neg new] at one
          have old : ¬ (r = 0 ∧ e = e ∧ b e (pageNo va) = none) := fun h => new h.2.2
          rw [if_neg old]
          exact Nat.add_right_cancel one
      · rw [if_pos done, Book.count_set_of_ne ne, if_neg fun h => ne h.2.1]
    · rw [if_neg done, if_neg fun h => done h.1]
  cases call with
  | add e' va data => exact sets e' va _ (by simp)
  | addEmpty e' va initializeByZero => cases initializeByZero <;> exact sets e' va _ (by simp)
  | update e' va f => exact sets e' va _ (by simp)
  | remove e' va =>
    show (b.set e' (pageNo va) none).count e = if _ then _ else _
    rcases eq_or_ne e e' with rfl | ne
    · have one := b.count_set e (pageNo va) none
      rw [if_pos rfl, Nat.add_zero] at one
      by_cases there : b e (pageNo va) = none
      · rw [if_pos there, Nat.add_zero] at one
        have out : ¬ (e = e ∧ b e (pageNo va) ≠ none) := fun h => h.2 there
        rw [if_neg out]
        exact one
      · rw [if_neg there] at one
        rw [if_pos ⟨rfl, there⟩]
        omega
    · rw [Book.count_set_of_ne ne, if_neg fun h => ne h.1]
  | free e' =>
    show (b.clear e').count e = if _ then _ else _
    rcases eq_or_ne e e' with rfl | ne
    · have row : (b.clear e) e = fun _ => none := Function.update_self ..
      rw [if_pos rfl, Book.count, row]
      simp
    · have row : (b.clear e') e = b e := Function.update_of_ne ne ..
      rw [if_neg ne, Book.count, row, Book.count]
  | _ => rfl

/-- Calls one after the other, each where it is legal, with the book and the number of pages of
`e` in it. -/
def Kernel.calls (e : Nat) (s : Kernel) (b : Book) (n : Nat) :
    List FileCall → Option (Kernel × Book × Nat)
  | [] => some (s, b, n)
  | call :: rest =>
    if call.Legal s then
      match call.prog s with
      | .ok r s' => s'.calls e (call.book s r b) (call.counts e r b n) rest
      | .error _ _ => none
    else none

theorem FileReach.calls {m : Machine} {s' : Kernel} {b' : Book} {n' : Nat} {rest : List FileCall}
    (reach : FileReach m s b) (ends : s.calls e b (b.count e) rest = some (s', b', n')) :
    FileReach m s' b' ∧ b'.count e = n' := by
  induction rest generalizing s b with
  | nil =>
    cases ends
    exact ⟨reach, rfl⟩
  | cons call rest ih =>
    rw [Kernel.calls] at ends
    split at ends
    · rename_i legal
      split at ends
      · rename_i run
        rw [← FileCall.count_book] at ends
        exact ih (reach.returns call legal run) ends
      · cases ends
    · cases ends

theorem FileReach.calls_boot {s' : Kernel} {b' : Book} {n' : Nat} {rest : List FileCall}
    (ends : bootKernel.calls e (fun _ _ => none) 0 rest = some (s', b', n')) :
    FileReach smallMachine s' b' ∧ b'.count e = n' := by
  have none : Book.count (fun _ _ => none) e = 0 := by simp [Book.count]
  have start := FileReach.boot (m := smallMachine)
  rw [boot_smallMachine] at start
  exact start.calls (none.symm ▸ ends)

/-- Another environment is freed. -/
theorem Tracks.freed_other {e' : Nat} (tracks : Tracks z s b v) (ne : e ≠ e')
    (dir : (s.globals.envs e').diskEnvPgdir ≠ none) : ∃ s', pfFreeEnv e' s = .ok () s' ∧
      (s'.globals.envs e).diskEnvPgdir = (s.globals.envs e).diskEnvPgdir := by
  rw [tracks.rep.globals, (tracks.diskLinked e').dir] at dir
  obtain ⟨_, s', run, same⟩ := wp_returns (pfFreeEnv_wp (Q := fun _ s' =>
      (s'.globals.envs e).diskEnvPgdir = (s.globals.envs e).diskEnvPgdir) (E := fun _ _ => False)
    tracks.rep (tracks.diskLinked e') tracks.pageFile (fun s' v' _ rep' _ freed => by
      rw [rep'.globals, freed.globals, tracks.rep.globals]
      simp [Globals.setEnv, ne]) dir)
  exact ⟨s', run, same⟩

/-- The environments 1 and 2 add pages, and 1 stores one of them again and removes another. -/
abbrev pageCalls : List FileCall :=
  [.add 1 0x800000 fun _ => 5, .addEmpty 1 0x801000 true, .add 2 0x800000 fun _ => 6,
    .update 1 0x800000 700, .remove 1 0x801000, .addEmpty 1 0x80000000 false]

/-- Then 2 is freed, and 1 still has its two pages. -/
theorem conserved_pages : ∃ s₁ b n s,
    bootKernel.calls 1 (fun _ _ => none) 0 pageCalls = some (s₁, b, n) ∧ pfFreeEnv 2 s₁ = .ok () s ∧
      (∃ free, Conserved s free) ∧ Reports (pfCalculateAllocatedPages 1) s 2 := by
  have ends : (bootKernel.calls 1 (fun _ _ => none) 0 pageCalls).any (fun r =>
      r.2.2 = 2 ∧ (r.1.globals.envs 1).diskEnvPgdir ≠ none ∧
        (r.1.globals.envs 2).diskEnvPgdir ≠ none) = true := by
    decide +kernel
  obtain ⟨⟨s₁, b, n⟩, run, ends⟩ := (Option.any_eq_true _ _).mp ends
  obtain ⟨two, dir, dir'⟩ : n = 2 ∧ (s₁.globals.envs 1).diskEnvPgdir ≠ none ∧
    (s₁.globals.envs 2).diskEnvPgdir ≠ none := of_decide_eq_true ends
  obtain ⟨reach, count⟩ := FileReach.calls_boot run
  obtain ⟨v, tracks⟩ := reach.tracked
  obtain ⟨s, freed, same⟩ := tracks.freed_other (e := 1) (by decide) dir'
  have call : (FileCall.free 2).prog s₁ = .ok 0 s := by
    simp only [FileCall.prog, bind, EStateM.bind, freed]
    rfl
  have reach' := reach.returns (.free 2) trivial call
  obtain ⟨conserved, counts⟩ := reach'.conserved
  have pages := FileCall.count_book (s := s₁) (.free 2) 1 0 b
  rw [count, two] at pages
  have counted := (counts 1).1.mpr (by rw [same]; exact dir)
  rw [pages] at counted
  exact ⟨s₁, b, n, s, run, freed, conserved, counted⟩

end Fos
