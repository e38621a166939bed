import Fos.WorkingSet.Lists

/-!
# The working set after `freeMem`

`freeMem` takes the pages of a range out of the working set.  An element that it finds on
the second list goes back to `PageWorkingSetList`; one that it finds on the active list is
taken off that list and put on no other.

* `Freed`: what a pass of the loop over the pages does to the lists;
* `freePage_wp`, `freePages_wp`: that it does, one pass and the whole loop;
* `freeMem_partition_iff`: every element stays on a list exactly if no page of the range is
  on the active list.
-/

namespace Fos

open Exec Linked

/-- `elm->virtual_address`. -/
def Env.address (env : Env) (k : Nat) : Nat := (env.ptrPageWorkingSet k).virtualAddress

variable {e va : Nat} {env₀ : Env} {s s' : Kernel} {w w' w'' : WorkingSet} {x : Nat}

/-! ## Elements that are taken off a list -/

namespace WorkingSet

theorem has_remove (mem : x ∈ w.seqs i) (nodup : (w.seqs i).Nodup)
    (only : ∀ j, x ∈ w.seqs j → j = i) {k : Nat} :
    (w.remove i x).Has k ↔ w.Has k ∧ k ≠ x := by
  constructor
  · rintro ⟨j, mem'⟩
    rcases eq_or_ne j i with rfl | ne
    · simp only [remove_seqs, Function.update_self, nodup.mem_erase_iff] at mem'
      exact ⟨⟨j, mem'.2⟩, mem'.1⟩
    · simp only [remove_seqs, Function.update_of_ne ne] at mem'
      refine ⟨⟨j, mem'⟩, ?_⟩
      rintro rfl
      exact ne (only j mem')
  · rintro ⟨⟨j, mem'⟩, ne⟩
    rcases eq_or_ne j i with rfl | ne'
    · exact ⟨j, by simpa [nodup.mem_erase_iff] using ⟨ne, mem'⟩⟩
    · exact ⟨j, by simpa [Function.update_of_ne ne'] using mem'⟩

theorem has_insertHead {i : WSList} {k : Nat} : (w.insertHead i x).Has k ↔ w.Has k ∨ k = x := by
  constructor
  · rintro ⟨j, mem⟩
    rcases eq_or_ne j i with rfl | ne
    · simp only [insertHead_seqs, Function.update_self, List.mem_cons] at mem
      exact mem.symm.imp_left fun mem => ⟨j, mem⟩
    · simp only [insertHead_seqs, Function.update_of_ne ne] at mem
      exact Or.inl ⟨j, mem⟩
  · rintro (⟨j, mem⟩ | rfl)
    · rcases eq_or_ne j i with rfl | ne
      · exact ⟨j, by simp [mem]⟩
      · exact ⟨j, by simpa [Function.update_of_ne ne] using mem⟩
    · exact ⟨i, by simp⟩

theorem has_insertTail {i : WSList} {k : Nat} : (w.insertTail i x).Has k ↔ w.Has k ∨ k = x := by
  constructor
  · rintro ⟨j, mem⟩
    rcases eq_or_ne j i with rfl | ne
    · simp only [insertTail_seqs, Function.update_self, List.mem_append,
        List.mem_singleton] at mem
      exact mem.imp_left fun mem => ⟨j, mem⟩
    · simp only [insertTail_seqs, Function.update_of_ne ne] at mem
      exact Or.inl ⟨j, mem⟩
  · rintro (⟨j, mem⟩ | rfl)
    · rcases eq_or_ne j i with rfl | ne
      · exact ⟨j, by simp [mem]⟩
      · exact ⟨j, by simpa [Function.update_of_ne ne] using mem⟩
    · exact ⟨i, by simp⟩

end WorkingSet

theorem Listed.has_remove {i : WSList} {k : Nat} (listed : Listed e env₀ s w)
    (mem : x ∈ w.seqs i) : (w.remove i x).Has k ↔ w.Has k ∧ k ≠ x :=
  WorkingSet.has_remove mem (listed.nodup i) fun _ there => listed.only there mem

theorem Listed.loose {i : WSList} (listed : Listed e env₀ s w) (mem : x ∈ w.seqs i) :
    ¬ (w.remove i x).Has x := fun has => ((listed.has_remove mem).mp has).2 rfl

/-- An element that goes to another list stays on one. -/
theorem Listed.has_back {i : WSList} {k : Nat} (listed : Listed e env₀ s w)
    (mem : x ∈ w.seqs i) : (w.remove i x).Has k ∨ k = x ↔ w.Has k := by
  rw [listed.has_remove mem]
  constructor
  · rintro (⟨has, -⟩ | rfl)
    · exact has
    · exact ⟨i, mem⟩
  · intro has
    exact (eq_or_ne k x).symm.imp_left fun ne => ⟨has, ne⟩

/-! ## The loop over the second list -/

/-- Elements of the second list have gone back to `PageWorkingSetList`. -/
structure GoneBack (w w' : WorkingSet) : Prop where
  active : w'.seqs .activeList = w.seqs .activeList
  next : w'.next .activeList = w.next .activeList
  second : (w'.seqs .secondList).length ≤ (w.seqs .secondList).length
  has : ∀ k, w'.Has k ↔ w.Has k

theorem GoneBack.refl (w : WorkingSet) : GoneBack w w := ⟨rfl, rfl, le_rfl, fun _ => Iff.rfl⟩

theorem GoneBack.trans (first : GoneBack w w') (second : GoneBack w' w'') : GoneBack w w'' :=
  ⟨second.active.trans first.active, second.next.trans first.next,
    second.second.trans first.second, fun k => (second.has k).trans (first.has k)⟩

theorem GoneBack.save (w : WorkingSet) (p : Option Nat) : GoneBack w (w.save .secondList p) :=
  ⟨rfl, by simp, le_rfl, fun _ => Iff.rfl⟩

/-- An element goes from the second list to `PageWorkingSetList`. -/
def WorkingSet.goBack (w : WorkingSet) (x : Nat) : WorkingSet :=
  (w.remove .secondList x).insertHead .pageWorkingSetList x

theorem Listed.goneBack (listed : Listed e env₀ s w) (mem : x ∈ w.seqs .secondList) :
    GoneBack w (w.goBack x) where
  active := by simp [WorkingSet.goBack]
  next := rfl
  second := by
    simp only [WorkingSet.goBack, WorkingSet.insertHead_seqs, WorkingSet.remove_seqs, ne_eq,
      reduceCtorEq, not_false_eq_true, Function.update_of_ne, Function.update_self]
    exact List.length_erase_le
  has k := by
    rw [WorkingSet.goBack, WorkingSet.has_insertHead]
    exact listed.has_back mem

theorem freeSecond_wp {Q : Pass Bool Unit → Kernel → Prop} {E : Stop → Kernel → Prop}
    (listed : Listed e env₀ s w)
    (done : ∀ found s' w', Listed e env₀ s' w' → GoneBack w w' → Q (.next found) s')
    (stops : ∀ x s', x ≠ .spins → E x s') : wp (freeSecond e va) Q E s := by
  simp only [freeSecond, wp_bind]
  apply listFirst_wp listed
  refine wsForeach_wp (n := (w.seqs .secondList).length) []
    (fun n todo w₁ _ => todo.length ≤ n ∧ GoneBack w w₁) (fun n todo w₁ b p inv =>
      ⟨inv.1, inv.2.trans (GoneBack.save w₁ p)⟩) ?_ (fun x rest w₁ b inv => by simp at inv)
    (fun n w₁ b s₁ inv listed₁ => done b s₁ w₁ listed₁ inv.2) ⟨le_rfl, GoneBack.refl w⟩ listed rfl
    (Nat.lt_succ_of_le (listed.length_le _))
  rintro n x rest before w₁ found s₁ ⟨bound, inv⟩ listed₁ at_ next
  have bound' : rest.length ≤ n := Nat.le_of_succ_le_succ bound
  have mem : x ∈ w₁.seqs .secondList := at_ ▸ by simp
  simp only [wp_bind]
  apply virtualAddress_wp listed₁
  rw [wp_ite]
  split
  · simp only [wp_bind]
    apply remove_wp listed₁ mem
    intro s₂ listed₂
    apply insertHead_wp listed₂ (listed₁.loose mem) (listed₁.small _ x mem)
    intro s₃ listed₃
    refine (quiet_envPageDirectory e e).wp
      (fun dir s₄ same => ?_) fun y s₄ stop _ => stops y s₄ stop
    refine (quiet_unmapFrame e dir va).wp (fun _ s₅ same' => ?_) fun y s₅ stop _ => stops y s₅ stop
    have notin : x ∉ before := fun out => by
      have nodup := at_ ▸ listed₁.nodup .secondList
      exact (List.nodup_append.mp nodup).2.2 x out x (by simp) rfl
    refine ⟨rest, before, w₁.goBack x, ⟨bound', inv.trans (listed₁.goneBack mem)⟩,
      (listed₃.same same).same same', ?_, next⟩
    simp [WorkingSet.goBack, at_, List.erase_append_right _ notin]
  · exact ⟨rest, before ++ [x], w₁, ⟨bound', inv⟩, listed₁, by simp [at_], next⟩

/-! ## The loop over the active list -/

/-- What freeing the page at `va` does: nothing is added to the lists; without an active
element that has the page no element is lost, and with one an element is. -/
structure Freed (addr : Nat → Nat) (va : Nat) (w w' : WorkingSet) : Prop where
  sub : ∀ k, w'.Has k → w.Has k
  keeps : (∀ k ∈ w.seqs .activeList, addr k ≠ va) →
    w'.seqs .activeList = w.seqs .activeList ∧ ∀ k, w.Has k → w'.Has k
  loses : (∃ k ∈ w.seqs .activeList, addr k = va) → ∃ k, w.Has k ∧ ¬ w'.Has k
  second : (w'.seqs .secondList).length ≤ (w.seqs .secondList).length

/-- The invariant of the loop over the active list: `todo` is to come in at most `n`
passes. -/
structure Freeing (addr : Nat → Nat) (va n : Nat) (todo : List Nat) (w w' : WorkingSet) :
    Prop where
  bound : todo.length + (w'.seqs .secondList).length ≤ n
  sub : ∀ k, w'.Has k → w.Has k
  keeps : (∀ k ∈ w.seqs .activeList, addr k ≠ va) →
    w'.seqs .activeList = w.seqs .activeList ∧ ∀ k, w.Has k → w'.Has k
  loses : (∃ k ∈ w.seqs .activeList, addr k = va) →
    (∃ k ∈ todo, addr k = va) ∨ ∃ k, w.Has k ∧ ¬ w'.Has k
  second : (w'.seqs .secondList).length ≤ (w.seqs .secondList).length

theorem Freeing.goneBack {addr : Nat → Nat} {n : Nat} {rest : List Nat}
    (inv : Freeing addr va (n + 1) (x :: rest) w w') (other : addr x ≠ va)
    (back : GoneBack w' w'') : Freeing addr va n rest w w'' where
  bound := by
    have bound := inv.bound
    have second := back.second
    rw [List.length_cons] at bound
    omega
  sub k has := inv.sub k ((back.has k).mp has)
  keeps none := by
    obtain ⟨active, has⟩ := inv.keeps none
    exact ⟨back.active.trans active, fun k h => (back.has k).mpr (has k h)⟩
  loses some := by
    rcases inv.loses some with ⟨k, mem, eq⟩ | ⟨k, has, lost⟩
    · rcases List.mem_cons.mp mem with rfl | mem
      · exact absurd eq other
      · exact Or.inl ⟨k, mem, eq⟩
    · exact Or.inr ⟨k, has, fun h => lost ((back.has k).mp h)⟩
  second := back.second.trans inv.second

/-- The element of the page is lost. -/
theorem Freeing.lost {addr : Nat → Nat} {n : Nat} {rest rest' : List Nat}
    (inv : Freeing addr va (n + 1) (x :: rest) w w') (here : addr x = va)
    (mem : x ∈ w'.seqs .activeList)
    (bound : rest'.length + (w''.seqs .secondList).length ≤
      rest.length + (w'.seqs .secondList).length)
    (second : (w''.seqs .secondList).length ≤ (w'.seqs .secondList).length)
    (has : ∀ k, w''.Has k ↔ w'.Has k ∧ k ≠ x) : Freeing addr va n rest' w w'' where
  bound := by
    have old := inv.bound
    rw [List.length_cons] at old
    omega
  sub k h := inv.sub k ((has k).mp h).1
  keeps none := by
    obtain ⟨active, -⟩ := inv.keeps none
    exact absurd here (none x (active ▸ mem))
  loses _ := Or.inr ⟨x, inv.sub x ⟨_, mem⟩, fun h => ((has x).mp h).2 rfl⟩
  second := second.trans inv.second

/-- The first element of the second list goes to the end of the active list. -/
def WorkingSet.refill (w : WorkingSet) (t : Nat) : WorkingSet :=
  (w.remove .secondList t).insertTail .activeList t

theorem Listed.has_refill {t k : Nat} (listed : Listed e env₀ s w) (mem : t ∈ w.seqs .secondList) :
    (w.refill t).Has k ↔ w.Has k := by
  rw [WorkingSet.refill, WorkingSet.has_insertTail]
  exact listed.has_back mem

theorem freeActive_wp {Q : Unit → Kernel → Prop} {E : Stop → Kernel → Prop}
    (listed : Listed e env₀ s w) (mem : x ∈ w.seqs .activeList)
    (alone : ∀ s', w.seqs .secondList = [] → Listed e env₀ s' (w.remove .activeList x) → Q () s')
    (refilled : ∀ s' t ts, w.seqs .secondList = t :: ts →
      (∀ k, ((w.remove .activeList x).refill t).Has k ↔ w.Has k ∧ k ≠ x) →
      Listed e env₀ s' ((w.remove .activeList x).refill t) → Q () s')
    (stops : ∀ y s', y ≠ .spins → E y s') : wp (freeActive e va x) Q E s := by
  have unmap : ∀ {s₁ w₁}, Listed e env₀ s₁ w₁ → (∀ s', Listed e env₀ s' w₁ → Q () s') →
      wp (do unmapFrame (← envPageDirectory e) va) Q E s₁ := by
    intro s₁ w₁ listed₁ ends
    rw [wp_bind]
    refine (quiet_envPageDirectory e e).wp
      (fun dir s₂ same => ?_) fun y s₂ stop _ => stops y s₂ stop
    exact (quiet_unmapFrame e dir va).wp
      (fun _ s₃ same' => ends s₃ ((listed₁.same same).same same'))
      fun y s₃ stop _ => stops y s₃ stop
  simp only [freeActive, wp_bind]
  apply remove_wp listed mem
  intro s₁ listed₁
  apply listSize_wp listed₁
  have second : (w.remove .activeList x).seqs .secondList = w.seqs .secondList := by simp
  rw [wp_ite, second]
  cases list : w.seqs .secondList with
  | nil =>
    simp only [List.length_nil, lt_irrefl, if_false]
    exact unmap listed₁ fun s' => alone s' list
  | cons t ts =>
    have mem₁ : t ∈ (w.remove .activeList x).seqs .secondList := by simp [second, list]
    simp only [List.length_cons, Nat.zero_lt_succ, if_true, wp_bind]
    apply listFirst_wp listed₁
    simp only [second, list, List.head?_cons, deref, wp_pure]
    apply remove_wp listed₁ mem₁
    intro s₂ listed₂
    apply insertTail_wp listed₂ (listed₁.loose mem₁) (listed₁.small _ t mem₁)
    intro s₃ listed₃
    apply virtualAddress_wp listed₃
    refine (quiet_ptSetPagePermissions e e _ permPUW 0).wp (fun _ s₄ same => ?_)
      fun y s₄ stop _ => stops y s₄ stop
    have ends := unmap (listed₃.same same) fun s' => refilled s' t ts list fun k => by
      rw [listed₁.has_refill mem₁, listed.has_remove mem]
    rwa [wp_bind] at ends

/-- The saved successor starts what is to come, also with a new element at the end. -/
theorem head?_refill (rest : List Nat) (t : Nat) : ∃ rest', rest'.length ≤ rest.length + 1 ∧
    rest'.head? = rest.head? ∧ ∃ tail, rest ++ [t] = tail ++ rest' := by
  cases rest with
  | nil => exact ⟨[], Nat.zero_le _, rfl, [t], by simp⟩
  | cons y ys => exact ⟨y :: ys ++ [t], by simp, rfl, [], rfl⟩

/-- One pass of the loop over the pages. -/
theorem freePage_wp {Q : Unit → Kernel → Prop} {E : Stop → Kernel → Prop}
    (listed : Listed e env₀ s w)
    (done : ∀ s' w', Listed e env₀ s' w' → Freed env₀.address va w w' → Q () s')
    (stops : ∀ x s', x ≠ .spins → E x s') : wp (freePage e va) Q E s := by
  simp only [freePage, wp_bind]
  refine (quiet_pfRemoveEnvPage e e va).wp (fun _ s₀ same => ?_) fun y s₀ stop _ => stops y s₀ stop
  have listed₀ := listed.same same
  apply listFirst_wp listed₀
  refine wsForeach_wp
    (n := (w.seqs .activeList).length + (w.seqs .secondList).length) []
    (fun n todo w₁ _ => Freeing env₀.address va n todo w w₁) (fun n todo w₁ b p inv => ?_) ?_
    (fun x rest w₁ b inv => ?_) (fun n w₁ b s₁ inv listed₁ => ?_) ⟨le_rfl, fun _ => id,
      fun _ => ⟨rfl, fun _ => id⟩, Or.inl, le_rfl⟩ listed₀ rfl
    (Nat.lt_succ_of_le (listed.lengths_le (by simp)))
  · exact { inv with }
  · rintro n x rest before w₁ found s₁ inv listed₁ at_ next
    have mem : x ∈ w₁.seqs .activeList := at_ ▸ by simp
    simp only [wp_bind]
    apply virtualAddress_wp listed₁
    rw [wp_ite]
    split
    · rename_i here
      have notin : x ∉ before := fun out => by
        have nodup := at_ ▸ listed₁.nodup .activeList
        exact (List.nodup_append.mp nodup).2.2 x out x (by simp) rfl
      have erased : (w₁.seqs .activeList).erase x = before ++ rest := by
        rw [at_, List.erase_append_right _ notin, List.erase_cons_head]
      simp only [wp_bind, wp_pure, if_true]
      apply freeActive_wp listed₁ mem
      · intro s₂ none listed₂
        refine ⟨rest, before, _, inv.lost here mem ?_ ?_ fun k => listed₁.has_remove mem, listed₂,
          ?_, next⟩
        · simp
        · simp
        · simp [erased]
      · intro s₂ t ts list has listed₂
        obtain ⟨rest', short, head, tail, split⟩ := head?_refill rest t
        refine ⟨rest', before ++ tail, _, inv.lost here mem ?_ ?_ has, listed₂, ?_,
          next.trans head.symm⟩
        · simp [WorkingSet.refill, list]
          omega
        · simp [WorkingSet.refill, list]
        · simp [WorkingSet.refill, erased, split]
      · exact stops
    · rename_i other
      simp only [wp_bind, wp_pure]
      rw [wp_ite]
      split
      · exact ⟨rest, before ++ [x], w₁, inv.goneBack other (GoneBack.refl w₁), listed₁,
          by simp [at_], next⟩
      · apply freeSecond_wp listed₁
        · intro found' s₂ w₂ listed₂ back
          refine ⟨rest, before ++ [x], w₂, inv.goneBack other back, listed₂, ?_,
            back.next.trans next⟩
          rw [back.active, at_]
          simp
        · exact stops
  · have bound := inv.bound
    simp at bound
  · exact done s₁ w₁ listed₁ ⟨inv.sub, inv.keeps,
      fun some => (inv.loses some).resolve_left (by simp), inv.second⟩

/-! ## The whole call -/

/-- The addresses of the pages that `freeMem(e, va, size)` frees. -/
def freedPages (va size : Nat) : List Nat :=
  (List.range (roundUp size / pageSize)).map fun i => (va + i * pageSize) % word32

/-- What freeing several pages does. -/
structure FreedAll (addr : Nat → Nat) (vas : List Nat) (w w' : WorkingSet) : Prop where
  sub : ∀ k, w'.Has k → w.Has k
  keeps : (∀ k ∈ w.seqs .activeList, addr k ∉ vas) →
    w'.seqs .activeList = w.seqs .activeList ∧ ∀ k, w.Has k → w'.Has k
  loses : (∃ k ∈ w.seqs .activeList, addr k ∈ vas) → ∃ k, w.Has k ∧ ¬ w'.Has k
  second : (w'.seqs .secondList).length ≤ (w.seqs .secondList).length

theorem FreedAll.refl (addr : Nat → Nat) (w : WorkingSet) : FreedAll addr [] w w :=
  ⟨fun _ => id, fun _ => ⟨rfl, fun _ => id⟩, nofun, le_rfl⟩

/-- One page more. -/
theorem FreedAll.step {addr : Nat → Nat} {vas : List Nat} (all : FreedAll addr vas w w')
    (freed : Freed addr va w' w'') : FreedAll addr (vas ++ [va]) w w'' where
  sub k has := all.sub k (freed.sub k has)
  keeps none := by
    obtain ⟨active, has⟩ := all.keeps fun k mem here => none k mem (by simp [here])
    obtain ⟨active', has'⟩ := freed.keeps fun k mem here => none k (active ▸ mem) (by simp [here])
    exact ⟨active'.trans active, fun k h => has' k (has k h)⟩
  loses some := by
    by_cases early : ∃ k ∈ w.seqs .activeList, addr k ∈ vas
    · obtain ⟨k, has, lost⟩ := all.loses early
      exact ⟨k, has, fun h => lost (freed.sub k h)⟩
    · obtain ⟨active, -⟩ := all.keeps fun k mem here => early ⟨k, mem, here⟩
      obtain ⟨k, mem, here⟩ := some
      have last : addr k = va := by
        rcases List.mem_append.mp here with here | here
        · exact absurd ⟨k, mem, here⟩ early
        · exact List.mem_singleton.mp here
      obtain ⟨l, has, lost⟩ := freed.loses ⟨k, active ▸ mem, last⟩
      exact ⟨l, all.sub l has, lost⟩
  second := freed.second.trans all.second

/-- The loop over the pages. -/
theorem freePages_wp {size : Nat} {Q : Unit → Kernel → Prop} {E : Stop → Kernel → Prop}
    (listed : Listed e env₀ s w)
    (done : ∀ s' w', Listed e env₀ s' w' →
      FreedAll env₀.address (freedPages va size) w w' → Q () s')
    (stops : ∀ x s', x ≠ .spins → E x s') :
    wp ((List.range (roundUp size / pageSize)).forM fun i =>
      freePage e ((va + i * pageSize) % word32)) Q E s := by
  refine wp_forM
    (fun rest s' => ∃ w' before, List.range (roundUp size / pageSize) = before ++ rest ∧
      Listed e env₀ s' w' ∧ FreedAll env₀.address
        (before.map fun i => (va + i * pageSize) % word32) w w') ?_ ?_ ?_
  · rintro i rest s₁ ⟨w₁, before, split, listed₁, all⟩
    apply freePage_wp listed₁
    · intro s₂ w₂ listed₂ freed
      refine ⟨w₂, before ++ [i], by simp [split], listed₂, ?_⟩
      rw [List.map_append]
      exact all.step freed
    · exact stops
  · rintro s₁ ⟨w₁, before, split, listed₁, all⟩
    rw [List.append_nil] at split
    refine done s₁ w₁ listed₁ ?_
    rw [freedPages, split]
    exact all
  · exact ⟨w, [], rfl, listed, FreedAll.refl _ w⟩

theorem quiet_freeEmptyTables_ok {endVa : Nat} (passes : Nat) :
    wp (freeEmptyTables e endVa passes va) (fun _ s' => WsSame e s s') (fun _ _ => True) s := by
  induction passes generalizing va s with
  | zero => trivial
  | succ passes ih =>
    simp only [freeEmptyTables, wp_ite, wp_bind]
    split
    · refine (quiet_freeEmptyTable e e va).wp (fun _ s₁ same => ?_) fun _ _ _ _ => trivial
      exact wp_mono ih (fun _ _ same' => same.trans same') fun _ _ h => h
    · exact WsSame.refl e s

/-- `freeMem` and the lists, if it returns. -/
theorem freeMem_wp {size : Nat} {Q : Unit → Kernel → Prop} (listed : Listed e env₀ s w)
    (done : ∀ s' w', Listed e env₀ s' w' →
      FreedAll env₀.address (freedPages va size) w w' → Q () s') :
    wp (freeMem e va size) Q (fun _ _ => True) s := by
  simp only [freeMem, wp_bind]
  apply freePages_wp listed
  · intro s₁ w₁ listed₁ all
    exact wp_mono (quiet_freeEmptyTables_ok 1025)
      (fun _ s₂ same => done s₂ w₁ (listed₁.same same) all) fun _ _ h => h
  · exact fun _ _ _ => trivial

/-- Every element of `ptr_pageWorkingSet[0..page_WS_max_size)` is on exactly one list, and
the lists are well formed. -/
structure Partitioned (env : Env) (seqs : WSList → List Nat) : Prop where
  lists : env.lists.Rep seqs
  all : ∀ k, (∃ i, k ∈ seqs i) ↔ k < env.pageWSMaxSize

/-- The sizes of the lists are as `env_create` sets them up. -/
structure Roomy (env : Env) (seqs : WSList → List Nat) : Prop where
  sum : env.activeListSize + env.secondListSize = env.pageWSMaxSize
  pos : 0 < env.pageWSMaxSize
  active : ((seqs .activeList).length : Int) ≤ env.activeListSize
  second : ((seqs .secondList).length : Int) ≤ env.secondListSize

/-- A page fault that finds `PageWorkingSetList` empty finds a victim. -/
def FindsVictim (env : Env) : Prop :=
  (env.lists.head .pageWorkingSetList).lhFirst = none →
    (0 < env.secondListSize → (env.lists.head .secondList).lhLast ≠ none) ∧
      (env.secondListSize = 0 → (env.lists.head .activeList).lhLast ≠ none)

theorem Partitioned.listed {seqs : WSList → List Nat}
    (part : Partitioned (s.globals.envs e) seqs)
    (fits : (s.globals.envs e).pageWSMaxSize ≤ pwsMaxSize) :
    Listed e (s.globals.envs e) s
      ⟨seqs, fun i => ((s.globals.envs e).lists.head i).ptrNext⟩ where
  rep := part.lists
  next _ := rfl
  small i k mem := Nat.lt_of_lt_of_le ((part.all k).mp ⟨i, mem⟩) fits
  elements := rfl
  maxSize := rfl
  activeSize := rfl
  secondSize := rfl

/-- The elements that are not on `PageWorkingSetList`. -/
theorem Partitioned.length {env : Env} {seqs : WSList → List Nat} (part : Partitioned env seqs)
    (empty : seqs .pageWorkingSetList = []) :
    (seqs .activeList).length + (seqs .secondList).length = env.pageWSMaxSize := by
  have nodup : (seqs .activeList ++ seqs .secondList).Nodup :=
    (part.lists.list _).nodup.append (part.lists.list _).nodup
      (part.lists.disjoint _ _ (by simp))
  have perm : (seqs .activeList ++ seqs .secondList).Perm (List.range env.pageWSMaxSize) := by
    rw [List.perm_ext_iff_of_nodup nodup List.nodup_range]
    intro k
    rw [List.mem_range, ← part.all, List.mem_append]
    constructor
    · rintro (mem | mem)
      · exact ⟨_, mem⟩
      · exact ⟨_, mem⟩
    · rintro ⟨i, mem⟩
      cases i with
      | pageWorkingSetList => simp [empty] at mem
      | activeList => exact Or.inl mem
      | secondList => exact Or.inr mem
  simpa using perm.length_eq

theorem Partitioned.findsVictim {env : Env} {seqs : WSList → List Nat}
    (part : Partitioned env seqs) (roomy : Roomy env seqs) : FindsVictim env := by
  intro empty
  rw [part.lists.first, List.head?_eq_none_iff] at empty
  have length := part.length empty
  have sum := roomy.sum
  have pos := roomy.pos
  have active := roomy.active
  have second := roomy.second
  constructor
  · intro some none
    rw [part.lists.last, List.getLast?_eq_none_iff] at none
    simp only [none, List.length_nil] at length
    omega
  · intro zero none
    rw [part.lists.last, List.getLast?_eq_none_iff] at none
    simp only [none, List.length_nil] at length
    omega

section Call

variable {size : Nat} {seqs : WSList → List Nat}

/-- `freeMem` frees the pages of the range, if it returns. -/
theorem Partitioned.afterFreeMem (part : Partitioned (s.globals.envs e) seqs)
    (fits : (s.globals.envs e).pageWSMaxSize ≤ pwsMaxSize)
    (run : freeMem e va size s = .ok () s') :
    ∃ w', Listed e (s.globals.envs e) s' w' ∧
      FreedAll (s.globals.envs e).address (freedPages va size)
        ⟨seqs, fun i => ((s.globals.envs e).lists.head i).ptrNext⟩ w' :=
  (wp_ok run).mp (freeMem_wp (Q := fun _ t => ∃ w₁, Listed e (s.globals.envs e) t w₁ ∧
    FreedAll (s.globals.envs e).address (freedPages va size) _ w₁) (part.listed fits)
    fun _ w₁ listed₁ all => ⟨w₁, listed₁, all⟩)

/-- The element of an active page is on no list afterwards. -/
theorem Partitioned.broken (part : Partitioned (s.globals.envs e) seqs)
    (fits : (s.globals.envs e).pageWSMaxSize ≤ pwsMaxSize)
    (run : freeMem e va size s = .ok () s')
    (active : ∃ k ∈ seqs .activeList, (s.globals.envs e).address k ∈ freedPages va size) :
    ¬ ∃ seqs', Partitioned (s'.globals.envs e) seqs' := by
  rintro ⟨seqs', part'⟩
  obtain ⟨w', listed', all⟩ := part.afterFreeMem fits run
  obtain ⟨l, has, lost⟩ := all.loses active
  have lt : l < (s'.globals.envs e).pageWSMaxSize := listed'.maxSize ▸ (part.all l).mp has
  obtain ⟨i, mem'⟩ := (part'.all l).mpr lt
  exact lost ⟨i, part'.lists.unique listed'.rep ▸ mem'⟩

/-- **`freeMem` loses active elements.**  If every element of the working set is on exactly
one list, then so it is after `freeMem(e, va, size)` exactly if no page of the range is on
the active list; and then a page fault that finds no element on `PageWorkingSetList` finds a
victim. -/
theorem freeMem_partition_iff (part : Partitioned (s.globals.envs e) seqs)
    (fits : (s.globals.envs e).pageWSMaxSize ≤ pwsMaxSize)
    (run : freeMem e va size s = .ok () s') :
    ((∃ seqs', Partitioned (s'.globals.envs e) seqs') ↔
        ∀ k ∈ seqs .activeList, (s.globals.envs e).address k ∉ freedPages va size) ∧
      ((∀ k ∈ seqs .activeList, (s.globals.envs e).address k ∉ freedPages va size) →
        Roomy (s.globals.envs e) seqs → FindsVictim (s'.globals.envs e)) := by
  obtain ⟨w', listed', all⟩ := part.afterFreeMem fits run
  have kept : (∀ k ∈ seqs .activeList, (s.globals.envs e).address k ∉ freedPages va size) →
      Partitioned (s'.globals.envs e) w'.seqs := by
    intro none
    refine ⟨listed'.rep, fun k => ?_⟩
    rw [listed'.maxSize, ← part.all]
    exact ⟨all.sub k, (all.keeps none).2 k⟩
  refine ⟨⟨fun whole k mem here => part.broken fits run ⟨k, mem, here⟩ whole,
    fun none => ⟨_, kept none⟩⟩, fun none roomy => ?_⟩
  refine (kept none).findsVictim ⟨?_, ?_, ?_, ?_⟩
  · rw [listed'.activeSize, listed'.secondSize, listed'.maxSize]
    exact roomy.sum
  · rw [listed'.maxSize]
    exact roomy.pos
  · rw [listed'.activeSize, (all.keeps none).1]
    exact roomy.active
  · rw [listed'.secondSize]
    exact le_trans (Int.ofNat_le.mpr all.second) roomy.second

end Call

/-! ## A working set of two pages -/

/-- An environment with the page 0x80000000 on the active list and 0x80001000 on the second
list; both are in its page file. -/
def pairEnv : Env :=
  { Env.zero with
    envPageDirectory := some 5
    envCr3 := toPhysicalAddress 5
    diskEnvPgdir := some 9
    diskEnvPgdirPA := toPhysicalAddress 9
    pageWSMaxSize := 2
    ptrPageWorkingSet := fun k => ⟨0x80000000 + k * pageSize, false⟩
    lists := (Env.zero.lists.insertHead .activeList 0).insertHead .secondList 1
    activeListSize := 1
    secondListSize := 1 }

/-- The page directory, the page table, the disk page directory and the disk page table of
`pairEnv` lie in the frames 5, 6, 9 and 10. -/
def pairKernel : Kernel where
  mem
    | 5, i => if i = 512 then constructEntry (toPhysicalAddress 6) permPUW else 0
    | 6, i =>
      if i = 0 then constructEntry (toPhysicalAddress 7) permPUW
      else if i = 1 then constructEntry (toPhysicalAddress 8) 0
      else 0
    | 9, i => if i = 512 then constructEntry (toPhysicalAddress 10) permPresent else 0
    | 10, i => if i = 0 then 1 else if i = 1 then 2 else 0
    | _, _ => 0
  references _ := 1
  frameLinks := ⟨fun _ => none, fun _ => none⟩
  freeFrameList := ListHead.zero
  diskLinks := ⟨fun _ => none, fun _ => none⟩
  diskFreeFrameList := ListHead.zero
  globals :=
    { numberOfFrames := 1024
      ptrPageDirectory := 3
      envsAddress := 0xF0110000
      disk := fun _ _ => 0
      envs := fun e => if e = 0 then pairEnv else Env.zero
      curenv := some 0
      cr3 := toPhysicalAddress 5 }

/-- The lists of `pairEnv`. -/
def pairSeqs : WSList → List Nat
  | .pageWorkingSetList => []
  | .activeList => [0]
  | .secondList => [1]

theorem partitioned_pair : Partitioned (pairKernel.globals.envs 0) pairSeqs := by
  have empty : Env.zero.lists.Rep fun _ => [] :=
    ⟨fun _ => ⟨rfl, rfl, trivial, List.nodup_nil, rfl⟩, fun _ _ _ => List.disjoint_nil_left _⟩
  have both := (empty.insertHead .activeList (x := 0) (by simp)).insertHead .secondList (x := 1)
    fun j => by cases j <;> simp
  have seqs : Function.update (Function.update (fun _ => []) WSList.activeList [0])
      WSList.secondList [1] = pairSeqs := by
    funext i
    cases i <;> rfl
  refine ⟨seqs ▸ both, fun k => ?_⟩
  show _ ↔ k < 2
  constructor
  · rintro ⟨i, mem⟩
    cases i <;> simp [pairSeqs] at mem <;> omega
  · intro lt
    rcases (by omega : k = 0 ∨ k = 1) with rfl | rfl
    · exact ⟨.activeList, by simp [pairSeqs]⟩
    · exact ⟨.secondList, by simp [pairSeqs]⟩

/-- Freeing the active page loses its element. -/
theorem freeMem_active : ¬ ∀ (s s' : Kernel) (e va size : Nat) (seqs : WSList → List Nat),
    Partitioned (s.globals.envs e) seqs → (s.globals.envs e).pageWSMaxSize ≤ pwsMaxSize →
    Aligned va → freeMem e va size s = .ok () s' →
    ∃ seqs', Partitioned (s'.globals.envs e) seqs' := by
  intro whole
  have runs : returns (freeMem 0 0x80000000 0x1000 pairKernel) = true := by decide +kernel
  obtain ⟨_, s', run⟩ := returns_iff.mp runs
  have fits : (pairKernel.globals.envs 0).pageWSMaxSize ≤ pwsMaxSize := by decide
  refine partitioned_pair.broken fits run ⟨0, by simp [pairSeqs], by decide⟩ ?_
  exact whole _ s' 0 0x80000000 0x1000 _ partitioned_pair fits ⟨by decide, by decide⟩ run

/-- Freeing the page on the second list keeps its element. -/
theorem freeMem_second : ∃ s', freeMem 0 0x80001000 0x1000 pairKernel = .ok () s' ∧
    (∃ seqs', Partitioned (s'.globals.envs 0) seqs') ∧ FindsVictim (s'.globals.envs 0) := by
  have runs : returns (freeMem 0 0x80001000 0x1000 pairKernel) = true := by decide +kernel
  obtain ⟨_, s', run⟩ := returns_iff.mp runs
  have none : ∀ k ∈ pairSeqs .activeList,
      (pairKernel.globals.envs 0).address k ∉ freedPages 0x80001000 0x1000 := by decide
  obtain ⟨whole, victim⟩ := freeMem_partition_iff partitioned_pair (by decide) run
  exact ⟨s', run, whole.mpr none, victim none ⟨by decide, by decide, by decide, by decide⟩⟩

end Fos
