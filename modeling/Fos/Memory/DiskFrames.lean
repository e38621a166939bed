import Fos.Memory.PageFile
import Fos.Memory.View

/-!
# Who owns the disk frames

The page file half of the abstract state: the entries of the disk page tables and the
free disk frames.  `SharedOut v` says that every disk frame is free or belongs to
one page of one environment, and `PageFile v` that the pages are below `USER_TOP` too.

* `PageFile.takeDfn`, `PageFile.dropDfn`: giving a page a disk frame and taking it back
  keep the invariant;
* `Rep.takeDisk`, `Rep.giveDisk`: the disk free list.
-/

namespace Fos

open Linked

variable {s : Kernel} {v v' : View} {e d va : Nat}

/-- The disk frame of a page, 0 if it has none. -/
def View.dfn (v : View) (e va : Nat) : Word := v.page (.diskTable e (pdx va)) (ptx va)

/-- Every disk frame from 1 on is free or belongs to one page. -/
structure SharedOut (v : View) : Prop where
  nodup : v.diskFree.Nodup
  free_range : ∀ d ∈ v.diskFree, 0 < d ∧ d < pagesPerFile
  range : ∀ e i j, v.page (.diskTable e i) j ≠ 0 → (v.page (.diskTable e i) j).toNat < pagesPerFile
  apart : ∀ e i j, v.page (.diskTable e i) j ≠ 0 → (v.page (.diskTable e i) j).toNat ∉ v.diskFree
  inj : ∀ e i j e' i' j', v.page (.diskTable e i) j ≠ 0 →
    v.page (.diskTable e i) j = v.page (.diskTable e' i') j' → e = e' ∧ i = i' ∧ j = j'
  cover : ∀ d, 0 < d → d < pagesPerFile →
    d ∈ v.diskFree ∨ ∃ e i j, (v.page (.diskTable e i) j).toNat = d

/-- And the pages are all below `USER_TOP`. -/
structure PageFile (v : View) : Prop extends SharedOut v where
  high : ∀ e i, 955 ≤ i → v.page (.diskDir e) i = 0

/-- The invariant reads the disk tables and the free list only. -/
theorem SharedOut.congr (pf : SharedOut v) (tables : ∀ e i, v'.page (.diskTable e i) =
    v.page (.diskTable e i)) (free : v'.diskFree = v.diskFree) : SharedOut v' where
  nodup := free ▸ pf.nodup
  free_range := free ▸ pf.free_range
  range e i j := by
    rw [tables]
    exact pf.range e i j
  apart e i j := by
    rw [tables, free]
    exact pf.apart e i j
  inj e i j e' i' j' := by
    rw [tables, tables]
    exact pf.inj e i j e' i' j'
  cover d := by
    simp only [tables, free]
    exact pf.cover d

theorem PageFile.congr (pf : PageFile v) (tables : ∀ e i, v'.page (.diskTable e i) =
    v.page (.diskTable e i)) (free : v'.diskFree = v.diskFree)
    (high : ∀ e i, 955 ≤ i → v'.page (.diskDir e) i = 0) : PageFile v' :=
  { pf.toSharedOut.congr tables free with high := high }

/-- A page gets the first free disk frame. -/
def View.takeDfn (v : View) (e va d : Nat) : View :=
  (v.write (.diskTable e (pdx va)) (ptx va) (BitVec.ofNat 32 d)).setDiskFree v.diskFree.tail

/-- A page loses its disk frame. -/
def View.dropDfn (v : View) (e : Nat) (i j : Fin 1024) : View :=
  if v.page (.diskTable e i) j = 0 then v
  else (v.write (.diskTable e i) j 0).setDiskFree
    ((v.page (.diskTable e i) j).toNat :: v.diskFree)

theorem SharedOut.toNat_ofNat {ds : List Nat} (pf : SharedOut v) (free : v.diskFree = d :: ds) :
    (BitVec.ofNat 32 d).toNat = d := by
  have range := pf.free_range d (by simp [free])
  simp only [pagesPerFile] at range
  rw [BitVec.toNat_ofNat]
  omega

theorem SharedOut.takeDfn {ds : List Nat} (pf : SharedOut v) (zero : v.dfn e va = 0)
    (free : v.diskFree = d :: ds) : SharedOut (v.takeDfn e va d) := by
  have nodup := pf.nodup
  have value := pf.toNat_ofNat free
  have range := pf.free_range d (by simp [free])
  rw [free, List.nodup_cons] at nodup
  have page : ∀ e' i' j', (v.takeDfn e va d).page (.diskTable e' i') j' =
      if e' = e ∧ i' = pdx va ∧ j' = ptx va then BitVec.ofNat 32 d
      else v.page (.diskTable e' i') j' := by
    intro e' i' j'
    simp only [View.takeDfn, View.setDiskFree_toView, View.write_page, Function.update_apply]
    by_cases same : e' = e ∧ i' = pdx va
    · obtain ⟨rfl, rfl⟩ := same
      simp [Function.update_apply]
    · have ne : Obj.diskTable e' i' ≠ .diskTable e (pdx va) := fun h => same (by simpa using h)
      rw [if_neg ne, if_neg fun h => same ⟨h.1, h.2.1⟩]
  have tail : (v.takeDfn e va d).diskFree = ds := by simp [View.takeDfn, free]
  have others : ∀ e' i' j', v.page (.diskTable e' i') j' ≠ 0 →
      (v.page (.diskTable e' i') j').toNat ≠ d := by
    intro e' i' j' nonzero eq
    apply pf.apart e' i' j' nonzero
    rw [eq, free]
    simp
  refine ⟨?_, ?_, ?_, ?_, ?_, ?_⟩
  · rw [tail]
    exact nodup.2
  · intro d' mem
    rw [tail] at mem
    exact pf.free_range d' (by simp [free, mem])
  · intro e' i' j'
    rw [page]
    split
    · intro _
      rw [value]
      exact range.2
    · exact pf.range e' i' j'
  · intro e' i' j'
    rw [page, tail]
    split
    · intro _
      rw [value]
      exact nodup.1
    · intro nonzero mem
      apply pf.apart e' i' j' nonzero
      rw [free]
      exact List.mem_cons_of_mem _ mem
  · intro e₁ i₁ j₁ e₂ i₂ j₂
    rw [page, page]
    split
    · rename_i here
      split
      · rename_i there
        intro _ _
        exact ⟨here.1.trans there.1.symm, here.2.1.trans there.2.1.symm,
          here.2.2.trans there.2.2.symm⟩
      · intro nonzero eq
        exact absurd (by rw [← eq, value]) (others e₂ i₂ j₂ (eq ▸ nonzero))
    · split
      · intro nonzero eq
        exact absurd (by rw [eq, value]) (others e₁ i₁ j₁ nonzero)
      · exact pf.inj e₁ i₁ j₁ e₂ i₂ j₂
  · intro d' pos lt
    rw [tail]
    rcases pf.cover d' pos lt with mem | ⟨e', i', j', eq⟩
    · rw [free, List.mem_cons] at mem
      rcases mem with rfl | mem
      · refine Or.inr ⟨e, pdx va, ptx va, ?_⟩
        rw [page, if_pos ⟨rfl, rfl, rfl⟩, value]
      · exact Or.inl mem
    · refine Or.inr ⟨e', i', j', ?_⟩
      rw [page, if_neg]
      · exact eq
      · rintro ⟨rfl, rfl, rfl⟩
        rw [View.dfn] at zero
        rw [zero] at eq
        simp at eq
        omega

theorem PageFile.takeDfn {ds : List Nat} (pf : PageFile v) (zero : v.dfn e va = 0)
    (free : v.diskFree = d :: ds) : PageFile (v.takeDfn e va d) where
  toSharedOut := pf.toSharedOut.takeDfn zero free
  high e' i' ge := by simpa [View.takeDfn] using pf.high e' i' ge

theorem SharedOut.dropDfn (pf : SharedOut v) (e : Nat) (i j : Fin 1024) :
    SharedOut (v.dropDfn e i j) := by
  unfold View.dropDfn
  split
  · exact pf
  rename_i nonzero
  have page : ∀ e' i' j', ((v.write (.diskTable e i) j 0).setDiskFree
      ((v.page (.diskTable e i) j).toNat :: v.diskFree)).page (.diskTable e' i') j' =
      if e' = e ∧ i' = i ∧ j' = j then 0 else v.page (.diskTable e' i') j' := by
    intro e' i' j'
    simp only [View.setDiskFree_toView, View.write_page, Function.update_apply]
    by_cases same : e' = e ∧ i' = i
    · obtain ⟨rfl, rfl⟩ := same
      simp [Function.update_apply]
    · have ne : Obj.diskTable e' i' ≠ .diskTable e i := fun h => same (by simpa using h)
      rw [if_neg ne, if_neg fun h => same ⟨h.1, h.2.1⟩]
  refine ⟨?_, ?_, ?_, ?_, ?_, ?_⟩
  · exact List.nodup_cons.mpr ⟨pf.apart e i j nonzero, pf.nodup⟩
  · intro d mem
    rcases List.mem_cons.mp mem with rfl | mem
    · refine ⟨Nat.pos_of_ne_zero fun zero => nonzero ?_, pf.range e i j nonzero⟩
      exact BitVec.eq_of_toNat_eq zero
    · exact pf.free_range d mem
  · intro e' i' j'
    rw [page]
    split
    · intro h
      exact absurd rfl h
    · exact pf.range e' i' j'
  · intro e' i' j'
    rw [page]
    split
    · intro h
      exact absurd rfl h
    · rename_i ne
      intro nonzero'
      simp only [View.setDiskFree_diskFree, List.mem_cons, not_or]
      refine ⟨fun eq => ne ?_, pf.apart e' i' j' nonzero'⟩
      exact pf.inj e' i' j' e i j nonzero' (BitVec.eq_of_toNat_eq eq)
  · intro e₁ i₁ j₁ e₂ i₂ j₂
    rw [page, page]
    split
    · intro h
      exact absurd rfl h
    · split
      · intro h eq
        exact absurd eq h
      · exact pf.inj e₁ i₁ j₁ e₂ i₂ j₂
  · intro d pos lt
    rcases pf.cover d pos lt with mem | ⟨e', i', j', eq⟩
    · exact Or.inl (List.mem_cons_of_mem _ mem)
    · by_cases same : e' = e ∧ i' = i ∧ j' = j
      · obtain ⟨rfl, rfl, rfl⟩ := same
        exact Or.inl (by simp [eq])
      · refine Or.inr ⟨e', i', j', ?_⟩
        rw [page, if_neg same]
        exact eq

theorem PageFile.dropDfn (pf : PageFile v) (e : Nat) (i j : Fin 1024) :
    PageFile (v.dropDfn e i j) where
  toSharedOut := pf.toSharedOut.dropDfn e i j
  high e' i' ge := by
    unfold View.dropDfn
    split
    · exact pf.high e' i' ge
    · simpa using pf.high e' i' ge

/-! ## The disk free list -/

theorem Rep.takeDisk {ds : List Nat} (rep : Rep s v) (free : v.diskFree = d :: ds) :
    Rep (s.removeDiskFrame d) (v.setDiskFree v.diskFree.tail) := by
  have list := rep.diskFree
  rw [free] at list
  have notin := (List.nodup_cons.mp list.nodup).1
  have removed := rep_remove (show s.diskFreeFrameList.Rep s.diskLinks ([] ++ d :: ds) from list)
  refine { rep with diskFree := ?_ }
  simp only [View.setDiskFree_diskFree, free, List.tail_cons]
  refine removed.congr (fun x mem => ?_) fun x mem => ?_
  · exact Links.setNext_next_of_ne _ none (ne_of_mem_of_not_mem mem notin)
  · exact Links.setPrev_prev_of_ne _ none (ne_of_mem_of_not_mem mem notin)

theorem Rep.giveDisk (rep : Rep s v) (notin : d ∉ v.diskFree) :
    Rep (s.insertDiskFrame d) (v.setDiskFree (d :: v.diskFree)) :=
  { rep with diskFree := rep_insertHead rep.diskFree notin }

end Fos
