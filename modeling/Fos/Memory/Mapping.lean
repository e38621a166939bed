import Fos.Memory.Tables
import Fos.PageFile.Contents

/-!
# What `map_frame` promises

The comment of `map_frame` says what entry it leaves and what becomes of a frame that was
mapped at the address before; the code tells the old entries apart by `PERM_PRESENT` and by
the frame, and not by the permissions or by being zero.

* `MapPromise`: the comment;
* `Tabled.mapFrame_iff`: the old entries for which it holds.
-/

namespace Fos

open Arena Linked Exec

variable {s : Kernel} {a : TableView} {free rest : List Nat} {d f t va : Nat} {i : Fin 1024}

/-- What `map_frame` is for: the entry is the frame's with the permissions, another frame
that was there has lost one reference, and the other entries stay. -/
structure MapPromise (s s' : Kernel) (a : TableView) (d f va : Nat) (perm : Word) : Prop where
  entry : pteAt s'.mem d (pageNo va) =
    constructEntry (toPhysicalAddress f) (perm ||| permPresent)
  dropped : pteAt s.mem d (pageNo va) ≠ 0 → frameOf (pteAt s.mem d (pageNo va)) ≠ f →
    s'.references (frameOf (pteAt s.mem d (pageNo va))) =
      s.references (frameOf (pteAt s.mem d (pageNo va))) - 1
  others : ∀ d' p', a.place (.dir d') = some d' → p'.1 < 955 → ¬ (d' = d ∧ p' = pageNo va) →
    pteAt s'.mem d' p' = pteAt s.mem d' p'

/-- The old entries that `map_frame` replaces as it should. -/
def Replaceable (old : Word) (f : Nat) (perm : Word) : Prop :=
  old = 0 ∨ (present old ∧ frameOf old ≠ f) ∨ (¬ present old ∧ frameOf old = f) ∨
    old = constructEntry (toPhysicalAddress f) (perm ||| permPresent)

theorem present_constructEntry (f : Nat) (perm : Word) :
    present (constructEntry (toPhysicalAddress f) (perm ||| permPresent)) = true := by
  rw [present, getLsbD_constructEntry f _ (by decide), BitVec.getLsbD_or]
  simp [permPresent]

theorem sub_one_ne (n : BitVec 16) : n ≠ n - 1 := by
  intro eq
  have zero : n - (n - 1) = n - n := by rw [← eq]
  rw [sub_sub_cancel, sub_self] at zero
  exact absurd zero (by decide)

/-- A state whose memory is that of `s` but for the new entry. -/
theorem Tabled.promise (tabled : Tabled s a free) (dir : a.place (.dir d) = some d)
    (user : UserVa va) (table : a.place (.table d (pdx va)) = some t) (f : Nat) (perm : Word)
    (s' : Kernel) (written : s'.mem = Function.update s.mem t (Function.update (s.mem t) (ptx va)
      (constructEntry (toPhysicalAddress f) (perm ||| permPresent)))) :
    pteAt s'.mem d (pageNo va) = constructEntry (toPhysicalAddress f) (perm ||| permPresent) ∧
      ∀ d' p', a.place (.dir d') = some d' → p'.1 < 955 → ¬ (d' = d ∧ p' = pageNo va) →
        pteAt s'.mem d' p' = pteAt s.mem d' p' := by
  have user' : (pageNo va).1 < 955 := user
  rw [written]
  refine ⟨?_, fun d' p' dir' low other => ?_⟩
  · have here := tabled.dirs.pteAt_setEntry (p := pageNo va) dir table user'
      (constructEntry (toPhysicalAddress f) (perm ||| permPresent)) dir user'
    exact here.trans (if_pos ⟨rfl, rfl⟩)
  · have there := tabled.dirs.pteAt_setEntry (p := pageNo va) dir table user'
      (constructEntry (toPhysicalAddress f) (perm ||| permPresent)) dir' low
    exact there.trans (if_neg other)

/-- **`map_frame` does what its comment says** exactly if the old entry was zero, another
present frame's, the same frame's without being present, or the wanted one already.  It
leaves the permissions of a frame that is mapped already, and it forgets a frame whose entry
is not present. -/
theorem Tabled.mapFrame_iff (tabled : Tabled s a free) (dir : a.place (.dir d) = some d)
    (user : UserVa va) {perm : Word} {s' : Kernel} (run : mapFrame d f va perm s = .ok () s') :
    MapPromise s s' a d f va perm ↔ Replaceable (pteAt s.mem d (pageNo va)) f perm := by
  have entry : pteAt s.mem d (pageNo va) = entryIn a d va := tabled.dirs.pteAt dir user
  have ends : wp (mapFrame d f va perm) (fun _ s' => MapPromise s s' a d f va perm ↔
      Replaceable (pteAt s.mem d (pageNo va)) f perm) (fun _ _ => True) s := by
    apply tabled.mapFrame_wp dir user
    · -- the frame is there, and nothing is done
      intro here same
      rw [← entry] at here same
      constructor
      · intro promise
        exact Or.inr (Or.inr (Or.inr promise.entry))
      · rintro (zero | ⟨-, other⟩ | ⟨absent, -⟩ | wanted)
        · exact absurd zero (ne_zero_of_present here)
        · exact absurd same other
        · exact absurd here absent
        · exact ⟨wanted, fun _ other => absurd same other, fun _ _ _ _ _ => rfl⟩
    · -- the entry is overwritten, and its frame keeps its reference
      intro t table absent
      rw [← entry] at absent
      obtain ⟨new, others⟩ := tabled.promise dir user table f perm
        (s.addMapping f t (ptx va) perm) rfl
      constructor
      · intro promise
        by_cases zero : pteAt s.mem d (pageNo va) = 0
        · exact Or.inl zero
        · refine Or.inr (Or.inr (Or.inl ⟨absent, ?_⟩))
          by_contra other
          have lost := promise.dropped zero other
          have kept : (s.addMapping f t (ptx va) perm).references
              (frameOf (pteAt s.mem d (pageNo va))) =
                s.references (frameOf (pteAt s.mem d (pageNo va))) :=
            Function.update_of_ne other ..
          exact sub_one_ne _ (kept.symm.trans lost)
      · intro replaceable
        refine ⟨new, fun nonzero other => ?_, others⟩
        rcases replaceable with zero | ⟨here, -⟩ | ⟨-, same⟩ | wanted
        · exact absurd zero nonzero
        · exact absurd here absent
        · exact absurd same other
        · rw [wanted] at absent
          exact absurd (present_constructEntry f perm) absent
    · -- another frame is unmapped first
      intro t table here other lt
      rw [← entry] at here other ⊢
      obtain ⟨memory, -, references⟩ :=
        dropReference_fields s (frameOf (pteAt s.mem d (pageNo va)))
      obtain ⟨new, others⟩ := tabled.promise dir user table f perm
        (((s.dropReference (frameOf (pteAt s.mem d (pageNo va)))).setWord t (ptx va)
          0).addMapping f t (ptx va) perm)
        (by simp [Kernel.addMapping, Kernel.setWord, Kernel.setPage, Kernel.setReferences, memory])
      refine iff_of_true ⟨new, fun _ _ => ?_, others⟩ (Or.inr (Or.inl ⟨here, other⟩))
      simp [Kernel.addMapping, Kernel.setWord, Kernel.setPage, Kernel.setReferences, references,
        Function.update_of_ne other]
    · -- the table is new
      intro t rest absent list
      subst list
      have made := tabled.withTable dir user absent
      obtain ⟨place, table⟩ := newTableIn_place a d (pdx va) t d
      obtain ⟨new, others⟩ := made.promise (place.trans dir) user table f perm
        ((s.withTable d (pdx va) t).addMapping f t (ptx va) perm) rfl
      have zero : pteAt s.mem d (pageNo va) = 0 := entry.trans (tabled.entryIn_zero absent)
      refine iff_of_true ⟨new, fun nonzero => absurd zero nonzero, ?_⟩ (Or.inl zero)
      intro d' p' dir' low differs
      have dir'' : (newTableIn a d (pdx va) t).place (.dir d') = some d' :=
        (newTableIn_place ..).1.trans dir'
      rw [others d' p' dir'' low differs, made.dirs.pteAt dir'' low, tabled.dirs.pteAt dir' low,
        tabled.dirs.newTableIn_page absent]
    · exact fun _ _ => trivial
    · exact fun _ _ _ => trivial
  rwa [wp_ok run] at ends

/-! ## The kernel's own directory -/

/-- A mapping where there is no table yet. -/
theorem Tabled.mapFrame_new (tabled : Tabled s a (t :: rest)) (dir : a.place (.dir d) = some d)
    (user : UserVa va) (absent : a.place (.table d (pdx va)) = none) (f : Nat) (perm : Word) :
    mapFrame d f va perm s =
      .ok () ((s.withTable d (pdx va) t).addMapping f t (ptx va) perm) := by
  have zero := tabled.entryIn_zero absent
  have ends : wp (mapFrame d f va perm) (fun _ s' =>
      s' = (s.withTable d (pdx va) t).addMapping f t (ptx va) perm) (fun _ _ => False) s := by
    apply tabled.mapFrame_wp dir user
    · intro here
      rw [zero] at here
      cases here
    · intro t' table
      rw [absent] at table
      cases table
    · intro t' table
      rw [absent] at table
      cases table
    · intro t' rest' _ list
      cases list
      rfl
    · intro _ list
      cases list
    · intro _ wild
      rw [zero, frameOf_zero] at wild
      exact absurd (Nat.zero_lt_of_lt (tabled.place_lt dir)) wild
  obtain ⟨_, s', run, rfl⟩ := wp_returns ends
  exact run

/-- A mapping that is there already. -/
theorem Tabled.mapFrame_again (tabled : Tabled s a free) (dir : a.place (.dir d) = some d)
    (user : UserVa va) {perm : Word}
    (entry : entryIn a d va = constructEntry (toPhysicalAddress f) (perm ||| permPresent))
    (frame : frameOf (entryIn a d va) = f) (perm' : Word) : mapFrame d f va perm' s = .ok () s := by
  have here : present (entryIn a d va) = true := entry ▸ present_constructEntry f perm
  have ends : wp (mapFrame d f va perm') (fun _ s' => s' = s) (fun _ _ => False) s := by
    apply tabled.mapFrame_wp dir user
    · intro _ _
      rfl
    · intro _ _ absent
      exact absurd here absent
    · intro _ _ _ other
      exact absurd frame other
    · intro _ _ absent
      rw [tabled.entryIn_zero absent] at here
      cases here
    · intro absent
      rw [tabled.entryIn_zero absent] at here
      cases here
    · intro other
      exact absurd frame other
  obtain ⟨_, s', run, rfl⟩ := wp_returns ends
  exact run

/-- At first the kernel's directory has no tables below `USER_TOP`. -/
theorem Machine.tables_boot (m : Machine) : Tabled m.boot m.bootView.tables m.bootView.free ∧
    m.bootView.tables.place (.dir m.ptrPageDirectory) = some m.ptrPageDirectory ∧
    ∀ i, m.bootView.tables.place (.table m.ptrPageDirectory i) = none := by
  have use : m.bootView.use m.ptrPageDirectory = .holds .kernelDir :=
    (m.rep_boot.wf.place_use _ _).mp rfl
  refine ⟨m.rep_boot.tabled, ?_, fun i => ?_⟩ <;> simp [View.tables, use]

/-- A frame is allocated and mapped at the page 0x800000 of the kernel's directory. -/
theorem Machine.mapFrame_boot (m : Machine) (perm : Word) (isPerm : IsPerm (perm ||| permPresent)) :
    ∃ s f s' a a' free free', Tabled s a free ∧
      a.place (.dir m.ptrPageDirectory) = some m.ptrPageDirectory ∧
      pteAt s.mem m.ptrPageDirectory (pageNo 0x800000) = 0 ∧
      mapFrame m.ptrPageDirectory f 0x800000 perm s = .ok () s' ∧ Tabled s' a' free' ∧
      a'.place (.dir m.ptrPageDirectory) = some m.ptrPageDirectory ∧
      entryIn a' m.ptrPageDirectory 0x800000 =
        constructEntry (toPhysicalAddress f) (perm ||| permPresent) ∧
      frameOf (entryIn a' m.ptrPageDirectory 0x800000) = f := by
  obtain ⟨tabled, dir, absent⟩ := m.tables_boot
  have user : UserVa 0x800000 := by decide
  have room := m.free_bootView
  match free : m.bootView.free with
  | [] => simp [free] at room
  | [f] => simp [free] at room
  | f :: t :: rest =>
    rw [free] at tabled
    have small : f < 1048576 := by
      have lt := tabled.bound f (by rw [(tabled.free_use f).mp (by simp)]; rintro ⟨⟩)
      exact lt.trans_le tabled.small
    have taken := tabled.takeFrame
    have zero : pteAt (m.boot.takeFrame f).mem m.ptrPageDirectory (pageNo 0x800000) = 0 :=
      (taken.dirs.pteAt dir user).trans (taken.entryIn_zero (absent _))
    have made := taken.withTable (i := pdx 0x800000) dir user (absent _)
    obtain ⟨place, table⟩ := newTableIn_place (m.bootView.tables.retire f .taken)
      m.ptrPageDirectory (pdx 0x800000) t m.ptrPageDirectory
    have mapped := (made.setReferences f (((m.boot.takeFrame f).withTable m.ptrPageDirectory
      (pdx 0x800000) t).references f + 1)).setEntry table (ptx 0x800000)
      (constructEntry (toPhysicalAddress f) (perm ||| permPresent))
    refine ⟨_, f, _, _, _, _, _, taken, dir, zero, taken.mapFrame_new dir user (absent _) f perm,
      mapped, place.trans dir, ?_, ?_⟩
    · simp [entryIn, Arena.View.write]
    · simp only [entryIn, Arena.View.write, Function.update_self]
      exact frameOf_constructEntry small isPerm

/-- A page is mapped again with fewer permissions, and keeps the old ones. -/
theorem mapFrame_kept : ¬ ∀ (s s' : Kernel) (a : TableView) (free : List Nat) (d f va : Nat)
    (perm : Word), Tabled s a free → a.place (.dir d) = some d → UserVa va →
    mapFrame d f va perm s = .ok () s' → MapPromise s s' a d f va perm := by
  intro promise
  obtain ⟨-, f, s, -, a, -, free, -, -, -, -, tabled, dir, entry, frame⟩ :=
    smallMachine.mapFrame_boot (permUser ||| permWriteable) (by decide)
  have user : UserVa 0x800000 := by decide
  have again := promise s s a free _ f _ permUser tabled dir user
    (tabled.mapFrame_again dir user entry frame permUser)
  have word := again.entry
  rw [tabled.dirs.pteAt dir user] at word
  have bit := congrArg (·.getLsbD 1) (entry.symm.trans word)
  simp only [getLsbD_constructEntry f _ (by decide : 1 < 12)] at bit
  exact absurd bit (by decide)

/-- The first mapping is as promised. -/
theorem mapFrame_first : ∃ (s s' : Kernel) (a : TableView) (d f : Nat),
    mapFrame d f 0x800000 permUser s = .ok () s' ∧ MapPromise s s' a d f 0x800000 permUser := by
  obtain ⟨s, f, s', a, -, free, -, tabled, dir, zero, run, -⟩ :=
    smallMachine.mapFrame_boot permUser (by decide)
  exact ⟨s, s', a, _, f, run, (tabled.mapFrame_iff dir (by decide) run).mpr (Or.inl zero)⟩

end Fos
