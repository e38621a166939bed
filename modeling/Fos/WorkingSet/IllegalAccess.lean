import Fos.WorkingSet.Faults

/-!
# Illegal accesses

The fault handler takes an element off `PageWorkingSetList`, and a frame, before it finds
that there is no such page; when it then panics it has given neither back.

* `Unchanged`: what an illegal access should leave;
* `Running.illegalAccess_stops`: every access to a page that does not exist ends in the panic;
* `Running.illegalAccess_changes`: none of them leaves that.
-/

namespace Fos

open Arena Exec Linked

variable {s s' : Kernel} {v : View} {e va : Nat} {env₀ : Env} {w : WorkingSet}

/-- The page table entries of an environment, as its page directory has them. -/
def Kernel.entries (s : Kernel) (e : Nat) (p : PageNo) : Option Word :=
  (s.globals.envs e).envPageDirectory.map fun d => pteAt s.mem d p

theorem Space.entries {p : PageNo} (space : Space e env₀ s v w) (user : p.1 < 955) :
    s.entries e p = some (v.ptes e p) := by
  obtain ⟨d, dir⟩ := space.dir
  have linked := space.linked e
  rw [View.Linked, dir] at linked
  rw [Kernel.entries, space.rep.globals, linked, Option.map_some, space.pteAt dir user]

/-- The free frames, the page table entries and the lists of the environment are what they
were. -/
structure Unchanged (e : Nat) (s s' : Kernel) : Prop where
  free : ∀ frames, s.freeFrameList.Rep s.frameLinks frames →
    s'.freeFrameList.Rep s'.frameLinks frames
  entries : ∀ p : PageNo, p.1 < 955 → s'.entries e p = s.entries e p
  lists : ∀ seqs, (s.globals.envs e).lists.Rep seqs → (s'.globals.envs e).lists.Rep seqs

/-- An element is lost. -/
theorem GivenUp.not_unchanged (givenUp : GivenUp e env₀.pageWSMaxSize va s')
    (running : Running e env₀ s v w) : ¬ Unchanged e s s' := by
  intro unchanged
  obtain ⟨_, _, w', x, space, -, lt, gone⟩ := givenUp
  have same := (unchanged.lists _ running.listed.rep).unique space.listed.rep
  obtain ⟨i, mem⟩ := (running.all x).mpr lt
  exact gone ⟨i, same ▸ mem⟩

/-- A page that is mapped by then was not before. -/
theorem GivenUp.entry (givenUp : GivenUp e env₀.pageWSMaxSize va s') (user : UserVa va) :
    ∃ w, s'.entries e (pageNo va) = some w ∧ w ≠ 0 := by
  obtain ⟨_, v', _, _, space, entry, -⟩ := givenUp
  exact ⟨_, space.entries user, entry⟩

/-- What the panic leaves. -/
theorem Running.givenUp (running : Running e env₀ s v w) (lt : va < word32) (user : UserVa va)
    (new : roundDown va ∉ w.addresses env₀ .activeList)
    (stop : pageFaultHandler e va s = .error illegalAccess s') :
    GivenUp e env₀.pageWSMaxSize (roundDown va) s' := by
  have ends : wp (pageFaultHandler e va) (fun _ _ => True)
      (fun x s' => x = illegalAccess → GivenUp e env₀.pageWSMaxSize (roundDown va) s') s := by
    apply running.pageFaultHandler_wp (roundDown_aligned lt) user.roundDown new
    · exact fun _ _ _ _ _ _ _ _ _ => trivial
    · refine ⟨fun s' _ givenUp _ => givenUp, fun _ _ _ eq => ?_, fun _ _ eq => ?_⟩
      · exact absurd eq (by decide)
      · exact absurd eq (by decide)
  rw [wp_error stop] at ends
  exact ends rfl

/-- An access to a page that does not exist ends in the panic, unless memory is exhausted. -/
theorem Running.illegalAccess_stops (running : Running e env₀ s v w) (lt : va < word32)
    (user : UserVa va) (illegal : ¬ Legal (v.entry e) (roundDown va))
    (new : roundDown va ∉ w.queue env₀) (room : 5 ≤ v.free.length) :
    ∃ s', pageFaultHandler e va s = .error illegalAccess s' ∧
      ∃ w, s'.entries e (pageNo va) = some w ∧ w ≠ 0 := by
  have user' : UserVa (roundDown va) := user.roundDown
  have ends : wp (pageFaultHandler e va) (fun _ _ => False) (fun x s' => x = illegalAccess ∧
      GivenUp e env₀.pageWSMaxSize (roundDown va) s') s := by
    apply running.pageFaultHandler_wp (roundDown_aligned lt) user' fun mem =>
      new (List.mem_append_left _ mem)
    · rintro _ _ _ _ (legal | queued) - - - -
      · exact illegal legal
      · exact new queued
    · refine ⟨fun _ _ givenUp => ⟨rfl, givenUp⟩, fun _ _ legal => absurd legal illegal,
        fun short => ?_⟩
      omega
  rw [wp] at ends
  cases run : pageFaultHandler e va s with
  | ok _ s' =>
    rw [run] at ends
    exact ends.elim
  | error x s' =>
    rw [run] at ends
    obtain ⟨rfl, givenUp⟩ := ends
    exact ⟨s', rfl, pageNo_roundDown va ▸ givenUp.entry user'⟩

/-- **An illegal access** never leaves the free frames, the entries and the lists as they
were. -/
theorem Running.illegalAccess_changes (running : Running e env₀ s v w) (lt : va < word32)
    (user : UserVa va) (new : roundDown va ∉ w.addresses env₀ .activeList)
    (stop : pageFaultHandler e va s = .error illegalAccess s') : ¬ Unchanged e s s' :=
  (running.givenUp lt user new stop).not_unchanged running

/-- A program accesses the first page of its heap, which is not in its page file. -/
theorem heap_access : ∃ s env v w s', Running 0 env s v w ∧ w.queue env = [] ∧
    ¬ Legal (v.entry 0) (roundDown 0x80000000) ∧
    pageFaultHandler 0 0x80000000 s = .error illegalAccess s' := by
  obtain ⟨s, env, v, w, running, queue, -, entry, -, free, -⟩ :=
    smallMachine.running_boot 0 3 1 (by decide) (by decide) (by decide)
  have illegal : ¬ Legal (v.entry 0) (roundDown 0x80000000) := by
    rintro (there | stack)
    · exact there (entry _)
    · exact absurd stack (by decide)
  have user : UserVa 0x80000000 := by decide
  obtain ⟨s', stop, -⟩ := running.illegalAccess_stops (by decide) user illegal (by simp [queue])
    (by omega)
  exact ⟨s, env, v, w, s', running, queue, illegal, stop⟩

/-- The element and the frame are not given back. -/
theorem illegalAccess_kept : ¬ ∀ (s s' : Kernel) (e va : Nat) (env : Env) (v : View)
    (w : WorkingSet), Running e env s v w → va < word32 → UserVa va →
    roundDown va ∉ w.addresses env .activeList → ¬ Legal (v.entry e) (roundDown va) →
    pageFaultHandler e va s = .error illegalAccess s' → Unchanged e s s' := by
  intro undone
  obtain ⟨s, env, v, w, s', running, queue, illegal, stop⟩ := heap_access
  have new : roundDown 0x80000000 ∉ w.addresses env .activeList := by
    simp [(List.append_eq_nil_iff.mp queue).1]
  have user : UserVa 0x80000000 := by decide
  have givenUp := running.givenUp (by decide) user new stop
  exact givenUp.not_unchanged running
    (undone s s' 0 0x80000000 env v w running (by decide) user new illegal stop)

theorem illegalAccess_heap : ∃ s s', pageFaultHandler 0 0x80000000 s = .error illegalAccess s' ∧
    ¬ Unchanged 0 s s' := by
  obtain ⟨s, env, v, w, s', running, queue, -, stop⟩ := heap_access
  have new : roundDown 0x80000000 ∉ w.addresses env .activeList := by
    simp [(List.append_eq_nil_iff.mp queue).1]
  exact ⟨s, s', stop, running.illegalAccess_changes (by decide) (by decide) new stop⟩

end Fos
