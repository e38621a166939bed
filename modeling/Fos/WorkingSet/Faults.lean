import Fos.PageFile.Allocate
import Fos.WorkingSet.Replacement

/-!
# Runs of page faults

* `Underway.pageFaultHandler_wp`: a page fault touches the queue of the resident pages;
* `FaultRun`: page faults with the accesses between them;
* `Running.recency`: the queue after a run, and what leaves it;
* `Machine.running_boot`: a new environment is such a state.
-/

namespace Fos

open Arena Exec Linked

variable {s s' : Kernel} {v : View} {e va : Nat} {env₀ : Env} {T D : PageNo → Word}
  {w w' : WorkingSet} {n : Nat} {E : Stop → Kernel → Prop}

/-! ## The lists -/

theorem Underway.save (underway : Underway e env₀ s v w) (i : WSList) (p : Option Nat) :
    ∃ v', Underway e env₀ (s.saved e i p) v' (w.save i p) ∧ Moved e env₀ v w env₀ v' (w.save i p) ∧
      v.Then v' e (v.ptes e) (v.entry e) 0 ∧ v'.tiers e = v.tiers e :=
  underway.arrive (underway.toSpace.followed.save i p) ⟨rfl, rfl, rfl⟩
    ⟨underway.mapped, underway.active, underway.full⟩ fun _ => Iff.rfl

/-- The elements on the three lists. -/
def WorkingSet.elements (w : WorkingSet) : List Nat :=
  w.seqs .pageWorkingSetList ++ (w.seqs .activeList ++ w.seqs .secondList)

theorem WorkingSet.mem_elements {k : Nat} : k ∈ w.elements ↔ w.Has k := by
  rw [WorkingSet.elements, List.mem_append, List.mem_append]
  constructor
  · rintro (mem | mem | mem)
    exacts [⟨_, mem⟩, ⟨_, mem⟩, ⟨_, mem⟩]
  · rintro ⟨i, mem⟩
    cases i with
    | pageWorkingSetList => exact Or.inl mem
    | activeList => exact Or.inr (Or.inl mem)
    | secondList => exact Or.inr (Or.inr mem)

theorem Listed.nodup_elements (listed : Listed e env₀ s w) : w.elements.Nodup := by
  have lists := (listed.nodup .activeList).append (listed.nodup .secondList)
    (listed.rep.disjoint _ _ (by simp))
  refine (listed.nodup _).append lists ?_
  rw [List.disjoint_append_right]
  exact ⟨listed.rep.disjoint _ _ (by simp), listed.rep.disjoint _ _ (by simp)⟩

theorem WorkingSet.length_elements (w : WorkingSet) (env : Env) : w.elements.length =
    (w.seqs .pageWorkingSetList).length + (w.queue env).length := by
  rw [WorkingSet.elements, List.length_append, List.length_append, WorkingSet.length_queue]

/-- The three lists share out the `n` elements. -/
theorem Listed.lengths (listed : Listed e env₀ s w) (all : ∀ k, w.Has k ↔ k < n) :
    (w.seqs .pageWorkingSetList).length + (w.queue env₀).length = n := by
  have perm : w.elements.Perm (List.range n) := by
    rw [List.perm_ext_iff_of_nodup listed.nodup_elements List.nodup_range]
    intro k
    rw [List.mem_range, ← all, WorkingSet.mem_elements]
  rw [← WorkingSet.length_elements, perm.length_eq, List.length_range]

/-- There are no more elements on the lists than the environment has. -/
theorem Runnable.length_elements_le (runnable : Runnable e env₀ s v w) :
    w.elements.length ≤ env₀.pageWSMaxSize := by
  have sub : w.elements ⊆ List.range env₀.pageWSMaxSize := fun k mem =>
    List.mem_range.mpr (runnable.few k (WorkingSet.mem_elements.mp mem))
  simpa using (runnable.listed.nodup_elements.subperm sub).length_le

theorem Running.lengths (running : Running e env₀ s v w) :
    (w.seqs .pageWorkingSetList).length + (w.queue env₀).length = env₀.pageWSMaxSize :=
  running.listed.lengths running.all

theorem Running.length_elements (running : Running e env₀ s v w) :
    w.elements.length = env₀.pageWSMaxSize :=
  (w.length_elements env₀).trans running.lengths

theorem Running.length_queue_le (running : Running e env₀ s v w) :
    (w.queue env₀).length ≤ env₀.pageWSMaxSize :=
  running.lengths ▸ Nat.le_add_left ..

/-- The active list is the front of the queue. -/
theorem Running.active_eq (running : Running e env₀ s v w) : w.addresses env₀ .activeList =
    (w.queue env₀).take (min env₀.activeListSize.toNat (w.queue env₀).length) := by
  have pos := running.pos
  have active := running.active
  have length := w.length_queue env₀
  have same : (w.addresses env₀ .activeList).length = (w.seqs .activeList).length := by
    simp [WorkingSet.addresses]
  have front : min env₀.activeListSize.toNat (w.queue env₀).length =
      (w.addresses env₀ .activeList).length := by
    rw [same]
    by_cases some : w.seqs .secondList = []
    · rw [some, List.length_nil] at length
      omega
    · have full := running.full some
      omega
  rw [front, WorkingSet.queue, List.take_left]

/-- The last of the queue, which is to be released. -/
theorem Running.victim (running : Running e env₀ s v w) (none : w.seqs .pageWorkingSetList = []) :
    (0 < env₀.secondListSize → w.seqs .secondList ≠ []) ∧
      (env₀.secondListSize = 0 → w.seqs .activeList ≠ [] ∧ w.seqs .secondList = []) := by
  have pos := running.pos
  have active := running.active
  have sum := running.sum
  have lengths := running.lengths
  have length := w.length_queue env₀
  rw [none, List.length_nil] at lengths
  refine ⟨fun room some => ?_, fun zero => ?_⟩
  · rw [some, List.length_nil] at length
    omega
  · have back : w.seqs .secondList = [] := by
      by_contra some
      have full := running.full some
      have some' := List.length_pos_of_ne_nil some
      omega
    refine ⟨fun empty => ?_, back⟩
    rw [back, empty, List.length_nil] at length
    omega

/-! ## One fault -/

/-- What a fault on the page `va` can stop in: the page does not exist, the page file is full
for a new page of the stack, or less than five frames were free. -/
structure FaultStops (E : Stop → Kernel → Prop) (v : View) (e n va : Nat) : Prop where
  illegal : ∀ s, ¬ Legal (v.entry e) va → GivenUp e n va s → E illegalAccess s
  noSpace : ∀ s, v.entry e (pageNo va) = 0 → Legal (v.entry e) va → E noVirtualSpace s
  full : v.free.length < 5 → ∀ s, E outOfMemory s

/-- The same in another state with these pages and frames. -/
theorem FaultStops.congr {v' : View} (stops : FaultStops E v e n va)
    (entry : v'.entry e = v.entry e) (free : v.free.length ≤ v'.free.length) :
    FaultStops E v' e n va :=
  ⟨fun s illegal => stops.illegal s (entry ▸ illegal), fun s zero legal =>
    stops.noSpace s (entry ▸ zero) (entry ▸ legal), fun short => stops.full (by omega)⟩

/-- The pages of the program. -/
def userPages : Set PageNo := {p | p.1 < 955}

/-- The page `va` has come into memory, and can be accessed. -/
structure View.Fetched (v v' : View) (e va : Nat) : Prop where
  pages : (v.tiers e).Backed userPages → (v.tiers e).Fetched (pageNo va) (v'.tiers e)
  allows : Allows (v'.ptes e (pageNo va)) true true

/-- There is no last page of the list. -/
theorem Listed.releaseVictim_wp {list : WSList} {Q : Unit → Kernel → Prop}
    (listed : Listed e env₀ s w) (none : w.seqs list = []) (crash : E .crash s) :
    wp (releaseVictim e list) Q E s := by
  simp only [releaseVictim, wp_bind]
  apply listLast_wp listed
  rw [none]
  exact crash

/-- A page that is not resident is placed, if need be in place of the last one. -/
theorem Underway.place_wp {Q : Unit → Kernel → Prop} (underway : Underway e env₀ s v w)
    (aligned : Aligned va) (user : UserVa va) (new : va ∉ w.queue env₀)
    (done : ∀ s' env₁ v' w', Legal (v.entry e) va → Underway e env₁ s' v' w' →
      Moved e env₀ v w env₁ v' w' →
      w'.queue env₁ = Recency.touch w.elements.length (w.queue env₀) va →
      v.Fetched v' e va → Q () s')
    (stops : FaultStops E v e env₀.pageWSMaxSize va)
    (lost : (∃ k < env₀.pageWSMaxSize, ¬ w.Has k) → ∀ s', E .crash s') :
    wp (do
      if (← listSize e .pageWorkingSetList) > 0 then
        placement e va
      else if (← getEnv e).secondListSize > 0 then
        releaseVictim e .secondList
        placement e va
      else if (← getEnv e).secondListSize = 0 then
        releaseVictim e .activeList
        placement e va) Q E s := by
  have listed := underway.listed
  have length := w.length_elements env₀
  have few := underway.length_elements_le
  rw [wp_bind]
  apply listSize_wp listed
  simp only [wp_bind, wp_getEnv, wp_ite, listed.secondSize]
  have out : (v.tiers e).memory (pageNo va) = none := by
    by_contra some
    exact new ((underway.memory_ne_none aligned user).mp some)
  have released : ∀ list front x, w.seqs .pageWorkingSetList = [] → w.seqs list = front ++ [x] →
      (list = .secondList ∨ list = .activeList ∧ w.seqs .secondList = []) →
      wp (releaseVictim e list) (fun _ s' => wp (placement e va) Q E s') E s := by
    intro list front x none at_ last
    have queued : env₀.address x ∈ w.queue env₀ := WorkingSet.victim_mem (by simp [at_]) last
    rw [none, List.length_nil, Nat.zero_add] at length
    refine underway.releaseVictim_wp at_ last
      (fun s₁ v₁ w₁ underway₁ moved room queue entry free evicted => ?_)
      fun short => stops.full (by omega)
    refine underway₁.placement_wp room aligned user ?_
      (fun s' env₁ v' w' legal underway' moved' queue' placed allows => ?_)
      (fun s' illegal => stops.illegal s' (entry ▸ illegal))
      (fun s' zero legal => stops.noSpace s' (entry ▸ zero) (entry ▸ legal)) fun short =>
        stops.full (by omega)
    · rw [queue]
      exact fun mem => new (List.mem_of_mem_dropLast mem)
    · refine done s' env₁ v' w' (entry ▸ legal) underway' (moved.trans moved') ?_
        ⟨fun backed => ?_, allows⟩
      · rw [queue', queue, Recency.touch_of_full length.symm new
          (length ▸ List.length_pos_of_mem queued)]
      · obtain ⟨aligned', user'⟩ := underway.mapped.user _ queued
        have here : (v.tiers e).memory (pageNo (env₀.address x)) ≠ .none :=
          (underway.memory_ne_none aligned' user').mpr queued
        exact .replaced out here (evicted (backed _ user' here) ▸ placed)
  split
  · rename_i room
    refine underway.placement_wp (List.ne_nil_of_length_pos room) aligned user new
      (fun s' env₁ v' w' legal underway' moved queue placed allows => ?_) stops.illegal
      stops.noSpace
      fun short => stops.full (by omega)
    refine done s' env₁ v' w' legal underway' moved ?_ ⟨fun _ => .placed out placed, allows⟩
    rw [queue, Recency.touch_of_lt (by omega) new]
  · rename_i noRoom
    have none : w.seqs .pageWorkingSetList = [] := List.eq_nil_of_length_eq_zero (by omega)
    have victim : (∃ k < env₀.pageWSMaxSize, ¬ w.Has k) ∨
        (0 < env₀.secondListSize → w.seqs .secondList ≠ []) ∧
          (env₀.secondListSize = 0 → w.seqs .activeList ≠ []) := by
      by_cases all : ∀ k < env₀.pageWSMaxSize, w.Has k
      · obtain ⟨second, active⟩ :=
          (underway.running fun k => ⟨underway.few k, all k⟩).victim none
        exact Or.inr ⟨second, fun one => (active one).1⟩
      · push Not at all
        exact Or.inl all
    split
    · rename_i two
      by_cases some : w.seqs .secondList = []
      · refine listed.releaseVictim_wp some (lost ?_ s)
        exact victim.resolve_right fun both => both.1 two some
      · exact released _ _ _ none (List.dropLast_append_getLast some).symm (Or.inl rfl)
    · rename_i one
      have nonneg := underway.second
      have sum := underway.sum
      have queue := w.length_queue env₀
      rw [if_pos (by omega)]
      by_cases some : w.seqs .activeList = []
      · refine listed.releaseVictim_wp some (lost ?_ s)
        exact victim.resolve_right fun both => both.2 (by omega) some
      · have back : w.seqs .secondList = [] := by
          by_contra more
          have full := underway.full more
          have pos := List.length_pos_of_ne_nil more
          omega
        exact released _ _ _ none (List.dropLast_append_getLast some).symm (Or.inr ⟨rfl, back⟩)

/-- **A page fault touches the queue.** -/
theorem Underway.pageFaultHandler_wp {Q : Unit → Kernel → Prop} (underway : Underway e env₀ s v w)
    (aligned : Aligned (roundDown va)) (user : UserVa (roundDown va))
    (new : roundDown va ∉ w.addresses env₀ .activeList)
    (done : ∀ s' env₁ v' w', Legal (v.entry e) (roundDown va) ∨ roundDown va ∈ w.queue env₀ →
      Underway e env₁ s' v' w' → Moved e env₀ v w env₁ v' w' →
      w'.queue env₁ = Recency.touch w.elements.length (w.queue env₀) (roundDown va) →
      v.Fetched v' e (roundDown va) → Q () s')
    (stops : FaultStops E v e env₀.pageWSMaxSize (roundDown va))
    (lost : (∃ k < env₀.pageWSMaxSize, ¬ w.Has k) → ∀ s', E .crash s') :
    wp (pageFaultHandler e va) Q E s := by
  simp only [pageFaultHandler, wp_bind]
  apply listFirst_wp underway.listed
  refine wsForeach_state_wp [] (fun n todo w' _ s' => todo.length = n ∧ w'.seqs = w.seqs ∧
    (∃ v', Underway e env₀ s' v' w' ∧ Moved e env₀ v w env₀ v' w' ∧
      v.Then v' e (v.ptes e) (v.entry e) 0 ∧ v'.tiers e = v.tiers e) ∧
      ∃ seen, w.seqs .secondList = seen ++ todo ∧ roundDown va ∉ seen.map env₀.address)
    ?_ ?_ ?_ ?_ (n := (w.seqs .secondList).length)
    ⟨rfl, rfl, ⟨v, underway, .refl e env₀ v w, .refl v e, rfl⟩, [], rfl, by simp⟩
    underway.listed rfl ?_
  · rintro n todo w' b p s' ⟨length, seqs, ⟨v', underway', moved, next, tiers⟩, rest⟩
    obtain ⟨v'', saved, moved', next', tiers'⟩ := underway'.save .secondList p
    rw [next.ptes, next.entry] at next'
    exact ⟨length, seqs, ⟨v'', saved, moved.trans moved', next.trans next', tiers'.trans tiers⟩,
      rest⟩
  · rintro n x rest before w' b s' ⟨length, seqs, ⟨v', underway', within⟩, seen, split_, notSeen⟩
      listed' at' next'
    have same : w'.queue env₀ = w.queue env₀ := by
      simp only [WorkingSet.queue, WorkingSet.addresses, seqs]
    rw [wp_bind]
    apply virtualAddress_wp listed'
    rw [wp_ite]
    split
    · -- a second chance
      rename_i found
      have mem : roundDown va ∈ w.queue env₀ := by
        rw [← found, ← same]
        exact WorkingSet.mem_queue (i := .secondList) (by simp [at']) (by simp)
      rw [wp_bind]
      apply underway'.promote_wp at'
      intro s₁ v₁ w₁ underway₁ moved₁ queue tiers allows
      have tiers' : v₁.tiers e = v.tiers e := tiers.trans within.2.2
      have here : (v.tiers e).memory (pageNo (roundDown va)) ≠ none :=
        (underway.memory_ne_none aligned user).mpr mem
      have short : (w.queue env₀).length ≤ w.elements.length := by
        rw [w.length_elements env₀]
        exact Nat.le_add_left ..
      refine done s₁ env₀ v₁ w₁ (Or.inr mem) underway₁ (within.1.trans moved₁) ?_ ⟨fun _ => ?_, ?_⟩
      · rw [queue, same, Recency.touch_of_mem short mem, ← found, Env.address]
      · rw [tiers']
        exact .here here
      · rw [← found]
        exact allows
    · rename_i other
      refine ⟨rest, before ++ [x], w', ⟨?_, seqs, ⟨v', underway', within⟩, seen ++ [x], ?_, ?_⟩,
        listed', ?_, next'⟩
      · simpa using length
      · simpa using split_
      · rw [List.map_append, List.map_singleton, List.mem_append, List.mem_singleton]
        exact fun mem => mem.elim notSeen fun eq => other eq.symm
      · simpa using at'
  · rintro x rest w' b s' ⟨length, -⟩
    simp at length
  · rintro n w' b s' ⟨-, seqs, ⟨v', underway', moved, next, tiers⟩, seen, split_, notSeen⟩ listed'
    have same : w'.queue env₀ = w.queue env₀ := by
      simp only [WorkingSet.queue, WorkingSet.addresses, seqs]
    have new' : roundDown va ∉ w'.queue env₀ := by
      rw [same, WorkingSet.queue, List.mem_append]
      rw [List.append_nil] at split_
      rw [← split_] at notSeen
      exact fun mem => mem.elim new notSeen
    have elements : w'.elements = w.elements := by simp only [WorkingSet.elements, seqs]
    refine underway'.place_wp aligned user new'
      (fun s₁ env₁ v₁ w₁ legal underway₁ moved₁ queue fetched => ?_)
      (stops.congr next.entry next.free) fun missing => ?_
    · rw [elements, same] at queue
      exact done s₁ env₁ v₁ w₁ (Or.inl (next.entry ▸ legal)) underway₁ (moved.trans moved₁) queue
        ⟨tiers ▸ fetched.pages, fetched.allows⟩
    · obtain ⟨k, lt, off⟩ := missing
      exact lost ⟨k, lt, (moved.has k).not.mp off⟩
  · exact Nat.lt_succ_of_le (underway.listed.length_le _)

/-- The same where all elements are on the lists. -/
theorem Running.pageFaultHandler_wp {Q : Unit → Kernel → Prop} (running : Running e env₀ s v w)
    (aligned : Aligned (roundDown va)) (user : UserVa (roundDown va))
    (new : roundDown va ∉ w.addresses env₀ .activeList)
    (done : ∀ s' env₁ v' w', Legal (v.entry e) (roundDown va) ∨ roundDown va ∈ w.queue env₀ →
      Running e env₁ s' v' w' → env₁.SameSizes env₀ →
      w'.queue env₁ = Recency.touch env₀.pageWSMaxSize (w.queue env₀) (roundDown va) →
      v.Fetched v' e (roundDown va) → Q () s')
    (stops : FaultStops E v e env₀.pageWSMaxSize (roundDown va)) :
    wp (pageFaultHandler e va) Q E s := by
  refine running.underway.pageFaultHandler_wp aligned user new
    (fun s' env₁ v' w' legal underway moved queue fetched => ?_) stops
    fun ⟨k, lt, off⟩ => absurd ((running.all k).mpr lt) off
  rw [running.length_elements] at queue
  exact done s' env₁ v' w' legal (underway.runs moved running.all) moved.sizes queue fetched

/-! ## Runs -/

theorem Kernel.setPage_mem (s : Kernel) (f : Nat) : s.setPage f (s.mem f) = s := by
  rw [Kernel.setPage, Function.update_eq_self]

/-- An access of the program that does not fault, and what it stores: the page is in a frame,
and the state afterwards is again one between two faults. -/
theorem Underway.access {f : Nat} {write : Bool} {s₁ : Kernel} (underway : Underway e env₀ s v w)
    (user : UserVa va) (lt : va < word32) (run : translate va true write s = .ok (some f) s₁)
    (p : Page) : v.memory e (pageNo va) = some (s₁.mem f) ∧ ∃ v',
      Underway e env₀ (s₁.setPage f p) v' w ∧ Moved e env₀ v w env₀ v' w ∧
      v'.tiers e = tiersOf (Function.update (v.ptes e) (pageNo va)
        (accessed (v.ptes e (pageNo va)) write))
        (Function.update (v.memory e) (pageNo va) (some p)) (v.stored e) := by
  have found := (wp_ok run).mp (underway.toSpace.translate_wp underway.current user true write)
  obtain ⟨allowed, here, stored⟩ := found f rfl
  have aligned := roundDown_aligned lt
  have page := pageNo_roundDown va
  have user' : UserVa (roundDown va) := user.roundDown
  have mem := (underway.mapped.present _ aligned user').mp (page ▸ allowed.1)
  have kept := underway.mapped.keep mem ((present_accessed _ write).trans allowed.1)
  rw [page] at kept
  obtain ⟨v', arrived, moved, -, tiers⟩ := underway.arrive (stored p) ⟨rfl, rfl, rfl⟩
    ⟨kept, underway.active, underway.full⟩ fun _ => Iff.rfl
  exact ⟨here, v', arrived, moved, tiers⟩

theorem Running.access {f : Nat} {write : Bool} {s₁ : Kernel} (running : Running e env₀ s v w)
    (user : UserVa va) (lt : va < word32) (run : translate va true write s = .ok (some f) s₁)
    (p : Page) : v.memory e (pageNo va) = some (s₁.mem f) ∧ ∃ v',
      Running e env₀ (s₁.setPage f p) v' w ∧
      v'.tiers e = tiersOf (Function.update (v.ptes e) (pageNo va)
        (accessed (v.ptes e (pageNo va)) write))
        (Function.update (v.memory e) (pageNo va) (some p)) (v.stored e) := by
  obtain ⟨here, v', underway, moved, tiers⟩ := running.underway.access user lt run p
  exact ⟨here, v', underway.runs moved running.all, tiers⟩

/-- `FaultRun e s vas s'`: the pages `vas` of the current environment fault, one after the
other, and are handled; in between the program may access any page that does not fault. -/
inductive FaultRun (e : Nat) (s : Kernel) : List Nat → Kernel → Prop where
  | start : FaultRun e s [] s
  | access {vas : List Nat} {s₁ s₂ : Kernel} {va f : Nat} {write : Bool} {p : Page} :
    FaultRun e s vas s₁ → va < word32 → UserVa va → translate va true write s₁ = .ok (some f) s₂ →
    (write = false → p = s₂.mem f) → FaultRun e s vas (s₂.setPage f p)
  | fault {vas : List Nat} {s₁ s₂ : Kernel} {va : Nat} :
    FaultRun e s vas s₁ → va < word32 → UserVa va →
    ¬ present (pteAt s₁.mem (ppn s₁.globals.cr3) (pageNo va)) →
    pageFaultHandler e va s₁ = .ok () s₂ → FaultRun e s (vas ++ [roundDown va]) s₂

/-- A page that is not present is not on the active list. -/
theorem Underway.new (underway : Underway e env₀ s v w) (lt : va < word32) (user : UserVa va)
    (absent : ¬ present (pteAt s.mem (ppn s.globals.cr3) (pageNo va))) :
    roundDown va ∉ w.addresses env₀ .activeList := by
  intro mem
  have dir : v.place (.pageDir e) = some (ppn s.globals.cr3) := by
    rw [underway.rep.globals]
    exact underway.current
  have user' : UserVa (roundDown va) := user.roundDown
  have page := pageNo_roundDown va
  have here := (underway.mapped.present _ (roundDown_aligned lt) user').mpr mem
  rw [underway.toSpace.pteAt dir user] at absent
  exact absent (page ▸ here)

/-- What a run does to the queue. -/
theorem Running.faultRun {vas : List Nat} (running : Running e env₀ s v w)
    (run : FaultRun e s vas s') : ∃ env₁ v' w', Running e env₁ s' v' w' ∧ env₁.SameSizes env₀ ∧
      w'.queue env₁ = Recency.touchAll env₀.pageWSMaxSize (w.queue env₀) vas := by
  induction run with
  | start => exact ⟨env₀, v, w, running, ⟨rfl, rfl, rfl⟩, rfl⟩
  | @access vas s₁ s₂ va f write p _ lt user access _ ih =>
    obtain ⟨env₁, v₁, w₁, running₁, sizes, queue⟩ := ih
    obtain ⟨-, v₂, running₂, -⟩ := running₁.access user lt access p
    exact ⟨env₁, v₂, w₁, running₂, sizes, queue⟩
  | @fault vas s₁ s₂ va _ lt user absent handled ih =>
    obtain ⟨env₁, v₁, w₁, running₁, sizes, queue⟩ := ih
    have ends : wp (pageFaultHandler e va) (fun _ s' => ∃ env₂ v' w', Running e env₂ s' v' w' ∧
        env₂.SameSizes env₁ ∧ w'.queue env₂ = Recency.touch env₁.pageWSMaxSize (w₁.queue env₁)
          (roundDown va)) (fun _ _ => True) s₁ := by
      apply running₁.pageFaultHandler_wp (roundDown_aligned lt) user.roundDown
        (running₁.underway.new lt user absent)
      · exact fun s' env₂ v' w' _ next same touched _ => ⟨env₂, v', w', next, same, touched⟩
      · exact ⟨fun _ _ _ => trivial, fun _ _ _ => trivial, fun _ _ => trivial⟩
    rw [wp_ok handled] at ends
    obtain ⟨env₂, v₂, w₂, running₂, sizes₂, touched⟩ := ends
    refine ⟨env₂, v₂, w₂, running₂, sizes₂.trans sizes, ?_⟩
    rw [touched, queue, sizes.max, Recency.touchAll, Recency.touchAll, List.foldl_append]
    rfl

/-- **The two lists are one recency queue**: a fault on a page that can be had puts it in front
and cuts the queue to the size of the working set, and the active list is the front of it, if
frames and disk frames are left.  In a run of faults only the last page of the queue is
evicted, and a page that has faulted is not for as many faults less one as the working set has
pages. -/
theorem Running.recency (running : Running e env₀ s v w) :
    (∀ va, va < word32 → UserVa va → Legal (v.entry e) (roundDown va) →
      roundDown va ∉ w.addresses env₀ .activeList →
      wp (pageFaultHandler e va) (fun _ s' => ∃ env₁ v₁ w₁, Running e env₁ s' v₁ w₁ ∧
          env₁.SameSizes env₀ ∧
          w₁.queue env₁ = (roundDown va :: (w.queue env₀).erase (roundDown va)).take
            env₀.pageWSMaxSize ∧
          w₁.addresses env₁ .activeList = (w₁.queue env₁).take
            (min env₀.activeListSize.toNat (w₁.queue env₁).length))
        (fun x _ => x = noVirtualSpace ∧ v.entry e (pageNo (roundDown va)) = 0 ∨
          x = outOfMemory ∧ v.free.length < 5) s) ∧
      ∀ vas s₁, FaultRun e s vas s₁ → ∃ env₁ v₁ w₁, Running e env₁ s₁ v₁ w₁ ∧
        env₁.SameSizes env₀ ∧
        (∀ before page after, vas = before ++ page :: after →
          after.length < env₀.pageWSMaxSize → page ∈ w₁.queue env₁) ∧
        ∀ va s₂, FaultRun e s₁ [va] s₂ → ∃ env₂ v₂ w₂, Running e env₂ s₂ v₂ w₂ ∧
          ∀ page ∈ w₁.queue env₁, page ∉ w₂.queue env₂ →
            (w₁.queue env₁).getLast? = some page := by
  constructor
  · intro va lt user legal new
    apply running.pageFaultHandler_wp (roundDown_aligned lt) user.roundDown new
    · intro s' env₁ v₁ w₁ _ running₁ sizes queue _
      refine ⟨env₁, v₁, w₁, running₁, sizes, queue, ?_⟩
      rw [← sizes.active]
      exact running₁.active_eq
    · exact ⟨fun _ illegal => absurd legal illegal, fun _ zero _ => Or.inl ⟨rfl, zero⟩,
        fun short _ => Or.inr ⟨rfl, short⟩⟩
  · intro vas s₁ run
    obtain ⟨env₁, v₁, w₁, running₁, sizes, queue⟩ := running.faultRun run
    refine ⟨env₁, v₁, w₁, running₁, sizes, fun before page after split_ short => ?_,
      fun va s₂ next => ?_⟩
    · rw [queue, split_, Recency.touchAll, List.foldl_append, List.foldl_cons]
      exact Recency.mem_touchAll _ page after short
    · obtain ⟨env₂, v₂, w₂, running₂, -, touched⟩ := running₁.faultRun next
      refine ⟨env₂, v₂, w₂, running₂, fun page mem gone => ?_⟩
      rw [touched] at gone
      exact (Recency.dropped_eq_getLast running₁.length_queue_le mem gone).2.2

/-! ## More pages in the page file -/

/-- The environment that runs allocates a range: pages are added to the page file, and nothing
else is different. -/
theorem Underway.allocateMem_wp {size : Nat} (underway : Underway e env₀ s v w)
    (below : ∀ a ∈ rangeVas va size, UserVa a ∧ a < kernelBase) :
    wp (allocateMem e va size) (fun _ s' => ∃ v', Underway e env₀ s' v' w ∧
      Moved e env₀ v w env₀ v' w ∧ v'.ptes e = v.ptes e ∧ v'.memory e = v.memory e ∧
      ∀ p q, v.stored e p = some q → v'.stored e p = some q) (fun _ _ => True) s := by
  rw [allocateMem_eq]
  refine wp_mono (underway.toSpace.followed.addPages_wp below) ?_ fun _ _ h => h
  rintro _ s' ⟨D', g', n', ⟨v', space, next, memory, rfl⟩, kept⟩
  have moved : Moved e env₀ v w env₀ v' w := ⟨⟨rfl, rfl, rfl⟩, fun _ => Iff.rfl, next.beside⟩
  exact ⟨v', underway.reach space next ⟨rfl, rfl, rfl⟩ underway.ordered fun _ => Iff.rfl, moved,
    next.ptes, memory, kept⟩

/-! ## A new environment -/

/-- The elements of `envs` lie in the kernel's memory. -/
theorem Machine.high (m : Machine) {k : Nat} (slot : e < nenv) (lt : k < pwsMaxSize) :
    960 ≤ pdx (elementAddress m.envsAddress e k) := by
  have ge := m.envs_ge
  have top := m.envs_lt
  have size : sizeofEnv = 81096 := rfl
  have lt' : k < 5000 := lt
  have slot' : e + 1 ≤ nenv := slot
  rw [size] at top
  have above : kernelBase ≤ elementAddress m.envsAddress e k := by
    rw [elementAddress]
    omega
  have below : elementAddress m.envsAddress e k < word32 := by
    rw [elementAddress, size]
    omega
  simp only [kernelBase, word32] at above below
  rw [Fin.le_def, pdx]
  simp only [ptSize]
  have small := Nat.mod_eq_of_lt (show elementAddress m.envsAddress e k / 4194304 < 1024 by omega)
  rw [small]
  show 960 ≤ _
  omega

/-- An environment gets an address space, and is run. -/
def startSpace (e pageWSSize LRUSecondListSize : Nat) : Prog Unit := do
  let _ ← newSpace e pageWSSize LRUSecondListSize
  envRun e

/-- A new environment that is run has all elements of its working set free. -/
theorem Machine.running_boot (m : Machine) (e size second : Nat) (slot : e < nenv)
    (fits : size ≤ pwsMaxSize) (lt : second < size) :
    ∃ s env v w, Running e env s v w ∧ w.queue env = [] ∧ env.pageWSMaxSize = size ∧
      (∀ p, v.entry e p = 0) ∧ v.diskFree = m.bootView.diskFree ∧ 156 ≤ v.free.length ∧
      startSpace e size second m.boot = .ok () s := by
  have sound := m.sound_boot
  have absent : m.bootView.place (.pageDir e) = none := m.place_bootView (by simp) (by simp)
  have noDisk : m.bootView.place (.diskDir e) = none := m.place_bootView (by simp) (by simp)
  have room := m.free_bootView
  obtain ⟨r, s₁, made, f, L, lists, sound₁, free⟩ :
      ∃ r s', newSpace e size second m.boot = .ok r s' ∧
      ∃ f L, L.Rep (startLists size) ∧ Sound s' (m.bootView.newSpace e f size second L) ∧
        156 ≤ (m.bootView.newSpace e f size second L).free.length := by
    apply wp_returns
    apply newSpace_wp sound absent noDisk (Or.inl fits)
    · intro f rest s' L free lists sound'
      refine ⟨f, L, lists ⟨fun i => rep_zero _, fun _ _ _ => by simp⟩, sound', ?_⟩
      rw [free] at room
      simpa [View.newSpace, View.setEnv, free] using Nat.le_of_succ_le_succ room
    · intro none
      simp [none] at room
  have dir : (m.bootView.newSpace e f size second L).place (.pageDir e) = some f := by
    simp [View.newSpace, View.setEnv]
  obtain ⟨_, s, run, rep⟩ : ∃ r s', envRun e s₁ = .ok r s' ∧
      Rep s' ((m.bootView.newSpace e f size second L).runs e) := by
    apply wp_returns
    apply envRun_wp sound₁.rep
    · intro running
      cases running
    · exact fun s' _ rep' => rep'
  have empty : ((m.bootView.newSpace e f size second L).runs e).ptes e = fun _ => 0 := by
    funext p
    show (m.bootView.newSpace e f size second L).page (.pageTable e p.1) p.2 = 0
    have page : (m.bootView.newSpace e f size second L).page (.pageTable e p.1) =
        m.bootView.page (.pageTable e p.1) := by simp [View.newSpace, View.setEnv]
    rw [page, m.page_bootView (by simp) (by simp)]
    rfl
  have env : ((m.bootView.newSpace e f size second L).runs e).globals.envs e =
      Env.created f size second L Env.zero := by
    simp only [View.runs, View.newSpace, View.setEnv, Globals.setEnv, View.setGlobals_globals,
      Function.update_self]
    rfl
  have start : s.globals.envs e = Env.created f size second L Env.zero := by
    rw [rep.globals, env]
  have listed := listed_created start lists fits
  have sizes : (Env.created f size second L Env.zero).activeListSize = size - second ∧
      (Env.created f size second L Env.zero).secondListSize = second := setSizes_of_lt lt fits
  obtain ⟨active, second'⟩ := sizes
  have none : startLists size .activeList = [] ∧ startLists size .secondList = [] := by
    simp [startLists]
  have addresses : ∀ i, startLists size i = [] → WorkingSet.addresses
      ⟨startLists size, fun i => (L.head i).ptrNext⟩
      (Env.created f size second L Env.zero) i = [] :=
    fun i empty => by
      show (startLists size i).map _ = []
      rw [empty, List.map_nil]
  refine ⟨s, Env.created f size second L Env.zero, _,
    ⟨startLists size, fun i => (L.head i).ptrNext⟩,
    ⟨⟨⟨sound₁.runs rep, ⟨f, dir⟩, listed⟩, ?_, ?_, ?_⟩, fun k => ?_, fits, ?_, ?_, ?_, rfl,
      sound₁.current_runs dir, fun k lt => m.high slot lt⟩, ?_, rfl, fun p => ?_, rfl, free, ?_⟩
  · rw [empty, addresses _ none.1, addresses _ none.2]
    constructor <;> simp
  · rw [active]
    omega
  · exact fun some => absurd none.2 some
  · constructor
    · rintro ⟨i, mem⟩
      exact mem_startLists mem
    · intro (lt : k < size)
      exact ⟨.pageWorkingSetList, by simpa [startLists] using lt⟩
  · rw [active, second']
    show (size : Int) - second + second = size
    omega
  · show ((startLists size .activeList).length : Int) ≤ _
    rw [none.1, active, List.length_nil]
    omega
  · rw [second']
    omega
  · rw [WorkingSet.queue, addresses _ none.1, addresses _ none.2]
    rfl
  · have page : (m.bootView.newSpace e f size second L).page (.diskTable e p.1) =
        m.bootView.page (.diskTable e p.1) := by simp [View.newSpace, View.setEnv]
    show (m.bootView.newSpace e f size second L).page (.diskTable e p.1) p.2 = 0
    rw [page, m.page_bootView (by simp) (by simp)]
    rfl
  · simp only [startSpace, bind, EStateM.bind, made, run]

/-- A page that is not present faults, and the fault is handled. -/
def Kernel.fault (e : Nat) (s : Kernel) (va : Nat) : Option Kernel :=
  if va < word32 ∧ UserVa va ∧ ¬ present (pteAt s.mem (ppn s.globals.cr3) (pageNo va)) then
    after (pageFaultHandler e va) s
  else none

theorem Kernel.fault_eq_some : s.fault e va = some s' ↔
    (va < word32 ∧ UserVa va ∧ ¬ present (pteAt s.mem (ppn s.globals.cr3) (pageNo va))) ∧
      pageFaultHandler e va s = .ok () s' := by
  rw [Kernel.fault]
  split
  · rename_i may
    rw [after_eq_some]
    exact ⟨fun handled => ⟨may, handled.choose_spec⟩, fun handled => ⟨(), handled.2⟩⟩
  · rename_i may
    exact iff_of_false (by simp) fun handled => may handled.1

theorem FaultRun.next {vas : List Nat} {s₁ s₂ : Kernel} (run : FaultRun e s vas s₁)
    (ends : s₁.fault e va = some s₂) : FaultRun e s (vas ++ [roundDown va]) s₂ := by
  obtain ⟨⟨lt, user, absent⟩, handled⟩ := Kernel.fault_eq_some.mp ends
  exact run.fault lt user absent handled

/-- The pages on the two lists are those with an entry. -/
theorem Underway.mem_queue (underway : Underway e env₀ s v w) (aligned : Aligned va)
    (user : UserVa va) :
    va ∈ w.queue env₀ ↔ pteAt s.mem (ppn s.globals.cr3) (pageNo va) ≠ 0 := by
  have dir : v.place (.pageDir e) = some (ppn s.globals.cr3) := by
    rw [underway.rep.globals]
    exact underway.current
  rw [underway.toSpace.pteAt dir user]
  exact (underway.mapped.entry va aligned user).symm

/-- The lowest pages of the stack.  With two active pages and one on the second list, the fourth
fault is a second chance for the first page, and the fifth evicts the second page. -/
theorem recency_stack : ∃ s s₁ s₂, startSpace 0 3 1 bootKernel = .ok () s ∧
    FaultRun 0 s [0xA00EC000, 0xA00ED000, 0xA00EE000, 0xA00EC000] s₁ ∧
    FaultRun 0 s₁ [0xA00EF000] s₂ ∧
    (∃ env₁ v₁ w₁, Running 0 env₁ s₁ v₁ w₁ ∧
      w₁.queue env₁ = [0xA00EC000, 0xA00EE000, 0xA00ED000] ∧
      w₁.addresses env₁ .activeList = [0xA00EC000, 0xA00EE000]) ∧
    ∃ env₁ v₁ w₁, Running 0 env₁ s₁ v₁ w₁ ∧ (w₁.queue env₁).getLast? = some 0xA00ED000 := by
  obtain ⟨s, env, v, w, running, empty, size, -, -, -, started⟩ :=
    smallMachine.running_boot 0 3 1 (by decide) (by decide) (by decide)
  rw [boot_smallMachine] at started
  have ends : (after (startSpace 0 3 1) bootKernel).any (fun s =>
      (s.globals.envs 0).activeListSize = 2 ∧
      (s.fault 0 0xA00EC000).any fun s₁ => (s₁.fault 0 0xA00ED000).any fun s₂ =>
      (s₂.fault 0 0xA00EE000).any fun s₃ => (s₃.fault 0 0xA00EC000).any fun s₄ =>
      (s₄.fault 0 0xA00EF000).any fun s₅ =>
        pteAt s₅.mem (ppn s₅.globals.cr3) (pageNo 0xA00ED000) = 0) = true := by
    decide +kernel
  rw [after_eq_some.mpr ⟨(), started⟩, Option.any_some] at ends
  obtain ⟨active, ends⟩ := of_decide_eq_true ends
  obtain ⟨s₁, fault₁, ends⟩ := (Option.any_eq_true _ _).mp ends
  obtain ⟨s₂, fault₂, ends⟩ := (Option.any_eq_true _ _).mp ends
  obtain ⟨s₃, fault₃, ends⟩ := (Option.any_eq_true _ _).mp ends
  obtain ⟨s₄, fault₄, ends⟩ := (Option.any_eq_true _ _).mp ends
  obtain ⟨s₅, fault₅, ends⟩ := (Option.any_eq_true _ _).mp ends
  have evicted := of_decide_eq_true ends
  have run : FaultRun 0 s [0xA00EC000, 0xA00ED000, 0xA00EE000, 0xA00EC000] s₄ :=
    (((FaultRun.start.next fault₁).next fault₂).next fault₃).next fault₄
  have last : FaultRun 0 s₄ [0xA00EF000] s₅ := FaultRun.start.next fault₅
  have step : ∀ (s s' : Kernel) (env : Env) (v : View) (w : WorkingSet) (va : Nat) (q : List Nat),
      Running 0 env s v w → env.pageWSMaxSize = 3 → env.activeListSize = 2 → w.queue env = q →
      s.fault 0 va = some s' → ustackBottom ≤ va ∧ va < ustackTop ∧ roundDown va = va →
      ∃ env' v' w', Running 0 env' s' v' w' ∧ env'.pageWSMaxSize = 3 ∧ env'.activeListSize = 2 ∧
        w'.queue env' = (va :: q.erase va).take 3 ∧
        w'.addresses env' .activeList = (w'.queue env').take (min 2 (w'.queue env').length) := by
    intro s s' env v w va q running size active queue fault stack
    obtain ⟨⟨lt, user, absent⟩, handled⟩ := Kernel.fault_eq_some.mp fault
    obtain ⟨bottom, top, round⟩ := stack
    have touched := running.recency.1 va lt user (Or.inr (by rw [round]; exact ⟨bottom, top⟩))
      (running.underway.new lt user absent)
    rw [wp_ok handled] at touched
    obtain ⟨env', v', w', running', sizes, queue', active'⟩ := touched
    rw [round, queue, size] at queue'
    rw [active] at active'
    exact ⟨env', v', w', running', sizes.max.trans size, sizes.active.trans active, queue', active'⟩
  have sized : env.activeListSize = 2 := running.listed.activeSize.symm.trans active
  obtain ⟨env₁, v₁, w₁, running₁, size₁, active₁, queue₁, -⟩ :=
    step s s₁ env v w 0xA00EC000 _ running size sized empty fault₁ (by decide)
  obtain ⟨env₂, v₂, w₂, running₂, size₂, active₂, queue₂, -⟩ :=
    step s₁ s₂ env₁ v₁ w₁ 0xA00ED000 _ running₁ size₁ active₁ queue₁ fault₂ (by decide)
  obtain ⟨env₃, v₃, w₃, running₃, size₃, active₃, queue₃, -⟩ :=
    step s₂ s₃ env₂ v₂ w₂ 0xA00EE000 _ running₂ size₂ active₂ queue₂ fault₃ (by decide)
  obtain ⟨env₄, v₄, w₄, running₄, -, -, queue₄, front⟩ :=
    step s₃ s₄ env₃ v₃ w₃ 0xA00EC000 _ running₃ size₃ active₃ queue₃ fault₄ (by decide)
  rw [queue₄] at front
  refine ⟨s, s₄, s₅, started, run, last, ⟨env₄, v₄, w₄, running₄, queue₄.trans (by decide),
    front.trans (by decide)⟩, ?_⟩
  obtain ⟨env', v', w', running', same, recent, oldest⟩ := running.recency.2 _ s₄ run
  obtain ⟨env'', v'', w'', running'', gone⟩ := oldest 0xA00EF000 s₅ last
  refine ⟨env', v', w', running', gone 0xA00ED000 ?_ ?_⟩
  · refine recent [0xA00EC000] 0xA00ED000 [0xA00EE000, 0xA00EC000] rfl ?_
    rw [size]
    decide
  · have aligned : Aligned 0xA00ED000 := ⟨by decide, by decide⟩
    rw [running''.underway.mem_queue aligned (by decide), not_not]
    exact evicted

end Fos
