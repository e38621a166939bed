import Fos.System.Ownership
import Fos.WorkingSet.DemandPaging

/-!
# What an environment sees of the others

Nothing: whatever other environments do while one waits, are created, run, fault, allocate, free
and are freed, what it loads is what it stored last.

* `Bytes.after`, `Observed`: what is known of the bytes of one environment, in a run of all;
* `Told.step`: every event keeps it true;
* `Machine.Run.isolated`: so a load returns what is known.
-/

namespace Fos

open Arena Exec WriteBack

variable {m : Machine} {s s' s₁ : Kernel} {v v' : View} {e va size : Nat}
    {known : Bytes} {a : Event}

/-- A range of the heap is freed. -/
def Bytes.forget (known : Bytes) (va size : Nat) : Bytes := fun a =>
  if va ≤ roundDown a ∧ roundDown a < va + size then none else known a

/-- What is known after an event of the environment itself. -/
def Bytes.own (known : Bytes) (e : Nat) (s s' : Kernel) : Event → Bytes
  | .store va b => Function.update known va (some b)
  | .fault va => known.readIn e va s s'
  | .freeMem va size => known.forget va size
  | _ => known

/-- What is known of the bytes of `e` after an event.  Those of others change nothing. -/
def Bytes.after (known : Bytes) (e : Nat) (s s' : Kernel) (a : Event) : Bytes :=
  if s.globals.curenv = some e then known.own e s s' a else known

/-- `Observed e s s' known`: the system goes on from `s`, and `e` is not freed. -/
inductive Observed (e : Nat) (s : Kernel) : Kernel → Bytes → Prop where
  | start : Observed e s s (s.startBytes e)
  | step {s₁ s₂ : Kernel} {known : Bytes} (a : Event) : Observed e s s₁ known → a.Allowed s₁ →
    a ≠ .free e → a.prog s₁ = .ok () s₂ → Observed e s s₂ (known.after e s₁ s₂ a)

/-- The environment `e` is freed. -/
def Event.Frees (e : Nat) : Event → Prop
  | .free e' => e' = e
  | _ => False

instance (e : Nat) : (a : Event) → Decidable (a.Frees e)
  | .free e' => inferInstanceAs (Decidable (e' = e))
  | .create .. | .run _ | .load _ | .store .. | .fault _ | .allocateMem .. | .freeMem .. | .exit
  | .prompt => inferInstanceAs (Decidable False)

/-- The state after an event, with what is known of `e` then. -/
def Kernel.observe (e : Nat) (p : Kernel × Bytes) (a : Event) : Option (Kernel × Bytes) :=
  if a.Frees e then none else (p.1.exec a).map fun s' => (s', p.2.after e p.1 s' a)

/-- The environment exists, and what is known of its bytes is true. -/
def Told (m : Machine) (e : Nat) (known : Bytes) (s : Kernel) : Prop :=
  ∃ v, Orderly m s v ∧ s.Live e ∧ Shows Page.at known.pages userPages (v.tiers e)

/-! ## Its own events -/

/-- The first address of a page. -/
theorem roundDown_addressAt (p : PageNo) (k : Fin pageSize) :
    roundDown (addressAt p k) = addressAt p 0 := by
  rw [roundDown, addressAt_mod]
  simp [addressAt]

theorem addressAt_aligned (p : PageNo) : Aligned (addressAt p 0) := by
  rw [← roundDown_addressAt p 0]
  exact roundDown_aligned (addressAt_lt p 0)

/-- The pages that it allocates. -/
theorem shows_allocateMem (shows : Shows Page.at known.pages userPages (v.tiers e))
    (effect : Event.Effect e v v' (.allocateMem va size)) :
    Shows Page.at known.pages userPages (v'.tiers e) := by
  obtain ⟨ptes, memory, stored⟩ := effect
  intro p user
  rw [View.tiers, ptes, memory]
  exact (shows p user).add (stored p)

/-- The pages that it frees. -/
theorem shows_freeMem (shows : Shows Page.at known.pages userPages (v.tiers e))
    (effect : Event.Effect e v v' (.freeMem va size)) :
    Shows Page.at (known.forget va size).pages userPages (v'.tiers e) := by
  intro p user
  have aligned := addressAt_aligned p
  have page := pageNo_addressAt p 0
  have userVa : UserVa (addressAt p 0) := by
    show (pageNo (addressAt p 0)).1 < 955
    rw [page]
    exact user
  by_cases inside : va ≤ addressAt p 0 ∧ addressAt p 0 < va + size
  · obtain ⟨memory, -⟩ := effect.gone _ aligned inside.1 inside.2
    rw [page] at memory
    refine .unknown (fun k => ?_) fun here => absurd memory here
    rw [Bytes.pages, Bytes.forget, roundDown_addressAt, if_pos inside]
  · obtain ⟨gone, stored⟩ := effect.kept _ aligned userVa inside
    rw [page] at gone stored
    have item := shows p user
    have same : (known.forget va size).pages p = known.pages p := by
      funext k
      rw [Bytes.pages, Bytes.forget, roundDown_addressAt, if_neg inside, Bytes.pages]
    simp only [View.tiers, tiersOf] at item ⊢
    rw [same, stored]
    by_cases out : v'.memory e p = none
    · rw [gone out] at item
      rw [out]
      exact item.idle
    · obtain ⟨memory, dirty⟩ := effect.memory p out
      rw [memory, dirty]
      exact item

/-! ## Runs -/

/-- What is known is true after an event of the environment. -/
theorem Orderly.shows (orderly : Orderly m s v) (next : Orderly m s' v') (live : s.Live e)
    (live' : s'.Live e) (allowed : a.Allowed s)
    (shows : Shows Page.at known.pages userPages (v.tiers e)) (effect : a.Effect e v v') :
    Shows Page.at (known.own e s s' a).pages userPages (v'.tiers e) := by
  cases a with
  | store va b =>
    obtain ⟨p, here, tiers⟩ := effect
    rw [tiers]
    exact shows_storeByte shows here allowed.1 b
  | fault va =>
    obtain ⟨env, w, runnable⟩ := orderly.runnable live
    obtain ⟨env', w', runnable'⟩ := next.runnable live'
    exact runnable.handled runnable'.toSpace allowed.2.1 shows effect
  | allocateMem va size => exact shows_allocateMem shows effect
  | freeMem va size => exact shows_freeMem shows effect
  | _ => exact (show v'.tiers e = v.tiers e from effect) ▸ shows

/-- An event that is not the end of the environment keeps it told. -/
theorem Told.step (told : Told m e known s) (allowed : a.Allowed s) (other : a ≠ .free e)
    (run : a.prog s = .ok () s') : Told m e (known.after e s s' a) s' := by
  obtain ⟨v, orderly, live, shows⟩ := told
  obtain ⟨v', next, -, -, does⟩ := orderly.step allowed run
  obtain ⟨live', effect⟩ := does e live other
  refine ⟨v', next, live', ?_⟩
  rw [Bytes.after]
  rw [Event.Does] at effect
  split at effect
  · rename_i is
    rw [if_pos is]
    exact orderly.shows next live live' allowed shows effect
  · rename_i is
    rw [if_neg is, effect]
    exact shows

theorem Observed.told (start : Told m e (s.startBytes e) s) (run : Observed e s s₁ known) :
    Told m e known s₁ := by
  induction run with
  | start => exact start
  | step a _ allowed other ends ih => exact ih.step allowed other ends

/-- A byte that is known is loaded. -/
theorem Told.byte (told : Told m e known s) (is : s.globals.curenv = some e) (lt : va < word32)
    (user : UserVa va) {f : Nat} (access : translate va true false s = .ok (some f) s')
    {b : BitVec 8} (byte : known va = some b) : (s'.mem f).byte (va % pageSize) = b := by
  obtain ⟨v, orderly, -, shows⟩ := told
  obtain ⟨env, w, underway⟩ := orderly.underway is
  obtain ⟨here, -⟩ := underway.access user lt access (s'.mem f)
  refine (shows (pageNo va) user).here (k := offset va) here ?_
  rw [Bytes.pages, addressAt_pageNo lt, byte]

/-- The bytes of the start are known. -/
theorem Machine.Run.told (run : m.Run s) (live : s.Live e)
    (backed : ∀ va < word32, UserVa va → s.pageEntry e va ≠ 0 → s.pageFileEntry e va ≠ 0) :
    Told m e (s.startBytes e) s := by
  obtain ⟨v, orderly⟩ := run.orderly
  obtain ⟨env, w, runnable⟩ := orderly.runnable live
  exact ⟨v, orderly, live, runnable.shows_start backed⟩

/-- **Environments are isolated.**  From any state that the system comes to, an environment whose
pages are in the page file loads the byte that it stored last, or that the page file had when it
read the page in, whatever the other environments do in between and in whatever order. -/
theorem Machine.Run.isolated (run : m.Run s) (live : s.Live e)
    (backed : ∀ va < word32, UserVa va → s.pageEntry e va ≠ 0 → s.pageFileEntry e va ≠ 0) :
    ∀ s₁ known, Observed e s s₁ known → s₁.globals.curenv = some e → ∀ va < word32, UserVa va →
      ∀ f s₂, translate va true false s₁ = .ok (some f) s₂ →
        ∀ b, known va = some b → (s₂.mem f).byte (va % pageSize) = b := by
  intro s₁ known observed is va lt user f s₂ access b byte
  exact (observed.told (run.told live backed)).byte is lt user access byte

theorem Observed.observes {evs : List Event} (run : m.Run s)
    (ends : evs.foldlM (Kernel.observe e) (s, s.startBytes e) = some (s₁, known)) :
    Observed e s s₁ known := by
  refine (foldlM_steps (l := []) (R := fun _ p => m.Run p.1 ∧ Observed e s p.1 p.2) ?_
    ⟨run, .start⟩ ends).2
  rintro - ⟨s₁, known⟩ a p ⟨run₁, observed⟩ ends₁
  obtain ⟨other, ends₁⟩ := Option.ite_none_left_eq_some.mp ends₁
  obtain ⟨s₂, happens, rfl⟩ := Option.map_eq_some_iff.mp ends₁
  obtain ⟨allowed, ran⟩ := run₁.exec happens
  refine ⟨run₁.step a allowed ran, observed.step a allowed ?_ ran⟩
  rintro rfl
  exact other rfl

/-- An environment with one element in its working set has only the page of this element in
memory. -/
theorem Machine.Run.backed_of_one (run : m.Run s) (live : s.Live e)
    (size : (s.globals.envs e).pageWSMaxSize = 1)
    (file : s.pageFileEntry e ((s.globals.envs e).address 0) ≠ 0) :
    ∀ va < word32, UserVa va → s.pageEntry e va ≠ 0 → s.pageFileEntry e va ≠ 0 := by
  intro va lt user entry
  obtain ⟨v, orderly⟩ := run.orderly
  have entries := orderly.toSound.file.pageFileEntry e
  obtain ⟨env, w, runnable⟩ := orderly.runnable live
  obtain ⟨d, dir⟩ := runnable.dir
  rw [runnable.toSound.pageEntry dir user, View.pte_eq, ← pageNo_roundDown] at entry
  have queued := (runnable.mapped.entry _ (roundDown_aligned lt) user.roundDown).mp entry
  obtain ⟨i, k, mem, here⟩ : ∃ i, ∃ k ∈ w.seqs i, env.address k = roundDown va := by
    rcases List.mem_append.mp queued with mem | mem <;> exact ⟨_, List.mem_map.mp mem⟩
  have small := runnable.few k ⟨i, mem⟩
  rw [← runnable.listed.maxSize, size, Nat.lt_one_iff] at small
  have same : (s.globals.envs e).address 0 = roundDown va := by
    rw [← here, small, Env.address, runnable.listed.elements, Env.address]
  rwa [entries, ← pageNo_roundDown, ← same, ← entries]

/-- Two environments with the same program, and one page of memory for each. -/
abbrev twoPrograms : List Event :=
  [.create 0 (byteProgram 0x800000) 1 0, .create 1 (byteProgram 0x800000) 1 0]

/-- Both store a byte at the same address, and the page of the first is evicted and read back. -/
abbrev bothStore : List Event :=
  [.run 0, .fault 0x800010, .fault 0x800010, .store 0x800010 7, .run 1, .fault 0x800010,
    .fault 0x800010, .store 0x800010 9, .run 0, .fault 0xEEBFD000, .fault 0x800010]

/-- Each of them loads the byte that it has stored. -/
theorem isolated_two : ∃ s s₀ s₁ known₀ known₁,
    twoPrograms.foldlM Kernel.exec bootKernel = some s ∧
    bothStore.foldlM (Kernel.observe 0) (s, s.startBytes 0) = some (s₀, known₀) ∧
    (bothStore ++ [Event.run 1]).foldlM (Kernel.observe 1) (s, s.startBytes 1) = some (s₁, known₁) ∧
    (∃ f s', translate 0x800010 true false s₀ = .ok (some f) s' ∧ (s'.mem f).byte 0x10 = 7) ∧
    ∃ f s', translate 0x800010 true false s₁ = .ok (some f) s' ∧ (s'.mem f).byte 0x10 = 9 := by
  have ends : (twoPrograms.foldlM Kernel.exec bootKernel).any (fun s =>
      (∀ e ∈ [0, 1], s.Live e ∧ (s.globals.envs e).pageWSMaxSize = 1 ∧
        s.pageFileEntry e ((s.globals.envs e).address 0) ≠ 0) ∧
      (bothStore.foldlM (Kernel.observe 0) (s, s.startBytes 0)).any (fun p =>
        p.1.globals.curenv = some 0 ∧ p.2 0x800010 = some 7 ∧
          (after (Event.load 0x800010).prog p.1).isSome) ∧
      ((bothStore ++ [Event.run 1]).foldlM (Kernel.observe 1) (s, s.startBytes 1)).any fun p =>
        p.1.globals.curenv = some 1 ∧ p.2 0x800010 = some 9 ∧
          (after (Event.load 0x800010).prog p.1).isSome) = true := by
    decide +kernel
  obtain ⟨s, created, ends⟩ := (Option.any_eq_true _ _).mp ends
  obtain ⟨alone, first, second⟩ := of_decide_eq_true ends
  obtain ⟨run, -⟩ := run_bootKernel.execs created
  have loads : ∀ (e : Nat) (evs : List Event) (b : BitVec 8), e ∈ [0, 1] →
      (evs.foldlM (Kernel.observe e) (s, s.startBytes e)).any (fun p =>
        p.1.globals.curenv = some e ∧ p.2 0x800010 = some b ∧
          (after (Event.load 0x800010).prog p.1).isSome) = true →
      ∃ s₁ known, evs.foldlM (Kernel.observe e) (s, s.startBytes e) = some (s₁, known) ∧
        ∃ f s', translate 0x800010 true false s₁ = .ok (some f) s' ∧
          (s'.mem f).byte 0x10 = b := by
    intro e evs b mem ends
    obtain ⟨live, size, file⟩ := alone e mem
    obtain ⟨⟨s₁, known⟩, observes, ends⟩ := (Option.any_eq_true _ _).mp ends
    obtain ⟨is, stored, ends⟩ := of_decide_eq_true ends
    obtain ⟨s₂, ends⟩ := Option.isSome_iff_exists.mp ends
    obtain ⟨_, ends⟩ := after_eq_some.mp ends
    obtain ⟨f, s', access, -⟩ := translated ends
    refine ⟨s₁, known, observes, f, s', access, ?_⟩
    exact run.isolated live (run.backed_of_one live size file) s₁ known (.observes run observes) is
      0x800010 (by decide) (by decide) f s' access b stored
  obtain ⟨s₀, known₀, observed₀, loaded₀⟩ := loads 0 _ 7 (by decide) first
  obtain ⟨s₁, known₁, observed₁, loaded₁⟩ := loads 1 _ 9 (by decide) second
  exact ⟨s, s₀, s₁, known₀, known₁, created, observed₀, observed₁, loaded₀, loaded₁⟩

end Fos
