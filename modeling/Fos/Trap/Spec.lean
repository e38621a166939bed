import Fos.Exec.Wp
import Fos.Trap.Frames

/-!
# What a trap does

A trap of a user program ends with the registers of every environment in its frame: those of the
one that was interrupted are what it gets back, and those of the others are as they were, unless
they have been made or freed.

* `Performs`: the events of the memory manager that a trap consists of;
* `Event.frameAfter`: what an event makes of the frame of an environment;
* `Serves`: a trap of an environment under way, and what each part of it keeps;
* `Ends`: how a trap ends;
* `Good.interrupted_wp`: from the interrupt to the end;
* `Board.Placed.kernel_fault`: the faults of the kernel itself.
-/

namespace Fos

open Exec X86

variable {m : Machine} {b b₁ : Board} {w : Service} {e n : Nat} {evs : List Event} {a : Event}
  {c : Cpu} {s s' s'' : Kernel} {i : BitVec 32}

/-! ## Events -/

/-- Several events, one after the other. -/
inductive Performs : Kernel → List Event → Kernel → Prop where
  | nil {s : Kernel} : Performs s [] s
  | cons {s s' s'' : Kernel} {a : Event} {evs : List Event} : a.Allowed s → a.prog s = .ok () s' →
    Performs s' evs s'' → Performs s (a :: evs) s''

theorem Performs.snoc (performs : Performs s evs s') (allowed : a.Allowed s')
    (run : a.prog s' = .ok () s'') : Performs s (evs ++ [a]) s'' := by
  induction performs with
  | nil => exact .cons allowed run .nil
  | cons before ran _ ih => exact .cons before ran (ih allowed run)

/-- The environment is made or freed. -/
def Event.Replaces (e : Nat) : Event → Prop
  | .create e' _ _ _ => e' = e
  | .free e' => e' = e
  | _ => False

/-- The frame of a new environment with the entry point `entry`: in ring 3, with an empty stack and
interrupts, and zero otherwise. -/
def Trap.newFrame (entry : BitVec 32) : Trapframe where
  tfRegs :=
    { regEdi := 0, regEsi := 0, regEbp := 0, regOesp := 0, regEbx := 0, regEdx := 0, regEcx := 0
      regEax := 0 }
  tfEs := gdUd ||| 3
  tfDs := gdUd ||| 3
  tfTrapno := 0
  tfErr := 0
  tfEip := entry
  tfCs := gdUt ||| 3
  tfEflags := flIF
  tfEsp := BitVec.ofNat 32 ustackTop
  tfSs := gdUd ||| 3

/-- What an event makes of the frame `tf` of an environment; `i` is the entry point of new
environments. -/
def Event.frameAfter (i : BitVec 32) (e : Nat) (tf : Trapframe) : Event → Trapframe
  | .create e' _ _ _ => if e' = e then Trap.newFrame i else tf
  | .free e' => if e' = e then .ofWords fun _ => 0 else tf
  | _ => tf

theorem Event.frameAfter_of_not {tf : Trapframe} (keeps : ¬ a.Replaces e) :
    tf = a.frameAfter i e tf := by
  cases a <;> first | rfl | exact (if_neg keeps).symm

/-- Events that neither make nor free the environment leave its frame as it is. -/
theorem foldl_frameAfter {tf : Trapframe} (keeps : ∀ a ∈ evs, ¬ a.Replaces e) :
    evs.foldl (Event.frameAfter i e) tf = tf := by
  induction evs with
  | nil => rfl
  | cons a evs ih =>
    rw [List.foldl_cons, ← Event.frameAfter_of_not (keeps a List.mem_cons_self)]
    exact ih fun a mem => keeps a (List.mem_cons_of_mem _ mem)

theorem Event.Creates.replaces (creates : a.Creates e) : a.Replaces e := by
  cases a <;> first | exact creates | exact creates.elim

theorem Machine.Run.envsAddress (run : m.Run s) : s.globals.envsAddress = m.envsAddress := by
  obtain ⟨v, orderly⟩ := run.orderly
  rw [orderly.rep.globals, orderly.envsAddress]

/-- Only the slots of `envs` have environments. -/
theorem Machine.Run.live_lt (run : m.Run s) (live : s.Live e) : e < nenv := by
  induction run with
  | boot =>
    rw [Kernel.Live, m.orderly_boot.rep.globals] at live
    exact (live rfl).elim
  | step a before allowed ends ih =>
    obtain ⟨v, orderly⟩ := before.orderly
    obtain ⟨v', -, back, -, -⟩ := orderly.step allowed ends
    rcases back e live with was | creates
    · exact ih was
    · cases a <;> try exact creates.elim
      obtain rfl := creates
      exact allowed.1

theorem Machine.Run.placed (run : m.Run b.kernel) : b.Placed := by
  constructor <;> rw [run.envsAddress]
  · exact m.envs_ge
  · exact m.envs_lt

theorem Machine.Run.envTf (run : m.Run b.kernel) (run' : m.Run b₁.kernel) (e : Nat) :
    b.envTf e = b₁.envTf e := by
  rw [Board.envTf, Board.envTf, run.envsAddress, run'.envsAddress]

/-- What exists after an event was there before, or is made by it. -/
theorem Machine.Run.live_before (run : m.Run s) (allowed : a.Allowed s)
    (ends : a.prog s = .ok () s')
    (live : s'.Live e) (quiet : ¬ a.Replaces e) : s.Live e := by
  obtain ⟨v, orderly⟩ := run.orderly
  obtain ⟨v', -, back, -, -⟩ := orderly.step allowed ends
  exact (back e live).resolve_right fun creates => quiet creates.replaces

theorem Machine.Run.live_after (run : m.Run s) (allowed : a.Allowed s) (ends : a.prog s = .ok () s')
    (live : s.Live e) (other : a ≠ .free e) : s'.Live e := by
  obtain ⟨v, orderly⟩ := run.orderly
  obtain ⟨v', -, -, -, does⟩ := orderly.step allowed ends
  exact (does e live other).1

theorem Machine.Run.live_free (run : m.Run s) (allowed : (Event.free e).Allowed s)
    (ends : Fos.envFree e s = .ok () s') : ¬ s'.Live e := by
  obtain ⟨v, orderly⟩ := run.orderly
  obtain ⟨v', next, -, vacant, -⟩ := orderly.free allowed.1 allowed.2 ends
  exact fun live => next.live.mp live (vacant.2 _ (Or.inl rfl))

theorem Machine.Run.curenv_after (run : m.Run s) (allowed : a.Allowed s)
    (ends : a.prog s = .ok () s') (stays : ¬ a.Switches) :
    s'.globals.curenv = s.globals.curenv := by
  obtain ⟨v, orderly⟩ := run.orderly
  obtain ⟨v', -, -, curenv, -⟩ := orderly.step allowed ends
  exact curenv stays

theorem Machine.Run.live_current (run : m.Run s) (is : s.globals.curenv = some e) : s.Live e := by
  obtain ⟨v, orderly⟩ := run.orderly
  exact orderly.live.mpr (orderly.runs e (orderly.rep.globals ▸ is)).1

/-! ## A trap under way -/

/-- The kernel serves the environment `e`, which was interrupted in the state `b` and will go on
with the registers `c`; so far it has performed `evs`.  New environments have the entry point
`i`. -/
structure Serves (m : Machine) (i : BitVec 32) (b : Board) (e : Nat) (evs : List Event) (c : Cpu)
    (b₁ : Board) : Prop where
  run : m.Run b₁.kernel
  performs : Performs b.kernel evs b₁.kernel
  inner : ring b₁.cpu.cs = 0
  slot : e < nenv
  frame : (b₁.frame e).cpu = c
  rings : ∀ e', b₁.kernel.Live e' → ring (b₁.frame e').tfCs = 3
  others : ∀ e' < nenv, e' ≠ e → b₁.frame e' = evs.foldl (Event.frameAfter i e') (b.frame e')

/-- A trap ends in a stop, in an environment with the registers of its frame, or at the prompt. -/
def Ends (m : Machine) (i : BitVec 32) (b : Board) (e : Nat) (evs : List Event) (c : Cpu) (x : Exit)
    (b' : Board) : Prop :=
  match x with
  | .stop _ => True
  | .popped => ∃ b₁ e', Serves m i b e evs c b₁ ∧ b₁.kernel.globals.curenv = some e' ∧
      b' = { b₁ with cpu := (b₁.frame e').cpu }
  | .prompt => Serves m i b e evs c b' ∧ b'.kernel.globals.curenv = none

theorem wp_onKernel {α : Type} (p : Prog α) {Q : α → Board → Prop} {E : Exit → Board → Prop} :
    wp (onKernel p) Q E b ↔ wp p (fun r k => Q r (b.setKernel k))
      (fun x k => E (.stop x) (b.setKernel k)) b.kernel := by
  simp only [wp, onKernel]
  cases p b.kernel <;> rfl

theorem frame_setKernel (run : m.Run b₁.kernel) (run' : m.Run s) (e : Nat) :
    (b₁.setKernel s).frame e = b₁.frame e := by
  rw [Board.frame, Machine.Run.envTf (b := b₁.setKernel s) run' run]
  rfl

/-- An event that neither makes nor frees an environment. -/
theorem Serves.event (serves : Serves m i b e evs c b₁) (allowed : a.Allowed b₁.kernel)
    (quiet : ∀ e', ¬ a.Replaces e') (ends : a.prog b₁.kernel = .ok () s) :
    Serves m i b e (evs ++ [a]) c (b₁.setKernel s) where
  run := .step a serves.run allowed ends
  performs := serves.performs.snoc allowed ends
  inner := serves.inner
  slot := serves.slot
  frame := by
    rw [frame_setKernel serves.run (.step a serves.run allowed ends), serves.frame]
  rings e' live := by
    rw [frame_setKernel serves.run (.step a serves.run allowed ends)]
    exact serves.rings e' (serves.run.live_before allowed ends live (quiet e'))
  others e' slot ne := by
    rw [frame_setKernel serves.run (.step a serves.run allowed ends), serves.others e' slot ne,
      List.foldl_append]
    exact Event.frameAfter_of_not (quiet e')

/-- Writing to the frame of the environment that is served. -/
theorem Serves.write (serves : Serves m i b e evs c b₁) {mem : Mem} {c' : Cpu}
    (elsewhere : ∀ x, sizeofTrapframe ≤ (x - b₁.envTf e).toNat → mem x = b₁.mem x)
    (frame : ((b₁.setMem mem).frame e).cpu = c') (outer : ring c'.cs = 3) :
    Serves m i b e evs c' (b₁.setMem mem) where
  run := serves.run
  performs := serves.performs
  inner := serves.inner
  slot := serves.slot
  frame := frame
  rings e' live := by
    rcases eq_or_ne e' e with rfl | ne
    · rw [← frame] at outer
      exact outer
    · rw [serves.run.placed.frame_elsewhere serves.slot (serves.run.live_lt live) ne elsewhere]
      exact serves.rings e' live
  others e' slot ne := by
    rw [serves.run.placed.frame_elsewhere serves.slot slot ne elsewhere]
    exact serves.others e' slot ne

/-! ## Leaving -/

theorem curenv_envRun (run : Fos.envRun e s = .ok () s') : s'.globals.curenv = some e := by
  change (if s.globals.curenv ≠ some e then _ else _ : Prog Unit) s = _ at run
  by_cases same : s.globals.curenv = some e
  · rw [if_neg (not_not_intro same)] at run
    cases run
    exact same
  · rw [if_pos same] at run
    cases run
    rfl

/-- `env_run` of an environment that exists. -/
theorem Serves.envRun_wp {e' : Nat} (serves : Serves m i b e evs c b₁) (live : b₁.kernel.Live e') :
    wp (Trap.envRun e') (fun _ _ => False) (Ends m i b e (evs ++ [.run e']) c) b₁ := by
  rw [Trap.envRun, wp_bind, wp_onKernel]
  rw [wp]
  cases run : Fos.envRun e' b₁.kernel with
  | error x k => trivial
  | ok _ k =>
    have next := serves.event (a := .run e') live (fun _ => not_false) run
    have outer := next.rings e' (next.run.live_current (curenv_envRun run))
    refine ⟨b₁.setKernel k, e', next, curenv_envRun run, ?_⟩
    have pops := run_envPopTf (b₁.setKernel k).state ((b₁.setKernel k).envTf e')
    rw [if_neg (by
      show ring ((b₁.setKernel k).frame e').tfCs ≠ ring b₁.cpu.cs
      rw [outer, serves.inner]
      decide)] at pops
    show (b₁.setKernel k).setState _ = _
    rw [pops]
    rfl

/-- What `fos_scheduler` does. -/
def Service.goes (w : Service) : Event :=
  match w.next with
  | some e => .run e
  | none => .prompt

/-- `fos_scheduler` with an environment that exists, or none. -/
theorem Serves.fosScheduler_wp (serves : Serves m i b e evs c b₁)
    (next : ∀ e', w.next = some e' → b₁.kernel.Live e') :
    wp (Trap.fosScheduler w) (fun _ _ => False)
      (Ends m i b e (evs ++ [w.goes]) c) b₁ := by
  rw [Trap.fosScheduler, Service.goes]
  cases goes : w.next with
  | some e' => exact serves.envRun_wp (next e' goes)
  | none =>
    have ended := serves.event (a := .prompt) trivial (fun _ => not_false) rfl
    exact ⟨ended, rfl⟩

/-! ## Serving -/

/-- The events that a system call of the environment `e` consists of. -/
def Service.call (w : Service) (e : Nat) (c : Cpu) : List Event :=
  match c.eax.toNat with
  | 6 => [.exit, w.goes]
  | 17 => [.freeMem c.edx.toNat c.ecx.toNat, .run e]
  | 18 => [.allocateMem c.edx.toNat c.ecx.toNat, .run e]
  | 33 => [.create w.slot w.program c.ecx.toNat c.ebx.toNat, .run e]
  | 35 => [.free w.slot, .run e]
  | _ => [.run e]

/-- The registers after a system call. -/
def Service.result (w : Service) (e : Nat) (cr2 : BitVec 32) (c : Cpu) : Cpu :=
  match c.eax.toNat with
  | 3 => { c with eax := BitVec.ofNat 32 e }
  | 6 => c
  | 17 => { c with eax := 0 }
  | 18 => { c with eax := 0 }
  | 20 => { c with eax := 0, eflags := c.eflags &&& ~~~ flIF }
  | 21 => { c with eax := 0, eflags := c.eflags ||| flIF }
  | 33 => { c with eax := w.envId }
  | 35 => { c with eax := 0 }
  | 37 => { c with eax := cr2 }
  | 38 => { c with eax := 0 }
  | _ => { c with eax := BitVec.ofInt 32 eInval }

/-- The interrupted environment is still the current one. -/
structure Holding (m : Machine) (i : BitVec 32) (b : Board) (e : Nat) (evs : List Event) (c : Cpu)
    (b₁ : Board) : Prop extends Serves m i b e evs c b₁ where
  curenv : b₁.kernel.globals.curenv = some e
  outer : ring c.cs = 3

variable {α : Type} {Q : α → Board → Prop} {E : Exit → Board → Prop}

theorem wp_current (is : b.kernel.globals.curenv = some e) {Q : Nat → Board → Prop} :
    wp Trap.current Q E b ↔ Q e b := by
  rw [Trap.current, wp_bind, wp_get, is]
  rfl

/-- A program of the memory manager that is an event. -/
theorem Holding.event_wp {p : Prog Unit} {Q : Unit → Board → Prop}
    (holding : Holding m i b e evs c b₁)
    (is : p b₁.kernel = a.prog b₁.kernel) (allowed : a.Allowed b₁.kernel)
    (quiet : ∀ e', ¬ a.Replaces e') (stays : ¬ a.Switches)
    (ends : ∀ k, Holding m i b e (evs ++ [a]) c (b₁.setKernel k) → Q () (b₁.setKernel k))
    (stops : ∀ x b', E (.stop x) b') : wp (onKernel p) Q E b₁ := by
  rw [wp_onKernel, wp, is]
  cases run : a.prog b₁.kernel with
  | error x k => exact stops x _
  | ok _ k =>
    exact ends k ⟨holding.event allowed quiet run,
      (holding.run.curenv_after allowed run stays).trans holding.curenv, holding.outer⟩

/-- The end of `trap`. -/
theorem Holding.resume_wp (holding : Holding m i b e evs c b₁) :
    wp (Trap.current >>= Trap.envRun) (fun _ _ => False) (Ends m i b e (evs ++ [.run e]) c) b₁ := by
  rw [wp_bind, wp_current holding.curenv]
  exact holding.envRun_wp (holding.run.live_current holding.curenv)

/-- `bypassInstrLength` is not a part of what is served. -/
theorem Holding.bypass (holding : Holding m i b e evs c b₁) (length : BitVec 8) :
    Holding m i b e evs c { b₁ with bypassInstrLength := length } :=
  ⟨⟨holding.run, holding.performs, holding.inner, holding.slot, holding.frame, holding.rings,
    holding.others⟩, holding.curenv, holding.outer⟩

/-- A field of the frame is set. -/
theorem Holding.setField (holding : Holding m i b e evs c b₁) {k : Fin 17}
    {r : BitVec 32} {c' : Cpu}
    (frame : (Trapframe.ofWords (Function.update
      (fun i => b₁.mem.word (b₁.envTf e + BitVec.ofNat 32 (4 * i))) k r)).cpu = c')
    (outer : ring c'.cs = 3) :
    Holding m i b e evs c'
    (b₁.setMem (b₁.mem.setWord (b₁.envTf e + BitVec.ofNat 32 (4 * k)) r)) := by
  refine ⟨holding.write (fun x out => setWord_of_ge _ _ ?_) ?_ outer, holding.curenv, outer⟩
  · simp only [sizeofTrapframe] at out
    bv_omega
  · rw [← frame, ← read_setWord]
    rfl

/-- The result of a system call is put into `eax`. -/
theorem Holding.setEax (holding : Holding m i b e evs c b₁) (r : BitVec 32) :
    Holding m i b e evs { c with eax := r }
      (b₁.setMem (b₁.mem.setWord (b₁.envTf e + 28#32) r)) := by
  refine holding.setField (k := 7) ?_ holding.outer
  rw [← holding.frame]
  rfl

/-- `tf_eip` is set. -/
theorem Holding.setEip (holding : Holding m i b e evs c b₁) (r : BitVec 32) :
    Holding m i b e evs { c with eip := r }
      (b₁.setMem (b₁.mem.setWord (b₁.envTf e + 48#32) r)) := by
  refine holding.setField (k := 12) ?_ holding.outer
  rw [← holding.frame]
  rfl

/-- An event that makes or frees another environment, whose frame is then written. -/
theorem Serves.replace {slot : Nat} {k : Kernel} {mem : Mem} (serves : Serves m i b e evs c b₁)
    (allowed : a.Allowed b₁.kernel) (replaces : a.Replaces slot)
    (only : ∀ e', a.Replaces e' → e' = slot) (ne : slot ≠ e) (lt : slot < nenv)
    (ends : a.prog b₁.kernel = .ok () k)
    (elsewhere : ∀ x, sizeofTrapframe ≤ (x - b₁.envTf slot).toNat → mem x = b₁.mem x)
    (written : ((b₁.setKernel k).setMem mem).frame slot = a.frameAfter i slot (b₁.frame slot))
    (outer : k.Live slot → ring (((b₁.setKernel k).setMem mem).frame slot).tfCs = 3) :
    Serves m i b e (evs ++ [a]) c ((b₁.setKernel k).setMem mem) := by
  have run : m.Run k := .step a serves.run allowed ends
  have others : ∀ e' < nenv, e' ≠ slot →
      ((b₁.setKernel k).setMem mem).frame e' = b₁.frame e' := by
    intro e' lt' ne'
    rw [← frame_setKernel serves.run run e']
    refine Machine.Run.placed (b := b₁.setKernel k) run |>.frame_elsewhere lt lt' ne' ?_
    rw [Machine.Run.envTf (b := b₁.setKernel k) run serves.run]
    exact elsewhere
  refine { run := run
           performs := serves.performs.snoc allowed ends
           inner := serves.inner
           slot := serves.slot
           frame := ?_
           rings := fun e' live => ?_
           others := fun e' lt' ne' => ?_ }
  · rw [others e serves.slot ne.symm, serves.frame]
  · rcases eq_or_ne e' slot with rfl | ne'
    · exact outer live
    · rw [others e' (run.live_lt live) ne']
      exact serves.rings e' (serves.run.live_before allowed ends live fun is => ne' (only e' is))
  · rw [List.foldl_append, ← serves.others e' lt' ne']
    rcases eq_or_ne e' slot with rfl | other
    · exact written
    · rw [others e' lt' other]
      exact Event.frameAfter_of_not fun is => other (only e' is)

/-- The frame that `complete_environment_initialization` and `set_environment_entry_point`
leave. -/
theorem holds_initialized (m : Mem) (tf entry : BitVec 32) :
    X86.Holds
      (Trap.setEnvironmentEntryPoint tf entry (Trap.completeEnvironmentInitialization tf m)) tf
      (Trap.newFrame entry).words := by
  have zeroes := holds_memset m tf 17 (by decide)
  have ds := zeroes.setHalf 9 (gdUd ||| 3) (by decide) (by decide)
  have es := ds.setHalf 8 (gdUd ||| 3) (by decide) (by decide)
  have ss := es.setHalf 16 (gdUd ||| 3) (by decide) (by decide)
  have esp := ss.set 15 (BitVec.ofNat 32 ustackTop) (by decide) (by decide)
  have cs := esp.setHalf 13 (gdUt ||| 3) (by decide) (by decide)
  have flags := cs.getElem (i := 14) (by decide)
  have eflags := cs.set 14 flIF (by decide) (by decide)
  have eip := eflags.set 12 entry (by decide) (by decide)
  simp only [Trap.setEnvironmentEntryPoint, Trap.completeEnvironmentInitialization]
  -- `tf_eflags` is zero before `FL_IF` is set
  rw [show Mem.word _ (tf + 56#32) = 0 from flags]
  exact eip

theorem initialized_elsewhere (m : Mem) {tf x : BitVec 32} (entry : BitVec 32)
    (out : sizeofTrapframe ≤ (x - tf).toNat) :
    Trap.setEnvironmentEntryPoint tf entry (Trap.completeEnvironmentInitialization tf m) x =
      m x := by
  have far : ∀ k : Nat, k + 4 ≤ sizeofTrapframe → 4 ≤ (x - (tf + BitVec.ofNat 32 k)).toNat := by
    intro k small
    simp only [sizeofTrapframe] at out small
    bv_omega
  simp only [Trap.setEnvironmentEntryPoint, Trap.completeEnvironmentInitialization]
  rw [setWord_of_ge _ _ (far 48 (by decide)), setWord_of_ge _ _ (far 56 (by decide)),
    setHalf_of_ge _ _ (Nat.le_of_succ_le (Nat.le_of_succ_le (far 52 (by decide)))),
    setWord_of_ge _ _ (far 60 (by decide)),
    setHalf_of_ge _ _ (Nat.le_of_succ_le (Nat.le_of_succ_le (far 64 (by decide)))),
    setHalf_of_ge _ _ (Nat.le_of_succ_le (Nat.le_of_succ_le (far 32 (by decide)))),
    setHalf_of_ge _ _ (Nat.le_of_succ_le (Nat.le_of_succ_le (far 36 (by decide)))),
    memset_of_ge _ _ out]

/-- `env_create` for another environment. -/
theorem Serves.envCreate_wp {slot size second : Nat} {program : UserProgram}
    {Q : Unit → Board → Prop} (serves : Serves m i b e evs c b₁)
    (allowed : (Event.create slot program size second).Allowed b₁.kernel) (ne : slot ≠ e)
    (ends : ∀ b₂, Serves m i b e (evs ++ [.create slot program size second]) c b₂ →
      b₂.kernel.globals.curenv = b₁.kernel.globals.curenv → Q () b₂)
    (stops : ∀ x b', E (.stop x) b') :
    wp (Trap.envCreate slot program i size second) Q E b₁ := by
  rw [Trap.envCreate, wp_bind, wp_onKernel, wp]
  cases run : Fos.envCreate slot program size second b₁.kernel with
  | error x k => exact stops x _
  | ok _ k =>
    have next : m.Run k := .step (.create slot program size second) serves.run allowed run
    have address := Machine.Run.envTf (b := b₁.setKernel k) next serves.run slot
    have holds := holds_initialized b₁.mem ((b₁.setKernel k).envTf slot) i
    refine ends _ (serves.replace allowed rfl (fun _ is => is.symm) ne allowed.1 run
      (fun x out => ?_) ((read_of_holds holds).trans (if_pos rfl).symm) fun _ => ?_)
      (serves.run.curenv_after (a := .create slot program size second) allowed run not_false)
    · rw [← address] at out
      exact initialized_elsewhere b₁.mem i out
    · exact (congrArg (fun tf => ring tf.tfCs) (read_of_holds holds)).trans
        (show ring (gdUt ||| 3) = 3 by decide)

/-- `env_free` of another environment. -/
theorem Serves.envFree_wp {slot : Nat} {Q : Unit → Board → Prop} (serves : Serves m i b e evs c b₁)
    (allowed : (Event.free slot).Allowed b₁.kernel) (ne : slot ≠ e)
    (ends : ∀ b₂, Serves m i b e (evs ++ [.free slot]) c b₂ →
      b₂.kernel.globals.curenv = b₁.kernel.globals.curenv → Q () b₂)
    (stops : ∀ x b', E (.stop x) b') : wp (Trap.envFree slot) Q E b₁ := by
  rw [Trap.envFree, wp_bind, wp_onKernel, wp]
  cases run : Fos.envFree slot b₁.kernel with
  | error x k => exact stops x _
  | ok _ k =>
    have next : m.Run k := .step (.free slot) serves.run allowed run
    have address := Machine.Run.envTf (b := b₁.setKernel k) next serves.run slot
    have holds := holds_memset b₁.mem ((b₁.setKernel k).envTf slot) 17 (by decide)
    refine ends _ (serves.replace allowed rfl (fun _ is => is.symm) ne
      (serves.run.live_lt allowed.1) run (fun x out => ?_) ?_ fun live => ?_)
      (serves.run.curenv_after (a := .free slot) allowed run not_false)
    · rw [address]
      exact memset_of_ge b₁.mem 0 out
    · exact (read_of_zeroes holds).trans (if_pos rfl).symm
    · exact (serves.run.live_free allowed run live).elim

/-- What does not exist is not made in its place. -/
theorem ne_of_create {slot size second : Nat} {program : UserProgram} (live : s.Live e)
    (allowed : (Event.create slot program size second).Allowed s) : slot ≠ e := by
  rintro rfl
  rw [Kernel.Live, allowed.2.1] at live
  exact live rfl

/-- The current environment is looked up. -/
theorem prog_current (is : s.globals.curenv = some e) (k : Nat → Prog Unit) :
    k e s = (do k (← deref (← get).globals.curenv) : Prog Unit) s := by
  change _ = (deref s.globals.curenv >>= k) s
  rw [is]
  rfl

/-- A system call has returned `ret`. -/
def Answers (m : Machine) (b : Board) (e : Nat) (w : Service) (c : Cpu) (b₁ : Board)
    (ret : BitVec 32) (b₂ : Board) : Prop :=
  ∃ evs c', Holding m w.entry b e evs c' b₂ ∧ b₂.envTf e = b₁.envTf e ∧
    evs ++ [.run e] = w.call e c ∧
    { c' with eax := ret } = w.result e b₁.cr2 c

/-- A system call of the interrupted environment returns, or leaves the environment. -/
theorem Holding.syscall_wp (holding : Holding m w.entry b e [] c b₁)
    (allowed : ∀ a ∈ (w.call e c).head?, a.Allowed b₁.kernel)
    (next : ∀ e', w.next = some e' → b₁.kernel.Live e') :
    wp (Trap.syscall w c.eax.toNat c.edx c.ecx c.ebx) (Answers m b e w c b₁)
      (Ends m w.entry b e (w.call e c) (w.result e b₁.cr2 c)) b₁ := by
  have address : ∀ k, m.Run k → (b₁.setKernel k).envTf e = b₁.envTf e := fun k run =>
    Machine.Run.envTf (b := b₁.setKernel k) run holding.run e
  have frame : ∀ flags, (Trapframe.ofWords (Function.update (fun i =>
      b₁.mem.word (b₁.envTf e + BitVec.ofNat 32 (4 * i))) 14 flags)).cpu =
      { c with eflags := flags } := by
    intro flags
    rw [← holding.frame]
    rfl
  have flags : b₁.mem.word (b₁.envTf e + 56#32) = c.eflags := by
    rw [← holding.frame]
    rfl
  unfold Trap.syscall Answers Service.call Service.result at *
  simp only [wp_bind, wp_current holding.curenv, wp_get]
  split
  all_goals
    rename_i number
    simp only [number] at allowed ⊢
  -- `SYS_getenvindex`
  · exact ⟨[], c, holding, rfl, rfl, rfl⟩
  -- `SYS_env_exit`
  · have exits : Event.exit.prog b₁.kernel =
        .ok () (b₁.kernel.setGlobals { b₁.kernel.globals with curenv := none }) := rfl
    have exited := holding.toServes.event (a := .exit) trivial (fun _ => not_false) exits
    have goes := exited.fosScheduler_wp fun e' is =>
      holding.run.live_after (a := .exit) trivial exits (next e' is) (by simp)
    rw [wp_bind, wp_onKernel, wp_ok exits, wp_bind]
    exact wp_mono goes (fun _ _ no => no.elim) fun _ _ ends => ends
  -- `SYS_freeMem`, `SYS_allocateMem`
  · rw [wp_bind]
    refine holding.event_wp (a := .freeMem c.edx.toNat c.ecx.toNat)
      (prog_current holding.curenv fun e => freeMem e _ _) (allowed _ rfl) (fun _ => not_false)
      not_false (fun k next => ⟨_, c, next, address k next.run, rfl, rfl⟩) fun _ _ => trivial
  · rw [wp_bind]
    refine holding.event_wp (a := .allocateMem c.edx.toNat c.ecx.toNat)
      (prog_current holding.curenv fun e => allocateMem e _ _) (allowed _ rfl) (fun _ => not_false)
      not_false (fun k next => ⟨_, c, next, address k next.run, rfl, rfl⟩) fun _ _ => trivial
  -- `SYS_disableINTR`, `SYS_enableINTR`
  · simp only [wp_bind, wp_get, flags]
    exact ⟨[], _, holding.setField (k := 14) (frame _) holding.outer, rfl, rfl, rfl⟩
  · simp only [wp_bind, wp_get, flags]
    exact ⟨[], _, holding.setField (k := 14) (frame _) holding.outer, rfl, rfl, rfl⟩
  -- `SYS_create_env`, `SYS_free_env`
  · rw [wp_bind]
    exact holding.envCreate_wp (allowed _ rfl)
      (ne_of_create (holding.run.live_current holding.curenv) (allowed _ rfl))
      (fun b₂ next same => ⟨_, c, ⟨next, same.trans holding.curenv, holding.outer⟩,
        next.run.envTf holding.run e, rfl, rfl⟩) fun _ _ => trivial
  · rw [wp_bind]
    exact holding.envFree_wp (allowed _ rfl)
      (fun is => (allowed _ rfl).2 (is ▸ holding.curenv))
      (fun b₂ next same => ⟨_, c, ⟨next, same.trans holding.curenv, holding.outer⟩,
        next.run.envTf holding.run e, rfl, rfl⟩) fun _ _ => trivial
  -- `SYS_rcr2`, `SYS_bypassPageFault`
  · exact ⟨[], c, holding, rfl, rfl, rfl⟩
  · exact ⟨[], c, holding.bypass _, rfl, rfl, rfl⟩
  -- the numbers that are none
  · exact ⟨[], c, holding, rfl, rfl, rfl⟩

/-! ## From the interrupt to the end -/

/-- The events that a trap of the environment `e` consists of. -/
def Board.events (b : Board) (e n : Nat) (w : Service) : List Event :=
  if n = tPgflt then
    if b.bypassInstrLength ≠ 0 then [.run e] else [.fault b.cr2.toNat, .run e]
  else if n = tSyscall then w.call e b.cpu
  else if n = irq0Clock then [w.goes]
  else [.run e]

/-- The registers that the environment `e` gets back after a trap. -/
def Board.resumed (b : Board) (e n : Nat) (w : Service) : Cpu :=
  if n = tPgflt then { b.cpu with eip := b.cpu.eip + b.bypassInstrLength.setWidth 32 }
  else if n = tSyscall then w.result e b.cr2 b.cpu
  else b.cpu

/-- Where a handler ends, unless the kernel stops. -/
def settled : EStateM.Result Exit Board Unit → Option Board
  | .ok _ b => some b
  | .error .popped b => some b
  | .error .prompt b => some b
  | .error (.stop _) _ => none

/-- What holds between two instructions of a program or two commands at the prompt. -/
structure Good (m : Machine) (b : Board) : Prop where
  run : m.Run b.kernel
  mode : ring b.cpu.cs = 3 ∨ ring b.cpu.cs = 0
  user : ring b.cpu.cs = 3 ↔ b.kernel.globals.curenv ≠ none
  rings : ∀ e, b.kernel.Live e → b.kernel.globals.curenv ≠ some e → ring (b.frame e).tfCs = 3

/-- The trap has been taken: the interrupted registers are in the frame of the environment. -/
theorem Good.taken {s : State} {tf : BitVec 32} (good : Good m b) (scratch : Mem)
    (is : b.kernel.globals.curenv = some e) (cs : s.cpu.cs = gdKt)
    (frame : (Trapframe.read s.mem tf).cpu = b.cpu)
    (elsewhere : ∀ x, 72 ≤ (x - (taskstate.esp0 - 72#32)).toNat → s.mem x = b.mem x) :
    let b₁ := (b.setState s).setMem (s.mem.copy (b.envTf e) tf sizeofTrapframe)
    Holding m i b e [] b.cpu (b₁.scribble scratch b₁.inFrames) ∧
      (b₁.scribble scratch b₁.inFrames).frame e = Trapframe.read s.mem tf := by
  have live := good.run.live_current is
  have slot := good.run.live_lt live
  have outer : ring b.cpu.cs = 3 := good.user.mpr (by rw [is]; simp)
  have stays := fun e' (lt : e' < nenv) => Board.frame_scribble
    (b := (b.setState s).setMem (s.mem.copy (b.envTf e) tf sizeofTrapframe)) lt scratch _
    fun _ inside => inside
  have others : ∀ e' < nenv, e' ≠ e →
      ((b.setState s).setMem (s.mem.copy (b.envTf e) tf sizeofTrapframe)).frame e' =
      b.frame e' := by
    intro e' lt ne
    have placed : (b.setState s).Placed := Machine.Run.placed (b := b.setState s) good.run
    refine (placed.frame_elsewhere slot lt ne fun x out => copy_of_ge _ out).trans ?_
    exact good.run.placed.frame_interrupt lt (n := 72) (by decide) elsewhere
  have copied : ((b.setState s).setMem (s.mem.copy (b.envTf e) tf sizeofTrapframe)).frame e =
      Trapframe.read s.mem tf := read_copy s.mem (b.envTf e) tf
  have mine := congrArg Trapframe.cpu copied
  rw [frame] at mine
  refine ⟨⟨{
            run := good.run
            performs := .nil
            inner := ?_
            slot := slot
            frame := (congrArg Trapframe.cpu (stays e slot)).trans mine
            rings := fun e' live => ?_
            others := fun e' lt ne => (stays e' lt).trans (others e' lt ne) }, is, outer⟩,
    (stays e slot).trans copied⟩
  · show ring s.cpu.cs = 0
    rw [cs]
    decide
  · rw [stays e' (good.run.live_lt live)]
    rcases eq_or_ne e' e with rfl | ne
    · rw [← mine] at outer
      exact outer
    · rw [others e' (good.run.live_lt live) ne]
      exact good.rings e' live fun is' => ne (Option.some.inj (is'.symm.trans is))

/-- `trap_dispatch` on the frame of the environment that was interrupted. -/
theorem Holding.dispatch_wp {oesp err : BitVec 32} (holding : Holding m w.entry b e [] b.cpu b₁)
    (frame : b₁.frame e = .of b.cpu oesp (BitVec.ofNat 32 n) err) (le : n ≤ 48)
    (same : b₁.cr2 = b.cr2) (still : n = tPgflt → b.bypassInstrLength = 0)
    (allowed : ∀ a ∈ (b.events e n w).head?, a.Allowed b₁.kernel)
    (next : ∀ e', w.next = some e' → b₁.kernel.Live e') :
    wp (Trap.trapDispatch w (b₁.envTf e))
      (fun _ b₂ => ∃ evs c, Holding m w.entry b e evs c b₂ ∧ evs ++ [.run e] = b.events e n w ∧
        c = b.resumed e n w)
      (Ends m w.entry b e (b.events e n w) (b.resumed e n w)) b₁ := by
  have read : Trapframe.read b₁.mem (b₁.envTf e) = .of b.cpu oesp (BitVec.ofNat 32 n) err := frame
  have number : (BitVec.ofNat 32 n).toNat = n := by
    rw [BitVec.toNat_ofNat, Nat.mod_eq_of_lt (by omega)]
  unfold Trap.trapDispatch
  simp only [wp_bind, wp_get, read, wp_ite]
  rw [show (Trapframe.of b.cpu oesp (BitVec.ofNat 32 n) err).tfTrapno.toNat = n from number]
  unfold Board.events Board.resumed at *
  split
  · rename_i pgflt
    have off := still pgflt
    simp only [if_pos pgflt, off] at allowed ⊢
    rw [if_pos
      (show ring (Trapframe.of b.cpu oesp (BitVec.ofNat 32 n) err).tfCs = 3 from holding.outer)]
    refine holding.event_wp (a := .fault b.cr2.toNat) (by rw [same]; rfl) (allowed _ rfl)
      (fun _ => not_false) not_false (fun k next => ⟨_, _, next, rfl, ?_⟩) fun _ _ => trivial
    simp
  rename_i pgflt
  simp only [if_neg pgflt] at allowed ⊢
  split
  · rename_i call
    simp only [if_pos call] at allowed ⊢
    rw [← same]
    refine wp_mono (holding.syscall_wp allowed next) (fun ret b₂ answers => ?_) fun _ _ ends => ends
    obtain ⟨evs, c', serving, address, events, result⟩ := answers
    rw [← address]
    exact ⟨evs, _, serving.setEax ret, events, result⟩
  rename_i call
  simp only [if_neg call] at allowed ⊢
  split
  · trivial
  split
  · exact wp_mono (holding.fosScheduler_wp next) (fun _ _ no => no.elim) fun _ _ ends => ends
  split
  · rename_i kernel
    have outer := holding.outer
    rw [show b.cpu.cs = gdKt from kernel] at outer
    exact absurd outer (by decide)
  · exact ⟨[], _, holding, rfl, rfl⟩

/-- `trap` once it has saved the registers. -/
theorem Holding.rest_wp {oesp err : BitVec 32} (holding : Holding m w.entry b e [] b.cpu b₁)
    (frame : b₁.frame e = .of b.cpu oesp (BitVec.ofNat 32 n) err) (le : n ≤ 48)
    (kernel : b₁.kernel = b.kernel) (cr2 : b₁.cr2 = b.cr2)
    (bypass : b₁.bypassInstrLength = b.bypassInstrLength)
    (allowed : ∀ a ∈ (b.events e n w).head?, a.Allowed b.kernel)
    (next : ∀ e', w.next = some e' → b.kernel.Live e') :
    wp (if (BitVec.ofNat 32 n).toNat = tPgflt ∧ b₁.bypassInstrLength ≠ 0 then do
        Trap.setField ((← get).envTf e) 48#32
          (b.cpu.eip + (← get).bypassInstrLength.setWidth 32)
        Trap.envRun e
      else do
        Trap.trapDispatch w ((← get).envTf e)
        Trap.envRun (← Trap.current))
      (fun _ _ => False) (Ends m w.entry b e (b.events e n w) (b.resumed e n w)) b₁ := by
  rw [BitVec.toNat_ofNat, Nat.mod_eq_of_lt (show n < 2 ^ 32 by omega), bypass, wp_ite]
  rw [← kernel] at allowed next
  split
  · rename_i skips
    simp only [wp_bind, wp_get, bypass]
    rw [Board.events, if_pos skips.1, if_pos skips.2, Board.resumed, if_pos skips.1]
    have live := holding.run.live_current holding.curenv
    exact (holding.setEip _).envRun_wp live
  · rename_i serves
    simp only [wp_bind, wp_get]
    refine wp_mono (holding.dispatch_wp frame le cr2 (fun is => ?_) allowed next)
      (fun _ b₂ served => ?_) fun _ _ ends => ends
    · by_contra on
      exact serves ⟨is, on⟩
    · obtain ⟨evs, c, serving, events, resumed⟩ := served
      rw [← events, ← resumed]
      exact (wp_bind _ _).mp serving.resume_wp

/-- The interrupt and the handler of its gate, up to the call of `trap`. -/
theorem wp_interrupted {gate : Gate} {err : Option (BitVec 32)} {s : State}
    {Q : Unit → Board → Prop}
    (set : idtInit n = some gate)
    (ends : (b.state.interrupt taskstate gate err).run gate.code = s) :
    wp (Trap.interrupted w n err) Q E b ↔
      wp (Trap.trap w (s.mem.word s.cpu.esp)) Q E (b.setState s) := by
  rw [Trap.interrupted, set]
  simp only [wp_bind, wp_modify, wp_get, ends]
  rfl

/-- `trap` of a user program. -/
theorem Good.trap_wp {s : State} {tf oesp err : BitVec 32} (good : Good m b)
    (is : b.kernel.globals.curenv = some e) (cs : s.cpu.cs = gdKt)
    (frame : Trapframe.read s.mem tf = .of b.cpu oesp (BitVec.ofNat 32 n) err) (le : n ≤ 48)
    (elsewhere : ∀ x, 72 ≤ (x - (taskstate.esp0 - 72#32)).toNat → s.mem x = b.mem x)
    (allowed : ∀ a ∈ (b.events e n w).head?, a.Allowed b.kernel)
    (next : ∀ e', w.next = some e' → b.kernel.Live e') :
    wp (Trap.trap w tf) (fun _ _ => False) (Ends m w.entry b e (b.events e n w) (b.resumed e n w))
      (b.setState s) := by
  have outer : ring b.cpu.cs = 3 := good.user.mpr (by rw [is]; simp)
  have number : (BitVec.ofNat 32 n).toNat = n := by
    rw [BitVec.toNat_ofNat, Nat.mod_eq_of_lt (by omega)]
  unfold Trap.trap
  simp only [wp_bind, wp_get]
  rw [show Trapframe.read (b.setState s).mem tf = .of b.cpu oesp (BitVec.ofNat 32 n) err from frame,
    wp_ite, if_pos
    (show ring (Trapframe.of b.cpu oesp (BitVec.ofNat 32 n) err).tfCs = 3 from outer)]
  simp only [wp_bind, wp_modify, wp_get, wp_current (b := b.setState s) is]
  obtain ⟨holding, copied⟩ := good.taken w.scratch is cs (congrArg Trapframe.cpu frame)
    elsewhere
  rw [frame] at copied
  change wp _ _ _ (((b.setState s).setMem (s.mem.copy (b.envTf e) tf sizeofTrapframe)).scribble
    w.scratch ((b.setState s).setMem (s.mem.copy (b.envTf e) tf sizeofTrapframe)).inFrames)
  exact holding.rest_wp copied le rfl rfl rfl allowed next

/-- **A trap of a user program**, from the interrupt to the end. -/
theorem Good.interrupted_wp {err : Option (BitVec 32)} (good : Good m b)
    (is : b.kernel.globals.curenv = some e) (agrees : err.isSome = pushesError n)
    (allowed : ∀ a ∈ (b.events e n w).head?, a.Allowed b.kernel)
    (next : ∀ e', w.next = some e' → b.kernel.Live e') :
    wp (Trap.interrupted w n err) (fun _ _ => False)
      (Ends m w.entry b e (b.events e n w) (b.resumed e n w)) b := by
  have outer : ring b.cpu.cs = 3 := good.user.mpr (by rw [is]; simp)
  cases set : idtInit n with
  | none =>
    rw [Trap.interrupted, set]
    trivial
  | some gate =>
    obtain ⟨s, ends⟩ : ∃ s, (b.state.interrupt taskstate gate err).run gate.code = s := ⟨_, rfl⟩
    have inRing : ring b.state.cpu.cs ≠ 0 := by
      show ring b.cpu.cs ≠ 0
      rw [outer]
      decide
    obtain ⟨oesp, frame, -, elsewhere⟩ := frame_user set agrees inRing ends
    have cs : s.cpu.cs = gdKt := ends ▸ cs_handler set
    rw [wp_interrupted set ends]
    exact good.trap_wp is cs frame (idtInit_le set) elsewhere allowed next

/-! ## Faults of the kernel -/

/-- What the kernel needs when it is interrupted: the frames of the environments, and its stack. -/
def Board.keeps (b : Board) (x : BitVec 32) : Bool :=
  b.inFrames x || (b.cpu.esp ≤ x && x < BitVec.ofNat 32 kernelStackTop)

/-- The kernel goes on after a page fault of its own: with all its registers, past the instruction
if that is to be bypassed, and with its stack; and what is in memory now is what the fault handler
has put there. -/
structure Board.GoesOn (b b' : Board) : Prop where
  cpu : b'.cpu = { b.cpu with eip := b.cpu.eip + b.bypassInstrLength.setWidth 32 }
  mem : ∀ x, b.keeps x = true → b'.mem x = b.mem x
  bypassed : b.bypassInstrLength ≠ 0 → b'.kernel = b.kernel
  handled : b.bypassInstrLength = 0 →
    Trap.kernelFaultHandler b.cr2.toNat b.kernel = .ok () b'.kernel

/-- The stack pointer is in the stack of the kernel, with room for the frame. -/
def Board.OnStack (b : Board) : Prop :=
  kernelStackTop - kernelStackSize + 64 ≤ b.cpu.esp.toNat ∧ b.cpu.esp.toNat ≤ kernelStackTop

/-- Nothing that the kernel needs is where the frame is pushed. -/
theorem Board.Placed.keeps_out (placed : b.Placed) (stack : b.OnStack) {x : BitVec 32}
    (keep : b.keeps x = true) : 64 ≤ (x - (b.cpu.esp - 64#32)).toNat := by
  obtain ⟨room, le⟩ := stack
  rw [Board.keeps, Bool.or_eq_true, Bool.and_eq_true, decide_eq_true_iff,
    decide_eq_true_iff] at keep
  simp only [kernelStackTop, kernelStackSize, vpt, pageSize] at room le keep ⊢
  rcases keep with frame | ⟨above, -⟩
  · have ge := placed.inFrames_ge frame
    simp only [kernelBase] at ge
    bv_omega
  · bv_omega

/-- How a page fault of the kernel ends. -/
def Board.FaultEnds (b : Board) (x : Exit) (b' : Board) : Prop :=
  (∃ stop, x = .stop stop) ∨ (x = .popped ∧ b.GoesOn b')

/-- The end of `trap` in the kernel. -/
theorem Board.popped_kernel {oesp trapno err : BitVec 32} {c : Cpu}
    (frame : X86.Holds b₁.mem (c.esp - 60#32) (savedWords c oesp trapno err))
    (inner : ring c.cs = 0)
    (cs : b₁.cpu.cs = gdKt) (ss : b₁.cpu.ss = c.ss) (goes : b.GoesOn { b₁ with cpu := c }) :
    wp (Trap.envPopTf (c.esp - 60#32)) (fun _ _ => False) b.FaultEnds b₁ := by
  have same : ring c.cs = ring b₁.state.cpu.cs := by
    show ring c.cs = ring b₁.cpu.cs
    rw [inner, cs]
    decide
  have pops : b₁.state.run (envPopTf (c.esp - 60#32)) = { b₁.state with cpu := c } :=
    resume_kernel frame same ss
  rw [Trap.envPopTf, wp_bind, wp_modify, pops]
  exact Or.inr ⟨rfl, goes⟩

/-- Interrupted in the state `s`, once the kernel has used its variables and the stack below the
frame. -/
def Board.handling (b : Board) (s : State) (scratch : Mem) : Board :=
  (b.setState s).scribble scratch fun x => (b.setState s).inFrames x ||
    (b.cpu.esp - 60#32 ≤ x && x < BitVec.ofNat 32 kernelStackTop)

theorem Board.Placed.keeps_handling {s : State} {scratch : Mem} {x : BitVec 32} (placed : b.Placed)
    (stack : b.OnStack) (elsewhere : ∀ x, 64 ≤ (x - (b.cpu.esp - 64#32)).toNat → s.mem x = b.mem x)
    (keep : b.keeps x = true) : (b.handling s scratch).mem x = b.mem x := by
  refine (if_pos ?_).trans (elsewhere x (placed.keeps_out stack keep))
  obtain ⟨room, le⟩ := stack
  rw [Board.keeps, Bool.or_eq_true, Bool.and_eq_true, decide_eq_true_iff] at keep
  rw [Bool.or_eq_true, Bool.and_eq_true, decide_eq_true_iff]
  refine keep.imp id (And.imp_left fun above => ?_)
  simp only [kernelStackTop, kernelStackSize, vpt, pageSize] at room le
  bv_omega

/-- The frame is above what the kernel uses. -/
theorem Board.OnStack.saved_handling {s : State} {oesp trapno err : BitVec 32} (stack : b.OnStack)
    (scratch : Mem)
    (frame : X86.Holds s.mem (b.cpu.esp - 60#32) (savedWords b.cpu oesp trapno err)) :
    X86.Holds (b.handling s scratch).mem (b.cpu.esp - 60#32)
    (savedWords b.cpu oesp trapno err) := by
  refine frame.congr fun i lt => if_pos ?_
  rw [Bool.or_eq_true, Bool.and_eq_true, decide_eq_true_iff, decide_eq_true_iff]
  obtain ⟨room, le⟩ := stack
  have small : i < 60 := lt
  simp only [kernelStackTop, kernelStackSize, vpt, pageSize] at room le ⊢
  right
  constructor <;> bv_omega

/-- `trap` of a page fault of the kernel. -/
theorem Board.Placed.trap_kernel_wp {s : State} {oesp err : BitVec 32} (placed : b.Placed)
    (inner : ring b.cpu.cs = 0) (stack : b.OnStack) (cs : s.cpu.cs = gdKt)
    (ss : s.cpu.ss = b.cpu.ss)
    (frame : X86.Holds s.mem (b.cpu.esp - 60#32)
      (savedWords b.cpu oesp (BitVec.ofNat 32 tPgflt) err))
    (elsewhere : ∀ x, 64 ≤ (x - (b.cpu.esp - 64#32)).toNat → s.mem x = b.mem x) :
    wp (Trap.trap w (b.cpu.esp - 60#32)) (fun _ _ => False) b.FaultEnds (b.setState s) := by
  obtain ⟨f, read, trapno, fcs, eip⟩ := read_of_kernel frame
  have user : ring f.tfCs ≠ 3 := by
    rw [fcs, inner]
    decide
  have page : f.tfTrapno.toNat = tPgflt := by
    rw [trapno]
    decide
  have saved := stack.saved_handling w.scratch frame
  unfold Trap.trap
  simp only [wp_bind, wp_get, wp_ite]
  rw [show Trapframe.read (b.setState s).mem (b.cpu.esp - 60#32) = _ from read, if_neg user]
  simp only [wp_modify, page, true_and]
  change if b.bypassInstrLength ≠ 0 then wp _ _ _ (b.handling s w.scratch)
    else wp _ _ _ (b.handling s w.scratch)
  split
  · rename_i bypass
    simp only [Trap.setField, wp_modify]
    have set := saved.set 12 (f.tfEip + b.bypassInstrLength.setWidth 32)
      (show 4 * 15 ≤ 2 ^ 32 by decide) (show 12 < 15 by decide)
    refine Board.popped_kernel
      (c := { b.cpu with eip := b.cpu.eip + b.bypassInstrLength.setWidth 32 })
      (by rw [← eip]; exact set) inner cs ss
      { cpu := rfl
        mem := fun x keep =>
          (setWord_of_ge _ _ ?_).trans (placed.keeps_handling stack elsewhere keep)
        bypassed := fun _ => rfl
        handled := fun off => absurd off bypass }
    have out := placed.keeps_out stack keep
    bv_omega
  · rename_i bypass
    rw [not_not] at bypass
    obtain ⟨f', read', trapno', fcs', -⟩ := read_of_kernel saved
    simp only [wp_bind, wp_get, Trap.trapDispatch]
    rw [read', trapno', if_pos (by decide), fcs', wp_bind, wp_get, if_neg (by rw [inner]; decide),
      wp_onKernel, wp]
    cases run : Trap.kernelFaultHandler (b.handling s w.scratch).cr2.toNat
        (b.handling s w.scratch).kernel with
    | error x k => exact Or.inl ⟨x, rfl⟩
    | ok _ k =>
      change wp _ _ _ ((b.handling s w.scratch).setKernel k)
      refine Board.popped_kernel saved inner cs ss
        { cpu := ?_
          mem := fun x keep => placed.keeps_handling stack elsewhere keep
          bypassed := fun on => absurd bypass on
          handled := fun _ => run }
      rw [bypass]
      simp

/-- **A page fault of the kernel itself is transparent**, if the fault handler succeeds. -/
theorem Board.Placed.kernel_fault {err : BitVec 32} (placed : b.Placed) (inner : ring b.cpu.cs = 0)
    (stack : b.OnStack) :
    wp (Trap.interrupted w tPgflt (some err)) (fun _ _ => False) b.FaultEnds b := by
  have set : idtInit tPgflt = some ⟨gdKt, false, 0, trapHandler 14⟩ := rfl
  obtain ⟨s, ends⟩ : ∃ s,
      (b.state.interrupt taskstate ⟨gdKt, false, 0, trapHandler 14⟩ (some err)).run
    (trapHandler 14) = s := ⟨_, rfl⟩
  obtain ⟨oesp, frame, tf, elsewhere⟩ := frame_kernel set rfl inner ends
  have cs : s.cpu.cs = gdKt := ends ▸ cs_handler set
  have ss : s.cpu.ss = b.cpu.ss := ends ▸ ss_handler set inner
  rw [tf] at frame
  rw [wp_interrupted set ends, tf]
  exact placed.trap_kernel_wp inner stack cs ss frame elsewhere

/-- A machine at the prompt. -/
def promptBoard (kernel : Kernel) : Board where
  kernel := kernel
  cpu :=
    { eax := 0, ecx := 0, edx := 0, ebx := 0, esp := BitVec.ofNat 32 kernelStackTop, ebp := 0
      esi := 0, edi := 0, eip := 0, eflags := 0, cs := gdKt, ds := gdKd, es := gdKd, ss := gdKd }
  mem _ := 0
  cr2 := 0
  bypassInstrLength := 0

/-- The handler has settled, so the kernel goes on. -/
theorem goesOn_of_settled {p : Trap Unit} {b' : Board} (ends : settled (p b) = some b')
    (run : wp p (fun _ _ => False) b.FaultEnds b) : b.GoesOn b' := by
  rw [wp] at run
  cases is : p b with
  | ok r b₁ =>
    rw [is] at run
    exact run.elim
  | error x b₁ =>
    rw [is] at run ends
    rcases run with ⟨stop, rfl⟩ | ⟨rfl, goes⟩
    · cases ends
    · cases ends
      exact goes

/-- The kernel touches a page of the environment that runs, which has no page table yet. -/
theorem kernel_fault_user : ∃ s b',
    [.create 0 (byteProgram 0x800000) 1 0, .run 0].foldlM Kernel.exec bootKernel = some s ∧
    settled (Trap.interrupted ⟨none, fun _ => 0xAA, 0, byteProgram 0x800000, 0, 0⟩ tPgflt (some 0)
      { promptBoard s with cr2 := 0x800010 }) = some b' ∧
    b'.cpu = (promptBoard s).cpu ∧
    (∀ x, (promptBoard s).keeps x = true → b'.mem x = 0) ∧
    Trap.kernelFaultHandler 0x800010 s = .ok () b'.kernel := by
  have ends : ([.create 0 (byteProgram 0x800000) 1 0, .run 0].foldlM Kernel.exec bootKernel).any
      (fun s => (settled (Trap.interrupted ⟨none, fun _ => 0xAA, 0, byteProgram 0x800000, 0, 0⟩
        tPgflt (some 0) { promptBoard s with cr2 := 0x800010 })).isSome) = true := by
    decide +kernel
  obtain ⟨s, runs, ends⟩ := (Option.any_eq_true _ _).mp ends
  obtain ⟨b', ends⟩ := Option.isSome_iff_exists.mp ends
  obtain ⟨run, -⟩ := run_bootKernel.execs runs
  have placed : Board.Placed { promptBoard s with cr2 := 0x800010 } := Machine.Run.placed run
  have inner : ring gdKt = 0 := by decide
  have top : (BitVec.ofNat 32 kernelStackTop).toNat = kernelStackTop := by decide
  have room : kernelStackTop - kernelStackSize + 64 ≤ kernelStackTop := by decide
  have goes := goesOn_of_settled ends (placed.kernel_fault inner ⟨room.trans top.ge, top.le⟩)
  refine ⟨s, b', runs, ends, ?_, goes.mem, goes.handled rfl⟩
  rw [goes.cpu]
  rfl

end Fos
