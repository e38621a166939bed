import Fos.PageFile.Contents

/-!
# Pages that are initialised by zero

`pf_add_empty_env_page(e, va, 1)` stores the page of `ptr_zero_page`, of which
`initialize_paging` has cleared the first 1024 bytes.

* `FileCall.Spares`, `FileGoes`: operations on other pages, one after another;
* `FileReach.addEmpty_read`: the page that is read back is zero exactly if the rest of the
  frame was zero before.
-/

namespace Fos

open Exec

/-! ## The page of zeroes -/

/-- The first 1024 bytes are cleared. -/
theorem Machine.byte_clearPage (p : Page) {k : Nat} (lt : k < pageSize) :
    (clearPage p).byte k = if k < 1024 then 0 else p.byte k := by
  have cleared : ∀ n ≤ 1024, ((List.range n).foldl (fun p i => p.setByte i 0) p).byte k =
      if k < n then 0 else p.byte k := by
    intro n
    induction n with
    | zero => exact fun _ => rfl
    | succ n ih =>
      intro le
      have small : n < pageSize := by
        simp only [pageSize]
        omega
      rw [List.range_succ, List.foldl_append, List.foldl_cons, List.foldl_nil,
        Page.byte_setByte _ _ small lt, ih (by omega)]
      by_cases last : k = n
      · simp [last]
      · have same : k < n + 1 ↔ k < n := by omega
        simp only [last, if_false, same]
  unfold clearPage
  exact cleared 1024 (Nat.le_refl _)

/-- The bytes of `ptr_zero_page` that `initialize_paging` leaves alone are zero. -/
def Machine.ZeroFrame (m : Machine) : Prop :=
  ∀ k, 1024 ≤ k → k < pageSize → (m.mem zeroPage).byte k = 0

theorem Machine.clearPage_zero (m : Machine) :
    (∀ k < pageSize, (clearPage (m.mem zeroPage)).byte k = 0) ↔ m.ZeroFrame := by
  constructor
  · intro zero k ge lt
    have byte := zero k lt
    rwa [byte_clearPage _ lt, if_neg (by omega)] at byte
  · intro zero k lt
    rw [byte_clearPage _ lt]
    split
    · rfl
    · exact zero k (by omega) lt

/-! ## Operations on other pages -/

/-- The operation is not on the page of `va` of `e`. -/
def FileCall.Spares (e va : Nat) : FileCall → Prop
  | .add e' va' _ | .addEmpty e' va' _ | .update e' va' _ | .read e' va' | .remove e' va' =>
    (e', pageNo va') ≠ (e, pageNo va)
  | .free e' => e' ≠ e
  | _ => True

/-- Operations on other pages lead from one state to another. -/
inductive FileGoes (e va : Nat) : Kernel → Kernel → Prop
  | refl (s : Kernel) : FileGoes e va s s
  | returns {s t t' r} (call : FileCall) (goes : FileGoes e va s t) (legal : call.Legal t)
    (spares : call.Spares e va) (run : call.prog t = .ok r t') : FileGoes e va s t'
  | panics {s t t' message} (call : FileCall) (goes : FileGoes e va s t) (legal : call.Legal t)
    (spares : call.Spares e va) (run : call.prog t = .error (.panic message) t') :
    FileGoes e va s t'

variable {s s' t : Kernel} {b : Book} {e va f : Nat}

theorem Book.set_of_ne {e' : Nat} {p p' : PageNo} {c : Option (Option Page)}
    (ne : (e', p') ≠ (e, p)) : b.set e' p' c e p = b e p := by
  rcases eq_or_ne e e' with rfl | ne'
  · have ne'' : p ≠ p' := by
      rintro rfl
      exact ne rfl
    simp [Book.set, ne'']
  · simp [Book.set, ne']

/-- What the book says of the page stays. -/
theorem FileCall.book_spares {call : FileCall} {r : Int} (spares : call.Spares e va) :
    call.book s r b e (pageNo va) = b e (pageNo va) := by
  cases call with
  | add e' va' data =>
    simp only [FileCall.book]
    split
    · exact Book.set_of_ne spares
    · rfl
  | addEmpty e' va' initializeByZero =>
    cases initializeByZero <;>
    · simp only [FileCall.book, Book.touch]
      split
      · exact Book.set_of_ne spares
      · rfl
  | update e' va' f =>
    simp only [FileCall.book]
    split
    · exact Book.set_of_ne spares
    · rfl
  | remove e' va' => exact Book.set_of_ne spares
  | free e' =>
    have ne : e ≠ e' := fun eq => spares eq.symm
    simp only [FileCall.book, Book.clear, Function.update_of_ne ne]
  | _ => rfl

theorem FileReach.goes {m : Machine} (reach : FileReach m s b) (goes : FileGoes e va s t) :
    ∃ b', FileReach m t b' ∧ b' e (pageNo va) = b e (pageNo va) := by
  induction goes with
  | refl => exact ⟨b, reach, rfl⟩
  | returns call _ legal spares run ih =>
    obtain ⟨b', reach', same⟩ := ih
    exact ⟨_, reach'.returns call legal run, (FileCall.book_spares spares).trans same⟩
  | panics call _ legal _ run ih =>
    obtain ⟨b', reach', same⟩ := ih
    exact ⟨b', reach'.panics call legal run, same⟩

/-- What is in frame 1 in every state reached. -/
theorem FileReach.zeroPage {m : Machine} (reach : FileReach m s b) :
    s.mem zeroPage = Machine.clearPage (m.mem zeroPage) := by
  obtain ⟨v, tracks⟩ := reach.tracked
  rw [tracks.rep.mem tracks.rep.zeroPage, tracks.zero]

/-- What is read back is the page of zeroes. -/
theorem FileReach.addEmpty_ends {m : Machine} (reach : FileReach m s b) (lt : va < userTop)
    (add : pfAddEmptyEnvPage e va true s = .ok 0 s') (goes : FileGoes e va s' t)
    (running : t.globals.curenv ≠ none) (reaches : Reaches t va f) :
    ∃ t', pfReadEnvPage e va t = .ok 0 t' ∧
      t'.mem f = Machine.clearPage (m.mem Fos.zeroPage) := by
  have added := reach.returns (.addEmpty e va true) lt add
  obtain ⟨b', reach', same⟩ := added.goes goes
  have content : b' e (pageNo va) = some (some (Machine.clearPage (m.mem Fos.zeroPage))) := by
    rw [same]
    simp only [FileCall.book, if_true, Book.set, Function.update_self]
    rw [reach.zeroPage]
  obtain ⟨v, tracks⟩ := reach'.tracked
  obtain ⟨c, curenv⟩ := Option.ne_none_iff_exists'.mp running
  have ends := tracks.read_ends (e := e) lt (tracks.rep.globals ▸ curenv) reaches
  have found : wp (pfReadEnvPage e va) (fun r t' => r = 0 ∧
      t'.mem f = Machine.clearPage (m.mem Fos.zeroPage)) (fun _ _ => False) t := by
    refine wp_mono ends ?_ fun _ _ stuck => stuck
    rintro r t' (⟨-, absent⟩ | ⟨rfl, c, here, stored⟩)
    · rw [content] at absent
      cases absent
    · rw [content] at here
      exact ⟨rfl, stored _ (Option.some.inj here).symm⟩
  obtain ⟨_, t', run, rfl, page⟩ := wp_returns found
  exact ⟨t', run, page⟩

/-- **Zero-initialised pages.**  A page that `pf_add_empty_env_page(e, va, 1)` added, with
any operations on other pages after it, is read back by `pf_read_env_page(e, va)` as 4096
bytes of zero exactly if the bytes from 1024 on of `ptr_zero_page` were zero at boot. -/
theorem FileReach.addEmpty_read {m : Machine} (reach : FileReach m s b) (lt : va < userTop)
    (add : pfAddEmptyEnvPage e va true s = .ok 0 s') (goes : FileGoes e va s' t)
    (running : t.globals.curenv ≠ none) (reaches : Reaches t va f) :
    ∃ t', pfReadEnvPage e va t = .ok 0 t' ∧
      ((∀ k < pageSize, (t'.mem f).byte k = 0) ↔ m.ZeroFrame) := by
  obtain ⟨t', run, page⟩ := reach.addEmpty_ends lt add goes running reaches
  refine ⟨t', run, ?_⟩
  rw [page]
  exact m.clearPage_zero

/-! ## Memory that is not zero -/

/-- `smallMachine` with ones in frame 1. -/
def dirtyMachine : Machine :=
  { smallMachine with
    mem := fun f => if f = zeroPage then fun _ => BitVec.allOnes 32 else zeroes
    user := fun _ _ => rfl
    kernel := fun _ _ page => absurd rfl page }

theorem dirtyMachine_zeroFrame : ¬ dirtyMachine.ZeroFrame := by
  intro zero
  have byte := zero 1024 (by decide) (by decide)
  revert byte
  decide

/-- On every machine a page is added, mapped and about to be read. -/
theorem Machine.reach_addEmpty (m : Machine) : ∃ s b s' t f, FileReach m s b ∧
    pfAddEmptyEnvPage 0 0x800000 true s = .ok 0 s' ∧ FileGoes 0 0x800000 s' t ∧
    t.globals.curenv ≠ none ∧ Reaches t 0x800000 f := by
  obtain ⟨s, v, reach, ready, diskRoom⟩ := m.ready
  obtain ⟨s₁, add, v₁, ready₁⟩ := (show Ready s v 0 (154 + 2) from ready).adds
    diskRoom (show 0x800000 < userTop by decide) (s.mem Fos.zeroPage)
  obtain ⟨r, s₂, run, ⟨f, reaches⟩, v₂, ready₂⟩ :=
    (show Ready s₁ v₁ 0 (152 + 2) from ready₁).maps (show 0x800000 < userTop by decide)
  refine ⟨s, _, s₁, s₂, f, reach, ?_, (FileGoes.refl s₁).returns
    (.map 0 0x800000 (permUser ||| permWriteable)) ⟨by decide, by decide, ready₁.live⟩ trivial run,
    ?_, reaches⟩
  · simp only [pfAddEmptyEnvPage, if_true]
    exact add
  · rw [ready₂.rep.globals, ready₂.running]
    simp

/-- Zero-initialised pages need not be zero. -/
theorem addEmpty_dirty : ¬ ∀ (m : Machine) (s : Kernel) (b : Book), FileReach m s b →
    ∀ e va, va < userTop → ∀ s', pfAddEmptyEnvPage e va true s = .ok 0 s' →
    ∀ t, FileGoes e va s' t → t.globals.curenv ≠ none → ∀ f, Reaches t va f →
    ∃ t', pfReadEnvPage e va t = .ok 0 t' ∧ ∀ k < pageSize, (t'.mem f).byte k = 0 := by
  intro zero
  obtain ⟨s, b, s', t, f, reach, add, goes, running, reaches⟩ := dirtyMachine.reach_addEmpty
  obtain ⟨t', run, page⟩ := reach.addEmpty_ends (by decide) add goes running reaches
  obtain ⟨t'', run', bytes⟩ :=
    zero _ s b reach 0 0x800000 (by decide) s' add t goes running f reaches
  obtain ⟨-, rfl⟩ : (0 : Int) = 0 ∧ t' = t'' := by simpa [run] using run'
  rw [page] at bytes
  exact dirtyMachine_zeroFrame (dirtyMachine.clearPage_zero.mp bytes)

/-- A page is added on `dirtyMachine`, and its bytes are not all zero. -/
theorem addEmpty_read_dirty : ∃ t t' f, pfReadEnvPage 0 0x800000 t = .ok 0 t' ∧
    ((∀ k < pageSize, (t'.mem f).byte k = 0) ↔ dirtyMachine.ZeroFrame) := by
  obtain ⟨s, b, s', t, f, reach, add, goes, running, reaches⟩ := dirtyMachine.reach_addEmpty
  obtain ⟨t', run, bytes⟩ := reach.addEmpty_read (by decide) add goes running reaches
  exact ⟨t, t', f, run, bytes⟩

end Fos
