import Fos.WorkingSet.Quiet

/-!
# The lists of a working set

The lists of an environment as sequences of elements, with the successors that the loops
over them have saved.

* `WorkingSet`, `Listed`: the sequences, and that a state has them;
* `remove_wp`, `insertHead_wp`, `insertTail_wp`: the `LIST_*` operations;
* `wsForeach_wp`: the rule for a loop whose body may change the lists.
-/

namespace Fos

open Exec Linked

/-- The elements on the lists, and the saved successors. -/
structure WorkingSet where
  seqs : WSList → List Nat
  next : WSList → Option Nat

namespace WorkingSet

/-- The element is on a list. -/
def Has (w : WorkingSet) (k : Nat) : Prop := ∃ i, k ∈ w.seqs i

def setSeq (w : WorkingSet) (i : WSList) (xs : List Nat) : WorkingSet :=
  { w with seqs := Function.update w.seqs i xs }

/-- `LIST_REMOVE`. -/
def remove (w : WorkingSet) (i : WSList) (x : Nat) : WorkingSet := w.setSeq i ((w.seqs i).erase x)

/-- `LIST_INSERT_HEAD`. -/
def insertHead (w : WorkingSet) (i : WSList) (x : Nat) : WorkingSet := w.setSeq i (x :: w.seqs i)

/-- `LIST_INSERT_TAIL`. -/
def insertTail (w : WorkingSet) (i : WSList) (x : Nat) : WorkingSet := w.setSeq i (w.seqs i ++ [x])

/-- A loop saves a successor. -/
def save (w : WorkingSet) (i : WSList) (p : Option Nat) : WorkingSet :=
  { w with next := Function.update w.next i p }

section Fields

variable (w : WorkingSet) (i j : WSList) (x : Nat) (p : Option Nat) (xs : List Nat)

@[simp] theorem setSeq_seqs : (w.setSeq i xs).seqs = Function.update w.seqs i xs := rfl
@[simp] theorem setSeq_next : (w.setSeq i xs).next = w.next := rfl
@[simp] theorem remove_seqs :
    (w.remove i x).seqs = Function.update w.seqs i ((w.seqs i).erase x) := rfl
@[simp] theorem remove_next : (w.remove i x).next = w.next := rfl
@[simp] theorem insertHead_seqs :
    (w.insertHead i x).seqs = Function.update w.seqs i (x :: w.seqs i) := rfl
@[simp] theorem insertHead_next : (w.insertHead i x).next = w.next := rfl
@[simp] theorem insertTail_seqs :
    (w.insertTail i x).seqs = Function.update w.seqs i (w.seqs i ++ [x]) := rfl
@[simp] theorem insertTail_next : (w.insertTail i x).next = w.next := rfl
@[simp] theorem save_seqs : (w.save i p).seqs = w.seqs := rfl
@[simp] theorem save_next : (w.save i p).next = Function.update w.next i p := rfl

end Fields

end WorkingSet

/-- The lists of `e` in the state `s` are `w`; the elements and the sizes are those of
`env₀`. -/
structure Listed (e : Nat) (env₀ : Env) (s : Kernel) (w : WorkingSet) : Prop where
  rep : (s.globals.envs e).lists.Rep w.seqs
  next : ∀ i, ((s.globals.envs e).lists.head i).ptrNext = w.next i
  small : ∀ i, ∀ k ∈ w.seqs i, k < pwsMaxSize
  elements : (s.globals.envs e).ptrPageWorkingSet = env₀.ptrPageWorkingSet
  maxSize : (s.globals.envs e).pageWSMaxSize = env₀.pageWSMaxSize
  activeSize : (s.globals.envs e).activeListSize = env₀.activeListSize
  secondSize : (s.globals.envs e).secondListSize = env₀.secondListSize

variable {e : Nat} {env₀ : Env} {s s' : Kernel} {w w' : WorkingSet} {i j : WSList} {x : Nat}

theorem Listed.same (listed : Listed e env₀ s w) (same : WsSame e s s') : Listed e env₀ s' w where
  rep := same.lists ▸ listed.rep
  next := same.lists ▸ listed.next
  small := listed.small
  elements := same.elements.trans listed.elements
  maxSize := same.maxSize.trans listed.maxSize
  activeSize := same.activeSize.trans listed.activeSize
  secondSize := same.secondSize.trans listed.secondSize

/-- No element is on two lists. -/
theorem Listed.only (listed : Listed e env₀ s w) (here : x ∈ w.seqs i) (there : x ∈ w.seqs j) :
    i = j := by
  by_contra ne
  exact listed.rep.disjoint i j ne here there

theorem Listed.nodup (listed : Listed e env₀ s w) (i : WSList) : (w.seqs i).Nodup :=
  (listed.rep.list i).nodup

/-- A list has at most as many elements as there are. -/
theorem Listed.length_le (listed : Listed e env₀ s w) (i : WSList) :
    (w.seqs i).length ≤ pwsMaxSize := by
  have sub : w.seqs i ⊆ List.range pwsMaxSize := fun k mem =>
    List.mem_range.mpr (listed.small i k mem)
  simpa using ((listed.nodup i).subperm sub).length_le

/-- And so have two. -/
theorem Listed.lengths_le (listed : Listed e env₀ s w) (ne : i ≠ j) :
    (w.seqs i).length + (w.seqs j).length ≤ pwsMaxSize := by
  have nodup : (w.seqs i ++ w.seqs j).Nodup :=
    (listed.nodup i).append (listed.nodup j) (listed.rep.disjoint i j ne)
  have sub : w.seqs i ++ w.seqs j ⊆ List.range pwsMaxSize := fun k mem => by
    rcases List.mem_append.mp mem with mem | mem
    · exact List.mem_range.mpr (listed.small i k mem)
    · exact List.mem_range.mpr (listed.small j k mem)
  simpa using (nodup.subperm sub).length_le

/-- An edit of the lists. -/
theorem Listed.edit (listed : Listed e env₀ s w) {S : Lists WSList Nat} (rep : S.Rep w'.seqs)
    (next : ∀ i, (S.head i).ptrNext = w'.next i) (small : ∀ i, ∀ k ∈ w'.seqs i, k < pwsMaxSize) :
    Listed e env₀ (s.setGlobals (s.globals.setEnv e fun env => env.setLists S)) w' := by
  have env : (s.setGlobals (s.globals.setEnv e fun env => env.setLists S)).globals.envs e =
      (s.globals.envs e).setLists S := Function.update_self ..
  refine ⟨?_, ?_, small, ?_, ?_, ?_, ?_⟩ <;> rw [env]
  · exact rep
  · exact next
  · exact listed.elements
  · exact listed.maxSize
  · exact listed.activeSize
  · exact listed.secondSize

section Operations

variable {Q : Unit → Kernel → Prop} {E : Stop → Kernel → Prop}

theorem remove_wp (listed : Listed e env₀ s w) (mem : x ∈ w.seqs i)
    (done : ∀ s', Listed e env₀ s' (w.remove i x) → Q () s') :
    wp (modifyLists e (·.remove i x)) Q E s := by
  refine done _ (listed.edit (listed.rep.remove mem) (fun j => ?_) fun j k mem' => ?_)
  · rw [Lists.remove_ptrNext, listed.next]
    rfl
  · rcases eq_or_ne j i with rfl | ne
    · simp only [WorkingSet.remove_seqs, Function.update_self] at mem'
      exact listed.small j k (List.mem_of_mem_erase mem')
    · simp only [WorkingSet.remove_seqs, Function.update_of_ne ne] at mem'
      exact listed.small j k mem'

theorem insertHead_wp (listed : Listed e env₀ s w) (loose : ¬ w.Has x) (lt : x < pwsMaxSize)
    (done : ∀ s', Listed e env₀ s' (w.insertHead i x) → Q () s') :
    wp (modifyLists e (·.insertHead i x)) Q E s := by
  have out : ∀ j, x ∉ w.seqs j := fun j mem => loose ⟨j, mem⟩
  refine done _ (listed.edit (listed.rep.insertHead i out) (fun j => ?_) fun j k mem' => ?_)
  · rw [Lists.insertHead_ptrNext, listed.next]
    rfl
  · rcases eq_or_ne j i with rfl | ne
    · simp only [WorkingSet.insertHead_seqs, Function.update_self, List.mem_cons] at mem'
      rcases mem' with rfl | mem'
      · exact lt
      · exact listed.small j k mem'
    · simp only [WorkingSet.insertHead_seqs, Function.update_of_ne ne] at mem'
      exact listed.small j k mem'

theorem insertTail_wp (listed : Listed e env₀ s w) (loose : ¬ w.Has x) (lt : x < pwsMaxSize)
    (done : ∀ s', Listed e env₀ s' (w.insertTail i x) → Q () s') :
    wp (modifyLists e (·.insertTail i x)) Q E s := by
  have out : ∀ j, x ∉ w.seqs j := fun j mem => loose ⟨j, mem⟩
  refine done _ (listed.edit (listed.rep.insertTail i out) (fun j => ?_) fun j k mem' => ?_)
  · rw [Lists.insertTail_ptrNext, listed.next]
    rfl
  · rcases eq_or_ne j i with rfl | ne
    · simp only [WorkingSet.insertTail_seqs, Function.update_self, List.mem_append,
        List.mem_singleton] at mem'
      rcases mem' with mem' | rfl
      · exact listed.small j k mem'
      · exact lt
    · simp only [WorkingSet.insertTail_seqs, Function.update_of_ne ne] at mem'
      exact listed.small j k mem'

theorem save_wp {p : Option Nat} (listed : Listed e env₀ s w)
    (done : ∀ s', Listed e env₀ s' (w.save i p) → Q () s') :
    wp (modifyLists e (·.savePtrNext i p)) Q E s := by
  refine done _ (listed.edit (listed.rep.savePtrNext i p) (fun j => ?_) listed.small)
  rcases eq_or_ne j i with rfl | ne
  · simp [Lists.savePtrNext]
  · simpa [Lists.savePtrNext, Function.update_of_ne ne] using listed.next j

end Operations

/-- `LIST_SIZE`. -/
theorem listSize_wp {Q : Nat → Kernel → Prop} {E : Stop → Kernel → Prop}
    (listed : Listed e env₀ s w) (done : Q (w.seqs i).length s) : wp (listSize e i) Q E s := by
  have size : ((s.globals.envs e).lists.head i).size.toNat = (w.seqs i).length := by
    have le := listed.length_le i
    exact (listed.rep.list i).size_toNat (le.trans_lt (by decide))
  simp only [listSize, getEnv, wp_bind, wp_get, wp_pure, size]
  exact done

/-- `LIST_FIRST`. -/
theorem listFirst_wp {Q : Option Nat → Kernel → Prop} {E : Stop → Kernel → Prop}
    (listed : Listed e env₀ s w) (done : Q (w.seqs i).head? s) : wp (listFirst e i) Q E s := by
  simp only [listFirst, getEnv, wp_bind, wp_get, wp_pure, listed.rep.first]
  exact done

/-- `LIST_LAST`. -/
theorem listLast_wp {Q : Option Nat → Kernel → Prop} {E : Stop → Kernel → Prop}
    (listed : Listed e env₀ s w) (done : Q (w.seqs i).getLast? s) : wp (listLast e i) Q E s := by
  simp only [listLast, getEnv, wp_bind, wp_get, wp_pure, listed.rep.last]
  exact done

/-- `elm->virtual_address`. -/
theorem virtualAddress_wp {Q : Nat → Kernel → Prop} {E : Stop → Kernel → Prop}
    (listed : Listed e env₀ s w) (done : Q (env₀.ptrPageWorkingSet x).virtualAddress s) :
    wp (virtualAddress e x) Q E s := by
  simp only [virtualAddress, getEnv, wp_bind, wp_get, wp_pure, listed.elements]
  exact done

/-- The state after a loop over a list has saved a successor. -/
def Kernel.saved (s : Kernel) (e : Nat) (list : WSList) (p : Option Nat) : Kernel :=
  s.setGlobals (s.globals.setEnv e fun env => env.setLists (env.lists.savePtrNext list p))

/-- A loop over a list.  `P n todo w env b s` says that in the state `s` the elements `todo` at the
end of the list are still to come and that `n` passes are enough; a pass may change the lists
and the elements if the saved successor is the first element of what is then to come. -/
theorem wsForeach_env_wp {β ρ : Type} {list : WSList} {body : β → Nat → Prog (Pass β ρ)}
    {Q : Pass β ρ → Kernel → Prop} {E : Stop → Kernel → Prop} (done : List Nat)
    (P : Nat → List Nat → WorkingSet → Env → β → Kernel → Prop)
    (save : ∀ n todo w env b p s, P n todo w env b s →
      P n todo (w.save list p) env b (s.saved e list p))
    (pass : ∀ n x rest done w env b s, P (n + 1) (x :: rest) w env b s → Listed e env s w →
      w.seqs list = done ++ x :: rest → w.next list = rest.head? →
      wp (body b x) (fun r s' =>
        match r with
        | .next b' => ∃ rest' done' w' env', P n rest' w' env' b' s' ∧ Listed e env' s' w' ∧
            w'.seqs list = done' ++ rest' ∧ w'.next list = rest'.head?
        | .leave r => Q (.leave r) s') E s)
    (last : ∀ x rest w env b s, ¬ P 0 (x :: rest) w env b s)
    (exit : ∀ n w env b s, P n [] w env b s → Listed e env s w → Q (.next b) s)
    {n fuel : Nat} {todo : List Nat} {b : β} (start : P n todo w env₀ b s)
    (listed : Listed e env₀ s w) (at_ : w.seqs list = done ++ todo) (enough : n < fuel) :
    wp (wsForeach e list body fuel todo.head? b) Q E s := by
  induction fuel generalizing s w env₀ n todo done b with
  | zero => exact absurd enough (Nat.not_lt_zero n)
  | succ fuel ih =>
    cases todo with
    | nil =>
      have saved : Listed e env₀ (s.saved e list none) (w.save list none) :=
        save_wp (Q := fun _ s' => Listed e env₀ s' (w.save list none)) (E := fun _ _ => False)
          listed fun _ h => h
      simp only [List.head?_nil, wsForeach, wp_bind, Option.bind_none]
      exact exit n _ env₀ b _ (save n [] w env₀ b none s start) saved
    | cons x rest =>
      cases n with
      | zero => exact absurd start (last x rest w env₀ b s)
      | succ n =>
        have succ : (s.globals.envs e).lists.links.next x = rest.head? := listed.rep.next at_
        have same : modifyLists e (fun S => S.savePtrNext list ((some x).bind S.links.next)) s =
            .ok () (s.saved e list rest.head?) := by
          simp only [modifyLists, modifyEnv, Option.bind_some]
          show EStateM.Result.ok _ _ = EStateM.Result.ok _ _
          rw [Kernel.saved]
          congr 2
          simp only [Globals.setEnv, succ]
        have saved : Listed e env₀ (s.saved e list rest.head?) (w.save list rest.head?) :=
          save_wp (Q := fun _ s' => Listed e env₀ s' (w.save list rest.head?))
            (E := fun _ _ => False) listed fun _ h => h
        simp only [List.head?_cons, wsForeach, wp_bind]
        rw [wp_ok same]
        refine wp_mono (pass n x rest done _ env₀ b _ (save _ _ w env₀ b _ s start) saved at_
          (by simp)) ?_ fun _ _ stop => stop
        rintro (b' | r) s₂ ends
        · obtain ⟨rest', done', w', env', inv, listed₂, at', next'⟩ := ends
          simp only [getEnv, wp_bind, wp_get, wp_pure, listed₂.next, next']
          exact ih _ inv listed₂ at' (Nat.lt_of_succ_lt_succ enough)
        · exact ends

/-- The same where the elements stay. -/
theorem wsForeach_state_wp {β ρ : Type} {list : WSList} {body : β → Nat → Prog (Pass β ρ)}
    {Q : Pass β ρ → Kernel → Prop} {E : Stop → Kernel → Prop} (done : List Nat)
    (P : Nat → List Nat → WorkingSet → β → Kernel → Prop)
    (save : ∀ n todo w b p s, P n todo w b s → P n todo (w.save list p) b (s.saved e list p))
    (pass : ∀ n x rest done w b s, P (n + 1) (x :: rest) w b s → Listed e env₀ s w →
      w.seqs list = done ++ x :: rest → w.next list = rest.head? →
      wp (body b x) (fun r s' =>
        match r with
        | .next b' => ∃ rest' done' w', P n rest' w' b' s' ∧ Listed e env₀ s' w' ∧
            w'.seqs list = done' ++ rest' ∧ w'.next list = rest'.head?
        | .leave r => Q (.leave r) s') E s)
    (last : ∀ x rest w b s, ¬ P 0 (x :: rest) w b s)
    (exit : ∀ n w b s, P n [] w b s → Listed e env₀ s w → Q (.next b) s)
    {n fuel : Nat} {todo : List Nat} {b : β} (start : P n todo w b s)
    (listed : Listed e env₀ s w) (at_ : w.seqs list = done ++ todo) (enough : n < fuel) :
    wp (wsForeach e list body fuel todo.head? b) Q E s := by
  refine wsForeach_env_wp done (fun n todo w env b s => env = env₀ ∧ P n todo w b s) ?_ ?_ ?_ ?_
    ⟨rfl, start⟩ listed at_ enough
  · rintro n todo w env b p s ⟨same, inv⟩
    exact ⟨same, save n todo w b p s inv⟩
  · rintro n x rest done w env b s ⟨rfl, inv⟩ listed at_ next
    refine wp_mono (pass n x rest done w b s inv listed at_ next) ?_ fun _ _ stop => stop
    rintro (b' | r) s' ends
    · obtain ⟨rest', done', w', inv', ends'⟩ := ends
      exact ⟨rest', done', w', env, ⟨rfl, inv'⟩, ends'⟩
    · exact ends
  · rintro x rest w env b s ⟨-, inv⟩
    exact last x rest w b s inv
  · rintro n w env b s ⟨rfl, inv⟩ listed
    exact exit n w b s inv listed

/-- The same where what holds does not depend on the rest of the state. -/
theorem wsForeach_wp {β ρ : Type} {list : WSList} {body : β → Nat → Prog (Pass β ρ)}
    {Q : Pass β ρ → Kernel → Prop} {E : Stop → Kernel → Prop} (done : List Nat)
    (P : Nat → List Nat → WorkingSet → β → Prop)
    (save : ∀ n todo w b p, P n todo w b → P n todo (w.save list p) b)
    (pass : ∀ n x rest done w b s, P (n + 1) (x :: rest) w b → Listed e env₀ s w →
      w.seqs list = done ++ x :: rest → w.next list = rest.head? →
      wp (body b x) (fun r s' =>
        match r with
        | .next b' => ∃ rest' done' w', P n rest' w' b' ∧ Listed e env₀ s' w' ∧
            w'.seqs list = done' ++ rest' ∧ w'.next list = rest'.head?
        | .leave r => Q (.leave r) s') E s)
    (last : ∀ x rest w b, ¬ P 0 (x :: rest) w b)
    (exit : ∀ n w b s, P n [] w b → Listed e env₀ s w → Q (.next b) s)
    {n fuel : Nat} {todo : List Nat} {b : β} (start : P n todo w b)
    (listed : Listed e env₀ s w) (at_ : w.seqs list = done ++ todo) (enough : n < fuel) :
    wp (wsForeach e list body fuel todo.head? b) Q E s :=
  wsForeach_state_wp done (fun n todo w b _ => P n todo w b)
    (fun n todo w b p _ inv => save n todo w b p inv) pass (fun x rest w b _ => last x rest w b)
    exit start listed at_ enough

end Fos
