import Fos.Queue

/-!
# Removing what the loop is at

`LIST_FOREACH` of `inc/queue.h` with a body that may take the current element off the list and
put it on another one.

* `Visits`: what a pass may do to the lists;
* `recorded`: the body with a record of the elements that it is run on;
* `listForeach_visits`: the loop ends, and the record is the list as it was.
-/

namespace Fos

open Linked

variable {ι α σ ρ : Type}

/-- A pass for the element `x` of the list `i`: it leaves every list well formed, and the list
`i` is as it was or without `x`.  The other lists may change, and `x` may be on one of them. -/
def Visits (i : ι) (x : α) [DecidableEq α] (S S' : Lists ι α) : Prop :=
  ∀ seqs, S.Rep seqs → x ∈ seqs i →
    (S'.head i).ptrNext = (S.head i).ptrNext ∧
      ∃ seqs', S'.Rep seqs' ∧ (seqs' i = seqs i ∨ seqs' i = (seqs i).erase x)

section Passes

variable [DecidableEq α] {i j : ι} {x : α} {S : Lists ι α}

variable [DecidableEq ι]

/-- After `LIST_REMOVE` the element is on no list. -/
theorem loose_remove {seqs : ι → List α} (rep : S.Rep seqs) (mem : x ∈ seqs i) (k : ι) :
    x ∉ Function.update seqs i ((seqs i).erase x) k := by
  by_cases same : k = i
  · subst same
    rw [Function.update_self]
    exact (rep.list k).nodup.not_mem_erase
  · rw [Function.update_of_ne same]
    exact fun there => rep.disjoint k i same there mem

theorem visits_insertHead (ne : j ≠ i) : Visits i x S ((S.remove i x).insertHead j x) := by
  intro seqs rep mem
  have removed := rep.remove mem
  refine ⟨by rw [Lists.insertHead_ptrNext, Lists.remove_ptrNext], _,
    removed.insertHead j (loose_remove rep mem), Or.inr ?_⟩
  rw [Function.update_of_ne ne.symm, Function.update_self]

end Passes

/-! ## The loop -/

variable [DecidableEq ι]

instance [HasLists σ ι α] : HasLists (σ × List α) ι α where
  lists p := HasLists.lists p.1
  setLists p l := (HasLists.setLists p.1 l, p.2)
  lists_setLists p l := HasLists.lists_setLists p.1 l

/-- The body, with a record of the elements it has been run on. -/
def recorded (body : α → σ → Flow σ ρ) (x : α) (p : σ × List α) : Flow (σ × List α) ρ :=
  match body x p.1 with
  | .next s => .next (s, p.2 ++ [x])
  | .brk s => .brk (s, p.2 ++ [x])
  | .ret r => .ret r

/-- The loop without the record. -/
def LoopEnd.unrecorded : LoopEnd α (σ × List α) ρ → LoopEnd α σ ρ
  | .done var p => .done var p.1
  | .ret r => .ret r
  | .spin => .spin

variable [HasLists σ ι α]

/-- The record changes nothing. -/
theorem listForeach_recorded (i : ι) (body : α → σ → Flow σ ρ) (fuel : Nat) (var : Option α)
    (s : σ) (log : List α) :
    (listForeach i (recorded body) fuel var (s, log)).unrecorded =
    listForeach i body fuel var s := by
  induction fuel generalizing var s log with
  | zero => rfl
  | succ fuel ih =>
    cases var with
    | none => rfl
    | some x =>
      have saved : saveNext i (some x) (s, log) = (saveNext i (some x) s, log) := rfl
      simp only [listForeach, recorded, saved]
      cases body x (saveNext i (some x) s) with
      | next s' => exact ih _ s' _
      | brk s' => rfl
      | ret r => rfl

theorem lists_saveNext (i : ι) (var : Option α) (s : σ) :
    HasLists.lists (saveNext i var s) =
      (HasLists.lists s).savePtrNext i (var.bind (HasLists.lists s).links.next) :=
  HasLists.lists_setLists ..

/-- The part of the list that is still to be visited is on it. -/
def Remaining (i : ι) (all rest : List α) (p : σ × List α) : Prop :=
  p.2 ++ rest = all ∧ ∃ seqs kept, (HasLists.lists p.1).Rep seqs ∧ seqs i = kept ++ rest

variable [DecidableEq α] {i : ι} {body : α → σ → Flow σ ρ} {seqs : ι → List α} {s : σ} {fuel : Nat}

theorem Remaining.pass {all rest : List α} {x : α} {p : σ × List α}
    (remaining : Remaining i all (x :: rest) p)
    (normal : ∀ x s seqs, (HasLists.lists s).Rep seqs → x ∈ seqs i →
      ∃ s', body x s = .next s' ∧ Visits i x (HasLists.lists s) (HasLists.lists s')) :
    ∃ p', recorded body x (saveNext i (some x) p) = .next p' ∧ Remaining i all rest p' ∧
      ((HasLists.lists p').head i).ptrNext = rest.head? := by
  obtain ⟨log, seqs, kept, rep, at_⟩ := remaining
  have saved := lists_saveNext i (some x) p.1
  rw [Option.bind_some, rep.next at_] at saved
  have rep' : (HasLists.lists (saveNext i (some x) p.1)).Rep seqs := saved ▸ rep.savePtrNext i _
  have mem : x ∈ seqs i := at_ ▸ List.mem_append_right _ (List.mem_cons_self ..)
  obtain ⟨s', run, visit⟩ := normal x _ seqs rep' mem
  obtain ⟨ptrNext, seqs', rep'', left⟩ := visit seqs rep' mem
  have recordedRun : recorded body x (saveNext i (some x) p) = .next (s', p.2 ++ [x]) := by
    show (match body x (saveNext i (some x) p.1) with
      | .next s => Flow.next (s, p.2 ++ [x])
      | .brk s => .brk (s, p.2 ++ [x])
      | .ret r => .ret r) = _
    rw [run]
  refine ⟨_, recordedRun, ⟨by rw [← log]; simp, seqs', ?_⟩, ?_⟩
  · rcases left with same | gone
    · exact ⟨kept ++ [x], rep'', by rw [same, at_]; simp⟩
    · have notKept : x ∉ kept := fun there =>
        (List.nodup_append.mp (at_ ▸ (rep.list i).nodup)).2.2 x there x (by simp) rfl
      refine ⟨kept, rep'', ?_⟩
      rw [gone, at_, List.erase_append_right _ notKept, List.erase_cons_head]
  · show ((HasLists.lists s').head i).ptrNext = rest.head?
    rw [ptrNext, saved, Lists.savePtrNext_ptrNext]

/-- **`LIST_FOREACH` with removal.**  If each pass leaves the list alone or takes the current
element off it, the loop comes to its end and has visited the elements of the list as it was at
first, each once and in order. -/
theorem listForeach_visits (rep : (HasLists.lists s).Rep seqs)
    (normal : ∀ x s seqs, (HasLists.lists s).Rep seqs → x ∈ seqs i →
      ∃ s', body x s = .next s' ∧ Visits i x (HasLists.lists s) (HasLists.lists s'))
    (enough : (seqs i).length < fuel) :
    ∃ s', listForeach i (recorded body) fuel ((HasLists.lists s).head i).lhFirst (s, []) =
        .done none (s', seqs i) ∧
      listForeach i body fuel ((HasLists.lists s).head i).lhFirst s = .done none s' := by
  have recordedRun : ∃ s', listForeach i (recorded body) fuel
      ((HasLists.lists s).head i).lhFirst (s, []) = .done none (s', seqs i) := by
    rw [rep.first i]
    refine listForeach_rule (Remaining i (seqs i)) (fun r => ∃ s', r = .done none (s', seqs i))
      (fun x rest p remaining => ?_) (fun p remaining => ?_) enough ⟨rfl, seqs, [], rep, rfl⟩
    · obtain ⟨p', run, remaining', ptrNext⟩ := remaining.pass normal
      rw [run]
      exact ⟨remaining', ptrNext⟩
    · have log := remaining.1
      rw [List.append_nil] at log
      exact ⟨_, by rw [← log]; rfl⟩
  obtain ⟨s', run⟩ := recordedRun
  exact ⟨s', run, by rw [← listForeach_recorded i body fuel _ s [], run]; rfl⟩

/-! ## An example -/

instance : HasLists (Lists Bool Nat) Bool Nat where
  lists S := S
  setLists _ S := S
  lists_setLists _ _ := rfl

/-- The elements 3 and 5 on the first list. -/
def threeFive : Lists Bool Nat :=
  let empty : Lists Bool Nat :=
    ⟨⟨fun _ => none, fun _ => none⟩, fun _ => ⟨none, none, none, 0⟩⟩
  (empty.insertTail true 3).insertTail true 5

theorem rep_threeFive : threeFive.Rep
    (Function.update (Function.update (fun _ => []) true ([] ++ [3])) true ([3] ++ [5])) := by
  have empty : Lists.Rep (⟨⟨fun _ => none, fun _ => none⟩, fun _ => ⟨none, none, none, 0⟩⟩ :
      Lists Bool Nat) fun _ => [] :=
    ⟨fun _ => rep_listInit _ ⟨none, none, none, 0⟩, fun _ _ _ => List.disjoint_nil_left _⟩
  have three := empty.insertTail true (x := 3) fun _ => List.not_mem_nil
  have five := three.insertTail true (x := 5) (by decide)
  exact five

/-- A body that puts the elements of the first list on the other one. -/
def moveOver (x : Nat) (S : Lists Bool Nat) : Flow (Lists Bool Nat) Unit :=
  .next ((S.remove true x).insertHead false x)

/-- It visits both elements. -/
theorem visits_threeFive :
    ∃ s', listForeach true (recorded moveOver) 3 (some 3) (threeFive, []) =
        .done none (s', [3, 5]) ∧
      listForeach true moveOver 3 (some 3) threeFive = .done none s' := by
  have normal : ∀ (x : Nat) (S : Lists Bool Nat) seqs, (HasLists.lists S).Rep seqs →
      x ∈ seqs true → ∃ S', moveOver x S = .next S' ∧
        Visits true x (HasLists.lists S) (HasLists.lists S') :=
    fun _ _ _ _ _ => ⟨_, rfl, visits_insertHead Bool.false_ne_true⟩
  exact listForeach_visits rep_threeFive normal (Nat.lt_succ_self 2)

end Fos
