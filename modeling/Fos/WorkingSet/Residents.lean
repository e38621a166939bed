import Fos.Memory.Mapping
import Fos.WorkingSet.Space

/-!
# Which pages are resident

The pages on the active list and the second list are those that have a page table entry, and
the entries of the active ones are present.

* `Mapped`: what the lists have to do with the entries, and `Mapped.set`: a page that moves;
* `Resident`: a state of an environment whose lists are so.
-/

namespace Fos

open Exec Linked

variable {e va va' : Nat} {T : PageNo → Word} {w x : Word} {active second : List Nat}

/-- The pages on the two lists are the ones that are mapped, and the active ones are
present. -/
structure Mapped (T : PageNo → Word) (active second : List Nat) : Prop where
  user : ∀ va ∈ active ++ second, Aligned va ∧ UserVa va
  nodup : (active ++ second).Nodup
  entry : ∀ va, Aligned va → UserVa va → (T (pageNo va) ≠ 0 ↔ va ∈ active ++ second)
  present : ∀ va, Aligned va → UserVa va → (present (T (pageNo va)) ↔ va ∈ active)

/-- One page comes, goes or moves. -/
theorem Mapped.set {active' second' : List Nat} (mapped : Mapped T active second)
    (aligned : Aligned va) (user : UserVa va) (nodup : (active' ++ second').Nodup)
    (actives : ∀ va', va' ≠ va → (va' ∈ active' ↔ va' ∈ active))
    (seconds : ∀ va', va' ≠ va → (va' ∈ second' ↔ va' ∈ second))
    (entry : w ≠ 0 ↔ va ∈ active' ++ second') (present : Fos.present w ↔ va ∈ active') :
    Mapped (Function.update T (pageNo va) w) active' second' where
  user va' mem := by
    rcases eq_or_ne va' va with rfl | ne
    · exact ⟨aligned, user⟩
    · apply mapped.user
      rwa [List.mem_append, actives va' ne, seconds va' ne, ← List.mem_append] at mem
  nodup := nodup
  entry va' aligned' user' := by
    rcases eq_or_ne va' va with rfl | ne
    · rwa [Function.update_self]
    · rw [Function.update_of_ne fun eq => ne (aligned'.pageNo_inj aligned eq), List.mem_append,
        actives va' ne, seconds va' ne, ← List.mem_append]
      exact mapped.entry va' aligned' user'
  present va' aligned' user' := by
    rcases eq_or_ne va' va with rfl | ne
    · rwa [Function.update_self]
    · rw [Function.update_of_ne fun eq => ne (aligned'.pageNo_inj aligned eq), actives va' ne]
      exact mapped.present va' aligned' user'

/-- A new page becomes active. -/
theorem Mapped.place (mapped : Mapped T active second) (aligned : Aligned va) (user : UserVa va)
    (new : va ∉ active ++ second) (present : Fos.present w) :
    Mapped (Function.update T (pageNo va) w) (va :: active) second := by
  refine mapped.set aligned user (List.nodup_cons.mpr ⟨new, mapped.nodup⟩) (fun va' ne => ?_)
    (fun _ _ => Iff.rfl) ?_ ?_
  · simp [ne]
  · exact iff_of_true (ne_zero_of_present present) (by simp)
  · exact iff_of_true present (by simp)

/-- A page goes. -/
theorem Mapped.evict (mapped : Mapped T active second) (mem : va ∈ active ++ second) :
    Mapped (Function.update T (pageNo va) 0) (active.erase va) (second.erase va) := by
  obtain ⟨aligned, user⟩ := mapped.user va mem
  obtain ⟨nodup, nodup', apart⟩ := List.nodup_append.mp mapped.nodup
  have gone : va ∉ active.erase va ++ second.erase va := by
    rw [List.mem_append]
    rintro (mem | mem)
    · exact nodup.not_mem_erase mem
    · exact nodup'.not_mem_erase mem
  refine mapped.set aligned user (mapped.nodup.sublist ?_)
    (fun va' ne => List.mem_erase_of_ne ne) (fun va' ne => List.mem_erase_of_ne ne) ?_ ?_
  · exact List.erase_sublist.append List.erase_sublist
  · exact iff_of_false (by simp) gone
  · exact iff_of_false (by decide) fun mem => gone (by simp [mem])

/-- The last active page goes to the second list. -/
theorem Mapped.demote (mapped : Mapped T (active ++ [va]) second) (entry : w ≠ 0)
    (absent : ¬ Fos.present w) :
    Mapped (Function.update T (pageNo va) w) active (va :: second) := by
  obtain ⟨aligned, user⟩ := mapped.user va (by simp)
  have nodup := mapped.nodup
  rw [List.append_assoc] at nodup
  have out : va ∉ active := fun mem => (List.nodup_append.mp nodup).2.2 va mem va (by simp) rfl
  refine mapped.set aligned user nodup (fun va' ne => by simp [ne]) (fun va' ne => by simp [ne])
    ?_ ?_
  · exact iff_of_true entry (by simp)
  · exact iff_of_false absent out

/-- A page of the second list becomes active, in front of the others or behind them. -/
theorem Mapped.promote {active' : List Nat} (mapped : Mapped T active second)
    (mem : va ∈ second) (perm : active'.Perm (va :: active)) (present : Fos.present w) :
    Mapped (Function.update T (pageNo va) w) active' (second.erase va) := by
  obtain ⟨aligned, user⟩ := mapped.user va (by simp [mem])
  have nodup : (va :: active ++ second.erase va).Nodup := by
    have perm' : (active ++ second).Perm (va :: active ++ second.erase va) := by
      refine (List.Perm.append_left active (List.perm_cons_erase mem)).trans ?_
      exact List.perm_middle
    exact perm'.nodup_iff.mp mapped.nodup
  refine mapped.set aligned user (((perm.append_right _).nodup_iff).mpr nodup) (fun va' ne => ?_)
    (fun va' ne => List.mem_erase_of_ne ne) ?_ ?_
  · rw [perm.mem_iff]
    simp [ne]
  · exact iff_of_true (ne_zero_of_present present) (by simp [perm.mem_iff])
  · exact iff_of_true present (by simp [perm.mem_iff])

/-- The bits of an entry change. -/
theorem Mapped.rewrite (mapped : Mapped T active second) (aligned : Aligned va) (user : UserVa va)
    (entry : w ≠ 0 ↔ T (pageNo va) ≠ 0) (present : Fos.present w = Fos.present (T (pageNo va))) :
    Mapped (Function.update T (pageNo va) w) active second := by
  refine mapped.set aligned user mapped.nodup (fun _ _ => Iff.rfl) (fun _ _ => Iff.rfl) ?_ ?_
  · exact entry.trans (mapped.entry va aligned user)
  · rw [present]
    exact mapped.present va aligned user

/-- The entry of an active page changes and stays present. -/
theorem Mapped.keep (mapped : Mapped T active second) (mem : va ∈ active)
    (present : Fos.present w) : Mapped (Function.update T (pageNo va) w) active second := by
  obtain ⟨aligned, user⟩ := mapped.user va (by simp [mem])
  have here := (mapped.present va aligned user).mpr mem
  refine mapped.rewrite aligned user ?_ (present.trans here.symm)
  exact iff_of_true (ne_zero_of_present present) (ne_zero_of_present here)

/-- The order of the pages on a list does not matter. -/
theorem Mapped.perm {active' second' : List Nat} (mapped : Mapped T active second)
    (actives : active'.Perm active) (seconds : second'.Perm second) : Mapped T active' second' where
  user va mem := mapped.user va (((actives.append seconds).mem_iff).mp mem)
  nodup := ((actives.append seconds).nodup_iff).mpr mapped.nodup
  entry va aligned user :=
    (mapped.entry va aligned user).trans ((actives.append seconds).mem_iff).symm
  present va aligned user := (mapped.present va aligned user).trans actives.mem_iff.symm

/-! ## Bits -/

theorem present_or_andNot (w set clear : Word) : present ((w ||| set) &&& ~~~clear) =
    ((present w || present set) && !present clear) := by
  simp [present]

/-- The present bit is set. -/
theorem present_permPUW (w : Word) : present ((w ||| permPUW) &&& ~~~0) := by
  rw [present_or_andNot]
  simp [show present permPUW = true from rfl]

/-- The present bit is cleared. -/
theorem not_present_permPUW (w : Word) : ¬ present ((w ||| 0) &&& ~~~permPUW) := by
  rw [present_or_andNot]
  simp [show present permPUW = true from rfl]

theorem present_accessed (w : Word) (write : Bool) : present (accessed w write) = present w := by
  cases write <;> simp [present, accessed, permUsed, permModified]

theorem present_readInEntry (w : Word) : present (readInEntry w) = present w := by
  rw [readInEntry, present_or_andNot, present_accessed]
  simp [present, permModified]

/-! ## Resident pages -/

/-- The addresses of the pages on a list. -/
def WorkingSet.addresses (w : WorkingSet) (env : Env) (i : WSList) : List Nat :=
  (w.seqs i).map env.address

/-- The state of an environment whose mapped pages are those on its lists. -/
structure Resident (e : Nat) (env₀ : Env) (s : Kernel) (v : View) (w : WorkingSet) : Prop
    extends Space e env₀ s v w where
  mapped : Mapped (v.ptes e) (w.addresses env₀ .activeList) (w.addresses env₀ .secondList)
  pos : 0 < env₀.activeListSize
  full : w.seqs .secondList ≠ [] → ((w.seqs .activeList).length : Int) = env₀.activeListSize

variable {env₀ : Env} {s : Kernel} {v : View} {ws : WorkingSet}

/-- An entry that is not zero is not zero either with other permissions. -/
theorem Space.entry_ne_zero {set clear : Word} (space : Space e env₀ s v ws)
    (entry : v.ptes e (pageNo va) ≠ 0) (isSet : IsPerm set) (isClear : IsPerm clear) :
    (v.ptes e (pageNo va) ||| set) &&& ~~~clear ≠ 0 := by
  have pos := space.rep.place_pos (space.rep.place_child (child_userPageAt e va) entry)
  apply ne_zero_of_frameOf
  rw [frameOf_andNot _ isClear, frameOf_or _ isSet]
  exact Nat.ne_of_gt pos

end Fos
