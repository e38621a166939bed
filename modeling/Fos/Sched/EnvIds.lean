import Fos.Sched.Conservation

/-!
# Environment identifiers

`envid2env` of `kern/helpers.c` against the identifiers that
`complete_environment_initialization` gives out.  `NENV` is 12, so that `NENV - 1` is not
a mask of low bits: `ENVX` finds the slots whose number it leaves alone, and no others.
The generation in an identifier is counted up from the slot's old `env_id`, which
`free_environment` has zeroed, so that a slot has the same identifier every time.

* `Reach.envid2env_iff`: which environments are found by their identifiers;
* `History.stale_iff`: when the identifier of an environment that was freed is refused.
-/

namespace Fos

/-- `E_BAD_ENV`. -/
def eBadEnv : Int := -2

/-- `ENVX(envid)`. -/
def envx (envid : BitVec 32) : Nat := (envid &&& (BitVec.ofNat 32 nenv - 1#32)).toNat

namespace Sched

/-- `envid2env(envid, &env_store, checkperm)`: the result and `env_store`, or nothing when
it follows a null `curenv`. -/
def envid2env (s : Sched) (envid : BitVec 32) (checkperm : Bool) : Option (Int × Option Nat) :=
  if envid = 0 then some (0, s.curenv)
  else
    let e := envx envid
    if (s.envs e).envStatus = .free ∨ (s.envs e).envId ≠ envid then some (eBadEnv, none)
    else if checkperm ∧ s.curenv ≠ some e then
      match s.curenv with
      | none => none
      | some cur =>
        if (s.envs e).envParentId ≠ (s.envs cur).envId then some (eBadEnv, none)
        else some (0, some e)
    else some (0, some e)

/-- The slot `e` is in use. -/
def Live (s : Sched) (e : Nat) : Prop := e < nenv ∧ (s.envs e).envStatus ≠ .free

instance (s : Sched) (e : Nat) : Decidable (s.Live e) := inferInstanceAs (Decidable (_ ∧ _))

theorem Holds.envId {s : Sched} {seqs : EnvList → List Nat} {held : List Nat} {e : Nat}
    (holds : s.Holds seqs held) (live : s.Live e) : (s.envs e).envId = usedEnvId e :=
  (holds.used e live.1 fun free => live.2 (holds.free e free).1).2

theorem Reach.envId {s : Sched} {e : Nat} (reach : Reach s) (live : s.Live e) :
    (s.envs e).envId = usedEnvId e := by
  obtain ⟨seqs, holds⟩ := reach.holds
  exact holds.envId live

theorem usedEnvId_ne_zero {e : Nat} (lt : e < nenv) : usedEnvId e ≠ 0 := by
  have table : ∀ e : Fin nenv, usedEnvId e ≠ 0 := by decide
  exact table ⟨e, lt⟩

/-- The mask keeps the low bits of the slot number only as far as `NENV - 1` has them. -/
theorem envx_usedEnvId {e : Nat} (lt : e < nenv) : envx (usedEnvId e) = e &&& (nenv - 1) := by
  have table : ∀ e : Fin nenv, envx (usedEnvId e) = e.val &&& (nenv - 1) := by decide
  exact table ⟨e, lt⟩

theorem masked_lt {e : Nat} (lt : e < nenv) : e &&& (nenv - 1) < nenv := by
  have table : ∀ e : Fin nenv, e.val &&& (nenv - 1) < nenv := by decide
  exact table ⟨e, lt⟩

/-- Looking up the identifier of a slot looks at the slot that the mask leads to. -/
theorem Reach.envid2env_usedEnvId {s : Sched} {e : Nat} (reach : Reach s) (lt : e < nenv) :
    s.envid2env (usedEnvId e) false =
      if e &&& (nenv - 1) = e ∧ s.Live e then some (0, some e) else some (eBadEnv, none) := by
  have slot := masked_lt lt
  simp only [envid2env, if_neg (usedEnvId_ne_zero lt), envx_usedEnvId lt, Bool.false_eq_true,
    false_and, if_false]
  by_cases same : e &&& (nenv - 1) = e
  · rw [same]
    by_cases live : s.Live e
    · rw [if_neg, if_pos ⟨rfl, live⟩]
      rintro (free | other)
      · exact live.2 free
      · exact other (reach.envId live)
    · have free : (s.envs e).envStatus = .free := by
        by_contra used
        exact live ⟨lt, used⟩
      rw [if_pos (Or.inl free), if_neg fun h => live h.2]
  · have bad : (s.envs (e &&& (nenv - 1))).envStatus = .free ∨
        (s.envs (e &&& (nenv - 1))).envId ≠ usedEnvId e := by
      by_cases used : (s.envs (e &&& (nenv - 1))).envStatus = .free
      · exact Or.inl used
      · refine Or.inr fun eq => same ?_
        rw [reach.envId ⟨slot, used⟩] at eq
        exact usedEnvId_inj slot lt eq
    rw [if_pos bad, if_neg fun h => same h.1]

/-- **An environment is found by its identifier** exactly if the mask `NENV - 1` keeps the
number of its slot; and no two environments have one identifier. -/
theorem Reach.envid2env_iff {s : Sched} (reach : Reach s) :
    (∀ e, s.Live e →
      (s.envid2env (s.envs e).envId false = some (0, some e) ↔ e &&& (nenv - 1) = e)) ∧
    ∀ e f, s.Live e → s.Live f → (s.envs e).envId = (s.envs f).envId → e = f := by
  refine ⟨fun e live => ?_, fun e f live live' same => ?_⟩
  · rw [reach.envId live, reach.envid2env_usedEnvId live.1]
    split
    · rename_i found
      exact iff_of_true rfl found.1
    · rename_i lost
      refine iff_of_false (by simp [eBadEnv]) fun same => lost ⟨same, live⟩
  · rw [reach.envId live, reach.envId live'] at same
    exact usedEnvId_inj live.1 live'.1 same

/-- So many environments are created, one after the other. -/
def created : Nat → Sched
  | 0 => boot
  | n + 1 =>
    let (env, s) := (created n).envCreate true
    s.schedNewEnv env

theorem reach_created (n : Nat) : Reach (created n) := by
  induction n with
  | zero => exact .boot
  | succ n ih => exact .step (.newEnv true) ih trivial (.inl rfl)

/-- The fifth environment is in slot 4, and its identifier leads to slot 0. -/
theorem envid2env_fifth : ¬ ∀ s : Sched, Reach s → ∀ e, s.Live e →
    s.envid2env (s.envs e).envId false = some (0, some e) := by
  intro found
  have fifth : (created 5).Live 4 := ⟨by decide, by decide +kernel⟩
  have bad := found _ (reach_created 5) 4 fifth
  rw [(reach_created 5).envId fifth, (reach_created 5).envid2env_usedEnvId (by decide)] at bad
  revert bad
  decide

/-- Of nine environments the last one, in slot 8, is found, and it is not the first one. -/
theorem envid2env_ninth : ∃ s : Sched, s.Live 0 ∧ s.Live 8 ∧
    s.envid2env (s.envs 8).envId false = some (0, some 8) ∧
    (s.envs 0).envId ≠ (s.envs 8).envId := by
  have first : (created 9).Live 0 := ⟨by decide, by decide +kernel⟩
  have ninth : (created 9).Live 8 := ⟨by decide, by decide +kernel⟩
  obtain ⟨found, differ⟩ := (reach_created 9).envid2env_iff
  refine ⟨created 9, first, ninth, (found 8 ninth).mpr (by decide), fun same => ?_⟩
  exact absurd (differ 0 8 first ninth same) (by decide)

/-! ## Identifiers of environments that were freed -/

/-- Runs with the slots and identifiers of the environments freed on the way. -/
inductive History : Sched → (Nat → BitVec 32 → Prop) → Prop
  | boot : History boot fun _ _ => False
  | step {s s' past} (op : Op) : History s past → op.Enabled s →
    op.exec s = .returns s' ∨ op.exec s = .leaves s' →
    History s' fun e id => past e id ∨ s.Live e ∧ ¬ s'.Live e ∧ (s.envs e).envId = id

theorem History.reach {s : Sched} {past : Nat → BitVec 32 → Prop} (history : History s past) :
    Reach s := by
  induction history with
  | boot => exact .boot
  | step op _ enabled run reach => exact .step op reach enabled run

/-- A slot has the same identifier every time. -/
theorem History.past_id {s : Sched} {past : Nat → BitVec 32 → Prop} (history : History s past)
    {e : Nat} {id : BitVec 32} (freed : past e id) : e < nenv ∧ id = usedEnvId e := by
  induction history with
  | boot => exact freed.elim
  | step op before _ _ ih =>
    rcases freed with freed | ⟨live, -, rfl⟩
    · exact ih freed
    · exact ⟨live.1, before.reach.envId live⟩

/-- **The identifier of a freed environment** is gone for good, and refused by `envid2env`,
exactly as long as its slot is not used again. -/
theorem History.stale_iff {s : Sched} {past : Nat → BitVec 32 → Prop} (history : History s past)
    {e : Nat} {id : BitVec 32} (freed : past e id) :
    ((s.Live e → (s.envs e).envId ≠ id) ∧ s.envid2env id false = some (eBadEnv, none)) ↔
      ¬ s.Live e := by
  obtain ⟨lt, rfl⟩ := history.past_id freed
  rw [history.reach.envid2env_usedEnvId lt]
  constructor
  · rintro ⟨fresh, -⟩ live
    exact fresh live (history.reach.envId live)
  · intro gone
    refine ⟨fun live => absurd live gone, ?_⟩
    rw [if_neg fun h => gone h.2]

/-- An environment is created, killed, and another one is created: it has the same
identifier. -/
theorem stale_reused : ¬ ∀ s past, History s past → ∀ e id, past e id →
    (s.Live e → (s.envs e).envId ≠ id) ∧ s.envid2env id false = some (eBadEnv, none) := by
  intro gone
  have first : History _ _ := .step (.newEnv true) .boot trivial (.inl rfl)
  have killed : History _ _ := .step (.kill 4096) first
    ⟨0, by decide, by decide, by decide +kernel, by decide +kernel⟩ (.inl rfl)
  have again : History _ _ := .step (.newEnv true) killed trivial (.inl rfl)
  refine (gone _ _ again 0 4096 ?_).1 ⟨by decide, by decide +kernel⟩ (by decide +kernel)
  refine Or.inl (Or.inr ⟨⟨by decide, by decide +kernel⟩, ?_, by decide +kernel⟩)
  decide +kernel

/-- After the kill the identifier is refused. -/
theorem stale_killed : ∃ s past, History s past ∧ past 0 4096 ∧
    s.envid2env 4096 false = some (eBadEnv, none) := by
  have first : History _ _ := .step (.newEnv true) .boot trivial (.inl rfl)
  have killed : History _ _ := .step (.kill 4096) first
    ⟨0, by decide, by decide, by decide +kernel, by decide +kernel⟩ (.inl rfl)
  refine ⟨_, _, killed, ?_, ((killed.stale_iff (e := 0) ?_).mpr (by decide +kernel)).2⟩
  · exact Or.inr ⟨⟨by decide, by decide +kernel⟩, by decide +kernel, by decide +kernel⟩
  · exact Or.inr ⟨⟨by decide, by decide +kernel⟩, by decide +kernel, by decide +kernel⟩

end Sched

end Fos
