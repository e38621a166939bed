import Mathlib.Order.Defs.Unbundled
import Fos.Exec.Wp

/-!
# Programs that move along a preorder

`Steps R P m` says of the program `m` that from any state it ends in one that is related to
it by `R`, and that it is stopped, if at all, as `P` says and in such a state too.  For a
preorder `R` the rules follow the ways to put programs together.
-/

namespace Exec

variable {ε σ α β : Type}

/-- From any state, `m` takes a step of `R`, also if it is stopped, and `P` says how. -/
def Steps (R : σ → σ → Prop) (P : ε → Prop) (m : EStateM ε σ α) : Prop :=
  ∀ s, wp m (fun _ s' => R s s') (fun x s' => P x ∧ R s s') s

variable {R : σ → σ → Prop} {P : ε → Prop}

/-- Such a program in the middle of a run. -/
theorem Steps.wp {m : EStateM ε σ α} {Q : α → σ → Prop} {E : ε → σ → Prop} {s : σ}
    (steps : Steps R P m) (ends : ∀ a s', R s s' → Q a s')
    (stops : ∀ x s', P x → R s s' → E x s') : Exec.wp m Q E s :=
  wp_mono (steps s) ends fun x s' stop => stops x s' stop.1 stop.2

theorem Steps.bind [IsTrans σ R] {m : EStateM ε σ α} {k : α → EStateM ε σ β}
    (first : Steps R P m) (next : ∀ a, Steps R P (k a)) : Steps R P (m >>= k) := by
  intro s
  rw [wp_bind]
  refine first.wp (fun a s' step => ?_) fun x s' stop step => ⟨stop, step⟩
  exact (next a).wp (fun _ _ step' => trans_of R step step') fun x _ stop step' =>
    ⟨stop, trans_of R step step'⟩

theorem steps_modify {f : σ → σ} (step : ∀ s, R s (f s)) :
    Steps R P (modify f : EStateM ε σ PUnit) := step

theorem Steps.ite {p : Prop} [Decidable p] {m m' : EStateM ε σ α} (left : Steps R P m)
    (right : Steps R P m') : Steps R P (if p then m else m') := by
  split
  · exact left
  · exact right

section Refl

variable [Std.Refl R]

theorem steps_pure (a : α) : Steps R P (pure a) := fun s => refl_of R s

theorem steps_get : Steps R P (get : EStateM ε σ σ) := fun s => refl_of R s

theorem steps_throw {x : ε} (stop : P x) : Steps R P (throw x : EStateM ε σ α) :=
  fun s => ⟨stop, refl_of R s⟩

theorem Steps.forM [IsTrans σ R] {xs : List α} {body : α → EStateM ε σ PUnit}
    (pass : ∀ x ∈ xs, Steps R P (body x)) : Steps R P (xs.forM body) := by
  induction xs with
  | nil => exact steps_pure _
  | cons x rest ih =>
    exact (pass x (by simp)).bind fun _ => ih fun y mem => pass y (by simp [mem])

end Refl

end Exec
