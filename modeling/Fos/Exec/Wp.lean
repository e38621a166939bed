import Mathlib.Tactic.Common

/-!
# Weakest preconditions of state-and-error programs

Programs are `EStateM ε σ α`: they end with a result or are stopped by an error, and
both leave a state.  `wp m Q E s` says that from `s` the program `m` ends in `Q` or is
stopped in `E`.  The rules follow the program text: `wp_bind`, the primitives, the
branches, and two loop rules, `wp_forM` and `wp_foldlM`; `wp_mono` weakens an end.
-/

namespace Exec

variable {ε σ α β : Type}

/-- From `s`, `m` ends in `Q` or is stopped in `E`. -/
def wp (m : EStateM ε σ α) (Q : α → σ → Prop) (E : ε → σ → Prop) (s : σ) : Prop :=
  match m s with
  | .ok a s' => Q a s'
  | .error e s' => E e s'

variable {Q : α → σ → Prop} {E : ε → σ → Prop} {s : σ}

theorem wp_ok {m : EStateM ε σ α} {a : α} {s' : σ} (run : m s = .ok a s') :
    wp m Q E s ↔ Q a s' := by
  rw [wp, run]

theorem wp_error {m : EStateM ε σ α} {e : ε} {s' : σ} (run : m s = .error e s') :
    wp m Q E s ↔ E e s' := by
  rw [wp, run]

/-- A program that cannot be stopped returns. -/
theorem wp_returns {m : EStateM ε σ α} (run : wp m Q (fun _ _ => False) s) :
    ∃ a s', m s = .ok a s' ∧ Q a s' := by
  rw [wp] at run
  cases ends : m s with
  | ok a s' =>
    rw [ends] at run
    exact ⟨a, s', rfl, run⟩
  | error e s' =>
    rw [ends] at run
    exact run.elim

/-- Whether a run returned, to be evaluated on a given state. -/
def returns : EStateM.Result ε σ α → Bool
  | .ok _ _ => true
  | .error _ _ => false

theorem returns_iff {r : EStateM.Result ε σ α} : returns r = true ↔ ∃ a s', r = .ok a s' := by
  cases r <;> simp [returns]

/-- The state that a run leaves, if it returns. -/
def after (m : EStateM ε σ α) (s : σ) : Option σ :=
  match m s with
  | .ok _ s' => some s'
  | .error _ _ => none

theorem after_eq_some {m : EStateM ε σ α} {s' : σ} :
    after m s = some s' ↔ ∃ a, m s = .ok a s' := by
  rw [after]
  cases m s <;> simp

/-- What holds of the steps so far and of the state they led to holds after more of them, if a
step keeps it. -/
theorem foldlM_steps {R : List α → σ → Prop} {f : σ → α → Option σ}
    (step : ∀ l s a s', R l s → f s a = some s' → R (l ++ [a]) s') {l rest : List α} {s' : σ}
    (start : R l s) (ends : rest.foldlM f s = some s') : R (l ++ rest) s' := by
  induction rest generalizing l s with
  | nil =>
    cases ends
    simpa using start
  | cons a rest ih =>
    rw [List.foldlM_cons] at ends
    obtain ⟨s₁, here, ends⟩ := Option.bind_eq_some_iff.mp ends
    have last := ih (step l s a s₁ start here) ends
    rwa [List.append_assoc] at last

@[simp] theorem wp_pure (a : α) : wp (pure a) Q E s ↔ Q a s := Iff.rfl

@[simp] theorem wp_bind (m : EStateM ε σ α) (k : α → EStateM ε σ β) {Q : β → σ → Prop} :
    wp (m >>= k) Q E s ↔ wp m (fun a s' => wp (k a) Q E s') E s := by
  simp only [wp, bind, EStateM.bind]
  cases m s <;> rfl

@[simp] theorem wp_map (f : α → β) (m : EStateM ε σ α) {Q : β → σ → Prop} :
    wp (f <$> m) Q E s ↔ wp m (fun a s' => Q (f a) s') E s := by
  simp only [wp, Functor.map, EStateM.map]
  cases m s <;> rfl

@[simp] theorem wp_get {Q : σ → σ → Prop} : wp get Q E s ↔ Q s s := Iff.rfl

@[simp] theorem wp_set (s' : σ) {Q : PUnit → σ → Prop} : wp (set s') Q E s ↔ Q ⟨⟩ s' := Iff.rfl

@[simp] theorem wp_modify (f : σ → σ) {Q : PUnit → σ → Prop} :
    wp (modify f) Q E s ↔ Q ⟨⟩ (f s) := Iff.rfl

@[simp] theorem wp_throw (e : ε) : wp (throw e) Q E s ↔ E e s := Iff.rfl

theorem wp_mono {m : EStateM ε σ α} {Q' : α → σ → Prop} {E' : ε → σ → Prop}
    (run : wp m Q E s) (ends : ∀ a s', Q a s' → Q' a s') (stops : ∀ e s', E e s' → E' e s') :
    wp m Q' E' s := by
  simp only [wp] at *
  cases h : m s with
  | ok a s' =>
    rw [h] at run
    exact ends a s' run
  | error e s' =>
    rw [h] at run
    exact stops e s' run

/-- Two facts about one run. -/
theorem wp_and {m : EStateM ε σ α} {Q' : α → σ → Prop} {E' : ε → σ → Prop} (run : wp m Q E s)
    (run' : wp m Q' E' s) :
    wp m (fun a s' => Q a s' ∧ Q' a s') (fun e s' => E e s' ∧ E' e s') s := by
  simp only [wp] at *
  cases h : m s with
  | ok a s' =>
    rw [h] at run run'
    exact ⟨run, run'⟩
  | error e s' =>
    rw [h] at run run'
    exact ⟨run, run'⟩

@[simp] theorem wp_ite {p : Prop} [Decidable p] (m m' : EStateM ε σ α) :
    wp (if p then m else m') Q E s ↔ if p then wp m Q E s else wp m' Q E s := by
  split <;> rfl

theorem wp_forM_cons (x : α) (xs : List α) (body : α → EStateM ε σ PUnit)
    {Q : PUnit → σ → Prop} : wp ((x :: xs).forM body) Q E s ↔
      wp (body x) (fun _ s' => wp (xs.forM body) Q E s') E s := by
  change wp (body x >>= fun _ => xs.forM body) Q E s ↔ _
  rw [wp_bind]

/-- Where every end is as good. -/
theorem wp_of_forall {m : EStateM ε σ α} (ends : ∀ a s', Q a s') (stops : ∀ x s', E x s') :
    wp m Q E s := by
  rw [wp]
  cases m s with
  | ok a s' => exact ends a s'
  | error x s' => exact stops x s'

/-- A loop with a pass that never returns. -/
theorem wp_forM_stops {xs : List α} {body : α → EStateM ε σ PUnit} {Q : PUnit → σ → Prop} {x : α}
    (mem : x ∈ xs) (stops : ∀ s, wp (body x) (fun _ _ => False) (fun _ _ => True) s) :
    wp (xs.forM body) Q (fun _ _ => True) s := by
  induction xs generalizing s with
  | nil => cases mem
  | cons y rest ih =>
    rw [wp_forM_cons]
    rcases List.mem_cons.mp mem with rfl | mem
    · simp only [wp] at stops ⊢
      have stop := stops s
      cases run : body x s with
      | ok a s' =>
        rw [run] at stop
        exact stop.elim
      | error e s' => trivial
    · simp only [wp]
      cases body y s with
      | ok a s' => exact ih mem
      | error e s' => trivial

/-- A loop over a list: `I rest` holds when the elements `rest` are still to come. -/
theorem wp_forM {xs : List α} {body : α → EStateM ε σ PUnit} {Q : PUnit → σ → Prop}
    (I : List α → σ → Prop)
    (pass : ∀ x rest s, I (x :: rest) s → wp (body x) (fun _ s' => I rest s') E s)
    (exit : ∀ s, I [] s → Q ⟨⟩ s) (start : I xs s) : wp (xs.forM body) Q E s := by
  induction xs generalizing s with
  | nil => exact exit s start
  | cons x rest ih =>
    rw [wp_forM_cons]
    exact wp_mono (pass x rest s start) (fun _ _ inv => ih inv) fun _ _ h => h

/-- A loop whose passes all keep the same. -/
theorem wp_forM_keeps {xs : List α} {body : α → EStateM ε σ PUnit} {I : σ → Prop}
    (pass : ∀ x ∈ xs, ∀ s, I s → wp (body x) (fun _ s' => I s') E s) (start : I s) :
    wp (xs.forM body) (fun _ s' => I s') E s := by
  induction xs generalizing s with
  | nil => exact start
  | cons x rest ih =>
    rw [wp_forM_cons]
    refine wp_mono (pass x (List.mem_cons_self ..) s start) (fun _ s' next => ?_) fun _ _ h => h
    exact ih (fun y mem => pass y (List.mem_cons_of_mem _ mem)) next

/-- A loop over a list that carries a value. -/
theorem wp_foldlM {xs : List α} {body : β → α → EStateM ε σ β} {Q : β → σ → Prop} {b : β}
    (I : List α → β → σ → Prop)
    (pass : ∀ x rest b s, I (x :: rest) b s → wp (body b x) (fun b' s' => I rest b' s') E s)
    (exit : ∀ b s, I [] b s → Q b s) (start : I xs b s) : wp (xs.foldlM body b) Q E s := by
  induction xs generalizing s b with
  | nil => exact exit b s start
  | cons x rest ih =>
    rw [List.foldlM_cons, wp_bind]
    exact wp_mono (pass x rest b s start) (fun _ _ inv => ih inv) fun _ _ h => h

end Exec
