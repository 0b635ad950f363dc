import Mathlib

/-!
# Runs of a partial machine

A step of a partial machine is only possible in some states. Some of its labels are internal: what
the machine does by itself, while the others are up to its surroundings. Where a measure falls with
every internal step, the machine comes to rest if it is left to itself.
-/

namespace Transitions

variable {State Label : Type*} (step : State → Label → Option State)

def run : State → List Label → Option State
  | s, [] => some s
  | s, l :: ls => (step s l).bind (run · ls)

/-- No internal step is possible. -/
def AtRest (internal : Label → Prop) (s : State) : Prop := ∀ l, internal l → step s l = none

variable {step} {P : State → Prop} {internal : Label → Prop} {measure : State → ℕ} {s t : State}
  {ls : List Label} {l : Label}

@[simp] theorem run_nil : run step s [] = some s := rfl

theorem run_cons : run step s (l :: ls) = some t ↔
    ∃ next, step s l = some next ∧ run step next ls = some t := by
  rw [run, Option.bind_eq_some_iff]

theorem run_append_eq (s : State) (ls ls' : List Label) :
    run step s (ls ++ ls') = (run step s ls).bind (run step · ls') := by
  induction ls generalizing s with
  | nil => rfl
  | cons l ls ih =>
    simp only [List.cons_append, run]
    cases step s l with
    | none => rfl
    | some next => exact ih next

theorem run_append {ls' : List Label} {u : State} (first : run step s ls = some t)
    (second : run step t ls' = some u) : run step s (ls ++ ls') = some u := by
  rw [run_append_eq, first]
  exact second

/-- What every possible step preserves holds at the end of every run. -/
theorem run_invariant (preserved : ∀ s l t, P s → step s l = some t → P t) (start : P s)
    (whole : run step s ls = some t) : P t := by
  induction ls generalizing s with
  | nil =>
    obtain rfl := Option.some.inj whole
    exact start
  | cons l ls ih =>
    obtain ⟨next, here, later⟩ := run_cons.mp whole
    exact ih (preserved s l next start here) later

/-- A run of internal steps is not longer than the measure that it uses up. -/
theorem length_add_measure_le (preserved : ∀ s l t, P s → step s l = some t → P t)
    (falls : ∀ s l t, P s → internal l → step s l = some t → measure t < measure s) (start : P s)
    (within : ∀ l ∈ ls, internal l) (whole : run step s ls = some t) :
    ls.length + measure t ≤ measure s := by
  induction ls generalizing s with
  | nil =>
    obtain rfl := Option.some.inj whole
    simp
  | cons l ls ih =>
    obtain ⟨next, here, later⟩ := run_cons.mp whole
    have rest := ih (preserved s l next start here) (fun l mem => within l (by simp [mem])) later
    have first := falls s l next start (within l (by simp)) here
    rw [List.length_cons]
    omega

/-- Left to itself, the machine comes to rest. -/
theorem exists_rest (preserved : ∀ s l t, P s → step s l = some t → P t)
    (falls : ∀ s l t, P s → internal l → step s l = some t → measure t < measure s) (start : P s) :
    ∃ ls t, (∀ l ∈ ls, internal l) ∧ run step s ls = some t ∧ AtRest step internal t := by
  induction bound : measure s using Nat.strong_induction_on generalizing s with
  | _ n ih =>
    by_cases rest : AtRest step internal s
    · exact ⟨[], s, by simp, rfl, rest⟩
    · unfold AtRest at rest
      push Not at rest
      obtain ⟨l, within, possible⟩ := rest
      obtain ⟨next, here⟩ := Option.ne_none_iff_exists'.mp possible
      have less := falls s l next start within here
      obtain ⟨ls, t, all, whole, rest⟩ := ih _ (bound ▸ less) (preserved s l next start here) rfl
      refine ⟨l :: ls, t, ?_, run_cons.mpr ⟨next, here, whole⟩, rest⟩
      simpa using ⟨within, all⟩

/-! ## Parties -/

/-- What the parties of a machine contribute in sum, when one of them changes. -/
theorem sum_map_set {A M : Type*} [AddCommMonoid M] (f : A → M) {xs : List A} {i : ℕ} {a : A}
    (here : xs[i]? = some a) (b : A) :
    ((xs.set i b).map f).sum + f a = (xs.map f).sum + f b := by
  induction xs generalizing i with
  | nil => simp at here
  | cons x xs ih =>
    cases i with
    | zero =>
      obtain rfl : x = a := by simpa using here
      simp only [List.set_cons_zero, List.map_cons, List.sum_cons]
      abel
    | succ i =>
      have rest := ih (i := i) (by simpa using here)
      simp only [List.set_cons_succ, List.map_cons, List.sum_cons]
      rw [add_assoc, rest, add_assoc]

end Transitions
