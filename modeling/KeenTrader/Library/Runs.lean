import Mathlib.Data.List.Basic
import Mathlib.Tactic

/-!
# Runs of a deterministic machine

A machine is a step function on states and labels; a run is a fold of it over a list of
labels. `Always` says that a property holds in every state a run reaches, the first and the
last included, and `Meets` that every step of a run meets a guard in the state it starts from.
An invariant is proved once for one step and lifted to runs by the rules at the end.
-/

namespace Runs

variable {State Label : Type*} (step : State → Label → State)

/-- `P` holds in every state of the run, from the start to the end. -/
def Always (P : State → Prop) : State → List Label → Prop
  | s, [] => P s
  | s, l :: ls => P s ∧ Always P (step s l) ls

/-- Every step of the run meets the guard in the state it is taken from. -/
def Meets (guard : State → Label → Prop) : State → List Label → Prop
  | _, [] => True
  | s, l :: ls => guard s l ∧ Meets guard (step s l) ls

instance decidableAlways {P : State → Prop} [DecidablePred P] :
    ∀ (s : State) (ls : List Label), Decidable (Always step P s ls)
  | s, [] => inferInstanceAs (Decidable (P s))
  | s, l :: ls =>
    have := decidableAlways (P := P) (step s l) ls
    inferInstanceAs (Decidable (P s ∧ Always step P (step s l) ls))

instance decidableMeets {guard : State → Label → Prop} [∀ s l, Decidable (guard s l)] :
    ∀ (s : State) (ls : List Label), Decidable (Meets step guard s ls)
  | _, [] => inferInstanceAs (Decidable True)
  | s, l :: ls =>
    have : Decidable (Meets step guard (step s l) ls) := decidableMeets (step s l) ls
    inferInstanceAs (Decidable (guard s l ∧ Meets step guard (step s l) ls))

variable {step} {P Q : State → Prop} {guard : State → Label → Prop} {s : State} {ls : List Label}

@[simp] theorem always_nil : Always step P s [] ↔ P s := Iff.rfl

@[simp] theorem always_cons {l : Label} :
    Always step P s (l :: ls) ↔ P s ∧ Always step P (step s l) ls := Iff.rfl

@[simp] theorem meets_nil : Meets step guard s [] ↔ True := Iff.rfl

@[simp] theorem meets_cons {l : Label} :
    Meets step guard s (l :: ls) ↔ guard s l ∧ Meets step guard (step s l) ls := Iff.rfl

theorem Always.head (h : Always step P s ls) : P s := by
  cases ls with
  | nil => exact h
  | cons l ls => exact h.1

theorem Always.mono (h : Always step P s ls) (imp : ∀ s, P s → Q s) : Always step Q s ls := by
  induction ls generalizing s with
  | nil => exact imp s h
  | cons l ls ih => exact ⟨imp s h.1, ih h.2⟩

/-- `Always` read without the recursion: `P` after every prefix of the run. -/
theorem always_iff_prefix :
    Always step P s ls ↔ ∀ done, done <+: ls → P (done.foldl step s) := by
  induction ls generalizing s with
  | nil => simp
  | cons l ls ih =>
    rw [always_cons, ih]
    constructor
    · rintro ⟨here, later⟩ done hd
      cases done with
      | nil => exact here
      | cons a done =>
        obtain ⟨rfl, rest⟩ := List.cons_prefix_cons.mp hd
        exact later done rest
    · intro all
      refine ⟨all [] List.nil_prefix, fun done hd => ?_⟩
      exact all (l :: done) (List.cons_prefix_cons.mpr ⟨rfl, hd⟩)

theorem Always.last (h : Always step P s ls) : P (ls.foldl step s) :=
  always_iff_prefix.mp h ls (List.prefix_refl ls)

theorem always_append {ls' : List Label} :
    Always step P s (ls ++ ls') ↔
      Always step P s ls ∧ Always step P (ls.foldl step s) ls' := by
  induction ls generalizing s with
  | nil => simpa using Always.head
  | cons l ls ih => simp [ih, and_assoc]

theorem meets_append {ls' : List Label} :
    Meets step guard s (ls ++ ls') ↔
      Meets step guard s ls ∧ Meets step guard (ls.foldl step s) ls' := by
  induction ls generalizing s with
  | nil => simp
  | cons l ls ih => simp [ih, and_assoc]

/-- Two guards that agree where an invariant holds are met by the same runs. -/
theorem meets_congr {guard' : State → Label → Prop} (preserved : ∀ s l, P s → P (step s l))
    (same : ∀ s l, P s → (guard s l ↔ guard' s l)) (start : P s) :
    Meets step guard s ls ↔ Meets step guard' s ls := by
  induction ls generalizing s with
  | nil => simp
  | cons l ls ih => rw [meets_cons, meets_cons, same s l start, ih (preserved s l start)]

/-- A guard that an invariant implies is met by every run. -/
theorem meets_of_invariant (preserved : ∀ s l, P s → P (step s l))
    (implied : ∀ s l, P s → guard s l) (start : P s) : Meets step guard s ls := by
  induction ls generalizing s with
  | nil => trivial
  | cons l ls ih => exact ⟨implied s l start, ih (preserved s l start)⟩

/-- Invariant rule with a guard: what every guarded step preserves holds along a run whose
steps all meet the guard. -/
theorem always_of_meets (preserved : ∀ s l, P s → guard s l → P (step s l))
    (start : P s) (run : Meets step guard s ls) : Always step P s ls := by
  induction ls generalizing s with
  | nil => exact start
  | cons l ls ih => exact ⟨start, ih (preserved s l start run.1) run.2⟩

/-- Exact guard: when, from a state with `P`, the guard says precisely which steps keep `P`,
then `P` holds along a run exactly if the run meets the guard throughout. -/
theorem always_iff_meets (exact_guard : ∀ s l, P s → (P (step s l) ↔ guard s l)) (start : P s) :
    Always step P s ls ↔ Meets step guard s ls := by
  induction ls generalizing s with
  | nil => simp [start]
  | cons l ls ih =>
    rw [always_cons, meets_cons]
    constructor
    · rintro ⟨-, rest⟩
      exact ⟨(exact_guard s l start).mp rest.head, (ih rest.head).mp rest⟩
    · rintro ⟨hl, rest⟩
      have next := (exact_guard s l start).mpr hl
      exact ⟨start, (ih next).mpr rest⟩

variable (step) in
/-- Invariant rule: what every step preserves holds at the end of every run. -/
theorem foldl_invariant (preserved : ∀ s l, P s → P (step s l)) (start : P s) :
    P (ls.foldl step s) := by
  induction ls generalizing s with
  | nil => exact start
  | cons l ls ih => exact ih (preserved s l start)

/-- Exact guard with an invariant: the guard says which steps keep `P` where `I` holds. -/
theorem always_iff_meets_of_invariant {I : State → Prop} (preserved : ∀ s l, I s → I (step s l))
    (exact_guard : ∀ s l, I s → P s → (P (step s l) ↔ guard s l)) (invariant : I s) (start : P s) :
    Always step P s ls ↔ Meets step guard s ls := by
  have both : Always step (fun s => I s ∧ P s) s ls ↔ Meets step guard s ls :=
    always_iff_meets (fun s l now =>
      (and_iff_right (preserved s l now.1)).trans (exact_guard s l now.1 now.2)) ⟨invariant, start⟩
  rw [← both]
  constructor
  · intro always
    exact always_iff_prefix.mpr fun done pre =>
      ⟨foldl_invariant step preserved invariant, always_iff_prefix.mp always done pre⟩
  · exact fun always => always.mono fun s now => now.2

variable (step) in
/-- A relation between the state before a step and the state after it that is reflexive and
transitive relates the two ends of every run. -/
theorem foldl_relation {R : State → State → Prop} (refl : ∀ s, R s s)
    (trans : ∀ {a b c}, R a b → R b c → R a c) (one : ∀ s l, R s (step s l)) :
    R s (ls.foldl step s) := by
  induction ls generalizing s with
  | nil => exact refl s
  | cons l ls ih => exact trans (one s l) ih

/-- Simulation: where each step of one machine is matched by some steps of another, so is each
run. -/
theorem exists_matching_run {State' Label' : Type*} {step' : State' → Label' → State'}
    {R : State → State' → Prop}
    (one : ∀ s t l, R s t → ∃ ms : List Label', R (step s l) (ms.foldl step' t)) {t : State'}
    (start : R s t) (ls : List Label) :
    ∃ ms : List Label', R (ls.foldl step s) (ms.foldl step' t) := by
  induction ls generalizing s t with
  | nil => exact ⟨[], start⟩
  | cons l ls ih =>
    obtain ⟨ms, next⟩ := one s t l start
    obtain ⟨rest, last⟩ := ih next
    exact ⟨ms ++ rest, by rwa [List.foldl_append]⟩

/-- What the steps of a run add to a trace adds up in every additive measure of it. -/
theorem exists_appended {E M : Type*} [AddMonoid M] {trace : State → List E} {measure : List E → M}
    {amount : Label → M} (nil : measure [] = 0)
    (append : ∀ first second, measure (first ++ second) = measure first + measure second)
    (one : ∀ s, P s → ∀ l ∈ ls, P (step s l) ∧
      ∃ new, trace (step s l) = trace s ++ new ∧ measure new = amount l) (start : P s) :
    ∃ new, trace (ls.foldl step s) = trace s ++ new ∧ measure new = (ls.map amount).sum := by
  induction ls generalizing s with
  | nil => exact ⟨[], by simp, nil⟩
  | cons l ls ih =>
    obtain ⟨kept, first, here, amount_eq⟩ := one s start l List.mem_cons_self
    obtain ⟨rest, later, sum_eq⟩ :=
      ih (fun s start l mem => one s start l (List.mem_cons_of_mem _ mem)) kept
    refine ⟨first ++ rest, ?_, ?_⟩
    · rw [List.foldl_cons, later, here, List.append_assoc]
    · rw [append, amount_eq, sum_eq, List.map_cons, List.sum_cons]

/-- Two sums over the elements agree after every prefix exactly if the summands agree. -/
theorem prefix_sums_iff {α M : Type*} [AddGroup M] {f g : α → M} {xs : List α} :
    (∀ done, done <+: xs → (done.map f).sum = (done.map g).sum) ↔ ∀ x ∈ xs, f x = g x := by
  constructor
  · intro same x mem
    obtain ⟨before, after, rfl⟩ := List.append_of_mem mem
    have start := same before (List.prefix_append _ _)
    have past := same (before ++ [x]) ⟨after, by simp⟩
    simpa [start] using past
  · intro same done pre
    exact congrArg List.sum (List.map_congr_left fun x mem => same x (pre.subset mem))

end Runs
