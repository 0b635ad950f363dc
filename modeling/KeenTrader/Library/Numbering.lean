import Mathlib.Data.List.Basic
import Mathlib.Tactic

/-!
# Numbered texts

A text is made of a heading, which tells the sessions apart, and of a number, with no separator
between them. Headings of one length can be cut off again, so both parts can be read from the text.
A machine that raises a counter whenever it hands out a number hands out none of them twice; over
several sessions that have different headings, no text is made twice.
-/

namespace Numbering

variable {Session Item State Label : Type*}

/-- How a session and a number are written. -/
structure Scheme (Session : Type*) where
  heading : Session → String
  number : ℕ → String
  heading_injective : Function.Injective heading
  number_injective : Function.Injective number

namespace Scheme

def text (scheme : Scheme Session) (session : Session) (n : ℕ) : String :=
  scheme.heading session ++ scheme.number n

variable (scheme : Scheme Session)

/-- Both parts are read from the text, whatever the length of the second. -/
theorem text_inj {a b : Session} {m n : ℕ}
    (equal : (scheme.heading a).length = (scheme.heading b).length) :
    scheme.text a m = scheme.text b n ↔ a = b ∧ m = n := by
  constructor
  · intro same
    have lists : (scheme.heading a).toList ++ (scheme.number m).toList =
        (scheme.heading b).toList ++ (scheme.number n).toList := by
      rw [← String.toList_append, ← String.toList_append]
      exact congrArg String.toList same
    rw [← String.length_toList, ← String.length_toList] at equal
    obtain ⟨headings, numbers⟩ := List.append_inj lists equal
    exact ⟨scheme.heading_injective (String.toList_inj.mp headings),
      scheme.number_injective (String.toList_inj.mp numbers)⟩
  · rintro ⟨rfl, rfl⟩
    rfl

/-- No text is made twice: neither in one session, where the numbers differ, nor in two sessions,
where the headings do. -/
theorem nodup_texts {Run : Type*} {runs : List Run} {items : Run → List Item}
    {session : Item → Session} {number : Item → ℕ} {text : Item → String}
    (written : ∀ x ∈ runs, ∀ i ∈ items x, text i = scheme.text (session i) (number i))
    (equal : ∀ x ∈ runs, ∀ i ∈ items x, ∀ y ∈ runs, ∀ j ∈ items y,
      (scheme.heading (session i)).length = (scheme.heading (session j)).length)
    (once : ∀ x ∈ runs, (items x).Pairwise fun i j => number i ≠ number j)
    (apart : runs.Pairwise fun x y => ∀ i ∈ items x, ∀ j ∈ items y, session i ≠ session j) :
    ((runs.flatMap items).map text).Nodup := by
  have differ : (runs.flatMap items).Pairwise fun i j =>
      session i ≠ session j ∨ number i ≠ number j := by
    rw [List.pairwise_flatMap]
    constructor
    · exact fun x mem => (once x mem).imp .inr
    · exact apart.imp fun sessions i mem j mem' => .inl (sessions i mem j mem')
  refine List.pairwise_map.mpr (differ.imp_of_mem fun {i j} mem mem' differ same => ?_)
  obtain ⟨x, of_x, in_x⟩ := List.mem_flatMap.mp mem
  obtain ⟨y, of_y, in_y⟩ := List.mem_flatMap.mp mem'
  rw [written x of_x i in_x, written y of_y j in_y,
    scheme.text_inj (equal x of_x i in_x y of_y j in_y)] at same
  exact differ.elim (· same.1) (· same.2)

end Scheme

/-! ## Machines that hand out numbers -/

section Machine
variable (step : State → Label → State) (take : State → Label → Option Item)

/-- What the steps of a run take, the first one first. -/
def taken : State → List Label → List Item
  | _, [] => []
  | s, l :: ls => (take s l).toList ++ taken (step s l) ls

variable {step take} {s : State} {ls : List Label}

/-- What holds of each item that is taken where an invariant holds. -/
theorem forall_taken {P : State → Prop} {Q : Item → Prop}
    (preserved : ∀ s, ∀ l ∈ ls, P s → P (step s l))
    (one : ∀ s, ∀ l ∈ ls, P s → ∀ i ∈ take s l, Q i) (start : P s) :
    ∀ i ∈ taken step take s ls, Q i := by
  induction ls generalizing s with
  | nil => simp [taken]
  | cons l ls ih =>
    intro i mem
    rcases List.mem_append.mp mem with now | later
    · exact one s l List.mem_cons_self start i (Option.mem_toList.mp now)
    · exact ih (fun s l mem => preserved s l (List.mem_cons_of_mem _ mem))
        (fun s l mem => one s l (List.mem_cons_of_mem _ mem))
        (preserved s l List.mem_cons_self start) i later

variable (step take) (count : State → ℕ) (number : Item → ℕ)

/-- A step takes nothing and leaves the counter, or what it takes has the number that it raises the
counter to. -/
def Counts : Prop :=
  ∀ s l, (take s l = none ∧ count (step s l) = count s) ∨
    ∃ i, take s l = some i ∧ number i = count s + 1 ∧ count (step s l) = count s + 1

variable {step take count number} (counts : Counts step take count number)

include counts

/-- The numbers of a run follow each other. -/
theorem Counts.numbers (s : State) (ls : List Label) :
    (taken step take s ls).map number =
      List.range' (count s + 1) (taken step take s ls).length := by
  induction ls generalizing s with
  | nil => rfl
  | cons l ls ih =>
    have rest := ih (step s l)
    rw [taken]
    rcases counts s l with ⟨idle, same⟩ | ⟨i, took, next, raised⟩
    · rw [same] at rest
      rw [idle]
      exact rest
    · rw [raised] at rest
      rw [took, Option.toList_some, List.singleton_append, List.map_cons, List.length_cons,
        List.range'_succ, rest, next]

theorem Counts.pairwise (s : State) (ls : List Label) :
    (taken step take s ls).Pairwise fun i j => number i ≠ number j := by
  have nodup : ((taken step take s ls).map number).Nodup := by
    rw [counts.numbers]
    exact List.nodup_range'
  exact List.pairwise_map.mp nodup

end Machine

end Numbering
