import Mathlib.Data.List.Basic
import Mathlib.Tactic

/-!
# Slots

A fixed number of slots that lists are written into, each element into the slot at its position.
A list that is shorter leaves the slots behind it as they are; what is longer is cut off. So what
a slot holds after many lists is the last element that came at its position.
-/

namespace Slots

variable {α : Type*} {n : ℕ}

def overwrite (slots : Fin n → α) (elements : List α) : Fin n → α :=
  fun k => elements[(k : ℕ)]?.getD (slots k)

/-- The elements, and a filling in the slots behind them. -/
def pad (fill : α) (elements : List α) : Fin n → α := overwrite (fun _ => fill) elements

/-- The last element that came at a position. -/
def latest (k : ℕ) (history : List (List α)) : Option α :=
  (history.filterMap (·[k]?)).getLast?

variable {slots : Fin n → α} {elements : List α} {history : List (List α)} {fill x : α} {k : Fin n}

theorem overwrite_of_length_le (short : elements.length ≤ k) :
    overwrite slots elements k = slots k := by
  simp [overwrite, List.getElem?_eq_none short]

theorem overwrite_of_lt (long : (k : ℕ) < elements.length) :
    overwrite slots elements k = elements[(k : ℕ)] := by
  simp [overwrite, long]

/-- The slots show the elements alone exactly where nothing is left behind them. -/
theorem overwrite_eq_pad_iff :
    overwrite slots elements = pad fill elements ↔
      ∀ k : Fin n, elements.length ≤ k → slots k = fill := by
  constructor
  · intro same k short
    have here := congrFun same k
    rwa [pad, overwrite_of_length_le short, overwrite_of_length_le short] at here
  · intro clear
    funext k
    rcases lt_or_ge (k : ℕ) elements.length with long | short
    · rw [pad, overwrite_of_lt long, overwrite_of_lt long]
    · rw [pad, overwrite_of_length_le short, overwrite_of_length_le short, clear k short]

theorem latest_concat (k : ℕ) (history : List (List α)) (elements : List α) :
    latest k (history ++ [elements]) = elements[k]?.or (latest k history) := by
  unfold latest
  cases at_k : elements[k]? with
  | none => simp [List.filterMap_append, at_k]
  | some x => simp [List.filterMap_append, at_k]

/-- One more list, seen from what the slots hold after those before it. -/
theorem getD_latest_concat (history : List (List α)) (elements : List α) :
    (fun k : Fin n => (latest k (history ++ [elements])).getD fill) =
      overwrite (fun k => (latest k history).getD fill) elements := by
  funext k
  rw [latest_concat, overwrite]
  cases elements[(k : ℕ)]? <;> rfl

theorem latest_mem {k : ℕ} (found : latest k history = some x) :
    ∃ elements ∈ history, x ∈ elements := by
  obtain ⟨elements, here, at_k⟩ := List.mem_filterMap.mp (List.mem_of_getLast? found)
  exact ⟨elements, here, List.mem_of_getElem? at_k⟩

/-- Where something came at a position, something came at every position in front of it. -/
theorem latest_isSome_of_le {j k : ℕ} (le : j ≤ k) (found : (latest k history).isSome) :
    (latest j history).isSome := by
  obtain ⟨x, at_k⟩ := Option.isSome_iff_exists.mp found
  obtain ⟨elements, here, at_k⟩ := List.mem_filterMap.mp (List.mem_of_getLast? at_k)
  have long : k < elements.length := (List.getElem?_eq_some_iff.mp at_k).1
  have kept : elements.get ⟨j, by omega⟩ ∈ history.filterMap (·[j]?) :=
    List.mem_filterMap.mpr ⟨elements, here, List.getElem?_eq_getElem _⟩
  unfold latest
  cases last : (history.filterMap (·[j]?)).getLast? with
  | none => simp [List.getLast?_eq_none_iff.mp last] at kept
  | some y => rfl

end Slots
