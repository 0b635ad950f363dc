import Mathlib

/-!
# Passes over a live map

A loop over an ordered map whose body changes the map under it. The loop keeps the key that it is
at, and steps to the first entry behind it of the map that it then finds. What is inserted or erased
at or before the key is not noticed; what lies behind it is. So a key is visited exactly if it has
an entry when its turn comes.
-/

namespace LivePasses

open Std (ExtTreeMap TransOrd LawfulEqOrd)

variable {K V S : Type*} [LinearOrder K]

/-- A key behind the one that the loop is at. -/
abbrev Ahead (after : Option K) (k : K) : Prop := after.all (· < k) = true

theorem ahead_trans {after : Option K} {k k' : K} (ahead : Ahead after k) (less : k < k') :
    Ahead after k' := by
  cases after with
  | none => rfl
  | some a => exact decide_eq_true ((of_decide_eq_true ahead).trans less)

@[simp] theorem ahead_some {k k' : K} : Ahead (some k) k' ↔ k < k' := by simp [Ahead]

/-- The keys of a finite set that are ahead. -/
def remaining (old : Finset K) (after : Option K) : ℕ := (old.filter (Ahead after)).card

theorem remaining_le (old : Finset K) {after : Option K} {k : K} (ahead : Ahead after k) :
    remaining old (some k) ≤ remaining old after :=
  Finset.card_le_card fun _ mem => by
    simp only [Finset.mem_filter] at mem ⊢
    exact ⟨mem.1, ahead_trans ahead (ahead_some.mp mem.2)⟩

theorem remaining_lt {old : Finset K} {after : Option K} {k : K} (ahead : Ahead after k)
    (mem : k ∈ old) :
    remaining old (some k) < remaining old after := by
  refine Finset.card_lt_card ⟨fun _ later => ?_, fun all => ?_⟩
  · simp only [Finset.mem_filter] at later ⊢
    exact ⟨later.1, ahead_trans ahead (ahead_some.mp later.2)⟩
  · have same := all (Finset.mem_filter.mpr ⟨mem, ahead⟩)
    exact lt_irrefl _ (ahead_some.mp (Finset.mem_filter.mp same).2)

variable [TransOrd K]

/-- The first entry behind a key. -/
def nextEntry (m : ExtTreeMap K V) (after : Option K) : Option (K × V) :=
  m.toList.find? fun x => after.all (· < x.1)

variable [LawfulEqOrd K]

section Next
variable {m : ExtTreeMap K V} {after : Option K} {k : K} {v : V}

theorem nextEntry_eq_none (last : nextEntry m after = none) (ahead : Ahead after k) :
    m[k]? = none := by
  by_contra stored
  obtain ⟨v, stored⟩ := Option.ne_none_iff_exists'.mp stored
  have mem := ExtTreeMap.mem_toList_iff_getElem?_eq_some.mpr stored
  exact List.find?_eq_none.mp last (k, v) mem ahead

/-- The next entry is stored, it is ahead, and no key before it is. -/
theorem nextEntry_eq_some (next : nextEntry m after = some (k, v)) :
    m[k]? = some v ∧ Ahead after k ∧ ∀ k', Ahead after k' → k' < k → m[k']? = none := by
  refine ⟨ExtTreeMap.mem_toList_iff_getElem?_eq_some.mp (List.mem_of_find?_eq_some next),
    by simpa using List.find?_some next, fun k' ahead less => ?_⟩
  obtain ⟨-, before, rest, split, passed⟩ := List.find?_eq_some_iff_append.mp next
  by_contra stored
  obtain ⟨v', stored⟩ := Option.ne_none_iff_exists'.mp stored
  have mem := ExtTreeMap.mem_toList_iff_getElem?_eq_some.mpr stored
  have ordered := m.ordered_keys_toList
  rw [split] at mem ordered
  rcases List.mem_append.mp mem with early | late
  · simpa [ahead] using passed (k', v') early
  · rcases List.mem_cons.mp late with same | later
    · obtain ⟨rfl, rfl⟩ := Prod.mk.inj same
      exact lt_irrefl _ less
    · have behind := (List.pairwise_cons.mp (List.pairwise_append.mp ordered).2.1).1 _ later
      exact less.not_gt (compare_lt_iff_lt.mp behind)

end Next

/-- The map that a state holds, and the body of the loop, which may throw. -/
structure Loop (K V S : Type*) [LinearOrder K] where
  book : S → ExtTreeMap K V
  visit : S → K → V → Option S

namespace Loop

/-- One entry that the loop is at, with the state in which it comes to it. -/
structure Visit (K V S : Type*) where
  state : S
  key : K
  value : V

variable (l : Loop K V S)

/-- The state in which the loop ends, and whether it has come to the end. -/
def pass : ℕ → Option K → S → S × Bool
  | 0, _, s => (s, false)
  | n + 1, after, s =>
    match nextEntry (l.book s) after with
    | none => (s, true)
    | some (k, v) =>
      match l.visit s k v with
      | none => (s, false)
      | some s => pass n (some k) s

def visits : ℕ → Option K → S → List (Visit K V S)
  | 0, _, _ => []
  | n + 1, after, s =>
    match nextEntry (l.book s) after with
    | none => []
    | some (k, v) =>
      ⟨s, k, v⟩ ::
        match l.visit s k v with
        | none => []
        | some s => visits n (some k) s

/-- The state in which the loop comes to the place of a key, where an entry may be or not. -/
def turn (k : K) : ℕ → Option K → S → Option S
  | 0, _, _ => none
  | n + 1, after, s =>
    match nextEntry (l.book s) after with
    | none => some s
    | some (k', v) =>
      if k' < k then
        match l.visit s k' v with
        | none => none
        | some s => turn k n (some k') s
      else some s

section Rules
variable {l : Loop K V S} {n n' : ℕ} {after : Option K} {s t : S} {k : K} {v : V}

/-- The loop goes forward. -/
theorem visits_ahead (mem : ⟨t, k, v⟩ ∈ l.visits n after s) : Ahead after k := by
  induction n generalizing after s with
  | zero => simp [visits] at mem
  | succ n ih =>
    unfold visits at mem
    split at mem
    · simp at mem
    · rename_i k' v' next
      have ahead := (nextEntry_eq_some next).2.1
      rcases List.mem_cons.mp mem with here | rest
      · obtain ⟨-, rfl, -⟩ := (Visit.mk.injEq ..).mp here
        exact ahead
      · split at rest
        · simp at rest
        · exact ahead_trans ahead (ahead_some.mp (ih rest))

/-- No key is visited twice. -/
theorem visits_increasing (l : Loop K V S) (n : ℕ) (after : Option K) (s : S) :
    (l.visits n after s).Pairwise (·.key < ·.key) := by
  induction n generalizing after s with
  | zero => exact .nil
  | succ n ih =>
    unfold visits
    split
    · exact .nil
    · refine List.pairwise_cons.mpr ⟨fun x mem => ?_, ?_⟩
      · split at mem
        · simp at mem
        · exact ahead_some.mp (visits_ahead mem)
      · split
        · exact .nil
        · exact ih _ _

/-- Where the loop comes to its end, it visits the keys that have an entry when their turn comes. -/
theorem mem_visits_iff (returns : (l.pass n after s).2 = true) (ahead : Ahead after k) :
    ⟨t, k, v⟩ ∈ l.visits n after s ↔ l.turn k n after s = some t ∧ (l.book t)[k]? = some v := by
  induction n generalizing after s with
  | zero => simp [pass] at returns
  | succ n ih =>
    unfold pass at returns
    unfold visits turn
    split at returns
    · rename_i last
      have absent := nextEntry_eq_none last ahead
      simp only [List.not_mem_nil, Option.some.injEq, false_iff, not_and]
      rintro rfl
      simp [absent]
    · rename_i k' v' next
      obtain ⟨stored, -, before⟩ := nextEntry_eq_some next
      split at returns
      · simp at returns
      · rename_i u visited
        simp only [List.mem_cons, Visit.mk.injEq]
        rcases lt_trichotomy k' k with behind | rfl | passed
        · rw [if_pos behind, ← ih returns (ahead_some.mpr behind)]
          exact or_iff_right fun same => behind.ne same.2.1.symm
        · have once : ⟨t, k', v⟩ ∉ l.visits n (some k') u := fun mem =>
            lt_irrefl _ (ahead_some.mp (visits_ahead mem))
          rw [if_neg (lt_irrefl _), or_iff_left once]
          constructor
          · rintro ⟨rfl, -, rfl⟩
            exact ⟨rfl, stored⟩
          · rintro ⟨same, found⟩
            obtain rfl := Option.some.inj same
            exact ⟨rfl, rfl, Option.some.inj (found.symm.trans stored)⟩
        · have absent := before k ahead passed
          have never : ⟨t, k, v⟩ ∉ l.visits n (some k') u := fun mem =>
            passed.not_gt (ahead_some.mp (visits_ahead mem))
          rw [if_neg passed.not_gt, or_iff_left never]
          constructor
          · rintro ⟨-, rfl, -⟩
            exact absurd passed (lt_irrefl _)
          · rintro ⟨same, found⟩
            obtain rfl := Option.some.inj same
            simp [absent] at found

omit [LawfulEqOrd K] in
/-- Where the loop comes to its end, the turn of every key comes. -/
theorem exists_turn (returns : (l.pass n after s).2 = true) (k : K) :
    ∃ t, l.turn k n after s = some t := by
  induction n generalizing after s with
  | zero => simp [pass] at returns
  | succ n ih =>
    unfold pass at returns
    unfold turn
    split at returns
    · exact ⟨s, rfl⟩
    · rename_i k' v' next
      split at returns
      · simp at returns
      · rename_i u visited
        by_cases behind : k' < k
        · obtain ⟨t, comes⟩ := ih returns
          exact ⟨t, by simp only [if_pos behind]; exact comes⟩
        · exact ⟨s, by simp only [if_neg behind]⟩

omit [LawfulEqOrd K] in
/-- A turn that comes at all comes before the end of the loop. -/
theorem turn_of_returns (returns : (l.pass n after s).2 = true)
    (comes : l.turn k n' after s = some t) : l.turn k n after s = some t := by
  induction n generalizing n' after s with
  | zero => simp [pass] at returns
  | succ n ih =>
    cases n' with
    | zero => simp [turn] at comes
    | succ n' =>
      unfold pass at returns
      unfold turn at comes ⊢
      split at returns
      · rename_i last
        simpa [last] using comes
      · rename_i k' v' next
        simp only [next] at comes ⊢
        split at returns
        · simp at returns
        · rename_i u visited
          simp only [visited] at comes ⊢
          by_cases behind : k' < k
          · rw [if_pos behind] at comes ⊢
            exact ih returns comes
          · rw [if_neg behind] at comes ⊢
            exact comes

/-- What the visits before its turn keep holds when the turn of a key comes. -/
theorem turn_invariant {P : S → Prop} (preserved : ∀ s k' v t, P s → (l.book s)[k']? = some v →
      k' < k → l.visit s k' v = some t → P t) (start : P s) (comes : l.turn k n after s = some t) :
    P t := by
  induction n generalizing after s with
  | zero => simp [turn] at comes
  | succ n ih =>
    unfold turn at comes
    split at comes
    · exact Option.some.inj comes ▸ start
    · rename_i k' v' next
      have stored := (nextEntry_eq_some next).1
      split at comes
      · rename_i behind
        split at comes
        · simp at comes
        · rename_i u visited
          exact ih (preserved s k' v' u start stored behind visited) comes
      · exact Option.some.inj comes ▸ start

/-- What all visits keep holds in every visit. -/
theorem visits_invariant {P : S → Prop} (preserved : ∀ s k v t, P s → (l.book s)[k]? = some v →
      l.visit s k v = some t → P t) (start : P s) {x : Visit K V S} (mem : x ∈ l.visits n after s) :
    P x.state ∧ (l.book x.state)[x.key]? = some x.value := by
  induction n generalizing after s with
  | zero => simp [visits] at mem
  | succ n ih =>
    unfold visits at mem
    split at mem
    · simp at mem
    · rename_i k v next
      have stored := (nextEntry_eq_some next).1
      rcases List.mem_cons.mp mem with rfl | rest
      · exact ⟨start, stored⟩
      · split at rest
        · simp at rest
        · rename_i u visited
          exact ih (preserved s k v u start stored visited) rest

/-- The loop comes to its end if no visit throws, and all but the visits of finitely many keys leave
the state as it is. The measure is the number of those keys that are ahead, and then the number of
entries that are. -/
theorem exists_returns {P : Option K → S → Prop} (old : Finset K)
    (visited : ∀ after s k v, P after s → nextEntry (l.book s) after = some (k, v) →
      ∃ t, l.visit s k v = some t ∧ P (some k) t ∧ (k ∈ old ∨ t = s)) (start : P after s) :
    ∃ n, (l.pass n after s).2 = true := by
  generalize many : remaining old after = a
  induction a using Nat.strong_induction_on generalizing after s with
  | _ a outer =>
  generalize entries : remaining (l.book s).keys.toFinset after = b
  induction b using Nat.strong_induction_on generalizing after s with
  | _ b inner =>
  cases next : nextEntry (l.book s) after with
  | none => exact ⟨1, by simp [pass, next]⟩
  | some entry =>
    obtain ⟨k, v⟩ := entry
    obtain ⟨stored, ahead, -⟩ := nextEntry_eq_some next
    obtain ⟨t, visit, keeps, known | rfl⟩ := visited after s k v start next
    · obtain ⟨n, returns⟩ := outer _ (many ▸ remaining_lt ahead known) keeps rfl
      exact ⟨n + 1, by simpa [pass, next, visit] using returns⟩
    · have ends : ∃ n, (l.pass n (some k) t).2 = true := by
        rcases (remaining_le old ahead).lt_or_eq with fewer | same
        · exact outer _ (many ▸ fewer) keeps rfl
        · refine inner _ (entries ▸ remaining_lt ahead ?_) keeps (same.trans many) rfl
          rw [List.mem_toFinset, ExtTreeMap.mem_keys, ExtTreeMap.mem_iff_isSome_getElem?, stored]
          rfl
      obtain ⟨n, returns⟩ := ends
      exact ⟨n + 1, by simpa [pass, next, visit] using returns⟩

end Rules

end Loop

end LivePasses
