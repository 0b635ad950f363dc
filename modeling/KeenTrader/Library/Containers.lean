import Mathlib

/-!
# Keyed containers

`Std.ExtTreeMap` and `Std.ExtTreeSet` are the contents of a keyed container. An ordered
container enumerates its entries by key; an unordered one enumerates them in an order of its
own, which `Enumeration` leaves open. Sums over the entries do not depend on that order, and
follow an insertion or an erasure by one entry. What a history of insertions and erasures leaves
under a key is decided by the latest element with that key.
-/

namespace Containers

open Std

variable {K V : Type*} [Ord K] [TransOrd K]

/-- The order in which a container enumerates a given content: any permutation of it. -/
structure Enumeration (K V : Type*) [Ord K] [TransOrd K] where
  entries : ExtTreeMap K V → List (K × V)
  perm : ∀ m, (entries m).Perm m.toList

namespace Enumeration

/-- Enumeration by increasing key, as an ordered map does it. -/
def sorted : Enumeration K V := ⟨ExtTreeMap.toList, fun _ => .refl _⟩

variable (e : Enumeration K V)

def values (m : ExtTreeMap K V) : List V := (e.entries m).map Prod.snd

theorem values_perm (m : ExtTreeMap K V) : (e.values m).Perm (m.toList.map Prod.snd) :=
  (e.perm m).map Prod.snd

variable [LawfulEqOrd K]

@[simp] theorem mem_entries {m : ExtTreeMap K V} {k : K} {v : V} :
    (k, v) ∈ e.entries m ↔ m[k]? = some v := by
  rw [(e.perm m).mem_iff, ExtTreeMap.mem_toList_iff_getElem?_eq_some]

theorem mem_values {m : ExtTreeMap K V} {v : V} :
    v ∈ e.values m ↔ ∃ k : K, m[k]? = some v := by
  simp [values]

end Enumeration

theorem nodup_toList (m : ExtTreeMap K V) : m.toList.Nodup :=
  List.Nodup.of_map Prod.fst (by
    simpa [ExtTreeMap.map_fst_toList_eq_keys] using ExtTreeMap.nodup_keys (t := m))

variable [LawfulEqOrd K]

/-- Searching the entries finds what is stored. -/
theorem lookup_toList [BEq K] [LawfulBEq K] (m : ExtTreeMap K V) (k : K) :
    m.toList.lookup k = m[k]? := by
  cases stored : m[k]? with
  | none =>
    refine List.lookup_eq_none_iff.mpr fun entry mem => ?_
    have found := ExtTreeMap.mem_toList_iff_getElem?_eq_some.mp mem
    simp only [bne_iff_ne, ne_eq]
    rintro rfl
    simp [stored] at found
  | some v =>
    have mem := ExtTreeMap.mem_toList_iff_getElem?_eq_some.mpr stored
    obtain ⟨before, after, split⟩ := List.append_of_mem mem
    refine List.lookup_eq_some_iff.mpr ⟨before, after, split, fun entry earlier => ?_⟩
    have nodup : (m.toList.map Prod.fst).Nodup := by
      simpa [ExtTreeMap.map_fst_toList_eq_keys] using ExtTreeMap.nodup_keys (t := m)
    rw [split, List.map_append, List.nodup_append] at nodup
    have other := nodup.2.2 entry.1 (List.mem_map_of_mem earlier) k (by simp)
    simpa using Ne.symm other

/-- An insertion replaces whatever was stored under the key by the new entry. -/
theorem toList_insert_perm (m : ExtTreeMap K V) (k : K) (v : V) :
    (m.insert k v).toList.Perm ((k, v) :: (m.erase k).toList) := by
  rw [List.perm_ext_iff_of_nodup (nodup_toList _)]
  · rintro ⟨a, b⟩
    by_cases eq : k = a
    · subst eq; simp [eq_comm]
    · simp [ExtTreeMap.getElem?_insert, ExtTreeMap.getElem?_erase, eq, Ne.symm eq]
  · refine List.nodup_cons.mpr ⟨?_, nodup_toList _⟩
    simp

/-- A stored entry in front of the others. -/
theorem toList_perm_erase {m : ExtTreeMap K V} {k : K} {v : V} (h : m[k]? = some v) :
    m.toList.Perm ((k, v) :: (m.erase k).toList) := by
  have same : m.insert k v = m := by
    apply ExtTreeMap.ext_getElem?
    intro a
    by_cases eq : k = a
    · subst eq; simp [h]
    · simp [ExtTreeMap.getElem?_insert, eq]
  simpa [same] using toList_insert_perm m k v

omit [LawfulEqOrd K] in
@[simp] theorem Enumeration.values_empty (e : Enumeration K V) :
    e.values (∅ : ExtTreeMap K V) = [] := by
  have perm := e.values_perm (∅ : ExtTreeMap K V)
  have none : (∅ : ExtTreeMap K V).toList = [] := ExtTreeMap.toList_eq_nil_iff.mpr rfl
  rw [none] at perm
  exact perm.eq_nil

/-- There is one way to enumerate a single entry. -/
@[simp] theorem Enumeration.values_insert_empty (e : Enumeration K V) (k : K) (v : V) :
    e.values ((∅ : ExtTreeMap K V).insert k v) = [v] := by
  have perm := (e.values_perm _).trans ((toList_insert_perm (∅ : ExtTreeMap K V) k v).map Prod.snd)
  have none : ((∅ : ExtTreeMap K V).erase k).toList = [] := by simp
  rw [none] at perm
  exact List.perm_singleton.mp perm

theorem erase_of_none {m : ExtTreeMap K V} {k : K} (h : m[k]? = none) : m.erase k = m := by
  apply ExtTreeMap.ext_getElem?
  intro a
  by_cases eq : k = a
  · subst eq; simp [h]
  · simp [ExtTreeMap.getElem?_erase, eq]

/-! ## Decidable statements about entries -/

theorem forall_entries_iff {m : ExtTreeMap K V} {P : V → Prop} :
    (∀ (k : K) v, m[k]? = some v → P v) ↔ ∀ x ∈ m.toList, P x.2 := by
  constructor
  · rintro all ⟨k, v⟩ mem
    exact all k v (ExtTreeMap.mem_toList_iff_getElem?_eq_some.mp mem)
  · intro all k v stored
    exact all (k, v) (ExtTreeMap.mem_toList_iff_getElem?_eq_some.mpr stored)

instance decidableForallEntries {m : ExtTreeMap K V} {P : V → Prop} [DecidablePred P] :
    Decidable (∀ (k : K) v, m[k]? = some v → P v) :=
  decidable_of_iff _ forall_entries_iff.symm

instance decidableExistsSome {o : Option V} {P : V → Prop} [DecidablePred P] :
    Decidable (∃ v, o = some v ∧ P v) :=
  match o with
  | none => isFalse (by simp)
  | some v => decidable_of_iff (P v) (by simp)

instance decidableForallSome {o : Option V} {P : V → Prop} [DecidablePred P] :
    Decidable (∀ v, o = some v → P v) :=
  match o with
  | none => isTrue (by simp)
  | some v => decidable_of_iff (P v) (by simp)

/-- An entry after an insert is the new one or was there before. -/
theorem getElem?_insert_cases {m : ExtTreeMap K V} {k k' : K} {v v' : V}
    (stored : (m.insert k v)[k']? = some v') : v' = v ∧ k = k' ∨ m[k']? = some v' := by
  rw [ExtTreeMap.getElem?_insert] at stored
  split at stored
  · rename_i same
    exact Or.inl ⟨(Option.some.inj stored).symm, by simpa using same⟩
  · exact Or.inr stored

/-- Erasing a list of keys, one after the other. -/
theorem getElem?_foldl_erase [DecidableEq K] (ks : List K) (m : ExtTreeMap K V) (k : K) :
    (ks.foldl (fun m k => m.erase k) m)[k]? = if k ∈ ks then none else m[k]? := by
  induction ks generalizing m with
  | nil => simp
  | cons k' ks ih =>
    rw [List.foldl_cons, ih, ExtTreeMap.getElem?_erase]
    grind

/-! ## The latest of a history -/

section Latest

variable {A : Type*} {p q : A → Bool} {xs : List A} {x : A}

/-- The last element of a list that has a property. -/
def latest (p : A → Bool) (xs : List A) : Option A := xs.reverse.find? p

@[simp] theorem latest_nil : latest p [] = none := rfl

theorem latest_append (xs ys : List A) :
    latest p (xs ++ ys) = (latest p ys).or (latest p xs) := by
  simp [latest]

theorem latest_append_singleton :
    latest p (xs ++ [x]) = if p x then some x else latest p xs := by
  rw [latest_append]
  cases holds : p x <;> simp [latest, holds]

theorem mem_of_latest (found : latest p xs = some x) : x ∈ xs ∧ p x = true :=
  ⟨List.mem_reverse.mp (List.mem_of_find?_eq_some found), List.find?_some found⟩

theorem latest_eq_none : latest p xs = none ↔ ∀ x ∈ xs, p x = false := by
  simp [latest]

theorem exists_latest (mem : x ∈ xs) (holds : p x = true) : ∃ y, latest p xs = some y := by
  cases found : latest p xs with
  | none => simp [latest_eq_none.mp found x mem] at holds
  | some y => exact ⟨y, rfl⟩

/-- Properties that agree on the elements have the same latest one. -/
theorem latest_congr (agree : ∀ x ∈ xs, p x = q x) : latest p xs = latest q xs := by
  induction xs using List.reverseRecOn with
  | nil => rfl
  | append_singleton xs x ih =>
    have rest := ih fun y mem => agree y (by simp [mem])
    rw [latest_append_singleton, latest_append_singleton, agree x (by simp), rest]

theorem latest_map {B : Type*} (f : B → A) (ys : List B) :
    latest p (ys.map f) = (latest (fun y => p (f y)) ys).map f := by
  simp only [latest, ← List.map_reverse, List.find?_map]
  rfl

/-- Store an element under its key, or take the entry away. -/
def put (key : A → K) (keep : A → Bool) (m : ExtTreeMap K A) (x : A) : ExtTreeMap K A :=
  if keep x then m.insert (key x) x else m.erase (key x)

/-- After a history the entry of a key is the latest element with that key, if it was kept. -/
theorem getElem?_foldl_put [DecidableEq K] (key : A → K) (keep : A → Bool) (m : ExtTreeMap K A)
    (k : K) :
    (xs.foldl (put key keep) m)[k]? =
      match latest (fun x => key x = k) xs with
      | some x => if keep x then some x else none
      | none => m[k]? := by
  induction xs using List.reverseRecOn with
  | nil => rfl
  | append_singleton xs x ih =>
    rw [List.foldl_append, List.foldl_cons, List.foldl_nil, latest_append_singleton]
    by_cases here : key x = k
    · subst here
      cases kept : keep x <;> simp [put, kept]
    · cases kept : keep x <;>
        simp [put, kept, here, ExtTreeMap.getElem?_insert, ExtTreeMap.getElem?_erase, ih]

/-- A machine that stores some part of each event under its key: after a history the entry of a
key is the latest part with that key. -/
theorem getElem?_store_foldl [DecidableEq K] {S E : Type*} {step : S → E → S} (part : E → Option A)
    {store : S → ExtTreeMap K A} {key : A → K}
    (one : ∀ s e, store (step s e) = (part e).toList.foldl (put key fun _ => true) (store s))
    (es : List E) (s : S) (k : K) :
    (store (es.foldl step s))[k]? =
      (latest (fun x => key x = k) (es.filterMap part)).or (store s)[k]? := by
  have stored :
      store (es.foldl step s) = (es.filterMap part).foldl (put key fun _ => true) (store s) := by
    induction es generalizing s with
    | nil => rfl
    | cons e es ih =>
      rw [List.foldl_cons, ih, one]
      cases found : part e <;> simp [found]
  rw [stored, getElem?_foldl_put]
  cases latest (fun x => key x = k) (es.filterMap part) <;> simp

end Latest

/-! ## Maps of sets -/

section Groups

variable {A : Type*} [Ord A] [TransOrd A] [LawfulEqOrd A] {m : ExtTreeMap K (ExtTreeSet A)}
  {k other : K} {a b : A}

/-- Adding an element to the set of one key. -/
theorem mem_group_insert :
    a ∈ (m.insert k ((m.getD k ∅).insert b)).getD other ∅ ↔
      a ∈ m.getD other ∅ ∨ (k = other ∧ b = a) := by
  by_cases same : k = other
  · subst same
    simp [or_comm]
  · simp [ExtTreeMap.getD_insert, same]

/-- Taking an element out of the set of one key. -/
theorem mem_group_erase :
    a ∈ (m.insert k ((m.getD k ∅).erase b)).getD other ∅ ↔
      a ∈ m.getD other ∅ ∧ ¬(k = other ∧ b = a) := by
  by_cases same : k = other
  · subst same
    simp [and_comm]
  · simp [ExtTreeMap.getD_insert, same]

omit [LawfulEqOrd A] in
/-- Dropping the set of one key. -/
theorem mem_group_forget :
    a ∈ (m.erase k).getD other ∅ ↔ a ∈ m.getD other ∅ ∧ k ≠ other := by
  by_cases same : k = other
  · subst same
    simp
  · simp [ExtTreeMap.getD_erase, same]

end Groups

/-! ## Sums over the values -/

variable {M : Type*} [AddCommMonoid M]

/-- The sum of `f` over the stored values. -/
def total (f : V → M) (m : ExtTreeMap K V) : M := (m.toList.map (fun x => f x.2)).sum

omit [LawfulEqOrd K] in
theorem Enumeration.sum_values (e : Enumeration K V) (f : V → M) (m : ExtTreeMap K V) :
    ((e.values m).map f).sum = total f m := by
  have h := ((e.values_perm m).map f).sum_eq
  simpa [total, List.map_map, Function.comp_def] using h

omit [LawfulEqOrd K] in
@[simp] theorem total_empty (f : V → M) : total f (∅ : ExtTreeMap K V) = 0 := by
  have h : (∅ : ExtTreeMap K V).toList = [] := ExtTreeMap.toList_eq_nil_iff.mpr rfl
  simp [total, h]

theorem total_insert (f : V → M) (m : ExtTreeMap K V) (k : K) (v : V) :
    total f (m.insert k v) = f v + total f (m.erase k) := by
  have h := ((toList_insert_perm m k v).map (fun x => f x.2)).sum_eq
  simpa [total] using h

theorem total_erase_of_some (f : V → M) {m : ExtTreeMap K V} {k : K} {v : V}
    (h : m[k]? = some v) : total f m = f v + total f (m.erase k) := by
  have h := ((toList_perm_erase h).map (fun x => f x.2)).sum_eq
  simpa [total] using h

omit [LawfulEqOrd K] in
theorem total_filterMap {W : Type*} (f : W → M) (g : V → Option W) (m : ExtTreeMap K V) :
    total f (m.filterMap fun _ v => g v) = total (fun v => (g v).elim 0 f) m := by
  unfold total
  rw [ExtTreeMap.toList_filterMap]
  induction m.toList with
  | nil => rfl
  | cons x xs ih =>
    cases h : g x.2 with
    | none => simpa [h] using ih
    | some w => simpa [h] using congrArg (f w + ·) ih

theorem total_le_total {N : Type*} [AddCommMonoid N] [PartialOrder N] [IsOrderedAddMonoid N]
    {f g : V → N} {m : ExtTreeMap K V} (h : ∀ (k : K) v, m[k]? = some v → f v ≤ g v) :
    total f m ≤ total g m := by
  apply List.sum_le_sum
  rintro ⟨k, v⟩ mem
  exact h k v (ExtTreeMap.mem_toList_iff_getElem?_eq_some.mp mem)

end Containers
