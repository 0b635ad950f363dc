import Mathlib.Data.List.Sort
import Mathlib.Tactic

/-!
# Reading a store page by page

A finite store of items with distinct keys is read over a range of keys in pages of limited length:
backwards, each page below the least key of the page before it, or forwards, each page from above
the greatest one. A page that is not empty splits the rest of the range into itself and what is
still to be read.
-/

namespace Paging

variable {α K : Type*} [LinearOrder K]

/-- A finite store, which lists its items by their keys. No two items have the same key. -/
structure Store (key : α → K) where
  items : List α
  ascending : items.Pairwise fun a b => key a < key b

namespace Store

variable {key : α → K}

def before (s : Store key) (bound : K) : List α := s.items.filter fun a => key a < bound

/-- The page that ends below a bound, the greatest key first. -/
def latest (s : Store key) (limit : ℕ) (bound : K) : List α := (s.before bound).reverse.take limit

def between (s : Store key) (low high : K) : List α :=
  s.items.filter fun a => low ≤ key a ∧ key a ≤ high

/-- The page that begins at a bound, the least key first. -/
def earliest (s : Store key) (limit : ℕ) (low high : K) : List α :=
  (s.between low high).take limit

variable {s : Store key} {limit : ℕ} {a b : α} {bound low high next : K}

theorem mem_before : a ∈ s.before bound ↔ a ∈ s.items ∧ key a < bound := by simp [before]

theorem mem_between : a ∈ s.between low high ↔ a ∈ s.items ∧ low ≤ key a ∧ key a ≤ high := by
  simp [between]

theorem before_ascending (s : Store key) (bound : K) :
    (s.before bound).Pairwise fun a b => key a < key b := s.ascending.filter _

theorem between_ascending (s : Store key) (low high : K) :
    (s.between low high).Pairwise fun a b => key a < key b := s.ascending.filter _

/-! ## Backwards -/

theorem before_eq_filter (le : low ≤ bound) :
    s.before low = (s.before bound).filter fun a => key a < low := by
  rw [before, before, List.filter_filter]
  refine List.filter_congr fun a _ => ?_
  have := fun below : key a < low => below.trans_le le
  grind

/-- What is below a bound is what is below the least key of its page, and the page. -/
theorem before_eq_append (oldest : (s.latest limit bound).getLast? = some b) :
    s.before bound = s.before (key b) ++ (s.latest limit bound).reverse := by
  have page : (s.latest limit bound).reverse =
      (s.before bound).drop ((s.before bound).length - limit) := by
    rw [latest, List.take_reverse, List.reverse_reverse]
  rw [List.getLast?_eq_head?_reverse, page] at oldest
  have split := List.take_append_drop ((s.before bound).length - limit) (s.before bound)
  obtain ⟨rest, tail⟩ := List.head?_eq_some_iff.mp oldest
  have ascending := s.before_ascending bound
  rw [tail] at split
  rw [← split, List.pairwise_append, List.pairwise_cons] at ascending
  obtain ⟨-, ⟨later, -⟩, earlier⟩ := ascending
  have mem : b ∈ s.before bound := by
    rw [← split]
    simp
  rw [page, tail, before_eq_filter (mem_before.mp mem).2.le]
  nth_rewrite 1 2 [← split]
  rw [List.filter_append, List.filter_eq_self.mpr (by grind), List.filter_eq_nil_iff.mpr (by grind),
    List.append_nil]

theorem latest_eq_nil_iff (some : limit ≠ 0) : s.latest limit bound = [] ↔ s.before bound = [] := by
  simp [latest, some]

/-! ## Forwards -/

theorem between_eq_filter (le : low ≤ next) :
    s.between next high = (s.between low high).filter fun a => next ≤ key a := by
  rw [between, between, List.filter_filter]
  refine List.filter_congr fun a _ => ?_
  have := fun above : next ≤ key a => le.trans above
  grind

/-- What is in a range is its page, and what is in the range behind the greatest key of the page. -/
theorem between_eq_append (newest : (s.earliest limit low high).getLast? = some b)
    (past : key b < next) (gap : ∀ a ∈ s.items, key b < key a → next ≤ key a) :
    s.between low high = s.earliest limit low high ++ s.between next high := by
  have split := List.take_append_drop limit (s.between low high)
  obtain ⟨rest, page⟩ := List.getLast?_eq_some_iff.mp newest
  have ascending := s.between_ascending low high
  unfold earliest at page
  rw [page] at split
  rw [← split, List.pairwise_append, List.pairwise_append] at ascending
  obtain ⟨⟨-, -, earlier⟩, -, later⟩ := ascending
  have mem : b ∈ s.between low high := by
    rw [← split]
    simp
  have within := mem_between.mp mem
  have behind : s.between next high = (s.between low high).drop limit := by
    rw [between_eq_filter (within.2.1.trans past.le)]
    nth_rewrite 1 [← split]
    rw [List.filter_append, List.filter_eq_nil_iff.mpr (by grind),
      List.filter_eq_self.mpr ?_, List.nil_append]
    intro a rear
    have above := later b (by simp) a rear
    have item : a ∈ s.items := (mem_between.mp (List.mem_of_mem_drop rear)).1
    simpa using gap a item above
  rw [behind, earliest, List.take_append_drop]

theorem earliest_of_short (short : (s.earliest limit low high).length < limit) :
    s.earliest limit low high = s.between low high := by
  rw [earliest, List.length_take] at short
  exact List.take_of_length_le (by omega)

/-! ## Sorting -/

/-- Items with distinct keys are sorted in one way. -/
theorem mergeSort_eq {xs ys : List α} (perm : xs.Perm ys)
    (ascending : ys.Pairwise fun a b => key a < key b) :
    xs.mergeSort (fun a b => key a ≤ key b) = ys := by
  have distinct : (ys.map key).Nodup :=
    List.pairwise_map.mpr (ascending.imp fun below => below.ne)
  have sorted : (xs.mergeSort fun a b => key a ≤ key b).Pairwise
      fun a b => decide (key a ≤ key b) = true :=
    List.pairwise_mergeSort (fun _ _ _ => by simpa using le_trans)
      (fun a b => by simpa using le_total (key a) (key b)) xs
  simp only [decide_eq_true_eq] at sorted
  refine List.Perm.eq_of_pairwise ?_ sorted (ascending.imp le_of_lt)
    ((List.mergeSort_perm xs _).trans perm)
  intro a b left right le ge
  refine List.inj_on_of_nodup_map distinct ?_ right (le_antisymm le ge)
  exact perm.subset ((List.mergeSort_perm xs _).subset left)

end Store

end Paging
