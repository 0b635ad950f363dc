import Mathlib

/-!
# Segments of a stream

`List.splitBy` cuts a list between two neighbours that are not related. Here the list is a stream
that grows at its end: a new element joins the last segment or begins the next one, so that all
segments but the last are closed. Where neighbours are related by having one key, the keys of the
segments increase exactly if the elements come in the order of their keys.
-/

namespace Segments

variable {A : Type*} {r : A → A → Bool} {xs seg : List A} {segs : List (List A)} {x : A}

/-- An element that is related to the last one joins its segment. -/
theorem splitBy_join (cut : xs.splitBy r = segs ++ [seg])
    (last : ∀ a ∈ seg.getLast?, r a x = true) :
    (xs ++ [x]).splitBy r = segs ++ [seg ++ [x]] := by
  obtain ⟨flat, nonempty, chains, breaks⟩ := List.splitBy_eq_iff.mp cut
  have started : seg ≠ [] := by grind
  apply List.splitBy_eq_iff.mpr
  refine ⟨by simp [flat], by grind, ?_, ?_⟩
  · intro m mem
    rcases List.mem_append.mp mem with earlier | now
    · exact chains m (by simp [earlier])
    · obtain rfl := List.mem_singleton.mp now
      refine List.isChain_append.mpr ⟨chains seg (by simp), by simp, ?_⟩
      intro a a_last b b_head
      obtain rfl : x = b := by simpa using b_head
      exact last a a_last
  · rw [List.isChain_append] at breaks ⊢
    refine ⟨breaks.1, by simp, fun m m_last m' head => ?_⟩
    obtain rfl : seg ++ [x] = m' := by simpa using head
    obtain ⟨left, right, broken⟩ := breaks.2.2 m m_last seg (by simp)
    exact ⟨left, by simp, by rwa [List.head_append_of_ne_nil started]⟩

/-- An element that is not related to the last one begins a segment. -/
theorem splitBy_begin (last : ∀ a ∈ xs.getLast?, r a x = false) :
    (xs ++ [x]).splitBy r = xs.splitBy r ++ [[x]] := by
  apply List.splitBy_append
  intro a a_last b b_head
  obtain rfl : x = b := by simpa using b_head
  exact last a a_last

/-- The last element of a list ends its last segment. -/
theorem getLast?_of_cut (cut : xs.splitBy r = segs ++ [seg]) : seg.getLast? = xs.getLast? := by
  obtain ⟨flat, nonempty, -, -⟩ := List.splitBy_eq_iff.mp cut
  have started : seg ≠ [] := by grind
  rw [flat, List.flatten_append, List.flatten_singleton, List.getLast?_append_of_ne_nil _ started]

theorem exists_cut (ne : xs ≠ []) : ∃ segs seg, xs.splitBy r = segs ++ [seg] := by
  have cut : xs.splitBy r ≠ [] := List.splitBy_ne_nil.mpr ne
  exact ⟨_, _, (List.dropLast_append_getLast cut).symm⟩

/-- What holds between the elements of two lists carries over from the pairs of the one to those of
the other. -/
theorem pairwise_congr {B : Type*} {ys : List B} {R : A → B → Prop} {S : A → A → Prop}
    {T : B → B → Prop} (related : List.Forall₂ R xs ys)
    (same : ∀ {x x' y y'}, R x y → R x' y' → (S x x' ↔ T y y')) :
    xs.Pairwise S ↔ ys.Pairwise T := by
  induction related with
  | nil => simp
  | @cons x y xs ys first rest ih =>
    have heads : (∀ x' ∈ xs, S x x') ↔ ∀ y' ∈ ys, T y y' := by
      clear ih
      induction rest with
      | nil => simp
      | cons next _ ih => simp [same first next, ih]
    simp [ih, heads]

/-- A relation that depends on the elements of the first list only. -/
theorem forall₂_iff_forall {B : Type*} {ys : List B} {R S : A → B → Prop} {P : A → Prop}
    (related : List.Forall₂ R xs ys) (same : ∀ x ∈ xs, ∀ y, R x y → (S x y ↔ P x)) :
    List.Forall₂ S xs ys ↔ ∀ x ∈ xs, P x := by
  induction related with
  | nil => simp
  | @cons x y xs ys first rest ih =>
    have tail := ih fun x mem => same x (by simp [mem])
    simp [tail, same x (by simp) y first]

theorem exists_of_forall₂_mem {B : Type*} {R : A → B → Prop} {ys : List B}
    (related : List.Forall₂ R xs ys) (mem : x ∈ xs) : ∃ y ∈ ys, R x y := by
  induction related with
  | nil => simp at mem
  | @cons a b xs ys first rest ih =>
    rcases List.mem_cons.mp mem with rfl | later
    · exact ⟨b, by simp, first⟩
    · obtain ⟨y, y_mem, r⟩ := ih later
      exact ⟨y, List.mem_cons_of_mem b y_mem, r⟩

theorem exists_of_forall₂_concat {B : Type*} {R : A → B → Prop} {ys : List B} {y : B}
    (related : List.Forall₂ R xs (ys ++ [y])) :
    ∃ front a, xs = front ++ [a] ∧ List.Forall₂ R front ys ∧ R a y := by
  have back := List.forall₂_drop_append xs ys [y] related
  cases last : xs.drop ys.length with
  | nil =>
    rw [last] at back
    cases back
  | cons a rest =>
    rw [last, List.forall₂_cons, List.forall₂_nil_right_iff] at back
    obtain ⟨now, rfl⟩ := back
    refine ⟨xs.take ys.length, a, ?_, List.forall₂_take_append xs ys [y] related, now⟩
    rw [← last, List.take_append_drop]

/-! ## Extremes of a segment that grows -/

section Extremes

variable {N : Type*} [LinearOrder N] {ns : List N} {m : N}

theorem max?_concat (max : ns.max? = some m) (n : N) : (ns ++ [n]).max? = some (Max.max m n) := by
  cases ns with
  | nil => simp at max
  | cons first rest =>
    rw [List.max?_cons', Option.some.injEq] at max
    rw [List.cons_append, List.max?_cons', List.foldl_append, max]
    rfl

theorem min?_concat (min : ns.min? = some m) (n : N) : (ns ++ [n]).min? = some (Min.min m n) := by
  cases ns with
  | nil => simp at min
  | cons first rest =>
    rw [List.min?_cons', Option.some.injEq] at min
    rw [List.cons_append, List.min?_cons', List.foldl_append, min]
    rfl

end Extremes

/-! ## Segments that an element ends -/

section Ends

variable (ends : A → Bool)

/-- The list, cut behind each element that ends a segment. -/
def behind (xs : List A) : List (List A) := xs.splitBy fun a _ => !ends a

/-- The segments that have been ended. -/
def finished (xs : List A) : List (List A) := (behind ends xs).filter (·.getLast?.any ends)

theorem finished_concat (xs : List A) (x : A) :
    ∃ run, finished ends (xs ++ [x]) =
      finished ends xs ++ if ends x then [run ++ [x]] else [] := by
  unfold finished behind
  by_cases open_last : ∃ a ∈ xs.getLast?, ends a = false
  · obtain ⟨a, a_last, going⟩ := open_last
    have ne : xs ≠ [] := by
      rintro rfl
      simp at a_last
    obtain ⟨segs, seg, cut⟩ := exists_cut ne (r := fun a _ => !ends a)
    have last := getLast?_of_cut cut
    have joined := splitBy_join (x := x) cut (by grind)
    refine ⟨seg, ?_⟩
    rw [joined, cut, List.filter_append, List.filter_append]
    have unfinished : seg.getLast?.any ends = false := by grind
    cases ends_x : ends x <;> simp [unfinished, ends_x]
  · have started : (xs ++ [x]).splitBy (fun a _ => !ends a) =
        xs.splitBy (fun a _ => !ends a) ++ [[x]] := splitBy_begin (by grind)
    refine ⟨[], ?_⟩
    rw [started, List.filter_append]
    cases ends_x : ends x <;> simp [ends_x]

variable {ends}

/-- The elements that end a segment end the finished ones, in order. -/
theorem last_of_finished (xs : List A) :
    List.Forall₂ (fun run x => run.getLast? = some x) (finished ends xs) (xs.filter ends) := by
  induction xs using List.reverseRecOn with
  | nil => exact .nil
  | append_singleton xs x ih =>
    obtain ⟨run, next⟩ := finished_concat ends xs x
    rw [next, List.filter_append]
    refine List.rel_append ih ?_
    cases ends_x : ends x <;> simp [ends_x]

/-- A segment is a part of the list. -/
theorem infix_of_mem_finished (mem : seg ∈ finished ends xs) : seg <:+: xs := by
  have part := List.infix_of_mem_flatten (List.mem_filter.mp mem).1
  unfold behind at part
  rwa [List.flatten_splitBy] at part

/-- Only the last element of a segment ends it. -/
theorem going_of_mem_finished {a b : A} {rest : List A}
    (mem : a :: b :: rest ∈ finished ends xs) : ends a = false := by
  have chain := List.isChain_of_mem_splitBy (List.mem_filter.mp mem).1
  simpa using (List.isChain_cons_cons.mp chain).1

end Ends

/-! ## Segments of one key -/

section Keys

variable {K : Type*} [LinearOrder K] {key : A → K}

/-- The maximal runs of consecutive elements with one key. -/
def byKey (key : A → K) (xs : List A) : List (List A) := xs.splitBy fun a b => key a = key b

theorem key_eq_of_mem (mem : seg ∈ byKey key xs) {a b : A} (ha : a ∈ seg) (hb : b ∈ seg) :
    key a = key b := by
  have chain : (seg.map key).IsChain Eq := by
    rw [List.isChain_map]
    exact (List.isChain_of_mem_splitBy mem).imp (by simp)
  have pairs : (seg.map key).Pairwise Eq := List.isChain_iff_pairwise.mp chain
  exact pairs.forall_of_forall (fun _ _ => rfl) (List.mem_map_of_mem ha) (List.mem_map_of_mem hb)

/-- All keys of one segment are below all keys of the other. -/
def Below (key : A → K) (s t : List A) : Prop := ∀ a ∈ s, ∀ b ∈ t, key a < key b

/-- Segments with elements, whose neighbours differ in their keys, have increasing keys where the
elements come in the order of their keys. -/
theorem pairwise_below_of_ordered (nonempty : [] ∉ segs)
    (breaks : segs.IsChain fun s t => ∃ hs ht, key (s.getLast hs) ≠ key (t.head ht))
    (same : ∀ s ∈ segs, ∀ a ∈ s, ∀ b ∈ s, key a = key b)
    (ordered : segs.Pairwise fun s t => ∀ a ∈ s, ∀ b ∈ t, key a ≤ key b) :
    segs.Pairwise (Below key) := by
  induction segs with
  | nil => simp
  | cons s segs ih =>
    obtain ⟨above, later⟩ := List.pairwise_cons.mp ordered
    have rest := ih (by grind) breaks.tail (fun t mem => same t (by simp [mem])) later
    refine List.pairwise_cons.mpr ⟨?_, rest⟩
    cases segs with
    | nil => simp
    | cons t segs =>
      obtain ⟨hs, ht, differ⟩ := (List.isChain_cons_cons.mp breaks).1
      have next : Below key s t := by
        intro a ha b hb
        have a_last := same s (by simp) a ha _ (List.getLast_mem hs)
        have b_head := same t (by simp) b hb _ (List.head_mem ht)
        have le := above t (by simp) a ha b hb
        grind
      intro u mem a ha c hc
      rcases List.mem_cons.mp mem with rfl | beyond
      · exact next a ha c hc
      · have first := next a ha _ (List.head_mem ht)
        exact first.trans ((List.pairwise_cons.mp rest).1 u beyond _ (List.head_mem ht) c hc)

/-- The keys of successive segments increase exactly if the keys of their elements never
decrease. -/
theorem pairwise_below_iff (pre : segs <+: byKey key xs) :
    segs.Pairwise (Below key) ↔ (segs.flatten.map key).Pairwise (· ≤ ·) := by
  have same : ∀ s ∈ segs, ∀ a ∈ s, ∀ b ∈ s, key a = key b :=
    fun s mem a ha b hb => key_eq_of_mem (pre.subset mem) ha hb
  rw [List.pairwise_map, List.pairwise_flatten]
  constructor
  · intro below
    refine ⟨fun s mem => ?_, below.imp fun lt a ha b hb => (lt a ha b hb).le⟩
    exact List.pairwise_of_forall_mem_list fun a ha b hb => (same s mem a ha b hb).le
  · rintro ⟨-, ordered⟩
    have breaks := List.isChain_getLast_head_splitBy (fun a b => decide (key a = key b)) xs
    have apart := List.IsChain.prefix breaks pre
    refine pairwise_below_of_ordered ?_ (apart.imp ?_) same ordered
    · exact fun mem => List.ne_nil_of_mem_splitBy (pre.subset mem) rfl
    · rintro s t ⟨hs, ht, differ⟩
      exact ⟨hs, ht, by simpa using differ⟩

/-- An element with the key of the last one joins the last run. -/
theorem byKey_join {a : A} (last : xs.getLast? = some a) (same : key a = key x) :
    ∃ segs seg, seg ≠ [] ∧ byKey key xs = segs ++ [seg] ∧
      byKey key (xs ++ [x]) = segs ++ [seg ++ [x]] := by
  obtain ⟨segs, seg, cut⟩ := exists_cut (r := fun a b => decide (key a = key b))
    (List.ne_nil_of_mem (List.mem_of_getLast? last))
  have last_seg := (getLast?_of_cut cut).trans last
  refine ⟨segs, seg, List.ne_nil_of_mem (List.mem_of_getLast? last_seg), cut, ?_⟩
  exact splitBy_join cut (by simpa [last_seg] using same)

/-- An element with another key begins a run. -/
theorem byKey_begin {a : A} (last : xs.getLast? = some a) (differ : key a ≠ key x) :
    byKey key (xs ++ [x]) = byKey key xs ++ [[x]] :=
  splitBy_begin (by simpa [last] using differ)

/-- Runs are never joined by what comes later. -/
theorem length_byKey_le (xs : List A) (x : A) :
    (byKey key xs).length ≤ (byKey key (xs ++ [x])).length := by
  cases last : xs.getLast? with
  | none =>
    obtain rfl := List.getLast?_eq_none_iff.mp last
    simp [byKey]
  | some a =>
    by_cases same : key a = key x
    · obtain ⟨segs, seg, -, before, after⟩ := byKey_join last same
      simp [before, after]
    · simp [byKey_begin last same]

/-- Several elements with the key of the last one join the last run. -/
theorem byKey_join_run {k : K} {run : List A} (cut : byKey key xs = segs ++ [seg])
    (last : ∀ a ∈ seg.getLast?, key a = k) (keys : ∀ a ∈ run, key a = k) :
    byKey key (xs ++ run) = segs ++ [seg ++ run] := by
  induction run using List.reverseRecOn with
  | nil => simpa using cut
  | append_singleton run x ih =>
    have joined := ih fun a mem => keys a (List.mem_append_left _ mem)
    have now : key x = k := keys x (by simp)
    rw [← List.append_assoc, ← List.append_assoc]
    refine splitBy_join joined fun a mem => decide_eq_true ?_
    rw [List.getLast?_append, Option.mem_def, Option.or_eq_some_iff] at mem
    rw [now]
    rcases mem with latest | ⟨-, earlier⟩
    · exact keys a (List.mem_append_left _ (List.mem_of_getLast? latest))
    · exact last a earlier

/-- Several elements of another key are a run of their own. -/
theorem byKey_begin_run {k : K} {run : List A} (ne : run ≠ [])
    (last : ∀ a ∈ xs.getLast?, key a ≠ k) (keys : ∀ a ∈ run, key a = k) :
    byKey key (xs ++ run) = byKey key xs ++ [run] := by
  cases run with
  | nil => contradiction
  | cons x rest =>
    have first : key x = k := keys x (by simp)
    have begun : byKey key (xs ++ [x]) = byKey key xs ++ [[x]] :=
      splitBy_begin fun a mem => decide_eq_false (by rw [first]; exact last a mem)
    rw [List.append_cons]
    exact byKey_join_run begun (by simpa using first) fun a mem =>
      keys a (List.mem_cons_of_mem x mem)

/-- Where each element of a list stands for some elements of another one that have its key, its runs
stand for the runs of the other one. -/
theorem byKey_parts {B : Type*} {key' : B → K} {R : List A → B → Prop} {parts : List (List A)}
    {ys : List B} (related : List.Forall₂ R parts ys) (started : ∀ p y, R p y → p ≠ [])
    (same : ∀ p y, R p y → ∀ a ∈ p, key a = key' y) :
    List.Forall₂ (fun run run' => ∃ ps, run = ps.flatten ∧ List.Forall₂ R ps run')
      (byKey key parts.flatten) (byKey key' ys) := by
  induction ys using List.reverseRecOn generalizing parts with
  | nil =>
    obtain rfl := List.forall₂_nil_right_iff.mp related
    exact .nil
  | append_singleton ys y ih =>
    obtain ⟨parts, p, rfl, earlier, now⟩ := exists_of_forall₂_concat related
    have runs := ih earlier
    rw [List.flatten_append, List.flatten_singleton]
    by_cases joins : ∃ b ∈ ys.getLast?, key' b = key' y
    · obtain ⟨b, last, eq⟩ := joins
      obtain ⟨segs', seg', -, cut', joined⟩ := byKey_join last eq
      have seg_last := (getLast?_of_cut cut').trans last
      have mem_seg : seg' ∈ byKey key' ys := by simp [cut']
      rw [cut'] at runs
      obtain ⟨segs, seg, cut, closed, ps, rfl, stand⟩ := exists_of_forall₂_concat runs
      have keys : ∀ a ∈ ps.flatten.getLast?, key a = key' y := by
        intro a a_last
        obtain ⟨q, q_mem, a_mem⟩ := List.mem_flatten.mp (List.mem_of_getLast? a_last)
        obtain ⟨z, z_mem, r⟩ := exists_of_forall₂_mem stand q_mem
        rw [same q z r a a_mem, ← eq]
        exact key_eq_of_mem mem_seg z_mem (List.mem_of_getLast? seg_last)
      rw [joined, byKey_join_run cut keys (same p y now)]
      refine List.rel_append closed (.cons ⟨ps ++ [p], by simp, ?_⟩ .nil)
      exact List.rel_append stand (.cons now .nil)
    · have begun : byKey key' (ys ++ [y]) = byKey key' ys ++ [[y]] :=
        splitBy_begin fun b last => decide_eq_false fun eq => joins ⟨b, last, eq⟩
      have keys : ∀ a ∈ parts.flatten.getLast?, key a ≠ key' y := by
        intro a a_last
        rcases List.eq_nil_or_concat ys with rfl | ⟨_, b, rfl⟩
        · obtain rfl := List.forall₂_nil_right_iff.mp earlier
          simp at a_last
        rw [List.concat_eq_append] at earlier joins
        obtain ⟨_, q, rfl, -, r⟩ := exists_of_forall₂_concat earlier
        rw [List.flatten_append, List.flatten_singleton,
          List.getLast?_append_of_ne_nil _ (started q b r)] at a_last
        rw [same q b r a (List.mem_of_getLast? a_last)]
        exact fun eq => joins ⟨b, by simp, eq⟩
      rw [begun, byKey_begin_run (started p y now) keys (same p y now)]
      exact List.rel_append runs (.cons ⟨[p], by simp, .cons now .nil⟩ .nil)

end Keys

end Segments
