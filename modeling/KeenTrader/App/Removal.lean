import KeenTrader.App.Changes
import KeenTrader.App.Stopping

/-!
# What is left of a removed strategy

`remove_strategy` takes out of `orderid_strategy_map` the ids that `strategy_orderid_map` still
has for the strategy. An order that has ended has left that set before, and keeps its entry in
the map: reports of it go on reaching the object of the removed strategy.
-/

namespace KeenTrader.App

open Std (ExtTreeMap ExtTreeSet)
open Containers Handlers Runs KeenTrader.Engine

namespace CtaEngine

/-- Every pointer of `orderid_strategy_map` is one of a registered strategy. -/
def MapsRegistered (s : CtaEngine) : Prop :=
  ∀ (id : AString) p, s.orderidStrategyMap[id]? = some p → s.Registered p

/-- The object has been made, and is not registered any more. -/
def Removed (s : CtaEngine) (p : Ptr) : Prop := p < s.nextPtr ∧ ¬s.Registered p

/-- The orders and trades that the strategy has been told of. -/
def reports (trace : List Effect) (p : Ptr) : List Callback :=
  trace.filterMap fun
    | .callback q cb => if q = p ∧ cb.reports = true then some cb else none
    | _ => none

/-- A strategy is removed only when all its orders are still among its ids. -/
def RemovesAll (s : CtaEngine) : Op → Prop
  | .removeStrategy name => ∀ p, s.strategies[name]? = some p → (s.objects p).trading = false →
      ∀ id : AString, s.orderidStrategyMap[id]? = some p → id ∈ s.orderids name
  | _ => True

variable {env : Environment} {exempt : AString → Prop} {hears : Ptr → Prop} {s t : CtaEngine}

theorem reports_append (first second : List Effect) (p : Ptr) :
    reports (first ++ second) p = reports first p ++ reports second p :=
  List.filterMap_append

/-! ## What strategies do -/

theorem MapsRegistered.of_same (maps : s.MapsRegistered)
    (map : t.orderidStrategyMap = s.orderidStrategyMap) (strategies : t.strategies = s.strategies) :
    t.MapsRegistered := by
  intro id p stored
  rw [map] at stored
  rw [Registered, strategies]
  exact maps id p stored

/-- Orders are only sent for strategies that are registered. -/
theorem Action.maps (action : Action env s t) (guarded : s.Guarded exempt)
    (maps : s.MapsRegistered) : t.MapsRegistered := by
  have strategies := action.frame.strategies
  cases action with
  | send p req exchangeName trading =>
    rcases sendRequest_cases env s p req exchangeName with ⟨-, eq⟩ | ⟨orderid, -, eq⟩
    · rw [eq]
      exact maps.of_same rfl rfl
    · rw [eq]
      intro id q stored
      rcases getElem?_insert_cases stored with ⟨rfl, -⟩ | old
      · exact ⟨_, guarded.traders q trading⟩
      · exact maps id q old
  | _ => exact maps.of_same rfl strategies

theorem Action.reports (action : Action env s t) (p : Ptr) :
    reports t.trace p = reports s.trace p := by
  have added : ∃ new, t.trace = s.trace ++ new ∧ CtaEngine.reports new p = [] := by
    cases action with
    | send q req exchangeName trading =>
      rcases sendRequest_cases env s q req exchangeName with ⟨-, eq⟩ | ⟨orderid, -, eq⟩
      · rw [eq]
        exact ⟨_, rfl, rfl⟩
      · rw [eq]
        exact ⟨_, rfl, rfl⟩
    | convert req exchangeName lock net => exact ⟨[], by simp, rfl⟩
    | place q so trading owner stop => exact ⟨[], by simp, rfl⟩
    | drop q id so stop found owner => exact ⟨[], by simp, rfl⟩
    | callback q so => exact ⟨_, rfl, by simp [CtaEngine.reports, Callback.reports]⟩
    | _ => exact ⟨_, rfl, rfl⟩
  obtain ⟨new, trace, none⟩ := added
  rw [trace, reports_append, none, List.append_nil]

/-! ## What the engine does -/

theorem Change.maps (change : Change env hears s t) (loose : s.Loose) (maps : s.MapsRegistered) :
    t.MapsRegistered := by
  cases change with
  | move move =>
    have both : t.Loose ∧ t.MapsRegistered := by
      refine move.acts.invariant (P := fun s => s.Loose ∧ s.MapsRegistered) ?_ ⟨loose, maps⟩
      exact fun action now => ⟨action.guarded now.1, action.maps now.1 now.2⟩
    exact both.2
  | register className name ktSymbol v file unused saved =>
    intro id p stored
    obtain ⟨other, registered⟩ := maps id p stored
    refine ⟨other, ?_⟩
    have free : name ≠ other := by
      rintro rfl
      simp [ExtTreeMap.mem_iff_isSome_getElem?, registered] at unused
    simp [CtaEngine.register, ExtTreeMap.getElem?_insert, free, registered]
  | _ => exact maps.of_same rfl rfl

/-- What happens to a strategy that has been removed: nothing. -/
structure Unheard (p : Ptr) (s t : CtaEngine) : Prop where
  reports : reports t.trace p = reports s.trace p
  pos : (t.objects p).pos = (s.objects p).pos
  nextPtr : s.nextPtr ≤ t.nextPtr
  removed : s.Removed p → ¬t.Registered p

theorem Unheard.refl (p : Ptr) (s : CtaEngine) : Unheard p s s :=
  ⟨rfl, rfl, le_rfl, fun removed => removed.2⟩

theorem Unheard.trans {p : Ptr} {u : CtaEngine} (first : Unheard p s t) (second : Unheard p t u) :
    Unheard p s u where
  reports := second.reports.trans first.reports
  pos := second.pos.trans first.pos
  nextPtr := first.nextPtr.trans second.nextPtr
  removed removed :=
    second.removed ⟨removed.1.trans_le first.nextPtr, first.removed removed⟩

/-- Where no strategy is added, only what is reported and the position count. -/
theorem unheard_of_frame {p : Ptr}
    (told : CtaEngine.reports t.trace p = CtaEngine.reports s.trace p)
    (pos : (t.objects p).pos = (s.objects p).pos) (nextPtr : t.nextPtr = s.nextPtr)
    (strategies : t.strategies = s.strategies) : Unheard p s t where
  reports := told
  pos := pos
  nextPtr := nextPtr.ge
  removed removed := by
    rw [Registered, strategies]
    exact removed.2

theorem unheard_emit {p : Ptr} (s : CtaEngine) {e : Effect} (none : CtaEngine.reports [e] p = []) :
    Unheard p s (s.emit e) :=
  unheard_of_frame (by rw [emit, reports_append, none, List.append_nil]) rfl rfl rfl

theorem Change.unheard {p : Ptr} (change : Change env hears s t) (deaf : ¬hears p)
    (created : p < s.nextPtr) : Unheard p s t := by
  cases change with
  | move move =>
    have acts := move.acts
    refine unheard_of_frame ?_ (by rw [acts.frame.objects]) acts.frame.nextPtr acts.frame.strategies
    exact acts.invariant (P := fun u => CtaEngine.reports u.trace p = CtaEngine.reports s.trace p)
      (fun action same => (action.reports p).trans same) rfl
  | callback q cb quiet heard =>
    refine unheard_emit s ?_
    have other : ¬(q = p ∧ cb.reports = true) := by
      rintro ⟨rfl, reports⟩
      exact deaf (heard reports)
    simp [CtaEngine.reports, other]
  | emit e plain =>
    refine unheard_emit s ?_
    cases e <;> simp_all [Effect.plain, CtaEngine.reports]
  | pos q pos heard =>
    have other : p ≠ q := fun same => deaf (same ▸ heard)
    exact unheard_of_frame rfl (by simp [updateObject, other]) rfl rfl
  | flags name q inited trading registered =>
    exact unheard_of_frame rfl (updateObject_keeps (·.pos) s rfl p) rfl rfl
  | register className name ktSymbol v file unused saved =>
    refine ⟨rfl, ?_, Nat.le_succ _, ?_⟩
    · simp [CtaEngine.register, Function.update_of_ne created.ne]
    · rintro removed ⟨other, registered⟩
      rcases getElem?_insert_cases registered with ⟨rfl, -⟩ | old
      · exact absurd created (by simp)
      · exact removed.2 ⟨other, old⟩
  | _ => exact unheard_of_frame rfl rfl rfl rfl

/-! ## The operations -/

/-- Removing a strategy keeps the pointers registered exactly if it takes all of them along. -/
theorem maps_removeStrategy_iff (safe : s.Safe) (maps : s.MapsRegistered) (name : AString) :
    (s.removeStrategy name).MapsRegistered ↔ s.RemovesAll (.removeStrategy name) := by
  by_cases through : ∃ p, s.strategies[name]? = some p ∧ (s.objects p).trading = false
  · obtain ⟨p, registered, idle⟩ := through
    rw [removeStrategy_eq registered idle]
    constructor
    · intro left q owner _ id mapped
      obtain rfl := Option.some.inj (registered.symm.trans owner)
      by_contra absent
      obtain ⟨other, found⟩ := left id p (by
        rw [getElem?_foldl_erase, if_neg (by simpa using absent)]
        exact mapped)
      rw [ExtTreeMap.getElem?_erase] at found
      have same : name = other :=
        (safe.names name p registered).1.symm.trans (safe.names other p (by grind)).1
      grind
    · intro all id q stored
      simp only [getElem?_foldl_erase, ExtTreeSet.mem_toList] at stored
      have kept : id ∉ s.orderids name ∧ s.orderidStrategyMap[id]? = some q := by grind
      obtain ⟨other, found⟩ := maps id q kept.2
      have different : ¬name = other := by
        rintro rfl
        obtain rfl := Option.some.inj (registered.symm.trans found)
        exact kept.1 (all p registered idle id kept.2)
      exact ⟨other, by simpa [ExtTreeMap.getElem?_erase, different] using found⟩
  · have refused : ∀ p, s.strategies[name]? = some p → (s.objects p).trading = true := by
      grind
    have guard : s.RemovesAll (.removeStrategy name) := fun p owner idle =>
      absurd ⟨p, owner, idle⟩ through
    refine iff_of_true ?_ guard
    rcases removeStrategy_refused refused with eq | ⟨msg, eq⟩
    · rw [eq]
      exact maps
    · rw [eq]
      exact maps.of_same rfl rfl

/-- A removal is the only step that can leave a pointer behind. -/
theorem maps_step_iff (safe : s.Safe) (maps : s.MapsRegistered) (op : Op) :
    (s.step env op).MapsRegistered ↔ s.RemovesAll op := by
  by_cases removal : ∃ name, op = .removeStrategy name
  · obtain ⟨name, rfl⟩ := removal
    exact maps_removeStrategy_iff safe maps name
  · have stays : ∀ name, op ≠ .removeStrategy name := fun name same => removal ⟨name, same⟩
    have guard : s.RemovesAll op := by
      cases op <;> first | trivial | exact absurd rfl (stays _)
    refine iff_of_true ?_ guard
    exact (changes_step env safe op stays).invariant safe.loose (fun change => change.maps) maps

theorem Changes.unheard {p : Ptr} (changes : Changes env hears s t) (deaf : ¬hears p)
    (created : p < s.nextPtr) : Unheard p s t := by
  induction changes with
  | refl => exact .refl p s
  | tail _ change ih => exact ih.trans (change.unheard deaf (created.trans_le ih.nextPtr))

variable (env) in
/-- No step reports to a strategy that has been removed, where all pointers are registered. -/
theorem unheard_step {p : Ptr} (safe : s.Safe) (maps : s.MapsRegistered) (removed : s.Removed p)
    (op : Op) : Unheard p s (s.step env op) := by
  by_cases removal : ∃ name, op = .removeStrategy name
  · obtain ⟨name, rfl⟩ := removal
    change Unheard p s (s.removeStrategy name)
    by_cases through : ∃ q, s.strategies[name]? = some q ∧ (s.objects q).trading = false
    · obtain ⟨q, registered, idle⟩ := through
      rw [removeStrategy_eq registered idle]
      refine ⟨rfl, rfl, le_rfl, ?_⟩
      rintro - ⟨other, found⟩
      rw [ExtTreeMap.getElem?_erase] at found
      exact removed.2 ⟨other, by grind⟩
    · have refused : ∀ p, s.strategies[name]? = some p → (s.objects p).trading = true := by
        grind
      rcases removeStrategy_refused refused with eq | ⟨msg, eq⟩
      · rw [eq]
        exact .refl p s
      · rw [eq]
        exact unheard_emit s rfl
  · refine (changes_step env safe op fun name same => removal ⟨name, same⟩).unheard ?_ removed.1
    rintro ⟨id, mapped⟩
    exact removed.2 (maps id p mapped)

theorem unheard_run {p : Ptr} (later : List Op) (safe : s.Safe) (removed : s.Removed p)
    (always : Always (step env) MapsRegistered s later) :
    Unheard p s (later.foldl (step env) s) := by
  induction later generalizing s with
  | nil => exact .refl p s
  | cons op later ih =>
    have first := unheard_step env safe always.1 removed op
    have removed' : (s.step env op).Removed p :=
      ⟨removed.1.trans_le first.nextPtr, first.removed removed⟩
    exact first.trans (ih (safe.step op) removed' always.2)

/-- Nothing is reported to a strategy after its removal, and its position stays. -/
def SilentOnceRemoved (env : Environment) (classes : ExtTreeSet AString) (ops : List Op) : Prop :=
  ∀ before later, ops = before ++ later → ∀ p, (run env classes before).Removed p →
    reports (run env classes ops).trace p = reports (run env classes before).trace p ∧
      ((run env classes ops).objects p).pos = ((run env classes before).objects p).pos

/-- The pointers in `orderid_strategy_map` are those of registered strategies throughout a run,
and a removed strategy hears of nothing any more, exactly if each strategy that the run removes
has all its orders in the map still among its ids. -/
theorem orders_stay_registered_iff (env : Environment) (classes : ExtTreeSet AString)
    (ops : List Op) :
    (Always (step env) MapsRegistered { classes } ops ∧ SilentOnceRemoved env classes ops) ↔
      Meets (step env) RemovesAll { classes } ops := by
  have exact_guard : Always (step env) MapsRegistered { classes } ops ↔
      Meets (step env) RemovesAll { classes } ops :=
    always_iff_meets_of_invariant (fun _ op safe => Safe.step safe op)
      (fun _ op safe maps => maps_step_iff safe maps op) (safe_init classes)
      (by simp [MapsRegistered])
  rw [← exact_guard]
  refine and_iff_left_of_imp ?_
  rintro always before later rfl p removed
  have unheard := unheard_run later (safe_run env classes before) removed
    (always_append.mp always).2
  have whole : run env classes (before ++ later) =
      later.foldl (step env) (run env classes before) := by
    rw [run, List.foldl_append, run]
  rw [whole]
  exact ⟨unheard.reports, unheard.pos⟩

/-- The order has been filled before the strategy is stopped and removed. -/
def filledThenRemoved : List Op :=
  boughtOnTick ++ [.order { boughtOrder with status := .allTraded, traded := 1 },
    .stopStrategy "alpha", .removeStrategy "alpha"]

/-- The trade of that order comes late. -/
def lateTrade : TradeData :=
  { symbol := "rb2410", exchange := .shfe, orderid := "1", tradeid := "9", direction := .long
    offset := .opening, price := 3500, volume := 1, exchangeName := "CTP" }

/-- The filled order keeps its entry, and the late trade moves the removed strategy's position. -/
theorem removed_still_mapped :
    (¬ ∀ (env : Environment) (classes : ExtTreeSet AString) (ops : List Op),
      Always (step env) MapsRegistered { classes } ops) ∧
    ¬ ∀ (env : Environment) (classes : ExtTreeSet AString) (ops : List Op),
      SilentOnceRemoved env classes ops := by
  have empty : (run buyOnTick {"Dual"} filledThenRemoved).strategies = ∅ :=
    ExtTreeMap.isEmpty_iff.mp (by decide +kernel)
  have gone : ¬(run buyOnTick {"Dual"} filledThenRemoved).Registered 0 := by
    rintro ⟨name, registered⟩
    rw [empty] at registered
    simp at registered
  constructor
  · intro all
    have last := (all buyOnTick {"Dual"} filledThenRemoved).last
    exact gone (last "CTP.1" 0 (by decide +kernel))
  · intro all
    have told := (all buyOnTick {"Dual"} (filledThenRemoved ++ [.trade lateTrade])
      filledThenRemoved _ rfl 0 ⟨by decide +kernel, gone⟩).1
    exact absurd told (by decide +kernel)

end CtaEngine

end KeenTrader.App
