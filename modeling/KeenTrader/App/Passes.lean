import KeenTrader.Library.LivePasses
import KeenTrader.App.Filing
import KeenTrader.App.References

/-!
# One pass over the stop orders

`check_stop_order` is a loop over the live book, by the order of the ids as texts. A stop order that
is placed while it runs is compared with the same tick if its id comes behind the one that the loop
is at, and not if it comes before it, as STOP.10 does before STOP.9.

The loop erases the entry of a stop order whose order is accepted, and then steps on from the erased
entry, which C++ leaves undefined. What is said of a pass here is said of the reading in which this
step, too, goes to the next entry by key order.
-/

namespace KeenTrader.App

open Std (ExtTreeMap ExtTreeSet)
open Containers Handlers Runs LivePasses KeenTrader.Engine

namespace CtaEngine

/-- The loop of `check_stop_order`. -/
def stopLoop (env : Environment) (tick : TickData) : Loop AString StopOrder CtaEngine where
  book := stopOrders
  visit s _ so := checkOne env s tick so

variable {env : Environment} {s t : CtaEngine} {tick : TickData}

@[simp] theorem stopLoop_visit (s : CtaEngine) (key : AString) (so : StopOrder) :
    (stopLoop env tick).visit s key so = checkOne env s tick so := rfl

theorem nextStopOrder_eq (env : Environment) (tick : TickData) (s : CtaEngine)
    (after : Option AString) :
    s.nextStopOrder after = nextEntry ((stopLoop env tick).book s) after := rfl

theorem checkStopOrders_eq (env : Environment) (tick : TickData) (n : ℕ) (after : Option AString)
    (s : CtaEngine) :
    checkStopOrders env tick n after s = (stopLoop env tick).pass n after s := by
  induction n generalizing after s with
  | zero => rfl
  | succ n ih =>
    unfold checkStopOrders Loop.pass
    rw [nextStopOrder_eq env tick]
    cases nextEntry ((stopLoop env tick).book s) after with
    | none => rfl
    | some entry =>
      simp only [stopLoop_visit]
      cases checkOne env s tick entry.2 with
      | none => rfl
      | some u => exact ih _ _

theorem passAttempts_eq (env : Environment) (tick : TickData) (n : ℕ) (after : Option AString)
    (s : CtaEngine) :
    passAttempts env tick n after s = ((stopLoop env tick).visits n after s).flatMap
      fun x => visitAttempts env x.state tick x.value := by
  induction n generalizing after s with
  | zero => rfl
  | succ n ih =>
    unfold passAttempts Loop.visits
    rw [nextStopOrder_eq env tick]
    cases nextEntry ((stopLoop env tick).book s) after with
    | none => rfl
    | some entry =>
      simp only [stopLoop_visit, List.flatMap_cons]
      cases checkOne env s tick entry.2 with
      | none => rfl
      | some u => exact congrArg _ (ih _ u)

/-! ## What a pass should do -/

/-- The stop order has been cancelled when the loop comes to the place of its id. -/
def CancelledBefore (env : Environment) (s : CtaEngine) (tick : TickData) (n : ℕ) (id : AString) :
    Prop :=
  ∃ t, (stopLoop env tick).turn id n none s = some t ∧ .cancelled ∈ told t.trace id

/-- A pass of at most `n` visits comes to its end. It sends orders, in one call each, for the stop
orders that are triggered and were in the book when it began, but for those that are cancelled
before their turn; and no stop order that is not one of them is compared with the tick. -/
structure PassesOnce (env : Environment) (s : CtaEngine) (tick : TickData) (n : ℕ) : Prop where
  returns : (checkStopOrders env tick n none s).2 = true
  once : ((passAttempts env tick n none s).map Attempt.stopOrderid).Nodup
  sends : ∀ id, id ∈ (passAttempts env tick n none s).map Attempt.stopOrderid ↔
    ∃ so, s.stopOrders[id]? = some so ∧ Triggers tick so ∧ ¬CancelledBefore env s tick n id
  known : ∀ x ∈ (stopLoop env tick).visits n none s,
    x.value.ktSymbol = tick.ktSymbol → x.key ∈ s.stopOrders

/-- Where the loop comes to an id that has been given out while it runs, behind `after`, there is no
stop order of the tick's instrument, since it was placed under an id that the loop had passed, or
has been cancelled. -/
def PlacedAside (env : Environment) (tick : TickData) (count : ℕ) (after : Option AString)
    (s : CtaEngine) : Prop :=
  ∀ n k t so, count ≤ k → Ahead after (localId k) →
    (stopLoop env tick).turn (localId k) n after s = some t →
      t.stopOrders[localId k]? = some so → so.ktSymbol ≠ tick.ktSymbol

/-! ## What a visit does -/

/-- A state of the pass that began in `s`. -/
structure Passing (env : Environment) (s t : CtaEngine) : Prop where
  moves : Moves env s t
  safe : t.Safe
  tracked : t.Tracked
  filed : t.Filed

section Visits
variable {id : AString} {so : StopOrder}

theorem Passing.start (safe : s.Safe) (tracked : s.Tracked) (filed : s.Filed) : Passing env s s :=
  ⟨.refl, safe, tracked, filed⟩

theorem Passing.visit {u : CtaEngine} (passing : Passing env s t)
    (stored : t.stopOrders[id]? = some so) (visited : checkOne env t tick so = some u) :
    Passing env s u :=
  have moves := moves_checkOne passing.safe stored visited
  ⟨passing.moves.trans moves, moves.acts.guarded passing.safe,
    moves.tracked passing.safe passing.tracked, (withdraws_visit passing.filed stored visited).1⟩

/-- The visit of a stop order that is triggered sends orders for it, and none throws. -/
theorem Passing.attempts (tick : TickData) (passing : Passing env s t)
    (stored : t.stopOrders[id]? = some so) :
    (visitAttempts env t tick so).map Attempt.stopOrderid =
        (if Triggers tick so then [id] else []) ∧ ∃ u, checkOne env t tick so = some u := by
  obtain ⟨-, rfl, -, p, registered, -⟩ := passing.safe.stops id so stored
  obtain ⟨-, -, known⟩ := passing.filed _ so stored
  obtain ⟨contract, found⟩ := Option.isSome_iff_exists.mp known
  unfold visitAttempts
  rw [registered, found]
  constructor
  · split <;> rfl
  · rcases checkOne_cases env t tick so with ⟨-, same⟩ | ⟨-, missing, -⟩ | ⟨_, _, -, -, -, last⟩
    · exact ⟨t, same⟩
    · simp [registered, found] at missing
    · rcases last with ⟨u, -, visited⟩ | ⟨_, _, u, told, -, -, visited⟩
      · exact ⟨u, visited⟩
      · exact ⟨_, visited⟩

/-- A stop order that is in the book was there when the pass began, or has been given its id
since. -/
theorem Passing.origin (passing : Passing env s t) (tracked : s.Tracked)
    (stored : t.stopOrders[id]? = some so) :
    s.stopOrders[id]? = some so ∨
      id ∉ s.stopOrders ∧ ∃ k, s.stopOrderCount ≤ k ∧ id = localId k := by
  obtain ⟨k, -, rfl⟩ := passing.tracked.given stored
  rcases lt_or_ge k s.stopOrderCount with before | since
  · exact .inl (passing.moves.keeps.entry k before so stored)
  · refine .inr ⟨fun mem => ?_, k, since, rfl⟩
    rw [ExtTreeMap.mem_iff_isSome_getElem?, Option.isSome_iff_exists] at mem
    obtain ⟨_, there⟩ := mem
    obtain ⟨n, before, same⟩ := tracked.given there
    exact since.not_gt (localId_injective same ▸ before)

end Visits

section Pass
variable {id : AString} {n : ℕ} {after : Option AString}

/-- The visits of a pass that began in `s`. -/
theorem passing_visits (start : Passing env s s) {x : Loop.Visit AString StopOrder CtaEngine}
    (mem : x ∈ (stopLoop env tick).visits n none s) :
    Passing env s x.state ∧ x.state.stopOrders[x.key]? = some x.value :=
  Loop.visits_invariant (fun _ _ _ _ passing stored visited => passing.visit stored visited) start
    mem

/-- The ids of the stop orders that orders are sent for are those of the visits that trigger. -/
theorem ids_passAttempts (start : Passing env s s) :
    (passAttempts env tick n none s).map Attempt.stopOrderid =
      (((stopLoop env tick).visits n none s).filter (Triggers tick ·.value)).map (·.key) := by
  have each : ∀ x ∈ (stopLoop env tick).visits n none s,
      (visitAttempts env x.state tick x.value).map Attempt.stopOrderid =
        if Triggers tick x.value then [x.key] else [] := fun x mem =>
    have passing := passing_visits start mem
    (passing.1.attempts tick passing.2).1
  rw [passAttempts_eq]
  generalize (stopLoop env tick).visits n none s = visits at each
  induction visits with
  | nil => rfl
  | cons x visits ih =>
    obtain ⟨here, rest⟩ := List.forall_mem_cons.mp each
    rw [List.flatMap_cons, List.map_append, here, ih rest, List.filter_cons]
    by_cases triggers : Triggers tick x.value <;> simp [triggers]

/-- The pass comes to its end if what is placed in it lies aside. -/
theorem exists_returns (start : Passing env s s)
    (aside : PlacedAside env tick s.stopOrderCount none s) :
    ∃ n, (checkStopOrders env tick n none s).2 = true := by
  simp only [checkStopOrders_eq]
  refine Loop.exists_returns
    (P := fun after t => Passing env s t ∧ PlacedAside env tick s.stopOrderCount after t)
    s.stopOrders.keys.toFinset ?_ ⟨start, aside⟩
  · rintro after t key so ⟨passing, aside⟩ next
    obtain ⟨stored, ahead, -⟩ := nextEntry_eq_some next
    obtain ⟨-, u, visited⟩ := passing.attempts tick stored
    refine ⟨u, visited, ⟨passing.visit stored visited, ?_⟩, ?_⟩
    · intro n k w so' since behind comes stored'
      refine aside (n + 1) k w so' since (ahead_trans ahead (ahead_some.mp behind)) ?_ stored'
      unfold Loop.turn
      rw [next]
      simp only [if_pos (ahead_some.mp behind), stopLoop_visit, visited]
      exact comes
    · rcases passing.origin start.tracked stored with there | ⟨-, k, since, rfl⟩
      · refine .inl ?_
        rw [List.mem_toFinset, ExtTreeMap.mem_keys, ExtTreeMap.mem_iff_isSome_getElem?, there]
        rfl
      · -- it has been placed in the pass, and so it is not of the tick's instrument
        have comes : (stopLoop env tick).turn (localId k) 1 after t = some t := by
          unfold Loop.turn
          rw [next]
          simp
        have other := aside 1 k t so since ahead comes stored
        have idle : checkOne env t tick so = some t :=
          checkOne_idle fun triggers => other triggers.1
        exact .inr (Option.some.inj (visited.symm.trans idle))

/-- In the pass a stop order is cancelled before its turn, or is there when it comes. -/
theorem there_at_turn (start : Passing env s s) (mem : id ∈ s.stopOrders)
    (comes : (stopLoop env tick).turn id n none s = some t) :
    Passing env s t ∧ (id ∈ t.stopOrders ∨ .cancelled ∈ told t.trace id) := by
  refine Loop.turn_invariant
    (P := fun t => Passing env s t ∧ (id ∈ t.stopOrders ∨ .cancelled ∈ told t.trace id))
    ?_ ⟨start, .inl mem⟩ comes
  rintro v key so w ⟨passing, there⟩ stored before visited
  refine ⟨passing.visit stored visited, ?_⟩
  obtain ⟨-, grows, withdraws⟩ := withdraws_visit passing.filed stored visited
  rcases there with there | gone
  · exact withdraws id there before.ne'
  · exact .inr (mem_told_of_grows grows gone)

/-- What is in the book has not been cancelled. -/
theorem Passing.not_cancelled {so : StopOrder} (passing : Passing env s t)
    (stored : t.stopOrders[id]? = some so) : .cancelled ∉ told t.trace id := by
  rw [passing.tracked.waiting id so stored]
  simp

/-- Where the pass visits a stop order of the tick's instrument, it was there from the first. -/
theorem there_of_visited (start : Passing env s s)
    (aside : PlacedAside env tick s.stopOrderCount none s)
    (ends : ((stopLoop env tick).pass n none s).2 = true)
    {x : Loop.Visit AString StopOrder CtaEngine} (mem : x ∈ (stopLoop env tick).visits n none s)
    (same : x.value.ktSymbol = tick.ktSymbol) : s.stopOrders[x.key]? = some x.value := by
  obtain ⟨passing, stored⟩ := passing_visits start mem
  rcases passing.origin start.tracked stored with there | ⟨-, k, since, id⟩
  · exact there
  · have comes := ((Loop.mem_visits_iff ends rfl).mp mem).1
    rw [id] at comes stored
    exact absurd same (aside n k x.state x.value since rfl comes stored)

/-- A stop order that triggers is visited, unless it is cancelled before its turn. -/
theorem visited_of_kept {so : StopOrder} (start : Passing env s s)
    (ends : ((stopLoop env tick).pass n none s).2 = true) (there : s.stopOrders[id]? = some so)
    (kept : ¬CancelledBefore env s tick n id) :
    ∃ t, ⟨t, id, so⟩ ∈ (stopLoop env tick).visits n none s := by
  obtain ⟨t, comes⟩ := Loop.exists_turn ends id
  have mem : id ∈ s.stopOrders := by
    rw [ExtTreeMap.mem_iff_isSome_getElem?, there]
    rfl
  obtain ⟨passing, still | gone⟩ := there_at_turn start mem comes
  · rw [ExtTreeMap.mem_iff_isSome_getElem?, Option.isSome_iff_exists] at still
    obtain ⟨so', stored⟩ := still
    rcases passing.origin start.tracked stored with same | ⟨absent, -⟩
    · obtain rfl := Option.some.inj (there.symm.trans same)
      exact ⟨t, (Loop.mem_visits_iff ends rfl).mpr ⟨comes, stored⟩⟩
    · exact absurd mem absent
  · exact absurd ⟨t, comes, gone⟩ kept

/-- What a pass does as it should, it does only for stop orders that were there from the first. -/
theorem placedAside_of_passesOnce (start : Passing env s s)
    (passes : PassesOnce env s tick n) : PlacedAside env tick s.stopOrderCount none s := by
  intro m k t so since ahead comes stored same
  have returns := passes.returns
  rw [checkStopOrders_eq] at returns
  have visited : ⟨t, localId k, so⟩ ∈ (stopLoop env tick).visits n none s :=
    (Loop.mem_visits_iff returns ahead).mpr ⟨Loop.turn_of_returns returns comes, stored⟩
  have mem := passes.known _ visited same
  rw [ExtTreeMap.mem_iff_isSome_getElem?, Option.isSome_iff_exists] at mem
  obtain ⟨_, there⟩ := mem
  obtain ⟨j, before, eq⟩ := start.tracked.given there
  exact since.not_gt (localId_injective eq ▸ before)

theorem passesOnce_of_placedAside (start : Passing env s s)
    (aside : PlacedAside env tick s.stopOrderCount none s)
    (returns : (checkStopOrders env tick n none s).2 = true) : PassesOnce env s tick n := by
  have ends := returns
  rw [checkStopOrders_eq] at ends
  refine ⟨returns, ?_, fun id => ?_, fun x mem same => ?_⟩
  · rw [ids_passAttempts start]
    refine List.Nodup.sublist (List.filter_sublist.map _) ?_
    exact List.pairwise_map.mpr ((Loop.visits_increasing _ n none s).imp ne_of_lt)
  · rw [ids_passAttempts start, List.mem_map]
    constructor
    · rintro ⟨⟨t, id, so⟩, mem, rfl⟩
      obtain ⟨mem, triggers⟩ := List.mem_filter.mp mem
      have triggers : Triggers tick so := of_decide_eq_true triggers
      obtain ⟨passing, stored⟩ := passing_visits start mem
      refine ⟨so, there_of_visited start aside ends mem triggers.1, triggers, ?_⟩
      rintro ⟨t', comes, cancelled⟩
      have turn := ((Loop.mem_visits_iff ends rfl).mp mem).1
      obtain rfl := Option.some.inj (comes.symm.trans turn)
      exact passing.not_cancelled stored cancelled
    · rintro ⟨so, there, triggers, kept⟩
      obtain ⟨t, mem⟩ := visited_of_kept start ends there kept
      exact ⟨⟨t, id, so⟩, List.mem_filter.mpr ⟨mem, decide_eq_true triggers⟩, rfl⟩
  · rw [ExtTreeMap.mem_iff_isSome_getElem?, there_of_visited start aside ends mem same]
    rfl

theorem passesOnce_iff (start : Passing env s s) :
    (∃ n, PassesOnce env s tick n) ↔ PlacedAside env tick s.stopOrderCount none s := by
  constructor
  · rintro ⟨n, passes⟩
    exact placedAside_of_passesOnce start passes
  · intro aside
    obtain ⟨n, returns⟩ := exists_returns start aside
    exact ⟨n, passesOnce_of_placedAside start aside returns⟩

end Pass

/-- In every run, a pass over the stop orders sends orders as it should exactly if what is placed
while it runs lies aside: under ids that the loop has passed, or of other instruments, or cancelled
again before the loop comes to it. A step from an entry that has been erased is read as a step to
the next entry by key order. -/
theorem one_pass_iff (env : Environment) (classes : ExtTreeSet AString) (ops : List Op)
    (tick : TickData) :
    (∃ n, PassesOnce env ((run env classes ops).processOms env (.tick tick)) tick n) ↔
      PlacedAside env tick (run env classes ops).stopOrderCount none
        ((run env classes ops).processOms env (.tick tick)) := by
  have fed : Aside (run env classes ops) ((run env classes ops).processOms env (.tick tick)) :=
    aside_of_same rfl rfl rfl rfl
  exact passesOnce_iff (.start ((safe_run env classes ops).processOms _)
    ((tracked_run env classes ops).aside fed) ((filed_run env classes ops).processOms _))

section Placed

/-- A strategy that places a stop order below its price, and two more when that one is triggered. -/
def stopAgain : Environment :=
  { buyOnTick with
    react _ _
      | .onTick tick => if tick.lastPrice < 3500 then [.buy 3500 1 true false false] else []
      | .onStopOrder so => if so.status = .triggered ∧ so.stopOrderid = "STOP.1" then
          [.buy 3500 1 true false false, .buy 3500 1 true false false] else []
      | _ => [] }

def jump : TickData := { symbol := "rb2410", exchange := .shfe, lastPrice := 3600 }

/-- The two lie behind the first, and the second of them, STOP.3, is triggered by the same tick. It
is so too where STOP.2 takes the memory of the erased entry, and the loop steps on from there. -/
theorem placed_triggered :
    ¬ ∀ (env : Environment) (classes : ExtTreeSet AString) (ops : List Op) (tick : TickData),
      ∃ n, PassesOnce env ((run env classes ops).processOms env (.tick tick)) tick n := by
  intro all
  have fed : Aside (run stopAgain {"Dual"} placedOnTick)
      ((run stopAgain {"Dual"} placedOnTick).processOms stopAgain (.tick jump)) :=
    aside_of_same rfl rfl rfl rfl
  have aside := (passesOnce_iff (.start ((safe_run stopAgain _ _).processOms _)
    ((tracked_run stopAgain _ _).aside fed) ((filed_run stopAgain _ _).processOms _))).mp
      (all stopAgain {"Dual"} placedOnTick jump)
  have third : ((stopLoop stopAgain jump).turn (localId 2) 3 none
      ((run stopAgain {"Dual"} placedOnTick).processOms stopAgain (.tick jump))).map
        (fun t => t.stopOrders[localId 2]?.map (·.ktSymbol)) = some (some "rb2410.SHFE") := by
    decide +kernel
  obtain ⟨t, comes, booked⟩ := Option.map_eq_some_iff.mp third
  obtain ⟨so, stored, symbol⟩ := Option.map_eq_some_iff.mp booked
  exact aside 3 2 t so (by decide +kernel) rfl comes stored (symbol.trans (by decide +kernel))

end Placed

end CtaEngine

end KeenTrader.App
