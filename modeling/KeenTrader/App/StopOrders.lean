import KeenTrader.App.Changes

/-!
# The life of a local stop order

The notifications of a stop order are the calls of `on_stop_order`. Three functions end a local
stop order, and all of them take it out of the book and out of its strategy's ids before the
strategy is told. So a stop order that its strategy has been told the end of is gone, and one
that is in the book has only been told to be waiting, whatever strategies do when they are told.
-/

namespace KeenTrader.App

open Std (ExtTreeMap ExtTreeSet)
open Containers Handlers Runs KeenTrader.Engine

namespace CtaEngine

variable {env : Environment} {exempt : AString → Prop} {hears : Ptr → Prop} {s t u : CtaEngine}

/-! ## Notifications -/

def notices (trace : List Effect) : List StopOrder := trace.filterMap notice

/-- The statuses that have been told of a stop order. -/
def told (trace : List Effect) (stopOrderid : AString) : List StopOrderStatus :=
  ((notices trace).filter (·.stopOrderid = stopOrderid)).map (·.status)

/-- The stop orders that have been told to be waiting. -/
def issued (trace : List Effect) : List AString :=
  ((notices trace).filter (·.status = .waiting)).map (·.stopOrderid)

/-- The id that is given out next after `count` ids. -/
def localId (count : ℕ) : AString := "STOP" ++ "." ++ toString (count + 1)

/-- Waiting, and then at most one end. -/
def Settling (statuses : List StopOrderStatus) : Prop :=
  statuses = [.waiting] ∨ statuses = [.waiting, .triggered] ∨ statuses = [.waiting, .cancelled]

theorem localId_injective : Function.Injective localId := by
  intro m n same
  have digits : (m + 1).repr = (n + 1).repr := (String.append_right_inj _).mp same
  exact Nat.succ.inj (Nat.repr_injective digits)

theorem notices_append (first second : List Effect) :
    notices (first ++ second) = notices first ++ notices second :=
  List.filterMap_append

theorem told_append (first second : List Effect) (id : AString) :
    told (first ++ second) id = told first id ++ told second id := by
  simp [told, notices_append]

theorem issued_append (first second : List Effect) :
    issued (first ++ second) = issued first ++ issued second := by
  simp [issued, notices_append]

theorem notices_silent {e : Effect} (silent : notice e = none) : notices [e] = [] := by
  simp [notices, silent]

theorem notices_callback (p : Ptr) {so : StopOrder} (stop : isStopOrderid so.stopOrderid = true) :
    notices [.callback p (.onStopOrder so)] = [so] := by
  simp [notices, notice, stop]

theorem mem_issued {trace : List Effect} {id : AString} :
    id ∈ issued trace ↔ .waiting ∈ told trace id := by
  simp only [issued, told, List.mem_map, List.mem_filter, decide_eq_true_eq]
  constructor
  · rintro ⟨so, ⟨mem, waiting⟩, same⟩
    exact ⟨so, ⟨mem, same⟩, waiting⟩
  · rintro ⟨so, ⟨mem, same⟩, waiting⟩
    exact ⟨so, ⟨mem, waiting⟩, same⟩

/-- Only local stop orders are told of. -/
theorem isStopOrderid_of_told {trace : List Effect} {id : AString} {status : StopOrderStatus}
    (mem : status ∈ told trace id) : isStopOrderid id = true := by
  obtain ⟨so, found, -⟩ := List.mem_map.mp mem
  obtain ⟨noticed, same⟩ := List.mem_filter.mp found
  obtain ⟨e, -, announced⟩ := List.mem_filterMap.mp noticed
  unfold notice at announced
  grind

theorem Settling.head {statuses : List StopOrderStatus} (settling : Settling statuses) :
    .waiting ∈ statuses := by
  rcases settling with rfl | rfl | rfl <;> simp

/-! ## The invariant -/

/-- The ids that have been given out are numbered, and what has been told of each is in order. The
book holds stop orders that have only been told to be waiting, and the strategies' ids of stop
orders are those in the book. -/
structure Tracked (s : CtaEngine) : Prop where
  numbered : issued s.trace = (List.range s.stopOrderCount).map localId
  order : ∀ id, told s.trace id = [] ∨ Settling (told s.trace id)
  waiting : ∀ (id : AString) so, s.stopOrders[id]? = some so → told s.trace id = [.waiting]
  booked : ∀ name id, isStopOrderid id = true → id ∈ s.orderids name →
    ∃ so, s.stopOrders[id]? = some so ∧ so.strategyName = name

/-- The id that is given out next has not been told of. -/
theorem Tracked.next (tracked : s.Tracked) : told s.trace (localId s.stopOrderCount) = [] := by
  refine (tracked.order _).resolve_right fun settling => ?_
  have mem := mem_issued.mpr settling.head
  rw [tracked.numbered] at mem
  obtain ⟨n, before, same⟩ := List.mem_map.mp mem
  have := localId_injective same
  simp_all

/-- A change that does not concern local stop orders. -/
structure Aside (s t : CtaEngine) : Prop where
  trace : ∃ new, t.trace = s.trace ++ new ∧ notices new = []
  stopOrderCount : t.stopOrderCount = s.stopOrderCount
  stopOrders : t.stopOrders = s.stopOrders
  orderids : ∀ name id, isStopOrderid id = true → id ∈ t.orderids name → id ∈ s.orderids name

theorem aside_emit (s : CtaEngine) {e : Effect} (silent : notice e = none) : Aside s (s.emit e) :=
  ⟨⟨[e], rfl, notices_silent silent⟩, rfl, rfl, fun _ _ _ mem => mem⟩

theorem Tracked.aside (tracked : s.Tracked) (aside : Aside s t) : t.Tracked := by
  obtain ⟨⟨new, trace, silent⟩, count, book, ids⟩ := aside
  have told_eq : ∀ id, told t.trace id = told s.trace id := by
    intro id
    simp [trace, told, notices_append, silent]
  have issued_eq : issued t.trace = issued s.trace := by
    simp [trace, issued, notices_append, silent]
  constructor
  · rw [issued_eq, count]
    exact tracked.numbered
  · intro id
    rw [told_eq]
    exact tracked.order id
  · intro id so stored
    rw [told_eq]
    rw [book] at stored
    exact tracked.waiting id so stored
  · intro name id stop mem
    rw [book]
    exact tracked.booked name id stop (ids name id stop mem)

/-- What a notification adds to what has been told. -/
theorem told_notice (s : CtaEngine) (p : Ptr) {so : StopOrder}
    (stop : isStopOrderid so.stopOrderid = true) (id : AString) :
    told (s.emit (.callback p (.onStopOrder so))).trace id =
      told s.trace id ++ if so.stopOrderid = id then [so.status] else [] := by
  have last : told [.callback p (.onStopOrder so)] id =
      if so.stopOrderid = id then [so.status] else [] := by
    rw [told, notices_callback p stop]
    by_cases same : so.stopOrderid = id <;> simp [same]
  rw [emit, told_append, last]

theorem issued_notice (s : CtaEngine) (p : Ptr) {so : StopOrder}
    (stop : isStopOrderid so.stopOrderid = true) :
    issued (s.emit (.callback p (.onStopOrder so))).trace =
      issued s.trace ++ if so.status = .waiting then [so.stopOrderid] else [] := by
  have last : issued [.callback p (.onStopOrder so)] =
      if so.status = .waiting then [so.stopOrderid] else [] := by
    rw [issued, notices_callback p stop]
    by_cases same : so.status = .waiting <;> simp [same]
  rw [emit, issued_append, last]

theorem Tracked.issue (tracked : s.Tracked) (p : Ptr) {so : StopOrder}
    (owner : so.strategyName = (s.objects p).strategyName)
    (next : so.stopOrderid = localId s.stopOrderCount) (status : so.status = .waiting) :
    ((s.placeStopOrder p so).emit (.callback p (.onStopOrder so))).Tracked := by
  have stop : isStopOrderid so.stopOrderid = true := by rw [next]; exact isStopOrderid_local _
  have fresh : told s.trace so.stopOrderid = [] := by rw [next]; exact tracked.next
  constructor
  · rw [issued_notice _ p stop, if_pos status, next]
    change issued s.trace ++ _ = (List.range (s.stopOrderCount + 1)).map localId
    rw [tracked.numbered, List.range_succ, List.map_append, List.map_singleton]
  · intro id
    rw [told_notice _ p stop, status]
    change told s.trace id ++ _ = [] ∨ Settling (told s.trace id ++ _)
    by_cases same : so.stopOrderid = id
    · subst same
      exact .inr (by simp [fresh, Settling])
    · simpa [same] using tracked.order id
  · intro id other stored
    rw [told_notice _ p stop, status]
    change told s.trace id ++ _ = _
    by_cases same : so.stopOrderid = id
    · subst same
      simp [fresh]
    · have old : s.stopOrders[id]? = some other := by
        simpa [ExtTreeMap.getElem?_insert, same] using stored
      simpa [same] using tracked.waiting id other old
  · intro name id stop mem
    rcases mem_group_insert.mp mem with old | ⟨own, rfl⟩
    · obtain ⟨other, stored, named⟩ := tracked.booked name id stop old
      have same : ¬so.stopOrderid = id := by
        rintro rfl
        have again := tracked.waiting _ _ stored
        simp [fresh] at again
      refine ⟨other, ?_, named⟩
      simpa [ExtTreeMap.getElem?_insert, same] using stored
    · exact ⟨so, by simp, owner.trans own⟩

theorem Tracked.retire (tracked : s.Tracked) (p : Ptr) {id : AString} {so last : StopOrder}
    (stored : s.stopOrders[id]? = some so) (own : (s.objects p).strategyName = so.strategyName)
    (stop : isStopOrderid id = true) (same : last.stopOrderid = id)
    (status : last.status ≠ .waiting) :
    ((s.dropStopOrder p id).emit (.callback p (.onStopOrder last))).Tracked := by
  subst same
  constructor
  · rw [issued_notice _ p stop, if_neg status, List.append_nil]
    exact tracked.numbered
  · intro k
    rw [told_notice _ p stop]
    change told s.trace k ++ _ = [] ∨ Settling (told s.trace k ++ _)
    by_cases ended : last.stopOrderid = k
    · subst ended
      rw [tracked.waiting _ so stored]
      cases last_status : last.status with
      | waiting => exact absurd last_status status
      | triggered => simp [Settling]
      | cancelled => simp [Settling]
    · simpa [ended] using tracked.order k
  · intro k other left
    rw [told_notice _ p stop]
    change told s.trace k ++ _ = _
    by_cases ended : last.stopOrderid = k
    · subst ended
      simp at left
    · have old : s.stopOrders[k]? = some other := by
        simpa [ExtTreeMap.getElem?_erase, ended] using left
      simpa [ended] using tracked.waiting k other old
  · intro name k stop_k mem
    obtain ⟨old, apart⟩ := mem_group_erase.mp mem
    obtain ⟨other, found, owner⟩ := tracked.booked name k stop_k old
    have different : ¬last.stopOrderid = k := by
      rintro rfl
      obtain rfl := Option.some.inj (stored.symm.trans found)
      exact apart ⟨own.trans owner, rfl⟩
    refine ⟨other, ?_, owner⟩
    simpa [ExtTreeMap.getElem?_erase, different] using found

theorem aside_sendRequest (s : CtaEngine) (p : Ptr) (req : OrderRequest) (exchangeName : AString) :
    Aside s (sendRequest env s p req exchangeName).2 := by
  rcases sendRequest_cases env s p req exchangeName with ⟨-, eq⟩ | ⟨orderid, accepted, eq⟩
  · rw [eq]
    exact aside_emit s rfl
  · rw [eq]
    refine ⟨⟨_, rfl, rfl⟩, rfl, rfl, fun name id stop mem => ?_⟩
    have exchange := isStopOrderid_of_exchange (env.accept_name _ _ _ _ accepted) orderid
    have other : ¬exchangeName ++ "." ++ orderid = id := by
      rintro rfl
      simp [exchange] at stop
    exact (mem_group_insert.mp mem).resolve_right fun new => other new.2

theorem Move.tracked (move : Move env s t) (guarded : s.Guarded exempt) (tracked : s.Tracked) :
    t.Tracked := by
  cases move with
  | quiet e action silent => exact tracked.aside (aside_emit s silent)
  | convert req exchangeName lock net =>
    exact tracked.aside ⟨⟨[], by simp, rfl⟩, rfl, rfl, fun _ _ _ mem => mem⟩
  | send p req exchangeName trading => exact tracked.aside (aside_sendRequest s p req exchangeName)
  | issue p so trading owner id status => exact tracked.issue p owner id status
  | retire p stopOrderid so last stop found owner id status =>
    obtain ⟨-, key, -⟩ := guarded.stops stopOrderid so found
    exact tracked.retire p found (guarded.names _ p owner).1 stop (id.trans key) status

/-! ## The operations -/

theorem Aside.grows (aside : Aside s t) : s.trace <+: t.trace := by
  obtain ⟨⟨new, trace, -⟩, -⟩ := aside
  exact ⟨new, trace.symm⟩

/-- A change of what neither the trace nor the stop orders are part of. -/
theorem aside_of_same (trace : t.trace = s.trace) (count : t.stopOrderCount = s.stopOrderCount)
    (book : t.stopOrders = s.stopOrders) (ids : t.strategyOrderidMap = s.strategyOrderidMap) :
    Aside s t :=
  ⟨⟨[], by simp [trace], rfl⟩, count, book, fun _ _ _ mem => by rwa [orderids, ids] at mem⟩

theorem aside_forget (s : CtaEngine) (name id : AString) :
    Aside s (s.setOrderids name ((s.orderids name).erase id)) := by
  refine ⟨⟨[], by simp, rfl⟩, rfl, rfl, fun other k stop mem => ?_⟩
  exact (mem_group_erase.mp mem).1

/-- The engine's own changes do not concern local stop orders. -/
theorem Change.cases_aside (change : Change env hears s t) : Move env s t ∨ Aside s t := by
  cases change with
  | move move => exact .inl move
  | callback p cb quiet heard => exact .inr (aside_emit s quiet)
  | emit e plain =>
    refine .inr (aside_emit s ?_)
    cases e <;> simp_all [Effect.plain, notice]
  | forget name id exchange => exact .inr (aside_forget s name id)
  | oms oms => exact .inr (aside_of_same rfl rfl rfl rfl)
  | seen ids => exact .inr (aside_of_same rfl rfl rfl rfl)
  | pos p pos heard => exact .inr (aside_of_same rfl rfl rfl rfl)
  | flags name p inited trading registered => exact .inr (aside_of_same rfl rfl rfl rfl)
  | setting name v file saved => exact .inr (aside_of_same rfl rfl rfl rfl)
  | register className name ktSymbol v file unused saved =>
    exact .inr (aside_of_same rfl rfl rfl rfl)

theorem Change.tracked (change : Change env hears s t) (loose : s.Loose) (tracked : s.Tracked) :
    t.Tracked := by
  rcases change.cases_aside with move | aside
  · exact move.tracked loose tracked
  · exact tracked.aside aside

theorem Moves.tracked (moves : Moves env s t) (guarded : s.Guarded exempt) (tracked : s.Tracked) :
    t.Tracked := by
  have both : t.Guarded exempt ∧ t.Tracked := by
    induction moves with
    | refl => exact ⟨guarded, tracked⟩
    | tail _ move ih => exact ⟨move.acts.guarded ih.1, move.tracked ih.1 ih.2⟩
  exact both.2

theorem Moves.grows (moves : Moves env s t) : s.trace <+: t.trace := by
  obtain ⟨new, progress⟩ := moves.acts.progress
  exact ⟨new, progress.trace.symm⟩

theorem Changes.grows (changes : Changes env hears s t) : s.trace <+: t.trace := by
  induction changes with
  | refl => exact List.prefix_refl _
  | tail _ change ih =>
    rcases change.cases_aside with move | aside
    · exact ih.trans (Moves.grows (.single move))
    · exact ih.trans aside.grows

/-- A strategy that is removed takes its ids with it. -/
theorem aside_removeStrategy (s : CtaEngine) (name : AString) :
    Aside s (s.removeStrategy name) := by
  have same : Aside s s := ⟨⟨[], by simp, rfl⟩, rfl, rfl, fun _ _ _ mem => mem⟩
  unfold removeStrategy withStrategy
  rw [removeStrategySetting_eq]
  cases s.strategies[name]? with
  | none => exact same
  | some p =>
    refine iteInduction (motive := Aside s) (fun _ => aside_emit s rfl) fun _ => ?_
    exact ⟨⟨[], by simp, rfl⟩, rfl, rfl, fun other id stop mem => (mem_group_forget.mp mem).1⟩

/-- Every step keeps the invariant and adds to the trace. -/
theorem Tracked.step (tracked : s.Tracked) (safe : s.Safe) (op : Op) :
    (s.step env op).Tracked ∧ s.trace <+: (s.step env op).trace := by
  by_cases removal : ∃ name, op = .removeStrategy name
  · obtain ⟨name, rfl⟩ := removal
    have aside := aside_removeStrategy s name
    exact ⟨tracked.aside aside, aside.grows⟩
  · have changes := changes_step env safe op fun name same => removal ⟨name, same⟩
    exact ⟨changes.invariant safe.loose (fun change => change.tracked) tracked, changes.grows⟩

/-! ## The orders of triggered stop orders -/

/-- A call of `send_limit_order` for a stop order: the state in which it is made and the ids that
it returns. -/
structure Attempt where
  state : CtaEngine
  stopOrderid : AString
  ktOrderids : List AString

namespace Attempt

def accepted (a : Attempt) : Bool := a.ktOrderids ≠ []

end Attempt

section Attempts
variable (env)

def visitAttempts (s : CtaEngine) (tick : TickData) (so : StopOrder) : List Attempt :=
  if Triggers tick so then
    match s.strategies[so.strategyName]?, s.oms.getContract so.ktSymbol with
    | some p, some contract =>
      [⟨s, so.stopOrderid, (sendTriggered env s tick p contract so).1⟩]
    | _, _ => []
  else []

/-- The calls that the loop of `check_stop_order` makes. -/
def passAttempts (tick : TickData) : ℕ → Option AString → CtaEngine → List Attempt
  | 0, _, _ => []
  | n + 1, after, s =>
    match s.nextStopOrder after with
    | none => []
    | some (key, so) =>
      visitAttempts env s tick so ++
        match checkOne env s tick so with
        | none => []
        | some s => passAttempts tick n (some key) s

def tickAttempts (s : CtaEngine) (tick : TickData) : List Attempt :=
  match s.symbolStrategyMap.getD tick.ktSymbol [] with
  | [] => []
  | _ => passAttempts env tick env.passes none s

def opAttempts (s : CtaEngine) : Op → List Attempt
  | .tick tick => tickAttempts env (s.processOms env (.tick tick)) tick
  | _ => []

/-- The calls of a run. -/
def attempts : CtaEngine → List Op → List Attempt
  | _, [] => []
  | s, op :: ops => opAttempts env s op ++ attempts (s.step env op) ops

end Attempts

/-- The strategy of the stop order has been told its end. -/
def Ended (s : CtaEngine) (id : AString) : Prop := ∃ status ≠ .waiting, status ∈ told s.trace id

theorem Ended.later {id : AString} (ended : s.Ended id) (grows : s.trace <+: t.trace) :
    t.Ended id := by
  obtain ⟨status, terminal, mem⟩ := ended
  obtain ⟨new, trace⟩ := grows
  refine ⟨status, terminal, ?_⟩
  rw [← trace, told_append]
  exact List.mem_append_left _ mem

theorem not_ended_of_waiting {id : AString} (waiting : told s.trace id = [.waiting]) :
    ¬s.Ended id := by
  rintro ⟨status, terminal, mem⟩
  rw [waiting] at mem
  exact terminal (List.mem_singleton.mp mem)

/-- Between two states orders are sent for stop orders that have only been told to be waiting, and
those for which one is accepted are different ones, and have ended. -/
structure Attempted (s t : CtaEngine) (as : List Attempt) : Prop where
  waiting : ∀ a ∈ as, told a.state.trace a.stopOrderid = [.waiting]
  after : ∀ a ∈ as, s.trace <+: a.state.trace
  once : ((as.filter Attempt.accepted).map Attempt.stopOrderid).Nodup
  ended : ∀ a ∈ as, a.accepted = true → t.Ended a.stopOrderid
  grows : s.trace <+: t.trace

theorem Attempted.none (grows : s.trace <+: t.trace) : Attempted s t [] :=
  ⟨by simp, by simp, by simp, by simp, grows⟩

theorem Attempted.trans {first second : List Attempt} (h : Attempted s t first)
    (h' : Attempted t u second) : Attempted s u (first ++ second) where
  waiting a mem := (List.mem_append.mp mem).elim (h.waiting a) (h'.waiting a)
  after a mem :=
    (List.mem_append.mp mem).elim (h.after a) fun later => h.grows.trans (h'.after a later)
  once := by
    rw [List.filter_append, List.map_append, List.nodup_append]
    refine ⟨h.once, h'.once, ?_⟩
    -- what has been accepted first has ended, and what is sent later has not
    intro id early id' late same_id
    subst same_id
    obtain ⟨a, a_mem, rfl⟩ := List.mem_map.mp early
    obtain ⟨b, b_mem, same⟩ := List.mem_map.mp late
    obtain ⟨a_mem, accepted⟩ := List.mem_filter.mp a_mem
    have b_mem := List.mem_of_mem_filter b_mem
    have ended := (h.ended a a_mem accepted).later (h'.after b b_mem)
    rw [← same] at ended
    exact not_ended_of_waiting (h'.waiting b b_mem) ended
  ended a mem accepted := by
    rcases List.mem_append.mp mem with early | late
    · exact (h.ended a early accepted).later h'.grows
    · exact h'.ended a late accepted
  grows := h.grows.trans h'.grows

theorem ended_notice (s : CtaEngine) (p : Ptr) (so : StopOrder)
    (stop : isStopOrderid so.stopOrderid = true) (terminal : so.status ≠ .waiting) :
    (s.emit (.callback p (.onStopOrder so))).Ended so.stopOrderid := by
  refine ⟨so.status, terminal, ?_⟩
  rw [told_notice s p stop]
  simp

variable (env) in
/-- One visit: a stop order whose order is accepted has ended after it. -/
theorem attempted_visit (tick : TickData) {key : AString} {so : StopOrder} (safe : s.Safe)
    (tracked : s.Tracked) (stored : s.stopOrders[key]? = some so) :
    Attempted s ((checkOne env s tick so).getD s) (visitAttempts env s tick so) := by
  obtain ⟨stop, rfl, -⟩ := safe.stops key so stored
  have moves : ∀ u, checkOne env s tick so = some u → Moves env s u := fun u visited =>
    moves_checkOne safe stored visited
  unfold visitAttempts
  rcases checkOne_cases env s tick so with
    ⟨idle, same⟩ | ⟨-, missing, threw⟩ | ⟨p, contract, triggers, owner, found, sent⟩
  · rw [if_neg idle, same]
    exact .none (List.prefix_refl _)
  · have nothing : (match s.strategies[so.strategyName]?, s.oms.getContract so.ktSymbol with
        | some p, some contract =>
          [(⟨s, so.stopOrderid, (sendTriggered env s tick p contract so).1⟩ : Attempt)]
        | _, _ => []) = [] := by
      rcases missing with missing | missing <;> simp [missing]
    rw [nothing, threw, ite_self]
    exact .none (List.prefix_refl _)
  · rw [if_pos triggers, owner, found]
    simp only
    have waiting := tracked.waiting _ so stored
    rcases sent with ⟨u, eq, visited⟩ | ⟨id, ids, u, last, eq, last_eq, visited⟩
    · have grows := (moves u visited).grows
      rw [visited, eq]
      exact ⟨by simpa using waiting, by simp, by simp [Attempt.accepted],
        by simp [Attempt.accepted], grows⟩
    · have grows := (moves _ visited).grows
      rw [visited, eq]
      have ended : ((call env p (.onStopOrder last)
          (u.dropStopOrder p so.stopOrderid)).putStopOrderEvent last).Ended so.stopOrderid := by
        have told_last := ended_notice (u.dropStopOrder p so.stopOrderid) p last
          (by rw [last_eq]; exact stop) (by simp [last_eq])
        have rest : Moves env _ _ := (moves_call env p (.onStopOrder last)
          (u.dropStopOrder p so.stopOrderid)).trans (moves_putStopOrderEvent _ last)
        rw [show last.stopOrderid = so.stopOrderid by rw [last_eq]] at told_last
        exact told_last.later rest.grows
      exact ⟨by simpa using waiting, by simp, by simp [Attempt.accepted],
        by simpa [Attempt.accepted] using ended, grows⟩

variable (env) in
/-- A pass keeps the invariant, and sends as it should. -/
theorem attempted_pass (tick : TickData) (n : ℕ) (after : Option AString) (safe : s.Safe)
    (tracked : s.Tracked) :
    Attempted s (checkStopOrders env tick n after s).1 (passAttempts env tick n after s) := by
  induction n generalizing after s with
  | zero => exact .none (List.prefix_refl _)
  | succ n ih =>
    unfold checkStopOrders passAttempts
    cases next : s.nextStopOrder after with
    | none => exact .none (List.prefix_refl _)
    | some entry =>
      obtain ⟨key, so⟩ := entry
      have stored := nextStopOrder_stored next
      have visit := attempted_visit env tick safe tracked stored
      simp only
      cases visited : checkOne env s tick so with
      | none => simpa [visited] using visit
      | some u =>
        have moves := moves_checkOne safe stored visited
        simp only [visited, Option.getD_some] at visit ⊢
        exact visit.trans (ih (some key) (moves.acts.guarded safe) (moves.tracked safe tracked))

/-! ## Runs -/

theorem tracked_init (classes : ExtTreeSet AString) : ({ classes } : CtaEngine).Tracked where
  numbered := rfl
  order id := .inl rfl
  waiting := by simp
  booked := by simp [orderids]

variable (env) in
theorem tracked_run (classes : ExtTreeSet AString) (ops : List Op) :
    (run env classes ops).Tracked :=
  (foldl_invariant (step env) (P := fun s => s.Safe ∧ s.Tracked)
    (fun _ op now => ⟨now.1.step op, (now.2.step now.1 op).1⟩)
    ⟨safe_init classes, tracked_init classes⟩).2

theorem attempted_tick (tick : TickData) (safe : s.Safe) (tracked : s.Tracked) :
    Attempted s (s.processTickEvent env tick) (tickAttempts env s tick) := by
  unfold processTickEvent tickAttempts
  cases s.symbolStrategyMap.getD tick.ktSymbol [] with
  | nil => exact .none (List.prefix_refl _)
  | cons p strategies =>
    have pass := attempted_pass env tick env.passes none safe tracked
    refine iteInduction (motive := fun t => Attempted s t _) (fun _ => ?_) fun _ => pass
    have ticks : Changes env (fun _ => False) _ _ :=
      changes_foldl_onTick tick (p :: strategies) (s.checkStopOrder env tick).1
    have both := pass.trans (.none ticks.grows)
    rw [List.append_nil] at both
    exact both

/-- One step sends as it should. -/
theorem attempted_step (op : Op) (safe : s.Safe) (tracked : s.Tracked) :
    Attempted s (s.step env op) (opAttempts env s op) := by
  cases op with
  | tick tick =>
    have fed : Aside s (s.processOms env (.tick tick)) := aside_of_same rfl rfl rfl rfl
    exact (Attempted.none fed.grows).trans
      (attempted_tick tick (safe.processOms _) (tracked.aside fed))
  | _ => exact .none (tracked.step safe _).2

variable (env) in
theorem attempted_run (ops : List Op) (safe : s.Safe) (tracked : s.Tracked) :
    Attempted s (ops.foldl (step env) s) (attempts env s ops) := by
  induction ops generalizing s with
  | nil => exact .none (List.prefix_refl _)
  | cons op ops ih =>
    exact (attempted_step op safe tracked).trans
      (ih (safe.step op) (tracked.step safe op).1)

/-- The ids of local stop orders are given out once each. A stop order that has been given one is
told to be waiting, and then at most one end of it; orders are sent for it only while it has been
told to be waiting and nothing else, and are accepted in at most one call; and once its strategy
has been told its end, it is neither in the book nor among the ids of any strategy. -/
theorem stop_orders_end_once (env : Environment) (classes : ExtTreeSet AString) (ops : List Op) :
    (issued (run env classes ops).trace =
        (List.range (run env classes ops).stopOrderCount).map localId ∧
      (issued (run env classes ops).trace).Nodup) ∧
    (∀ id ∈ issued (run env classes ops).trace, Settling (told (run env classes ops).trace id)) ∧
    (∀ a ∈ attempts env { classes } ops, told a.state.trace a.stopOrderid = [.waiting]) ∧
    (((attempts env { classes } ops).filter Attempt.accepted).map Attempt.stopOrderid).Nodup ∧
    ∀ id, (run env classes ops).Ended id → id ∉ (run env classes ops).stopOrders ∧
      ∀ name, id ∉ (run env classes ops).orderids name := by
  have tracked := tracked_run env classes ops
  have sent := attempted_run env ops (safe_init classes) (tracked_init classes)
  refine ⟨⟨tracked.numbered, ?_⟩, ?_, sent.waiting, sent.once, ?_⟩
  · rw [tracked.numbered]
    exact List.nodup_range.map localId_injective
  · intro id mem
    have waiting := mem_issued.mp mem
    refine (tracked.order id).resolve_left fun nothing => ?_
    simp [nothing] at waiting
  · intro id ended
    have gone : ∀ so, (run env classes ops).stopOrders[id]? ≠ some so := fun so stored =>
      not_ended_of_waiting (tracked.waiting id so stored) ended
    refine ⟨?_, fun name mem => ?_⟩
    · rw [ExtTreeMap.mem_iff_isSome_getElem?, Option.isSome_iff_exists]
      rintro ⟨so, stored⟩
      exact gone so stored
    · obtain ⟨status, -, mem_told⟩ := ended
      obtain ⟨so, stored, -⟩ := tracked.booked name id (isStopOrderid_of_told mem_told) mem
      exact gone so stored

end CtaEngine

end KeenTrader.App
