import KeenTrader.App.Filing
import KeenTrader.App.RBreakTicks
import KeenTrader.App.Stopping

/-!
# Strategies that rearm

A strategy that places stop orders with every bar has to take back those of the bar before. Here a
strategy sends stop orders only behind a cancellation of all its orders, and does nothing when it is
told of a stop order. So it has never more of them waiting than it sends at once, whatever the other
strategies do and whatever happens to its orders.
-/

namespace KeenTrader.App

open Std (ExtTreeMap ExtTreeSet)
open Containers Handlers Runs KeenTrader.Engine

namespace TemplateCall

def isStop : TemplateCall → Bool
  | .sendOrder _ _ _ _ stop _ _ => stop
  | _ => false

/-- Calls without a stop order, or with at most `n` of them behind the last cancellation. -/
def Rearms (n : ℕ) (calls : List TemplateCall) : Prop :=
  (∀ c ∈ calls, c.isStop = false) ∨
    ∃ before after, calls = before ++ .cancelAll :: after ∧ after.countP isStop ≤ n

end TemplateCall

open TemplateCall (Rearms)

/-- The strategies of a name rearm, and do nothing when they are told of a stop order. -/
structure Environment.Rearming (env : Environment) (name : AString) (n : ℕ) : Prop where
  rearms : ∀ s p cb, (s.objects p).strategyName = name → Rearms n (env.react s p cb)
  told : ∀ s p so, (s.objects p).strategyName = name → env.react s p (.onStopOrder so) = []

namespace CtaEngine

variable {env : Environment} {name : AString} {n : ℕ} {s t u : CtaEngine}

/-! ## The stop orders of one strategy -/

/-- The id is that of a stop order of the strategy. -/
def Own (name : AString) (s : CtaEngine) (id : AString) : Prop :=
  ∃ so, s.stopOrders[id]? = some so ∧ so.strategyName = name

/-- No stop order of the strategy is new. -/
structure Shrinks (name : AString) (s t : CtaEngine) : Prop where
  objects : t.objects = s.objects
  strategies : t.strategies = s.strategies
  own : ∀ id, Own name t id → Own name s id

theorem Shrinks.refl (s : CtaEngine) : Shrinks name s s := ⟨rfl, rfl, fun _ => id⟩

theorem Shrinks.trans (first : Shrinks name s t) (second : Shrinks name t u) :
    Shrinks name s u where
  objects := second.objects.trans first.objects
  strategies := second.strategies.trans first.strategies
  own id there := first.own id (second.own id there)

theorem shrinks_of_book (objects : t.objects = s.objects) (strategies : t.strategies = s.strategies)
    (book : t.stopOrders = s.stopOrders) : Shrinks name s t := by
  refine ⟨objects, strategies, fun id there => ?_⟩
  rwa [Own, book] at there

theorem shrinks_emit (s : CtaEngine) (e : Effect) : Shrinks name s (s.emit e) :=
  shrinks_of_book rfl rfl rfl

theorem shrinks_writeLog (s : CtaEngine) (msg : AString) (strategy : Option Ptr) :
    Shrinks name s (s.writeLog msg strategy) := by
  cases strategy <;> exact shrinks_emit s _

theorem shrinks_sendRequests (p : Ptr) (exchangeName : AString) (reqs : List OrderRequest)
    (s : CtaEngine) : Shrinks name s (sendRequests env p exchangeName reqs s).2 := by
  induction reqs generalizing s with
  | nil => exact .refl s
  | cons req reqs ih =>
    have first : Shrinks name s (sendRequest env s p req exchangeName).2 := by
      rcases sendRequest_cases env s p req exchangeName with ⟨-, eq⟩ | ⟨_, -, eq⟩ <;> rw [eq] <;>
        exact shrinks_of_book rfl rfl rfl
    exact first.trans (ih _)

theorem shrinks_sendServerOrder (s : CtaEngine) (p : Ptr) (contract : ContractData)
    (direction : Direction) (offset : Offset) (price volume : ℚ) (type : Engine.OrderType)
    (lock net : Bool) : Shrinks name s
      (sendServerOrder env s p contract direction offset price volume type lock net).2 := by
  unfold sendServerOrder
  generalize ({ symbol := contract.symbol, exchange := contract.exchange, direction, type
                volume, price, offset, reference := _ } : OrderRequest) = req
  have convert : Shrinks name s
      { s with oms := (s.oms.boundConvertOrderRequest req contract.exchangeName lock net).2 } :=
    shrinks_of_book rfl rfl rfl
  exact convert.trans (shrinks_sendRequests p contract.exchangeName _ _)

/-- A stop order that is dropped is not the strategy's any more. -/
theorem shrinks_drop (s : CtaEngine) (p : Ptr) (stopOrderid : AString) :
    Shrinks name s (s.dropStopOrder p stopOrderid) ∧
      ¬Own name (s.dropStopOrder p stopOrderid) stopOrderid := by
  refine ⟨⟨rfl, rfl, ?_⟩, ?_⟩
  · rintro id ⟨so, stored, named⟩
    rw [dropStopOrder_stopOrders, ExtTreeMap.getElem?_erase] at stored
    split at stored
    · contradiction
    · exact ⟨so, stored, named⟩
  · rintro ⟨so, stored, -⟩
    simp at stored

/-- What a placed stop order adds, if anything. -/
theorem own_place {p : Ptr} {so : StopOrder} (owner : so.strategyName = (s.objects p).strategyName)
    {id : AString} (there : Own name (s.placeStopOrder p so) id) :
    Own name s id ∨ (s.objects p).strategyName = name ∧ id = so.stopOrderid := by
  obtain ⟨so', stored, named⟩ := there
  rw [placeStopOrder_stopOrders] at stored
  rcases getElem?_insert_cases stored with ⟨rfl, same⟩ | old
  · exact .inr ⟨owner.symm.trans named, same.symm⟩
  · exact .inl ⟨so', old, named⟩

/-! ## What strategies do -/

section Runners
variable {call : Runner}
  (told : ∀ p so s, Shrinks name s (call p (.onStopOrder so) s))
include told

theorem shrinks_cancelOrder (s : CtaEngine) (p : Ptr) (id : AString) :
    Shrinks name s (cancelOrder call s p id) := by
  unfold cancelOrder
  split
  · unfold cancelLocalStopOrder
    split
    · exact .refl s
    split
    · exact .refl s
    · rename_i q _
      exact ((shrinks_drop s q id).1.trans (told q _ _)).trans (shrinks_emit _ _)
  · unfold cancelServerOrder
    split
    · exact shrinks_writeLog s _ _
    · exact shrinks_emit s _

theorem shrinks_cancelOrders (p : Ptr) (ids : List AString) (s : CtaEngine) :
    Shrinks name s (ids.foldl (fun s id => cancelOrder call s p id) s) :=
  foldl_relation _ (R := Shrinks name) .refl .trans fun s id => shrinks_cancelOrder told s p id

/-- A call places at most one stop order of the strategy, and this only if it asks for one. -/
theorem own_templateCall (env : Environment) (s : CtaEngine) (p : Ptr) (c : TemplateCall) :
    let t := templateCall env call s p c
    t.objects = s.objects ∧ t.strategies = s.strategies ∧
      ∃ new, ∀ id, Own name t id →
        Own name s id ∨ (s.objects p).strategyName = name ∧ c.isStop = true ∧ id = new := by
  have none {t : CtaEngine} (shrinks : Shrinks name s t) :
      t.objects = s.objects ∧ t.strategies = s.strategies ∧ ∃ new, ∀ id, Own name t id →
        Own name s id ∨ (s.objects p).strategyName = name ∧ c.isStop = true ∧ id = new :=
    ⟨shrinks.objects, shrinks.strategies, "", fun id there => .inl (shrinks.own id there)⟩
  unfold templateCall
  split
  · cases c with
    | cancelOrder ktOrderid => exact none (shrinks_cancelOrder told s p ktOrderid)
    | cancelAll => exact none (shrinks_cancelOrders told p _ s)
    | sendOrder direction offset price volume stop lock net =>
      simp only
      unfold sendOrder
      split
      · exact none (shrinks_writeLog s _ (some p))
      · rename_i contract _
        simp only
        split
        · split
          · exact none (shrinks_sendServerOrder s p contract _ _ _ _ _ _ _)
          · rename_i stops _
            unfold sendLocalStopOrder
            simp only
            generalize placed : ({ ktSymbol := (s.objects p).ktSymbol, direction, offset
                                   price := roundTo price contract.pricetick
                                   volume := roundTo volume contract.minVolume
                                   stopOrderid := "STOP" ++ "." ++ toString (s.stopOrderCount + 1)
                                   strategyName := (s.objects p).strategyName
                                   lock, net } : StopOrder) = so
            have owner : so.strategyName = (s.objects p).strategyName := by rw [← placed]
            have later : Shrinks name (s.placeStopOrder p so) _ :=
              (told p so _).trans (shrinks_emit _ (.stopOrderEvent so))
            refine ⟨later.objects, later.strategies, so.stopOrderid, fun id there => ?_⟩
            rcases own_place owner (later.own id there) with old | ⟨named, same⟩
            · exact .inl old
            · exact .inr ⟨named, stops, same⟩
        · exact none (shrinks_sendServerOrder s p contract _ _ _ _ _ _ _)
  · exact none (.refl s)

theorem shrinks_templateCall (s : CtaEngine) (p : Ptr) (c : TemplateCall)
    (other : (s.objects p).strategyName ≠ name ∨ c.isStop = false) :
    Shrinks name s (templateCall env call s p c) := by
  obtain ⟨objects, strategies, new, own⟩ := own_templateCall told env s p c
  refine ⟨objects, strategies, fun id there => (own id there).resolve_right ?_⟩
  rintro ⟨named, stops, -⟩
  rcases other with apart | quiet
  · exact apart named
  · simp [stops] at quiet

theorem shrinks_templateCalls (p : Ptr) (calls : List TemplateCall) (s : CtaEngine)
    (other : (s.objects p).strategyName ≠ name ∨ ∀ c ∈ calls, c.isStop = false) :
    Shrinks name s (calls.foldl (fun s c => templateCall env call s p c) s) := by
  induction calls generalizing s with
  | nil => exact .refl s
  | cons c calls ih =>
    have first : Shrinks name s (templateCall env call s p c) :=
      shrinks_templateCall told s p c (other.imp_right fun quiet => quiet c (by simp))
    refine first.trans (ih _ ?_)
    rw [first.objects]
    exact other.imp_right fun quiet c mem => quiet c (by simp [mem])

/-- Cancelling what the strategy has leaves nothing of it. -/
theorem cancelOrders_clear (p : Ptr) {q : Ptr} (ids : List AString) (s : CtaEngine)
    (registered : s.strategies[name]? = some q)
    (all : ∀ id, Own name s id → id ∈ ids ∧ isStopOrderid id = true) (id : AString) :
    ¬Own name (ids.foldl (fun s id => cancelOrder call s p id) s) id := by
  induction ids generalizing s with
  | nil => exact fun there => by simpa using (all id there).1
  | cons k ids ih =>
    have first : Shrinks name s (cancelOrder call s p k) := shrinks_cancelOrder told s p k
    have gone : ¬Own name (cancelOrder call s p k) k := by
      intro there
      obtain ⟨so, stored, named⟩ := first.own k there
      have stop := (all k ⟨so, stored, named⟩).2
      have owner : s.strategies[so.strategyName]? = some q := named ▸ registered
      simp only [cancelOrder, stop, if_true, cancelLocalStopOrder, stored, owner] at there
      have later : Shrinks name (s.dropStopOrder q k) _ :=
        (told q { so with status := .cancelled } _).trans
          (shrinks_emit _ (.stopOrderEvent { so with status := .cancelled }))
      exact (shrinks_drop s q k).2 (later.own k there)
    refine ih _ (by rw [first.strategies]; exact registered) fun j there => ?_
    obtain ⟨mem, stop⟩ := all j (first.own j there)
    refine ⟨(List.mem_cons.mp mem).resolve_left ?_, stop⟩
    rintro rfl
    exact gone there

end Runners

/-- At most so many stop orders of the strategy are waiting. -/
def AtMost (name : AString) (n : ℕ) (s : CtaEngine) : Prop :=
  ∃ ids : List AString, ids.length ≤ n ∧ ∀ id, Own name s id → id ∈ ids

theorem AtMost.shrinks (few : AtMost name n s) (shrinks : Shrinks name s t) : AtMost name n t := by
  obtain ⟨ids, length, all⟩ := few
  exact ⟨ids, length, fun id there => all id (shrinks.own id there)⟩

theorem AtMost.templateCalls {call : Runner}
    (told : ∀ p so s, Shrinks name s (call p (.onStopOrder so) s)) {m : ℕ} (p : Ptr)
    (calls : List TemplateCall) (few : AtMost name m s) :
    AtMost name (m + calls.countP TemplateCall.isStop)
      (calls.foldl (fun s c => templateCall env call s p c) s) := by
  induction calls generalizing s m with
  | nil => exact few
  | cons c calls ih =>
    obtain ⟨-, -, new, own⟩ := own_templateCall told env s p c
    obtain ⟨ids, length, all⟩ := few
    rw [List.foldl_cons, List.countP_cons]
    cases stops : c.isStop with
    | false =>
      refine ih ⟨ids, length, fun id there => all id ?_⟩
      exact (own id there).resolve_right fun ⟨_, asked, _⟩ => by simp [stops] at asked
    | true =>
      have one : AtMost name (m + 1) (templateCall env call s p c) := by
        refine ⟨new :: ids, by simpa using length, fun id there => ?_⟩
        rcases own id there with old | ⟨-, -, rfl⟩
        · exact List.mem_cons_of_mem _ (all id old)
        · exact List.mem_cons_self ..
      have counted := ih one
      rwa [if_pos rfl, Nat.add_comm _ 1, ← Nat.add_assoc]

/-- Who is not the strategy, or is only told of a stop order, adds nothing to its stop orders. -/
theorem shrinks_callback (rearming : env.Rearming name n) (k : ℕ) (p : Ptr) (cb : Callback)
    (s : CtaEngine) (other : (s.objects p).strategyName ≠ name ∨ ∃ so, cb = .onStopOrder so) :
    Shrinks name s (callback env k p cb s) := by
  induction k generalizing p cb s with
  | zero => exact shrinks_emit s _
  | succ k ih =>
    have told : ∀ p so s, Shrinks name s (callback env k p (.onStopOrder so) s) :=
      fun p so s => ih p _ s (.inr ⟨so, rfl⟩)
    refine (shrinks_emit s (.callback p cb)).trans (shrinks_templateCalls told p _ _ ?_)
    by_cases named : (s.objects p).strategyName = name
    · obtain ⟨so, rfl⟩ := other.resolve_left (not_not.mpr named)
      refine .inr fun c mem => ?_
      rw [rearming.told (s.emit _) p so named] at mem
      simp at mem
    · exact .inl named

theorem shrinks_told (rearming : env.Rearming name n) (p : Ptr) (so : StopOrder) (s : CtaEngine) :
    Shrinks name s (call env p (.onStopOrder so) s) :=
  shrinks_callback rearming env.depth p _ s (.inr ⟨so, rfl⟩)

/-! ## The reactions of the strategy -/

/-- Cancelling everything leaves no stop order of a strategy that is trading. -/
theorem atMost_cancelAll {call : Runner}
    (told : ∀ p so s, Shrinks name s (call p (.onStopOrder so) s)) (loose : s.Loose) {p : Ptr}
    (named : (s.objects p).strategyName = name) (trading : (s.objects p).trading = true) :
    AtMost name 0 (cancelAll call s p) := by
  have registered := loose.traders p trading
  rw [named] at registered
  refine ⟨[], le_rfl, fun id there => absurd there ?_⟩
  refine cancelOrders_clear told p _ s registered (fun id own => ?_) id
  obtain ⟨so, stored, own⟩ := own
  obtain ⟨stop, -, mem, -⟩ := loose.stops id so stored
  refine ⟨?_, stop⟩
  rw [named, ExtTreeSet.mem_toList, ← own]
  exact mem

theorem AtMost.reaction {call : Runner} (reacts : Reacts env call)
    (told : ∀ p so s, Shrinks name s (call p (.onStopOrder so) s)) (loose : s.Loose) {p : Ptr}
    (named : (s.objects p).strategyName = name) {calls : List TemplateCall}
    (rearms : Rearms n calls) (few : AtMost name n s) :
    AtMost name n (calls.foldl (fun s c => templateCall env call s p c) s) := by
  rcases rearms with quiet | ⟨before, after, rfl, count⟩
  · exact few.shrinks (shrinks_templateCalls told p calls s (.inr quiet))
  cases trading : (s.objects p).trading with
  | false =>
    have idle (calls : List TemplateCall) :
        calls.foldl (fun s c => templateCall env call s p c) s = s := by
      induction calls with
      | nil => rfl
      | cons c calls ih =>
        have first : templateCall env call s p c = s := by simp [templateCall, trading]
        rw [List.foldl_cons, first, ih]
    rw [idle]
    exact few
  | true =>
    rw [List.foldl_append, List.foldl_cons]
    have acts := (moves_foldl_templateCall reacts p before s).acts
    set u := before.foldl (fun s c => templateCall env call s p c) s with u_eq
    have trading' : (u.objects p).trading = true := by
      rw [acts.frame.objects]
      exact trading
    have cleared : AtMost name 0 (templateCall env call u p .cancelAll) := by
      rw [templateCall, if_pos trading']
      refine atMost_cancelAll told (acts.guarded loose) ?_ trading'
      rw [acts.frame.objects]
      exact named
    obtain ⟨ids, length, all⟩ := cleared.templateCalls told p after
    exact ⟨ids, by omega, all⟩

theorem AtMost.call (rearming : env.Rearming name n) (loose : s.Loose) (p : Ptr) (cb : Callback)
    (few : AtMost name n s) : AtMost name n (call env p cb s) := by
  by_cases named : (s.objects p).strategyName = name
  · have start := few.shrinks (shrinks_emit s (.callback p cb))
    unfold CtaEngine.call
    cases env.depth with
    | zero => exact start
    | succ k =>
      have loose' : (s.emit (.callback p cb)).Loose := Guarded.emit loose (by simp)
      have reacts : Reacts env (callback env k) := fun p so s => moves_callback k p _ s
      have told : ∀ p so s, Shrinks name s (callback env k p (.onStopOrder so) s) :=
        fun p so s => shrinks_callback rearming k p _ s (.inr ⟨so, rfl⟩)
      exact start.reaction reacts told loose' named (rearming.rearms _ p cb named)
  · exact few.shrinks (shrinks_callback rearming env.depth p cb s (.inl named))

/-! ## The operations -/

theorem AtMost.of_book (few : AtMost name n s) (book : t.stopOrders = s.stopOrders) :
    AtMost name n t := by
  obtain ⟨ids, length, all⟩ := few
  refine ⟨ids, length, fun id there => all id ?_⟩
  rwa [Own, book] at there

theorem shrinks_checkOne (rearming : env.Rearming name n) {tick : TickData} {so : StopOrder}
    (visited : checkOne env s tick so = some t) : Shrinks name s t := by
  rcases checkOne_cases env s tick so with
    ⟨-, same⟩ | ⟨-, -, threw⟩ | ⟨p, contract, -, -, -, last⟩
  · obtain rfl := Option.some.inj (same.symm.trans visited)
    exact .refl s
  · simp [threw] at visited
  · have sends : Shrinks name s (sendTriggered env s tick p contract so).2 :=
      shrinks_sendServerOrder s p contract _ _ _ _ _ so.lock so.net
    rcases last with ⟨u, eq, same⟩ | ⟨_, _, u, told, eq, -, same⟩
    · obtain rfl := Option.some.inj (same.symm.trans visited)
      rwa [eq] at sends
    · obtain rfl := Option.some.inj (same.symm.trans visited)
      rw [eq] at sends
      exact ((sends.trans (shrinks_drop u p so.stopOrderid).1).trans
        (shrinks_told rearming p told _)).trans (shrinks_emit _ _)

theorem shrinks_checkStopOrders (rearming : env.Rearming name n) (tick : TickData) (k : ℕ)
    (after : Option AString) (s : CtaEngine) :
    Shrinks name s (checkStopOrders env tick k after s).1 := by
  induction k generalizing after s with
  | zero => exact .refl s
  | succ k ih =>
    unfold checkStopOrders
    split
    · exact .refl s
    · split
      · exact .refl s
      · rename_i visited
        exact (shrinks_checkOne rearming visited).trans (ih _ _)

theorem AtMost.processTickEvent (rearming : env.Rearming name n) (safe : s.Safe)
    (few : AtMost name n s) (tick : TickData) : AtMost name n (s.processTickEvent env tick) := by
  have ticks (strategies : List Ptr) (s : CtaEngine) (start : s.Safe ∧ AtMost name n s) :
      AtMost name n (strategies.foldl (fun s p =>
        if (s.objects p).inited then CtaEngine.call env p (.onTick tick) s else s) s) := by
    refine (foldl_invariant _ (P := fun s => s.Safe ∧ AtMost name n s) (fun s p now => ?_) start).2
    split
    · exact ⟨now.1.call p _, now.2.call rearming now.1.loose p _⟩
    · exact now
  unfold CtaEngine.processTickEvent
  split
  · exact few
  · have checked := few.shrinks (shrinks_checkStopOrders rearming tick env.passes none s)
    have safe' := (moves_checkStopOrders env tick env.passes none safe).acts.guarded safe
    exact iteInduction (motive := AtMost name n) (fun _ => ticks _ _ ⟨safe', checked⟩)
      fun _ => checked

theorem AtMost.processOrderEvent (rearming : env.Rearming name n) (safe : s.Safe)
    (few : AtMost name n s) (o : OrderData) : AtMost name n (s.processOrderEvent env o) := by
  unfold CtaEngine.processOrderEvent
  cases owner : s.orderidStrategyMap[o.ktOrderid]? with
  | none => exact few
  | some p =>
    simp only
    set forgotten := if (s.orderids (s.objects p).strategyName).contains o.ktOrderid ∧
        o.isActive = false then s.setOrderids (s.objects p).strategyName
          ((s.orderids (s.objects p).strategyName).erase o.ktOrderid) else s with forgotten_eq
    have start : forgotten.Safe ∧ AtMost name n forgotten := by
      rw [forgotten_eq]
      split
      · exact ⟨Guarded.eraseOrderid safe _ (safe.mapped _ p owner), few.of_book rfl⟩
      · exact ⟨safe, few⟩
    split
    · have first := start.2.call rearming start.1.loose p
      exact (first _).call rearming (Safe.loose (start.1.call p _)) p _
    · exact start.2.call rearming start.1.loose p _

theorem AtMost.processTradeEvent (rearming : env.Rearming name n) (safe : s.Safe)
    (few : AtMost name n s) (trade : TradeData) :
    AtMost name n (s.processTradeEvent env trade) := by
  unfold CtaEngine.processTradeEvent
  split
  · exact few
  · have seen : ({ s with ktTradeids := s.ktTradeids.insert trade.ktTradeid } :
        CtaEngine).Safe := ⟨safe.stops, safe.names, safe.traders, safe.mapped, safe.sends⟩
    unfold processNewTrade
    split
    · exact few.of_book rfl
    · rename_i p _
      have moved : Safe _ := seen.updateObject p (f := fun t => { t with
        pos := if trade.direction = .long then t.pos + trade.volume else t.pos - trade.volume })
        rfl rfl
      have few' : AtMost name n _ := few.of_book rfl
      exact (few'.call rearming moved.loose p (.onTrade trade)).of_book rfl

theorem AtMost.initStrategy (rearming : env.Rearming name n) (safe : s.Safe)
    (few : AtMost name n s) (strategyName : AString) :
    AtMost name n (s.initStrategy env strategyName) := by
  unfold CtaEngine.initStrategy withStrategy
  cases s.strategies[strategyName]? with
  | none => exact few
  | some p =>
    refine iteInduction (motive := AtMost name n) (fun _ => few.of_book rfl) fun _ => ?_
    have start : AtMost name n (s.writeLog (strategyName ++ " starts initialization") none) :=
      few.of_book rfl
    have called := start.call rearming (Safe.loose (safe.writeLog _ none)) p .onInit
    simp only
    split <;> exact called.of_book rfl

theorem AtMost.startStrategy (rearming : env.Rearming name n) (safe : s.Safe)
    (few : AtMost name n s) (strategyName : AString) :
    AtMost name n (s.startStrategy env strategyName) := by
  unfold CtaEngine.startStrategy withStrategy
  cases s.strategies[strategyName]? with
  | none => exact few
  | some p =>
    simp only
    split
    · exact few.of_book rfl
    split
    · exact few.of_book rfl
    · exact (few.call rearming safe.loose p .onStart).of_book rfl

theorem AtMost.stopStrategy (rearming : env.Rearming name n) (safe : s.Safe)
    (few : AtMost name n s) (strategyName : AString) :
    AtMost name n (s.stopStrategy env strategyName) := by
  unfold CtaEngine.stopStrategy withStrategy
  cases s.strategies[strategyName]? with
  | none => exact few
  | some p =>
    refine iteInduction (motive := AtMost name n) (fun _ => ?_) fun _ => few
    have stopped : AtMost name n
        ((CtaEngine.call env p .onStop s).updateObject p ({ · with trading := false })) :=
      (few.call rearming safe.loose p .onStop).of_book rfl
    have cancelled := stopped.shrinks
      (shrinks_cancelOrders (shrinks_told rearming) p
        (((CtaEngine.call env p .onStop s).updateObject p ({ · with trading := false })).orderids
          (((CtaEngine.call env p .onStop s).updateObject p
            ({ · with trading := false })).objects p).strategyName).toList _)
    exact cancelled.of_book rfl

theorem AtMost.step (rearming : env.Rearming name n) (safe : s.Safe) (few : AtMost name n s)
    (op : Op) : AtMost name n (s.step env op) := by
  have fed (e : OmsEvent) : AtMost name n (s.processOms env e) := few.of_book rfl
  cases op with
  | contract c => exact fed _
  | position p => exact fed _
  | order o => exact (fed _).processOrderEvent rearming (safe.processOms _) o
  | trade t => exact (fed _).processTradeEvent rearming (safe.processOms _) t
  | tick t => exact (fed _).processTickEvent rearming (safe.processOms _) t
  | initStrategy strategyName => exact few.initStrategy rearming safe strategyName
  | startStrategy strategyName => exact few.startStrategy rearming safe strategyName
  | stopStrategy strategyName => exact few.stopStrategy rearming safe strategyName
  | addStrategy className strategyName ktSymbol setting =>
    rw [CtaEngine.step]
    rcases addStrategy_registers s className strategyName ktSymbol setting with
      ⟨msg, eq⟩ | ⟨v, file, -, -, eq | eq⟩ <;> rw [eq] <;> exact few.of_book rfl
  | editStrategy strategyName setting =>
    rw [CtaEngine.step, CtaEngine.editStrategy, withStrategy]
    split
    · rename_i p _
      rcases saveSetting_cases s strategyName setting p with ⟨v, -, eq⟩ | ⟨e, -, eq⟩ <;> rw [eq]
      · exact few.of_book rfl
      · exact few
    · exact few
  | removeStrategy strategyName =>
    rw [CtaEngine.step]
    rcases removeStrategy_cases s strategyName with ⟨p, registered, idle⟩ | eq | ⟨msg, eq⟩
    · rw [removeStrategy_eq registered idle]
      exact few.of_book rfl
    · rwa [eq]
    · rw [eq]
      exact few.of_book rfl

/-- The stop orders of a strategy that are waiting. -/
def waiting (s : CtaEngine) (name : AString) : List StopOrder :=
  (s.stopOrders.toList.map Prod.snd).filter (·.strategyName = name)

theorem AtMost.length_waiting (few : AtMost name n s) : (s.waiting name).length ≤ n := by
  obtain ⟨ids, length, all⟩ := few
  set entries := s.stopOrders.toList.filter (·.2.strategyName = name) with entries_eq
  have count : (s.waiting name).length = (entries.map Prod.fst).length := by
    simp [waiting, entries_eq, List.filter_map, Function.comp_def]
  have distinct : (entries.map Prod.fst).Nodup := by
    have keys : (s.stopOrders.toList.map Prod.fst).Nodup := by
      rw [ExtTreeMap.map_fst_toList_eq_keys]
      exact ExtTreeMap.nodup_keys
    exact keys.sublist (List.filter_sublist.map _)
  have known : entries.map Prod.fst ⊆ ids := by
    intro id mem
    obtain ⟨⟨id, so⟩, there, rfl⟩ := List.mem_map.mp mem
    obtain ⟨stored, named⟩ := List.mem_filter.mp there
    exact all id ⟨so, ExtTreeMap.mem_toList_iff_getElem?_eq_some.mp stored, by simpa using named⟩
  rw [count]
  exact (distinct.subperm known).length_le.trans length

theorem atMost_run (rearming : env.Rearming name n) (classes : ExtTreeSet AString)
    (ops : List Op) : AtMost name n (run env classes ops) :=
  (foldl_invariant (CtaEngine.step env) (P := fun s => s.Safe ∧ AtMost name n s)
    (fun _ op now => ⟨now.1.step op, now.2.step rearming now.1 op⟩)
    ⟨safe_init classes, [], Nat.zero_le n, fun id ⟨so, stored, _⟩ => by simp at stored⟩).2

/-- In every state of every run a strategy that rearms, and does nothing when it is told of a stop
order, has at most as many stop orders waiting as it sends at once. -/
theorem waiting_run (env : Environment) {name : AString} {n : ℕ}
    (rearming : env.Rearming name n) (classes : ExtTreeSet AString) (ops : List Op) :
    ((run env classes ops).waiting name).length ≤ n :=
  (atMost_run rearming classes ops).length_waiting

/-- A strategy that has one stop order on each side, and renews both with every tick. -/
def renewOnTick : Environment :=
  { buyOnTick with
    react _ _
      | .onTick _ => [.cancelAll, .buy 3600 1 true false false, .short 3400 1 true false false]
      | _ => [] }

theorem rearming_renewOnTick : renewOnTick.Rearming "alpha" 2 where
  rearms s p cb _ := by
    cases cb with
    | onTick tick =>
      exact .inr ⟨[], [.buy 3600 1 true false false, .short 3400 1 true false false], rfl,
        by decide⟩
    | _ => exact .inl (by simp [renewOnTick])
  told _ _ _ _ := rfl

/-- Two ticks leave two stop orders. -/
theorem waiting_renewed :
    ((run renewOnTick {"Dual"} (boughtOnTick ++ [.tick
      { symbol := "rb2410", exchange := .shfe }])).waiting "alpha").length ≤ 2 :=
  waiting_run renewOnTick rearming_renewOnTick {"Dual"} _

end CtaEngine

/-! ## The R-Breaker -/

namespace RBreakStrategy

variable {F : Floats.Format}

theorem countP_placeOrders (s : RBreakStrategy) (bar : BarData) :
    (s.placeOrders F bar).1.countP TemplateCall.isStop ≤ 2 := by
  unfold placeOrders enter
  split
  · dsimp only
    split
    · exact Nat.le_refl 2
    split
    · exact Nat.le_refl 2
    · exact Nat.zero_le 2
  split <;> exact Nat.le_succ 1

/-- With a bar everything is cancelled, and at most two stop orders are sent. -/
theorem exists_onBar (F : Floats.Format) (s : RBreakStrategy) (bar : BarData) :
    ∃ calls, (s.onBar F bar).1 = .cancelAll :: calls ∧
      calls.countP TemplateCall.isStop ≤ 2 := by
  unfold onBar
  dsimp only
  split
  · exact ⟨[], rfl, Nat.zero_le 2⟩
  split
  · exact ⟨[], rfl, Nat.zero_le 2⟩
  split
  · exact ⟨[], rfl, Nat.zero_le 2⟩
  · refine ⟨_, rfl, ?_⟩
    unfold follow
    dsimp only
    split
    · exact Nat.zero_le 2
    · exact countP_placeOrders _ bar

theorem rearms_bars (F : Floats.Format) (bars : List (RBreakStrategy × BarData))
    {rest : List TemplateCall} (quiet : ∀ c ∈ rest, c.isStop = false) :
    Rearms 2 (bars.flatMap (fun v => (v.1.onBar F v.2).1) ++ rest) := by
  rcases List.eq_nil_or_concat bars with rfl | ⟨before, last, rfl⟩
  · exact .inl quiet
  · obtain ⟨calls, eq, count⟩ := exists_onBar F last.1 last.2
    refine .inr ⟨before.flatMap fun v => (v.1.onBar F v.2).1, calls ++ rest, ?_, ?_⟩
    · simp [eq]
    · have none : rest.countP TemplateCall.isStop = 0 := by
        rw [List.countP_eq_zero]
        exact fun c mem => by simp [quiet c mem]
      rw [List.countP_append, none]
      exact count

/-- What is called with some bars is what `on_bar` calls with each of them. -/
theorem exists_onBars (F : Floats.Format) (s : RBreakSession) (bars : List BarData) :
    ∃ vs : List (RBreakStrategy × BarData),
      (RBreakFeed.onBars F s bars).1 = vs.flatMap fun v => (v.1.onBar F v.2).1 := by
  suffices longer : ∃ (visits : List Visit) (vs : List (RBreakStrategy × BarData)),
      ((bars.map .bar).foldl (RBreakSession.step F) s).visits = s.visits ++ visits ∧
        visits.flatMap (·.calls) = vs.flatMap fun v => (v.1.onBar F v.2).1 by
    obtain ⟨visits, vs, eq, calls⟩ := longer
    refine ⟨vs, ?_⟩
    rw [← calls, RBreakFeed.onBars, eq, List.drop_left]
  induction bars generalizing s with
  | nil => exact ⟨[], [], by simp⟩
  | cons bar bars ih =>
    obtain ⟨visits, vs, eq, calls⟩ := ih (s.step F (.bar bar))
    refine ⟨{ pos := s.strategy.pos, bar, calls := (s.strategy.onBar F bar).1 } :: visits,
      (s.strategy, bar) :: vs, ?_, ?_⟩
    · rw [List.map_cons, List.foldl_cons, eq, RBreakSession.step_bar]
      simp
    · simp [calls]

end RBreakStrategy

/-- The strategies of a name are R-Breakers, whatever state they are in and whatever bars they load
when they are started. They do nothing when they are told of anything but a tick. -/
structure Environment.RBreaker (env : Environment) (F : Floats.Format) (name : AString) :
    Prop where
  onStart : ∀ s p, (s.objects p).strategyName = name →
    ∃ (feed : RBreakFeed) (loaded : List BarData),
      env.react s p .onStart = (feed.onStart F loaded).1
  onTick : ∀ s p tick, (s.objects p).strategyName = name →
    ∃ feed : RBreakFeed, env.react s p (.onTick tick) = (feed.onTick F tick).1
  others : ∀ s p cb, (s.objects p).strategyName = name → cb ≠ .onStart →
    (∀ tick, cb ≠ .onTick tick) → env.react s p cb = []

theorem Environment.RBreaker.rearming {env : Environment} {F : Floats.Format} {name : AString}
    (breaker : env.RBreaker F name) : env.Rearming name 2 where
  rearms s p cb named := by
    by_cases start : cb = .onStart
    · subst start
      obtain ⟨feed, loaded, eq⟩ := breaker.onStart s p named
      obtain ⟨vs, calls⟩ := RBreakStrategy.exists_onBars F feed.session loaded
      have rearms : Rearms 2 ((vs.flatMap fun v => (v.1.onBar F v.2).1) ++ []) :=
        RBreakStrategy.rearms_bars F vs (by simp)
      rw [eq, RBreakFeed.onStart]
      simpa [calls] using rearms
    by_cases ticks : ∃ tick, cb = .onTick tick
    · obtain ⟨tick, rfl⟩ := ticks
      obtain ⟨feed, eq⟩ := breaker.onTick s p tick named
      obtain ⟨vs, calls⟩ := RBreakStrategy.exists_onBars F feed.session
        ((feed.bg.updateTick tick).reported.drop feed.bg.reported.length)
      rw [eq, RBreakFeed.onTick]
      dsimp only
      rw [calls]
      refine RBreakStrategy.rearms_bars F vs fun c mem => ?_
      split at mem
      · obtain rfl := List.mem_singleton.mp mem
        rfl
      · contradiction
    · rw [breaker.others s p cb named start fun tick same => ticks ⟨tick, same⟩]
      exact .inl (by simp)
  told s p so named := breaker.others s p _ named (by simp) (by simp)

namespace RBreakStrategy

open CtaEngine (run waiting boughtOnTick)

/-- In every state of every run an R-Breaker has at most two stop orders waiting. -/
theorem waiting_run_rBreak (env : Environment) (F : Floats.Format) {name : AString}
    (breaker : env.RBreaker F name) (classes : ExtTreeSet AString) (ops : List CtaEngine.Op) :
    ((run env classes ops).waiting name).length ≤ 2 :=
  (CtaEngine.atMost_run breaker.rearming classes ops).length_waiting

def highBar (price : ℚ) : BarData :=
  { exchangeName := "CTP", symbol := "rb2410", exchange := .shfe, datetime := 0
    highPrice := price }

/-- An R-Breaker that has its levels and a position. -/
def heldLong : RBreakStrategy :=
  { create Floats.exact {} with
    pos := 1
    levels := { sellSetup := 3550 }
    am := { count := 100, inited := true }
    bars := [highBar 3500, highBar 3500] }

/-- Its generator has a bar that the next tick closes. -/
def heldFeed : RBreakFeed :=
  { session := { strategy := heldLong }, bg := { bar := some (highBar 3600) }, index := 0 }

/-- Each tick finds the strategy in this state. -/
def breakOnTick : Environment :=
  { CtaEngine.buyOnTick with
    react _ _
      | .onTick tick => (heldFeed.onTick Floats.exact tick).1
      | _ => [] }

theorem rBreaker_breakOnTick : breakOnTick.RBreaker Floats.exact "alpha" where
  onStart _ _ _ := ⟨heldFeed, [], rfl⟩
  onTick _ _ _ _ := ⟨heldFeed, rfl⟩
  others _ _ cb _ start ticks := by
    cases cb with
    | onStart => contradiction
    | onTick tick => exact absurd rfl (ticks tick)
    | _ => rfl

/-- The stop order that trails the position is in the book. -/
theorem waiting_heldLong :
    ((run breakOnTick {"Dual"} (boughtOnTick ++ [.tick
      { symbol := "rb2410", exchange := .shfe, datetime := 60000, lastPrice := 3600 }])).waiting
        "alpha").length ≤ 2 :=
  waiting_run_rBreak breakOnTick Floats.exact rBreaker_breakOnTick {"Dual"} _

end RBreakStrategy

end KeenTrader.App
