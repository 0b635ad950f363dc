import KeenTrader.App.Actions

/-!
# Trades are counted once

Trades may be delivered again and in any order. The first delivery of a trade adds its volume
to the position of the strategy that its order is mapped to and tells that strategy; later
ones do nothing. The mapping is kept when the order completes.
-/

namespace KeenTrader.App

open Std (ExtTreeMap ExtTreeSet)
open Containers Runs KeenTrader.Engine

/-- The reports of an exchange on the orders that it has accepted. -/
inductive Feed where
  | order (order : OrderData)
  | trade (trade : TradeData)

def Feed.op : Feed → CtaEngine.Op
  | .order o => .order o
  | .trade t => .trade t

namespace CtaEngine

def signedVolume (t : TradeData) : ℚ := if t.direction = .long then t.volume else -t.volume

/-- What the trades of a list add to the position of a strategy. -/
def received (p : Ptr) (told : List (Ptr × TradeData)) : ℚ :=
  ((told.filter fun x => x.1 = p).map fun x => signedVolume x.2).sum

section Feed
variable (env : Environment)

def feed (s : CtaEngine) (f : Feed) : CtaEngine := s.step env f.op

/-- The trades of a run that count: each at its first arrival, for the strategy that its order
is mapped to at that moment. `seen` are the trade ids that have arrived before. -/
def counted : CtaEngine → ExtTreeSet AString → List Feed → List (Ptr × TradeData)
  | _, _, [] => []
  | s, seen, .order o :: fs => counted (s.feed env (.order o)) seen fs
  | s, seen, .trade t :: fs =>
    if t.ktTradeid ∈ seen then counted (s.feed env (.trade t)) seen fs
    else
      (s.orderidStrategyMap[t.ktOrderid]?.map (·, t)).toList ++
        counted (s.feed env (.trade t)) (seen.insert t.ktTradeid) fs

end Feed

variable {env : Environment} {s t u : CtaEngine}

theorem received_append (p : Ptr) (first second : List (Ptr × TradeData)) :
    received p (first ++ second) = received p first + received p second := by
  simp [received]

/-- Between two states strategies are told of the trades in `told`, and an order keeps its
strategy unless its id is given again. -/
def Told (s t : CtaEngine) (told : List (Ptr × TradeData)) : Prop :=
  ∃ new, t.trace = s.trace ++ new ∧ onTrades new = told ∧
    ∀ (id : AString) p, s.orderidStrategyMap[id]? = some p → (∀ q, ¬Given new q id) →
      t.orderidStrategyMap[id]? = some p

theorem Told.refl (s : CtaEngine) : Told s s [] := ⟨[], by simp, rfl, fun _ _ stored _ => stored⟩

theorem Told.trans {first second : List (Ptr × TradeData)} (h : Told s t first)
    (h' : Told t u second) : Told s u (first ++ second) := by
  obtain ⟨new, trace, told, kept⟩ := h
  obtain ⟨new', trace', told', kept'⟩ := h'
  refine ⟨new ++ new', by rw [trace', trace, List.append_assoc], ?_, ?_⟩
  · rw [onTrades_append, told, told']
  · intro id p stored again
    refine kept' id p (kept id p stored ?_) ?_
    · exact fun q given => again q (given_append.mpr (Or.inl given))
    · exact fun q given => again q (given_append.mpr (Or.inr given))

variable (env) in
theorem told_call (p : Ptr) (cb : Callback) (s : CtaEngine) :
    Told s (call env p cb s) (onTrades [.callback p cb]) := by
  obtain ⟨new, progress⟩ := (moves_call env p cb s).acts.progress
  refine ⟨[.callback p cb] ++ new, by simp [progress.trace, emit], ?_, ?_⟩
  · rw [onTrades_append, progress.trades, List.append_nil]
  · intro id q stored again
    exact progress.mapped id q stored fun r given =>
      again r (given_append.mpr (Or.inr given))

/-- The part of the engine that is no concern of the order management engine. -/
theorem told_processOms (s : CtaEngine) (e : OmsEvent) : Told s (s.processOms env e) [] :=
  ⟨[], by simp [processOms], rfl, fun _ _ stored _ => stored⟩

variable (env) in
/-- An order report, the last one of an order included, changes no position, makes no trade
known and leaves the order with its strategy. -/
theorem feed_order (s : CtaEngine) (o : OrderData) :
    (s.feed env (.order o)).objects = s.objects ∧
      (s.feed env (.order o)).ktTradeids = s.ktTradeids ∧
      Told s (s.feed env (.order o)) [] := by
  have handled : ∀ s : CtaEngine, (s.processOrderEvent env o).objects = s.objects ∧
      (s.processOrderEvent env o).ktTradeids = s.ktTradeids ∧
      Told s (s.processOrderEvent env o) [] := by
    intro s
    unfold processOrderEvent
    cases s.orderidStrategyMap[o.ktOrderid]? with
    | none => exact ⟨rfl, rfl, Told.refl s⟩
    | some p =>
      simp only
      set erased : CtaEngine :=
        if (s.orderids (s.objects p).strategyName).contains o.ktOrderid ∧ o.isActive = false then
          s.setOrderids (s.objects p).strategyName
            ((s.orderids (s.objects p).strategyName).erase o.ktOrderid)
        else s with erased_eq
      have first : erased.objects = s.objects ∧ erased.ktTradeids = s.ktTradeids ∧
          Told s erased [] := by
        rw [erased_eq]
        split
        · exact ⟨rfl, rfl, [], by simp, rfl, fun _ _ stored _ => stored⟩
        · exact ⟨rfl, rfl, Told.refl s⟩
      have called : ∀ (t : CtaEngine) cb, t.objects = s.objects ∧ t.ktTradeids = s.ktTradeids ∧
          Told s t [] → onTrades [.callback p cb] = [] →
          (call env p cb t).objects = s.objects ∧ (call env p cb t).ktTradeids = s.ktTradeids ∧
            Told s (call env p cb t) [] := by
        rintro t cb ⟨objects, ids, told⟩ none
        have frame := call_frame env p cb t
        have more := told.trans (told_call env p cb t)
        rw [none] at more
        exact ⟨frame.objects.trans objects, frame.ktTradeids.trans ids, more⟩
      refine called _ _ ?_ rfl
      split
      · exact called _ _ first rfl
      · exact first
  obtain ⟨objects, ids, told⟩ := handled (s.processOms env (.order o))
  exact ⟨objects, ids, (told_processOms s (.order o)).trans told⟩

variable (env) in
/-- A trade that has arrived before reaches the order management engine only. -/
theorem feed_trade_again (s : CtaEngine) {t : TradeData} (seen : t.ktTradeid ∈ s.ktTradeids) :
    s.feed env (.trade t) = s.processOms env (.trade t) := by
  have contains : (s.processOms env (.trade t)).ktTradeids.contains t.ktTradeid = true := seen
  change (s.processOms env (.trade t)).processTradeEvent env t = _
  unfold processTradeEvent
  rw [if_pos contains]

variable (env) in
/-- A trade counts for the strategy of its order. -/
theorem processNewTrade_counts (s : CtaEngine) (t : TradeData) :
    (s.processNewTrade env t).ktTradeids = s.ktTradeids ∧
      Told s (s.processNewTrade env t) (s.orderidStrategyMap[t.ktOrderid]?.map (·, t)).toList ∧
      ∀ p, ((s.processNewTrade env t).objects p).pos = (s.objects p).pos +
        received p (s.orderidStrategyMap[t.ktOrderid]?.map (·, t)).toList := by
  unfold processNewTrade
  cases s.orderidStrategyMap[t.ktOrderid]? with
  | none => exact ⟨rfl, Told.refl s, by simp [received]⟩
  | some p =>
    simp only [Option.map_some, Option.toList_some]
    set before := s.updateObject p (fun o =>
      { o with pos := if t.direction = .long then o.pos + t.volume else o.pos - t.volume })
      with before_eq
    have frame := call_frame env p (.onTrade t) before
    refine ⟨frame.ktTradeids, ?_, ?_⟩
    · have started : Told s before [] :=
        ⟨[], by simp [before_eq, updateObject], rfl, fun _ _ stored _ => stored⟩
      have finished : Told (call env p (.onTrade t) before)
          ((call env p (.onTrade t) before).putStrategyEvent p) [] :=
        ⟨[.strategyEvent p], rfl, rfl, fun _ _ stored _ => stored⟩
      exact (started.trans (told_call _ p (.onTrade t) before)).trans finished
    · intro q
      have objects : ((call env p (.onTrade t) before).putStrategyEvent p).objects =
          before.objects := frame.objects
      rw [objects, before_eq]
      by_cases own : q = p
      · subst own
        by_cases long : t.direction = .long <;>
          simp [updateObject, received, signedVolume, long, sub_eq_add_neg]
      · simp [updateObject, received, own, Ne.symm own]

variable (env) in
/-- A new trade is remembered, and counts. -/
theorem feed_trade_new (s : CtaEngine) {t : TradeData} (unseen : t.ktTradeid ∉ s.ktTradeids) :
    (s.feed env (.trade t)).ktTradeids = s.ktTradeids.insert t.ktTradeid ∧
      Told s (s.feed env (.trade t)) (s.orderidStrategyMap[t.ktOrderid]?.map (·, t)).toList ∧
      ∀ p, ((s.feed env (.trade t)).objects p).pos = (s.objects p).pos +
        received p (s.orderidStrategyMap[t.ktOrderid]?.map (·, t)).toList := by
  set remembered : CtaEngine := { s.processOms env (.trade t) with
    ktTradeids := s.ktTradeids.insert t.ktTradeid } with remembered_eq
  have contains : (s.processOms env (.trade t)).ktTradeids.contains t.ktTradeid = false := by
    rw [← Bool.not_eq_true]
    exact unseen
  have fed : s.feed env (.trade t) = remembered.processNewTrade env t := by
    change (s.processOms env (.trade t)).processTradeEvent env t = _
    unfold processTradeEvent
    rw [contains]
    rfl
  obtain ⟨ids, told, pos⟩ := processNewTrade_counts env remembered t
  rw [fed]
  have started : Told s remembered [] :=
    ⟨[], by simp [remembered_eq, processOms], rfl, fun _ _ stored _ => stored⟩
  exact ⟨ids, started.trans told, pos⟩

/-! ## Runs -/

/-- The ids that have been seen are those of the trades that have arrived. -/
theorem mem_ktTradeids_feed (fs : List Feed) (s : CtaEngine) {t : TradeData}
    (arrived : t.ktTradeid ∈ s.ktTradeids ∨ ∃ t', .trade t' ∈ fs ∧ t'.ktTradeid = t.ktTradeid) :
    t.ktTradeid ∈ (fs.foldl (feed env) s).ktTradeids := by
  induction fs generalizing s with
  | nil => simpa using arrived
  | cons f fs ih =>
    apply ih
    cases f with
    | order o =>
      rw [(feed_order _ s o).2.1]
      simpa using arrived
    | trade t' =>
      have step : ∀ id, id ∈ (s.feed env (.trade t')).ktTradeids ↔
          id ∈ s.ktTradeids ∨ id = t'.ktTradeid := by
        intro id
        by_cases seen : t'.ktTradeid ∈ s.ktTradeids
        · rw [feed_trade_again _ s seen]
          constructor
          · exact Or.inl
          · rintro (mem | rfl)
            · exact mem
            · exact seen
        · rw [(feed_trade_new _ s seen).1]
          simp [or_comm, eq_comm (a := id) (b := t'.ktTradeid)]
      rw [step]
      rcases arrived with mem | ⟨t'', mem, same⟩
      · exact Or.inl (Or.inl mem)
      · rcases List.mem_cons.mp mem with eq | later
        · obtain rfl := Feed.trade.inj eq
          exact Or.inl (Or.inr same.symm)
        · exact Or.inr ⟨t'', later, same⟩

/-- The trades that count have ids of their own, none of them seen before. -/
theorem counted_fresh (fs : List Feed) (s : CtaEngine) (seen : ExtTreeSet AString) :
    ((counted env s seen fs).map fun x => x.2.ktTradeid).Nodup ∧
      ∀ x ∈ counted env s seen fs, x.2.ktTradeid ∉ seen := by
  induction fs generalizing s seen with
  | nil => simp [counted]
  | cons f fs ih =>
    cases f with
    | order o => exact ih _ seen
    | trade t =>
      unfold counted
      split
      · exact ih _ seen
      · rename_i unseen
        obtain ⟨nodup, fresh⟩ := ih (s.feed env (.trade t)) (seen.insert t.ktTradeid)
        have later : ∀ x ∈ counted env (s.feed env (.trade t)) (seen.insert t.ktTradeid) fs,
            x.2.ktTradeid ≠ t.ktTradeid ∧ x.2.ktTradeid ∉ seen := by
          intro x mem
          have new := fresh x mem
          simp only [ExtTreeSet.mem_insert, not_or] at new
          exact ⟨fun eq => new.1 (by simp [eq]), new.2⟩
        cases s.orderidStrategyMap[t.ktOrderid]? with
        | none => exact ⟨nodup, fun x mem => (later x mem).2⟩
        | some p =>
          simp only [Option.map_some, Option.toList_some, List.singleton_append, List.map_cons,
            List.nodup_cons, List.mem_map, List.mem_cons, forall_eq_or_imp]
          refine ⟨⟨?_, nodup⟩, unseen, fun x mem => (later x mem).2⟩
          rintro ⟨x, mem, eq⟩
          exact (later x mem).1 eq

variable (env) in
theorem feed_counts (fs : List Feed) (s : CtaEngine) :
    Told s (fs.foldl (feed env) s) (counted env s s.ktTradeids fs) ∧
      ∀ p, ((fs.foldl (feed env) s).objects p).pos =
        (s.objects p).pos + received p (counted env s s.ktTradeids fs) := by
  induction fs generalizing s with
  | nil => exact ⟨Told.refl s, by simp [counted, received]⟩
  | cons f fs ih =>
    obtain ⟨told, pos⟩ := ih (s.feed env f)
    cases f with
    | order o =>
      obtain ⟨objects, ids, first⟩ := feed_order env s o
      rw [ids] at told pos
      rw [objects] at pos
      exact ⟨first.trans told, pos⟩
    | trade t =>
      unfold counted
      by_cases seen : t.ktTradeid ∈ s.ktTradeids
      · have again := feed_trade_again env s seen
        have ids : (s.feed env (.trade t)).ktTradeids = s.ktTradeids := by rw [again]; rfl
        have objects : (s.feed env (.trade t)).objects = s.objects := by rw [again]; rfl
        rw [ids] at told pos
        rw [objects] at pos
        rw [if_pos seen]
        refine ⟨?_, pos⟩
        have first : Told s (s.feed env (.trade t)) [] := by
          rw [again]
          exact told_processOms s _
        exact first.trans told
      · obtain ⟨ids, first, moved⟩ := feed_trade_new env s seen
        rw [ids] at told pos
        rw [if_neg seen]
        refine ⟨first.trans told, ?_⟩
        intro p
        rw [List.foldl_cons, pos, moved, received_append, add_assoc]

/-- From any state, over any order and number of deliveries: each strategy's position moves by
the trades that count, the strategies are told of exactly these, each once; a trade delivered
again reaches the order management engine only; and an order stays with its strategy through
all its reports, unless the exchange gives its id to another order. -/
theorem trades_counted_once (env : Environment) (s : CtaEngine) (fs : List Feed) :
    (∀ p, ((fs.foldl (feed env) s).objects p).pos =
      (s.objects p).pos + received p (counted env s s.ktTradeids fs)) ∧
    onTrades (fs.foldl (feed env) s).trace =
      onTrades s.trace ++ counted env s s.ktTradeids fs ∧
    (((counted env s s.ktTradeids fs).map fun x => x.2.ktTradeid).Nodup ∧
      ∀ x ∈ counted env s s.ktTradeids fs, x.2.ktTradeid ∉ s.ktTradeids) ∧
    (∀ done t later, fs = done ++ .trade t :: later →
      (t.ktTradeid ∈ s.ktTradeids ∨ ∃ t', .trade t' ∈ done ∧ t'.ktTradeid = t.ktTradeid) →
      (done.foldl (feed env) s).feed env (.trade t) =
        (done.foldl (feed env) s).processOms env (.trade t)) ∧
    ∀ done, done <+: fs → ∃ new, (done.foldl (feed env) s).trace = s.trace ++ new ∧
      ∀ (id : AString) p, s.orderidStrategyMap[id]? = some p → (∀ q, ¬Given new q id) →
        (done.foldl (feed env) s).orderidStrategyMap[id]? = some p := by
  obtain ⟨⟨new, trace, told, -⟩, pos⟩ := feed_counts env fs s
  refine ⟨pos, ?_, counted_fresh fs s s.ktTradeids, ?_, ?_⟩
  · rw [trace, onTrades_append, told]
  · rintro done t later - arrived
    exact feed_trade_again _ _ (mem_ktTradeids_feed done s arrived)
  · intro done _
    obtain ⟨⟨new, trace, -, kept⟩, -⟩ := feed_counts env done s
    exact ⟨new, trace, kept⟩

end CtaEngine

end KeenTrader.App
