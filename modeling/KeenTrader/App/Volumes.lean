import KeenTrader.Engine.Binding
import KeenTrader.App.Filing
import KeenTrader.App.Stopping

/-!
# The volumes of what is sent

A volume is rounded to lots, and then divided by the conversion, which guards a part that closes by
what is available and not by what it has cut that to. So a part of a lot that is available makes a
request for nothing. A stop order keeps its rounded volume in the book, and is divided when it
triggers, by the holding of that time.
-/

namespace KeenTrader.Engine

open Containers

/-- Every request asks for something. -/
def Positive (reqs : List OrderRequest) : Prop := ∀ r ∈ reqs, 0 < r.volume

@[simp] theorem positive_nil : Positive [] := by simp [Positive]

@[simp] theorem positive_singleton {r : OrderRequest} : Positive [r] ↔ 0 < r.volume := by
  simp [Positive]

@[simp] theorem positive_append {reqs reqs' : List OrderRequest} :
    Positive (reqs ++ reqs') ↔ Positive reqs ∧ Positive reqs' :=
  List.forall_mem_append

theorem toInt_pos_iff {q : ℚ} : 0 < toInt q ↔ 1 ≤ q ∧ q < 2 ^ 31 := by
  have one := le_toInt_iff (q := q) one_pos
  rw [Int.ceil_one, Int.cast_one] at one
  rw [← one]
  norm_cast

namespace PositionHolding

variable {h : PositionHolding} {req : OrderRequest} {offset : Offset} {available left : ℚ}

/-- A lot at least is taken of what is available, if anything is, and not more than fits. -/
def TakesLot (available left : ℚ) : Prop :=
  0 < available → 1 ≤ min available left ∧ min available left < 2 ^ 31

/-- What is left when whole lots have been taken of what is available. -/
def leftAfter (available left : ℚ) : ℚ :=
  if 0 < available then left - ⌊min available left⌋ else left

/-- The request is opened as a whole, or closes a lot at least of yesterday's volume. -/
def LockTakesLots (h : PositionHolding) (req : OrderRequest) : Prop :=
  let leg := h.closedBy req.direction
  if leg.td ≠ 0 ∧ h.exchange.closesYesterday = false then 0 < req.volume
  else TakesLot (leg.yd - leg.ydFrozen) req.volume

/-- Each part that closes takes a lot at least. -/
def NetTakesLots (h : PositionHolding) (req : OrderRequest) : Prop :=
  let leg := h.closedBy req.direction
  if req.exchange.closesYesterday then
    TakesLot (leg.td - leg.tdFrozen) req.volume ∧
      (0 < leftAfter (leg.td - leg.tdFrozen) req.volume →
        TakesLot (leg.yd - leg.ydFrozen) (leftAfter (leg.td - leg.tdFrozen) req.volume))
  else TakesLot (leg.pos - leg.posFrozen) req.volume

instance : Decidable (TakesLot available left) := inferInstanceAs (Decidable (_ → _))

instance : Decidable (LockTakesLots h req) := inferInstanceAs (Decidable (ite _ _ _))

instance : Decidable (NetTakesLots h req) := inferInstanceAs (Decidable (ite _ _ _))

theorem positive_closePart_iff :
    Positive (closePart req offset available left).1 ↔ TakesLot available left := by
  unfold TakesLot
  rcases le_or_gt available 0 with none | some
  · simp [closePart_of_nonpos none, none.not_gt]
  · rw [closePart_of_pos some, ← toInt_pos_iff]
    simp [some]

theorem closePart_left (takes : TakesLot available left) :
    (closePart req offset available left).2 = leftAfter available left := by
  unfold leftAfter
  rcases le_or_gt available 0 with none | some
  · rw [closePart_of_nonpos none, if_neg none.not_gt]
  · have positive := toInt_pos_iff.mpr (takes some)
    have whole := toInt_eq_of_nonneg positive.le
    have floor : ⌊min available left⌋ = toInt (min available left) := by omega
    rw [closePart_of_pos some, if_pos some, floor]

/-- What opens is only asked for where something is left. -/
theorem positive_opening (volume : ℚ) :
    Positive (if 0 < volume then [{ req with offset := .opening, volume }] else []) := by
  split
  · rename_i some
    simpa using some
  · simp

theorem positive_lock_iff : Positive (h.convertOrderRequestLock req) ↔ LockTakesLots h req := by
  unfold convertOrderRequestLock LockTakesLots
  generalize h.closedBy req.direction = leg
  simp only
  split
  · simp
  · have opens : Positive (if 0 < toInt (max 0 (req.volume - (leg.yd - leg.ydFrozen))) then
        [{ req with offset := .opening
                    volume := toInt (max 0 (req.volume - (leg.yd - leg.ydFrozen))) }]
        else []) := by
      split
      · rename_i some
        simpa using some
      · simp
    rw [positive_append, and_iff_left opens]
    unfold TakesLot
    rw [← toInt_pos_iff, min_comm]
    split
    · rename_i some
      simp [some]
    · rename_i none
      simp [none]

theorem positive_net_iff : Positive (h.convertOrderRequestNet req) ↔ NetTakesLots h req := by
  unfold convertOrderRequestNet NetTakesLots
  generalize h.closedBy req.direction = leg
  simp only
  rw [positive_append, and_iff_left (positive_opening _)]
  by_cases shfe : req.exchange.closesYesterday = true
  · simp only [shfe, if_true]
    rw [positive_append, positive_closePart_iff]
    refine and_congr_right fun takes => ?_
    rw [closePart_left takes]
    split
    · rename_i some
      rw [positive_closePart_iff]
      exact ⟨fun rest _ => rest, fun rest => rest some⟩
    · rename_i none
      simp [none]
  · simp only [shfe]
    exact positive_closePart_iff

end PositionHolding

namespace OmsEngine

variable {s : OmsEngine} {req : OrderRequest} {exchangeName : AString} {lock net : Bool}

/-- The holding by which a request is converted, if it is. -/
def holding? (s : OmsEngine) (req : OrderRequest) (exchangeName : AString) :
    Option PositionHolding :=
  (s.getConverter exchangeName).bind fun c =>
    if OffsetConverter.isConvertRequired s.getContract req.ktSymbol then
      c.getPositionHolding s.getContract req.ktSymbol
    else none

/-- The request asks for something if it is not converted, and each part takes a lot if it is. -/
def TakesLots (s : OmsEngine) (req : OrderRequest) (exchangeName : AString) (lock : Bool) : Prop :=
  (s.holding? req exchangeName = none → 0 < req.volume) ∧
    ∀ h, s.holding? req exchangeName = some h →
      if lock then h.LockTakesLots req else h.NetTakesLots req

instance : Decidable (TakesLots s req exchangeName lock) := inferInstanceAs (Decidable (_ ∧ _))

/-- What a request is converted to. -/
theorem boundConvert_eq (s : OmsEngine) (req : OrderRequest) (exchangeName : AString)
    (lock net : Bool) :
    (s.boundConvertOrderRequest req exchangeName lock net).1 =
      match s.holding? req exchangeName with
      | none => [req]
      | some h => if lock then h.convertOrderRequestLock req else h.convertOrderRequestNet req := by
  unfold boundConvertOrderRequest convertOrderRequest holding?
  cases s.getConverter exchangeName with
  | none => rfl
  | some c =>
    simp only [Option.bind_some, OffsetConverter.convertOrderRequest]
    cases required : OffsetConverter.isConvertRequired s.getContract req.ktSymbol with
    | false => simp
    | true =>
      obtain ⟨h, held⟩ := exists_holding (c := c) required
      simp [held]

theorem positive_convert_iff :
    Positive (s.boundConvertOrderRequest req exchangeName lock net).1 ↔
      s.TakesLots req exchangeName lock := by
  rw [boundConvert_eq]
  unfold TakesLots
  cases s.holding? req exchangeName with
  | none => simp
  | some h =>
    cases lock with
    | true => simpa using PositionHolding.positive_lock_iff
    | false => simpa using PositionHolding.positive_net_iff

end OmsEngine

end KeenTrader.Engine

namespace KeenTrader.App

open Std (ExtTreeMap ExtTreeSet)
open Containers Handlers Runs KeenTrader.Engine

namespace CtaEngine

/-! ## The requests of a call -/

/-- The request that `send_server_order` converts. -/
def serverRequest (contract : ContractData) (direction : Direction) (offset : Offset)
    (price volume : ℚ) (type : Engine.OrderType) : OrderRequest :=
  { symbol := contract.symbol, exchange := contract.exchange, direction, type, volume, price
    offset, reference := "\x7bAPP_NAME\x7d_\x7bstrategy.strategy_name\x7d" }

/-- The requests that have reached `TradeEngine::send_order`. -/
def sent (trace : List Effect) : List OrderRequest :=
  trace.filterMap fun
    | .sendOrder _ _ req _ _ => some req
    | _ => none

/-- What a strategy asks `send_order` for. -/
structure Ask where
  direction : Direction
  offset : Offset
  price : ℚ
  volume : ℚ
  stop : Bool
  lock : Bool
  net : Bool

/-- The ask goes to the book of stop orders. -/
def Ask.isLocal (a : Ask) (contract : ContractData) : Bool := a.stop && !contract.stopSupported

/-- The request of an ask that goes to the exchange at once. -/
def Ask.request (a : Ask) (contract : ContractData) : OrderRequest :=
  serverRequest contract a.direction a.offset (roundTo a.price contract.pricetick)
    (roundTo a.volume contract.minVolume) (if a.stop then .stop else .limit)

/-- The stop order of an ask that goes to the book. -/
def Ask.stopOrder (a : Ask) (s : CtaEngine) (p : Ptr) (contract : ContractData) : StopOrder :=
  { ktSymbol := (s.objects p).ktSymbol, direction := a.direction, offset := a.offset
    price := roundTo a.price contract.pricetick
    volume := roundTo a.volume contract.minVolume
    stopOrderid := localId s.stopOrderCount, strategyName := (s.objects p).strategyName
    lock := a.lock, net := a.net }

section Requests
variable (env : Environment) (s : CtaEngine) (p : Ptr) (a : Ask) (contract : ContractData)

def Ask.send (call : Runner) : List AString × CtaEngine :=
  sendOrder env call s p a.direction a.offset a.price a.volume a.stop a.lock a.net

/-- The price of the order for a stop order that the tick triggers. -/
def triggerPrice (tick : TickData) (so : StopOrder) : ℚ :=
  if so.direction = .long then if tick.limitUp ≠ 0 then tick.limitUp else tick.askPrice5
  else if tick.limitDown ≠ 0 then tick.limitDown else tick.bidPrice5

def stopRequest (tick : TickData) (so : StopOrder) : OrderRequest :=
  serverRequest contract so.direction so.offset (triggerPrice tick so) so.volume .limit

/-- The requests that an ask makes at once. -/
def Ask.requests : List OrderRequest :=
  if a.isLocal contract then []
  else (s.oms.boundConvertOrderRequest (a.request contract) contract.exchangeName a.lock a.net).1

/-- The requests that a visit of a stop order makes. -/
def stopRequests (tick : TickData) (so : StopOrder) : List OrderRequest :=
  if Triggers tick so then
    match s.strategies[so.strategyName]?, s.oms.getContract so.ktSymbol with
    | some _, some contract =>
      (s.oms.boundConvertOrderRequest (stopRequest contract tick so) contract.exchangeName so.lock
        so.net).1
    | _, _ => []
  else []

theorem sent_append (first second : List Effect) :
    sent (first ++ second) = sent first ++ sent second :=
  List.filterMap_append

theorem sent_sendRequests (exchangeName : AString) (reqs : List OrderRequest) :
    sent (sendRequests env p exchangeName reqs s).2.trace = sent s.trace ++ reqs := by
  induction reqs generalizing s with
  | nil => simp [sendRequests]
  | cons req reqs ih =>
    have first : sent (sendRequest env s p req exchangeName).2.trace = sent s.trace ++ [req] := by
      rcases sendRequest_cases env s p req exchangeName with ⟨-, eq⟩ | ⟨_, -, eq⟩
      · rw [eq]
        exact sent_append _ _
      · rw [eq]
        exact sent_append _ _
    have rest := ih (sendRequest env s p req exchangeName).2
    rw [first, List.append_assoc] at rest
    exact rest

theorem sent_sendServerOrder (direction : Direction) (offset : Offset) (price volume : ℚ)
    (type : Engine.OrderType) (lock net : Bool) :
    sent (sendServerOrder env s p contract direction offset price volume type lock net).2.trace =
      sent s.trace ++ (s.oms.boundConvertOrderRequest
        (serverRequest contract direction offset price volume type) contract.exchangeName lock
          net).1 :=
  sent_sendRequests env { s with oms := _ } p contract.exchangeName _

end Requests

variable {env : Environment} {s t : CtaEngine} {p : Ptr} {a : Ask} {contract : ContractData}
  {so : StopOrder} {tick : TickData} {call : Runner}

/-- The requests of an ask that does not go to the book are what reaches the exchange. -/
theorem sent_send (found : s.oms.getContract (s.objects p).ktSymbol = some contract)
    (direct : a.isLocal contract = false) :
    sent (a.send env s p call).2.trace = sent s.trace ++ a.requests s contract := by
  have split : a.send env s p call =
      sendServerOrder env s p contract a.direction a.offset (roundTo a.price contract.pricetick)
        (roundTo a.volume contract.minVolume) (if a.stop then .stop else .limit) a.lock a.net := by
    unfold Ask.send sendOrder
    rw [found]
    unfold Ask.isLocal at direct
    cases stop : a.stop with
    | false => rfl
    | true =>
      have supported : contract.stopSupported = true := by simpa [stop] using direct
      simp [supported, sendServerStopOrder]
  rw [split, sent_sendServerOrder]
  simp [Ask.requests, direct, Ask.request]

/-- The requests of a visit are what reaches the exchange, before the strategy is told. -/
theorem sent_checkOne (visited : checkOne env s tick so = some t) :
    sent s.trace ++ stopRequests s tick so <+: sent t.trace := by
  unfold stopRequests
  rcases checkOne_cases env s tick so with
    ⟨idle, same⟩ | ⟨-, -, threw⟩ | ⟨q, contract, triggers, owner, found, last⟩
  · obtain rfl := Option.some.inj (same.symm.trans visited)
    simp [idle]
  · simp [threw] at visited
  · have reached := sent_sendServerOrder env s q contract so.direction so.offset
      (triggerPrice tick so) so.volume .limit so.lock so.net
    change sent (sendTriggered env s tick q contract so).2.trace = _ at reached
    rw [if_pos triggers, owner, found]
    simp only [stopRequest]
    rw [← reached]
    rcases last with ⟨u, eq, same⟩ | ⟨_, _, u, told, eq, -, same⟩
    · obtain rfl := Option.some.inj (same.symm.trans visited)
      simp [eq]
    · obtain rfl := Option.some.inj (same.symm.trans visited)
      have rest : Moves env _ _ := (moves_call env q (.onStopOrder told)
        (u.dropStopOrder q so.stopOrderid)).trans (moves_putStopOrderEvent _ told)
      rw [eq]
      exact ((List.prefix_append _ _).trans rest.grows).filterMap _

/-! ## What comes after a call -/

/-- The engine goes on: strategies act, events are processed, and strategies are added, changed and
removed. -/
def Goes (env : Environment) (s t : CtaEngine) : Prop :=
  (∃ hears, Change env hears s t) ∨ ∃ name, t = s.removeStrategy name

abbrev Later (env : Environment) : CtaEngine → CtaEngine → Prop :=
  Relation.ReflTransGen (Goes env)

theorem Later.keeps (later : Later env s t) : Keeps s t := by
  induction later with
  | refl => exact .refl s
  | @tail u _ _ goes ih =>
    rcases goes with ⟨hears, change⟩ | ⟨name, rfl⟩
    · rcases change.cases_aside with move | aside
      · exact ih.trans move.keeps
      · exact ih.trans (keeps_of_same aside.stopOrderCount aside.stopOrders)
    · have aside := aside_removeStrategy u name
      exact ih.trans (keeps_of_same aside.stopOrderCount aside.stopOrders)

/-- The operations of a run are among what goes on. -/
theorem later_step (safe : s.Safe) (op : Op) : Later env s (s.step env op) := by
  by_cases removal : ∃ name, op = .removeStrategy name
  · obtain ⟨name, rfl⟩ := removal
    exact .single (.inr ⟨name, rfl⟩)
  · have changes := changes_step env safe op fun name same => removal ⟨name, same⟩
    exact changes.lift id fun _ _ change => .inl ⟨_, change⟩

theorem later_passAttempts (tick : TickData) (n : ℕ) (after : Option AString) (safe : s.Safe)
    {attempt : Attempt} (made : attempt ∈ passAttempts env tick n after s) :
    Later env s attempt.state := by
  induction n generalizing after s with
  | zero => simp [passAttempts] at made
  | succ n ih =>
    unfold passAttempts at made
    split at made
    · simp at made
    · rename_i key so next
      rcases List.mem_append.mp made with here | rest
      · unfold visitAttempts at here
        split at here
        · split at here
          · rw [List.mem_singleton.mp here]
          · simp at here
        · simp at here
      · split at rest
        · simp at rest
        · rename_i u visited
          have moves := moves_checkOne safe (nextStopOrder_stored next) visited
          have before : Later env s u := moves.lift id fun _ _ move =>
            .inl ⟨fun _ => False, .move move⟩
          exact before.trans (ih (some key) (moves.acts.guarded safe) rest)

/-- The states in which a run sends orders for stop orders are among those that come later. -/
theorem later_attempts (ops : List Op) (safe : s.Safe) {attempt : Attempt}
    (made : attempt ∈ attempts env s ops) : Later env s attempt.state := by
  induction ops generalizing s with
  | nil => simp [attempts] at made
  | cons op ops ih =>
    rcases List.mem_append.mp made with here | rest
    · cases op with
      | tick tick =>
        have fed : Goes env s (s.processOms env (.tick tick)) := .inl ⟨fun _ => False, .oms s _⟩
        simp only [opAttempts, tickAttempts] at here
        split at here
        · simp at here
        · exact .head fed (later_passAttempts tick _ none (safe.processOms _) here)
      | _ => simp [opAttempts] at here
    · exact (later_step safe op).trans (ih (safe.step op) rest)

/-- What an ask places is kept as it is, whatever its strategy does when it is told. -/
theorem keeps_send (n : ℕ) (found : s.oms.getContract (s.objects p).ktSymbol = some contract)
    (booked : a.isLocal contract = true)
    (later : Later env (a.send env s p (callback env n)).2 t)
    (stored : t.stopOrders[localId s.stopOrderCount]? = some so) :
    so = a.stopOrder s p contract := by
  have told : Moves env _ _ := (moves_callback n p (.onStopOrder (a.stopOrder s p contract))
    (s.placeStopOrder p (a.stopOrder s p contract))).trans
      (moves_putStopOrderEvent _ (a.stopOrder s p contract))
  have split : (a.send env s p (callback env n)).2 =
      (callback env n p (.onStopOrder (a.stopOrder s p contract))
        (s.placeStopOrder p (a.stopOrder s p contract))).putStopOrderEvent
          (a.stopOrder s p contract) := by
    unfold Ask.isLocal at booked
    unfold Ask.send sendOrder
    rw [found]
    simp_all [sendLocalStopOrder, Ask.stopOrder, localId]
  rw [split] at later
  have placed :=
    (told.keeps.trans later.keeps).entry s.stopOrderCount (Nat.lt_succ_self _) so stored
  simpa [Ask.stopOrder] using placed.symm

/-! ## Positive requests -/

/-- What a visit of a stop order sends takes lots. -/
def StopTakesLots (s : CtaEngine) (tick : TickData) (so : StopOrder) : Prop :=
  Triggers tick so → ∀ p, s.strategies[so.strategyName]? = some p →
    ∀ contract, s.oms.getContract so.ktSymbol = some contract →
      s.oms.TakesLots (stopRequest contract tick so) contract.exchangeName so.lock

instance : Decidable (StopTakesLots s tick so) := inferInstanceAs (Decidable (_ → _))

/-- The requests of an ask are positive: those that are made at once in the state `s`, and those
that its stop order makes in the state `t` if it is still in the book. -/
structure AskPositive (s : CtaEngine) (p : Ptr) (a : Ask) (contract : ContractData) (t : CtaEngine)
    (tick : TickData) : Prop where
  placed : Positive (a.requests s contract)
  triggered : a.isLocal contract = true → ∀ so,
    t.stopOrders[localId s.stopOrderCount]? = some so → Positive (stopRequests t tick so)

/-- Where a request is made for the rounded volume it takes lots: at once in the state `s`, or in
the state `t` in which the stop order is still in the book. -/
def AskTakesLots (s : CtaEngine) (p : Ptr) (a : Ask) (contract : ContractData) (t : CtaEngine)
    (tick : TickData) : Prop :=
  if a.isLocal contract then
    t.stopOrders.contains (localId s.stopOrderCount) = true →
      StopTakesLots t tick (a.stopOrder s p contract)
  else s.oms.TakesLots (a.request contract) contract.exchangeName a.lock

instance : Decidable (AskTakesLots s p a contract t tick) := inferInstanceAs (Decidable (ite _ _ _))

theorem positive_stopRequests_iff :
    Positive (stopRequests s tick so) ↔ StopTakesLots s tick so := by
  unfold stopRequests StopTakesLots
  by_cases triggers : Triggers tick so
  · cases s.strategies[so.strategyName]? with
    | none => simp [triggers]
    | some p =>
      cases s.oms.getContract so.ktSymbol with
      | none => simp [triggers]
      | some contract =>
        rw [if_pos triggers]
        simp only [OmsEngine.positive_convert_iff]
        simp [triggers]
  · simp [triggers]

/-- Every request of a call is positive, at once and later, exactly where each part takes a lot of
what is available at that time. -/
theorem ask_positive_iff (env : Environment) (n : ℕ) (s : CtaEngine) (p : Ptr) (a : Ask)
    (contract : ContractData) (found : s.oms.getContract (s.objects p).ktSymbol = some contract)
    (t : CtaEngine) (later : Later env (a.send env s p (callback env n)).2 t) (tick : TickData) :
    AskPositive s p a contract t tick ↔ AskTakesLots s p a contract t tick := by
  unfold AskTakesLots
  cases booked : a.isLocal contract with
  | false =>
    have at_once : Positive (a.requests s contract) ↔
        s.oms.TakesLots (a.request contract) contract.exchangeName a.lock := by
      rw [Ask.requests, if_neg (by simp [booked])]
      exact OmsEngine.positive_convert_iff
    rw [if_neg (by simp), ← at_once]
    exact ⟨AskPositive.placed, fun placed => ⟨placed, by simp [booked]⟩⟩
  | true =>
    have nothing : Positive (a.requests s contract) := by simp [Ask.requests, booked]
    rw [if_pos rfl, ← positive_stopRequests_iff]
    constructor
    · intro positive contained
      rw [ExtTreeMap.contains_eq_isSome_getElem?, Option.isSome_iff_exists] at contained
      obtain ⟨so, stored⟩ := contained
      exact keeps_send n found booked later stored ▸ positive.triggered booked so stored
    · intro takes
      refine ⟨nothing, fun _ so stored => ?_⟩
      rw [keeps_send n found booked later stored]
      exact takes (by simp [ExtTreeMap.contains_eq_isSome_getElem?, stored])

section Rounded

/-- The strategy is started, and its contract is traded in whole lots. -/
def startedAlpha : List Op := boughtOnTick.take 4

def alphaContract : ContractData :=
  { symbol := "rb2410", exchange := .shfe, product := .futures, pricetick := 1
    exchangeName := "CTP" }

def buys (volume : ℚ) (stop : Bool) : Ask :=
  { direction := .long, offset := .opening, price := 3500, volume, stop, lock := false
    net := false }

/-- A stop order for one lot sends it when it triggers. -/
theorem stop_positive :
    AskPositive (run buyOnTick {"Dual"} startedAlpha) 0 (buys 1 true) alphaContract
      ((buys 1 true).send buyOnTick (run buyOnTick {"Dual"} startedAlpha) 0
        (callback buyOnTick 1)).2
      { symbol := "rb2410", exchange := .shfe, lastPrice := 3600 } :=
  (ask_positive_iff buyOnTick 1 (run buyOnTick {"Dual"} startedAlpha) 0 (buys 1 true) alphaContract
    (by decide +kernel) _ .refl _).mpr (by decide +kernel)

/-- Less than half a lot is rounded to nothing, and nothing is what is sent. -/
theorem nothing_sent :
    ¬ ∀ (env : Environment) (n : ℕ) (s : CtaEngine) (p : Ptr) (a : Ask) (contract : ContractData),
      s.oms.getContract (s.objects p).ktSymbol = some contract →
      0 < contract.pricetick → 0 < contract.minVolume → 0 < a.volume →
      ∀ t, Later env (a.send env s p (callback env n)).2 t →
        ∀ tick, AskPositive s p a contract t tick := by
  intro all
  have positive := all buyOnTick 1 (run buyOnTick {"Dual"} startedAlpha) 0 (buys (2 / 5) false)
    alphaContract (by decide +kernel) (by decide) (by decide) (by norm_num [buys]) _ .refl
    { symbol := "rb2410", exchange := .shfe }
  exact absurd positive.placed (by unfold Positive; decide +kernel)

end Rounded

end CtaEngine

end KeenTrader.App
