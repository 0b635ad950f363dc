import KeenTrader.Library.Runs
import KeenTrader.Engine.Converter

/-!
# The order management engine

The event handlers of `OmsEngine` and the lookups that it binds into `TradeEngine`. Each handler
stores the record under its key; order, trade and position events then go to the offset
converter of their exchange. A contract event replaces the converter of an exchange that has
one, and no handler makes the first one.
-/

namespace KeenTrader.Engine

open Std (ExtTreeMap)
open Containers Runs

/-- `nextAddress` is the address that the next `new` returns. -/
structure OmsEngine where
  ticks : ExtTreeMap AString TickData := ∅
  orders : ExtTreeMap AString OrderData := ∅
  trades : ExtTreeMap AString TradeData := ∅
  positions : ExtTreeMap AString PositionData := ∅
  accounts : ExtTreeMap AString AccountData := ∅
  contracts : ExtTreeMap AString ContractData := ∅
  quotes : ExtTreeMap AString QuoteData := ∅
  activeOrders : ExtTreeMap AString OrderData := ∅
  activeQuotes : ExtTreeMap AString QuoteData := ∅
  offsetConverters : ExtTreeMap AString OffsetConverter := ∅
  nextAddress : ℕ := 0
  deriving DecidableEq

inductive OmsEvent where
  | tick (tick : TickData)
  | order (order : OrderData)
  | trade (trade : TradeData)
  | position (position : PositionData)
  | account (account : AccountData)
  | contract (contract : ContractData)
  | quote (quote : QuoteData)
  deriving DecidableEq

namespace OmsEngine

def getTick (s : OmsEngine) (ktSymbol : AString) : Option TickData := s.ticks[ktSymbol]?
def getOrder (s : OmsEngine) (ktOrderid : AString) : Option OrderData := s.orders[ktOrderid]?
def getTrade (s : OmsEngine) (ktTradeid : AString) : Option TradeData := s.trades[ktTradeid]?
def getPosition (s : OmsEngine) (ktPositionid : AString) : Option PositionData :=
  s.positions[ktPositionid]?
def getAccount (s : OmsEngine) (ktAccountid : AString) : Option AccountData :=
  s.accounts[ktAccountid]?
def getQuote (s : OmsEngine) (ktQuoteid : AString) : Option QuoteData := s.quotes[ktQuoteid]?
def getContract (s : OmsEngine) (ktSymbol : AString) : Option ContractData :=
  s.contracts[ktSymbol]?
def getConverter (s : OmsEngine) (exchangeName : AString) : Option OffsetConverter :=
  s.offsetConverters[exchangeName]?

/-- Apply `f` to the converter of an exchange that has one. -/
def modifyConverter (s : OmsEngine) (exchangeName : AString)
    (f : OffsetConverter → OffsetConverter) : OmsEngine :=
  match s.getConverter exchangeName with
  | some c => { s with offsetConverters := s.offsetConverters.insert exchangeName (f c) }
  | none => s

def processTickEvent (s : OmsEngine) (tick : TickData) : OmsEngine :=
  { s with ticks := s.ticks.insert tick.ktSymbol tick }

def processTradeEvent (s : OmsEngine) (trade : TradeData) : OmsEngine :=
  let s := { s with trades := s.trades.insert trade.ktTradeid trade }
  s.modifyConverter trade.exchangeName (·.updateTrade s.getContract trade)

def processPositionEvent (s : OmsEngine) (position : PositionData) : OmsEngine :=
  let s := { s with positions := s.positions.insert position.ktPositionid position }
  s.modifyConverter position.exchangeName (·.updatePosition s.getContract position)

def processAccountEvent (s : OmsEngine) (account : AccountData) : OmsEngine :=
  { s with accounts := s.accounts.insert account.ktAccountid account }

def processContractEvent (s : OmsEngine) (contract : ContractData) : OmsEngine :=
  let s := { s with contracts := s.contracts.insert contract.ktSymbol contract }
  if s.offsetConverters.contains contract.exchangeName then
    { s with
      offsetConverters :=
        s.offsetConverters.insert contract.exchangeName { address := s.nextAddress }
      nextAddress := s.nextAddress + 1 }
  else s

def processQuoteEvent (s : OmsEngine) (quote : QuoteData) : OmsEngine :=
  { s with
    quotes := s.quotes.insert quote.ktQuoteid quote
    activeQuotes :=
      if quote.isActive then s.activeQuotes.insert quote.ktQuoteid quote
      else s.activeQuotes.erase quote.ktQuoteid }

section Enumerated
variable (enum : Enumeration AString OrderData)

def processOrderEvent (s : OmsEngine) (order : OrderData) : OmsEngine :=
  let s := { s with
    orders := s.orders.insert order.ktOrderid order
    activeOrders :=
      if order.isActive then s.activeOrders.insert order.ktOrderid order
      else s.activeOrders.erase order.ktOrderid }
  s.modifyConverter order.exchangeName (·.updateOrder s.getContract enum order)

def process (s : OmsEngine) : OmsEvent → OmsEngine
  | .tick tick => s.processTickEvent tick
  | .order order => s.processOrderEvent enum order
  | .trade trade => s.processTradeEvent trade
  | .position position => s.processPositionEvent position
  | .account account => s.processAccountEvent account
  | .contract contract => s.processContractEvent contract
  | .quote quote => s.processQuoteEvent quote

def run (events : List OmsEvent) : OmsEngine := events.foldl (process enum) {}

def updateOrderRequest (s : OmsEngine) (req : OrderRequest) (ktOrderid exchangeName : AString) :
    OmsEngine :=
  s.modifyConverter exchangeName (·.updateOrderRequest s.getContract enum req ktOrderid)

end Enumerated

def convertOrderRequest (s : OmsEngine) (req : OrderRequest) (exchangeName : AString)
    (lock net : Bool) : List OrderRequest × OmsEngine :=
  match s.getConverter exchangeName with
  | none => ([req], s)
  | some c =>
    let (reqs, c) := c.convertOrderRequest s.getContract req lock net
    (reqs, { s with offsetConverters := s.offsetConverters.insert exchangeName c })

/-- `TradeEngine::convert_order_request`. Its fourth argument is bound to the number 4 in place
of the placeholder, so the flag that the caller passes is dropped and `net` is true. -/
def boundConvertOrderRequest (s : OmsEngine) (req : OrderRequest) (exchangeName : AString)
    (lock _net : Bool) : List OrderRequest × OmsEngine :=
  s.convertOrderRequest req exchangeName lock true

/-! ## Converters and their holdings -/

variable {enum : Enumeration AString OrderData} {s : OmsEngine}

theorem getConverter_modifyConverter (s : OmsEngine) (exchangeName : AString)
    (f : OffsetConverter → OffsetConverter) (name : AString) :
    (s.modifyConverter exchangeName f).getConverter name =
      if name = exchangeName then (s.getConverter name).map f else s.getConverter name := by
  unfold modifyConverter
  by_cases same : name = exchangeName
  · subst same
    cases found : s.getConverter name with
    | none => simp [found]
    | some c => simp [getConverter]
  · have other : ¬exchangeName = name := fun eq => same eq.symm
    cases found : s.getConverter exchangeName <;>
      simp [getConverter, same, ExtTreeMap.getElem?_insert, other]

@[simp] theorem modifyConverter_getContract (s : OmsEngine) (exchangeName : AString)
    (f : OffsetConverter → OffsetConverter) :
    (s.modifyConverter exchangeName f).getContract = s.getContract := by
  unfold modifyConverter
  split <;> rfl

/-- The first converter is never made. -/
theorem process_offsetConverters_empty (none : s.offsetConverters = ∅) (e : OmsEvent) :
    (s.process enum e).offsetConverters = ∅ := by
  have absent : ∀ (s : OmsEngine) name f, s.offsetConverters = ∅ →
      (s.modifyConverter name f).offsetConverters = ∅ := by
    intro s name f none
    unfold modifyConverter getConverter
    simp [none]
  cases e with
  | tick tick => exact none
  | order order => exact absent _ _ _ none
  | trade trade => exact absent _ _ _ none
  | position position => exact absent _ _ _ none
  | account account => exact none
  | contract contract => simp [process, processContractEvent, none]
  | quote quote => exact none

theorem run_offsetConverters (events : List OmsEvent) :
    (run enum events).offsetConverters = ∅ :=
  foldl_invariant (process enum) (P := fun s => s.offsetConverters = ∅)
    (fun _ e none => process_offsetConverters_empty none e) rfl

theorem run_getConverter (events : List OmsEvent) (name : AString) :
    (run enum events).getConverter name = none := by
  simp [getConverter, run_offsetConverters]

section Follow
variable (enum : Enumeration AString OrderData)

/-- The holding of one symbol under the events of one exchange. -/
def follow (exchangeName ktSymbol : AString) (h : PositionHolding) : OmsEvent → PositionHolding
  | .order o =>
    if o.exchangeName = exchangeName ∧ o.ktSymbol = ktSymbol then h.updateOrder enum o else h
  | .trade t =>
    if t.exchangeName = exchangeName ∧ t.ktSymbol = ktSymbol then h.updateTrade t else h
  | .position p =>
    if p.exchangeName = exchangeName ∧ p.ktSymbol = ktSymbol then h.updatePosition p else h
  | .tick _ | .account _ | .contract _ | .quote _ => h

/-- The converter of an exchange holds `h` for a symbol that needs conversion. -/
structure Serves (s : OmsEngine) (exchangeName ktSymbol : AString) (address : ℕ)
    (h : PositionHolding) : Prop where
  required : OffsetConverter.isConvertRequired s.getContract ktSymbol = true
  converter : ∃ c, s.getConverter exchangeName = some c ∧ c.address = address ∧
    c.getPositionHolding s.getContract ktSymbol = some h

end Follow

variable {exchangeName ktSymbol : AString} {address : ℕ} {h : PositionHolding}

/-- An update of a holding through the converters. -/
theorem serves_modifyConverter (serves : s.Serves exchangeName ktSymbol address h)
    (name updated : AString) (f : PositionHolding → PositionHolding) :
    (s.modifyConverter name (·.modifyHolding s.getContract updated f)).Serves exchangeName
      ktSymbol address (if name = exchangeName ∧ updated = ktSymbol then f h else h) := by
  obtain ⟨required, c, found, at_address, holds⟩ := serves
  refine ⟨by rw [modifyConverter_getContract]; exact required, ?_⟩
  rw [getConverter_modifyConverter, modifyConverter_getContract, found]
  by_cases same : exchangeName = name
  · rw [if_pos same]
    refine ⟨_, rfl, by simpa using at_address, ?_⟩
    rw [OffsetConverter.getPositionHolding_modifyHolding, holds, required]
    by_cases symbol : updated = ktSymbol <;> simp [same, symbol]
  · rw [if_neg same]
    have other : ¬name = exchangeName := fun eq => same eq.symm
    exact ⟨c, rfl, at_address, by simp [other, holds]⟩

/-- Two states with the same contracts and converters serve alike. -/
theorem Serves.congr {t : OmsEngine} (serves : s.Serves exchangeName ktSymbol address h)
    (contracts : t.contracts = s.contracts) (converters : t.offsetConverters = s.offsetConverters) :
    t.Serves exchangeName ktSymbol address h := by
  have get : t.getContract = s.getContract := by
    funext name
    simp [getContract, contracts]
  obtain ⟨required, c, found, at_address, holds⟩ := serves
  exact ⟨by rw [get]; exact required, c, by simpa [getConverter, converters] using found,
    at_address, by rw [get]; exact holds⟩

/-- One event that is not a contract moves the holding as the plain fold does. -/
theorem serves_process (serves : s.Serves exchangeName ktSymbol address h) {e : OmsEvent}
    (noContract : ∀ contract, e ≠ .contract contract) :
    (s.process enum e).Serves exchangeName ktSymbol address
      (follow enum exchangeName ktSymbol h e) := by
  cases e with
  | tick tick => exact serves.congr rfl rfl
  | account account => exact serves.congr rfl rfl
  | quote quote => exact serves.congr rfl rfl
  | contract contract => exact absurd rfl (noContract contract)
  | order o =>
    have stored := serves.congr (t := { s with
      orders := s.orders.insert o.ktOrderid o
      activeOrders :=
        if o.isActive then s.activeOrders.insert o.ktOrderid o
        else s.activeOrders.erase o.ktOrderid }) rfl rfl
    exact serves_modifyConverter stored o.exchangeName o.ktSymbol (·.updateOrder enum o)
  | trade t =>
    have stored := serves.congr (t := { s with trades := s.trades.insert t.ktTradeid t }) rfl rfl
    exact serves_modifyConverter stored t.exchangeName t.ktSymbol (·.updateTrade t)
  | position p =>
    have stored := serves.congr
      (t := { s with positions := s.positions.insert p.ktPositionid p }) rfl rfl
    exact serves_modifyConverter stored p.exchangeName p.ktSymbol (·.updatePosition p)

/-- Where a converter exists, it stays the same object and its holding is the fold of the
events, until the next contract event. -/
theorem serves_foldl (serves : s.Serves exchangeName ktSymbol address h) (events : List OmsEvent)
    (noContract : ∀ contract, .contract contract ∉ events) :
    (events.foldl (process enum) s).Serves exchangeName ktSymbol address
      (events.foldl (follow enum exchangeName ktSymbol) h) := by
  induction events generalizing s h with
  | nil => exact serves
  | cons e events ih =>
    refine ih (serves_process serves ?_) fun contract mem => noContract contract (by simp [mem])
    intro contract eq
    exact noContract contract (by simp [eq])

/-! ## Accounts and positions -/

def account? : OmsEvent → Option AccountData
  | .account a => some a
  | .tick _ | .order _ | .trade _ | .position _ | .contract _ | .quote _ => none

def position? : OmsEvent → Option PositionData
  | .position p => some p
  | .tick _ | .order _ | .trade _ | .account _ | .contract _ | .quote _ => none

@[simp] theorem modifyConverter_accounts (s : OmsEngine) (exchangeName : AString)
    (f : OffsetConverter → OffsetConverter) :
    (s.modifyConverter exchangeName f).accounts = s.accounts := by
  unfold modifyConverter
  split <;> rfl

@[simp] theorem modifyConverter_positions (s : OmsEngine) (exchangeName : AString)
    (f : OffsetConverter → OffsetConverter) :
    (s.modifyConverter exchangeName f).positions = s.positions := by
  unfold modifyConverter
  split <;> rfl

/-- An account event is stored, and the other events leave the accounts alone. -/
theorem process_accounts (s : OmsEngine) (e : OmsEvent) :
    (s.process enum e).accounts =
      (account? e).toList.foldl (put AccountData.ktAccountid fun _ => true) s.accounts := by
  cases e with
  | account a => rfl
  | contract c =>
    simp only [process, processContractEvent]
    split <;> rfl
  | tick _ | quote _ => rfl
  | order _ | trade _ | position _ =>
    simp [process, processOrderEvent, processTradeEvent, processPositionEvent, account?]

theorem process_positions (s : OmsEngine) (e : OmsEvent) :
    (s.process enum e).positions =
      (position? e).toList.foldl (put PositionData.ktPositionid fun _ => true) s.positions := by
  cases e with
  | position p => simp [process, processPositionEvent, position?, put]
  | contract c =>
    simp only [process, processContractEvent]
    split <;> rfl
  | tick _ | quote _ | account _ => rfl
  | order _ | trade _ =>
    simp [process, processOrderEvent, processTradeEvent, position?]

/-- The account that is found under a key is the latest one with that key. -/
theorem getAccount_foldl (es : List OmsEvent) (s : OmsEngine) (k : AString) :
    (es.foldl (process enum) s).getAccount k =
      (latest (fun a => a.ktAccountid = k) (es.filterMap account?)).or (s.getAccount k) :=
  getElem?_store_foldl account? process_accounts es s k

/-- The position that is found under a key is the latest one with that key. -/
theorem getPosition_foldl (es : List OmsEvent) (s : OmsEngine) (k : AString) :
    (es.foldl (process enum) s).getPosition k =
      (latest (fun p => p.ktPositionid = k) (es.filterMap position?)).or (s.getPosition k) :=
  getElem?_store_foldl position? process_positions es s k

/-! ## Runs from the start -/

/-- From a contract event on, its exchange has one and the same converter. -/
def KeepsConverter (enum : Enumeration AString OrderData) (before : List OmsEvent)
    (contract : ContractData) (later : List OmsEvent) : Prop :=
  ∃ address, ∀ done, done <+: later →
    ((run enum (before ++ .contract contract :: done)).getConverter contract.exchangeName).map
      OffsetConverter.address = some address

/-- The holding of a contract with long and short positions is the fold of the events of its
exchange and symbol that come after its first contract event. -/
def FollowsEvents (enum : Enumeration AString OrderData) (before : List OmsEvent)
    (contract : ContractData) (later : List OmsEvent) : Prop :=
  (∀ c, .contract c ∈ before ++ .contract contract :: later → c.ktSymbol = contract.ktSymbol →
    c.netPosition = false) →
  (∀ c, .contract c ∈ before → c.ktSymbol ≠ contract.ktSymbol) →
  ∃ converter,
    (run enum (before ++ .contract contract :: later)).getConverter contract.exchangeName =
      some converter ∧
    converter.getPositionHolding (run enum (before ++ .contract contract :: later)).getContract
        contract.ktSymbol =
      some (later.foldl (follow enum contract.exchangeName contract.ktSymbol)
        (.ofContract contract))

/-- Converters are kept and follow the events in exactly those runs that handle no contract
event at all. -/
theorem converters_follow_iff (enum : Enumeration AString OrderData) (events : List OmsEvent) :
    (∀ before contract later, events = before ++ .contract contract :: later →
      KeepsConverter enum before contract later ∧ FollowsEvents enum before contract later) ↔
      ∀ contract, .contract contract ∉ events := by
  constructor
  · intro all contract mem
    obtain ⟨before, later, rfl⟩ := List.append_of_mem mem
    obtain ⟨⟨address, kept⟩, -⟩ := all before contract later rfl
    have found := kept [] List.nil_prefix
    rw [run_getConverter] at found
    exact absurd found (by simp)
  · intro noContract before contract later eq
    exact absurd (by simp [eq]) (noContract contract)

/-- After its contract event an exchange still has no converter. -/
theorem contract_without_converter :
    ¬ ∀ (enum : Enumeration AString OrderData) (events before : List OmsEvent)
      (contract : ContractData) (later : List OmsEvent),
      events = before ++ .contract contract :: later →
      KeepsConverter enum before contract later ∧ FollowsEvents enum before contract later := by
  intro all
  obtain ⟨⟨address, kept⟩, -⟩ := all .sorted
    [.contract { symbol := "rb2410", exchange := .shfe, product := .futures, pricetick := 1
                 exchangeName := "CTP" }] [] _ [] rfl
  have found := kept [] List.nil_prefix
  exact absurd found (by rw [run_getConverter]; simp)

end OmsEngine

end KeenTrader.Engine
