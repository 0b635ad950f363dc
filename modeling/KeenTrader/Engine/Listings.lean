import KeenTrader.Engine.Oms

/-!
# What the engine lists

`OmsEngine` answers queries for all records of a kind with the values of the map that keeps them,
and queries for the active orders and quotes with the values of a map of their own, all of them or
those of a symbol. A list is determined by the history of the records: it holds the latest record of
every key, as far as that is asked for, by increasing key.
-/

namespace KeenTrader.Engine

open Std (ExtTreeMap)
open Containers

/-- `MapValues`, for a map that is ordered by its keys. -/
def mapValues {V : Type*} (m : ExtTreeMap AString V) : List V := m.toList.map Prod.snd

def QuoteData.ktSymbol (q : QuoteData) : AString := ktSymbolOf q.symbol q.exchange

/-- The list holds the latest records of a history that are wanted, by increasing key. -/
structure Lists {A : Type*} (key : A → AString) (wanted : A → Bool) (history list : List A) :
    Prop where
  increasing : list.Pairwise fun a b => compare (key a) (key b) = .lt
  mem : ∀ x, x ∈ list ↔ latest (fun y => key y = key x) history = some x ∧ wanted x = true

namespace OmsEngine

def getAllTicks (s : OmsEngine) : List TickData := mapValues s.ticks
def getAllOrders (s : OmsEngine) : List OrderData := mapValues s.orders
def getAllTrades (s : OmsEngine) : List TradeData := mapValues s.trades
def getAllPositions (s : OmsEngine) : List PositionData := mapValues s.positions
def getAllAccounts (s : OmsEngine) : List AccountData := mapValues s.accounts
def getAllContracts (s : OmsEngine) : List ContractData := mapValues s.contracts
def getAllQuotes (s : OmsEngine) : List QuoteData := mapValues s.quotes

def getAllActiveOrders (s : OmsEngine) (ktSymbol : AString := "") : List OrderData :=
  if ktSymbol.isEmpty then mapValues s.activeOrders
  else (mapValues s.activeOrders).filter fun order => order.ktSymbol = ktSymbol

def getAllActiveQuotes (s : OmsEngine) (ktSymbol : AString := "") : List QuoteData :=
  if ktSymbol.isEmpty then mapValues s.activeQuotes
  else (mapValues s.activeQuotes).filter fun quote => quote.ktSymbol = ktSymbol

/-- What the two queries with a symbol leave out. -/
def concerns (ktSymbol own : AString) : Bool := ktSymbol.isEmpty || own = ktSymbol

/-! ## The records of an event -/

def tick? : OmsEvent → Option TickData
  | .tick t => some t
  | .order _ | .trade _ | .position _ | .account _ | .contract _ | .quote _ => none

def order? : OmsEvent → Option OrderData
  | .order o => some o
  | .tick _ | .trade _ | .position _ | .account _ | .contract _ | .quote _ => none

def trade? : OmsEvent → Option TradeData
  | .trade t => some t
  | .tick _ | .order _ | .position _ | .account _ | .contract _ | .quote _ => none

def contract? : OmsEvent → Option ContractData
  | .contract c => some c
  | .tick _ | .order _ | .trade _ | .position _ | .account _ | .quote _ => none

def quote? : OmsEvent → Option QuoteData
  | .quote q => some q
  | .tick _ | .order _ | .trade _ | .position _ | .account _ | .contract _ => none

/-! ## The stores after an event -/

/-- Each store takes the record of its kind, and the active ones take it or drop its key. -/
structure Stored (s : OmsEngine) (e : OmsEvent) (t : OmsEngine) : Prop where
  ticks : t.ticks = (tick? e).toList.foldl (put TickData.ktSymbol fun _ => true) s.ticks
  orders : t.orders = (order? e).toList.foldl (put OrderData.ktOrderid fun _ => true) s.orders
  trades : t.trades = (trade? e).toList.foldl (put TradeData.ktTradeid fun _ => true) s.trades
  positions : t.positions =
    (position? e).toList.foldl (put PositionData.ktPositionid fun _ => true) s.positions
  accounts : t.accounts =
    (account? e).toList.foldl (put AccountData.ktAccountid fun _ => true) s.accounts
  contracts : t.contracts =
    (contract? e).toList.foldl (put ContractData.ktSymbol fun _ => true) s.contracts
  quotes : t.quotes = (quote? e).toList.foldl (put QuoteData.ktQuoteid fun _ => true) s.quotes
  activeOrders : t.activeOrders =
    (order? e).toList.foldl (put OrderData.ktOrderid OrderData.isActive) s.activeOrders
  activeQuotes : t.activeQuotes =
    (quote? e).toList.foldl (put QuoteData.ktQuoteid QuoteData.isActive) s.activeQuotes

variable {enum : Enumeration AString OrderData} {s t : OmsEngine} {e : OmsEvent}

/-- The converters are no store of records. -/
theorem Stored.modifyConverter (stored : Stored s e t) (exchangeName : AString)
    (f : OffsetConverter → OffsetConverter) : Stored s e (t.modifyConverter exchangeName f) := by
  unfold OmsEngine.modifyConverter
  split
  · exact ⟨stored.ticks, stored.orders, stored.trades, stored.positions, stored.accounts,
      stored.contracts, stored.quotes, stored.activeOrders, stored.activeQuotes⟩
  · exact stored

theorem stored_process (s : OmsEngine) (e : OmsEvent) : Stored s e (s.process enum e) := by
  cases e with
  | tick tick => constructor <;> rfl
  | account account => constructor <;> rfl
  | quote quote => constructor <;> rfl
  | contract contract =>
    unfold process processContractEvent
    dsimp only
    split <;> constructor <;> rfl
  | order order =>
    refine Stored.modifyConverter ?_ order.exchangeName _
    constructor <;> rfl
  | trade trade =>
    refine Stored.modifyConverter ?_ trade.exchangeName _
    constructor <;> rfl
  | position position =>
    refine Stored.modifyConverter ?_ position.exchangeName _
    constructor <;> rfl

/-! ## The lists -/

section Store
variable {A : Type*} {key : A → AString} {keep wanted : A → Bool} {part : OmsEvent → Option A}
  {store : OmsEngine → ExtTreeMap AString A}

/-- A store of the engine after its events. -/
theorem getElem?_store_run
    (one : ∀ s e, store (process enum s e) = (part e).toList.foldl (put key keep) (store s))
    (empty : store {} = ∅) (events : List OmsEvent) (k : AString) :
    (store (run enum events))[k]? =
      (latest (fun x => key x = k) (events.filterMap part)).filter keep := by
  have stored : store (run enum events) = (events.filterMap part).foldl (put key keep) ∅ := by
    unfold run
    rw [← empty]
    generalize ({} : OmsEngine) = s
    induction events generalizing s with
    | nil => rfl
    | cons e events ih =>
      rw [List.foldl_cons, ih, one]
      cases found : part e <;> simp [found]
  rw [stored, getElem?_foldl_put]
  cases latest (fun x => key x = k) (events.filterMap part) <;> simp [Option.filter]

theorem lists_mapValues
    (one : ∀ s e, store (process enum s e) = (part e).toList.foldl (put key keep) (store s))
    (empty : store {} = ∅) (events : List OmsEvent) :
    Lists key keep (events.filterMap part) (mapValues (store (run enum events))) := by
  have own (k : AString) (x : A) (found : (store (run enum events))[k]? = some x) : key x = k := by
    rw [getElem?_store_run one empty, Option.filter_eq_some_iff] at found
    simpa using (mem_of_latest found.1).2
  constructor
  · refine List.pairwise_map.mpr (ExtTreeMap.ordered_keys_toList.imp_of_mem ?_)
    rintro ⟨k, x⟩ ⟨l, y⟩ first second less
    rw [own k x (ExtTreeMap.mem_toList_iff_getElem?_eq_some.mp first),
      own l y (ExtTreeMap.mem_toList_iff_getElem?_eq_some.mp second)]
    exact less
  · intro x
    rw [mapValues, List.mem_map]
    constructor
    · rintro ⟨⟨k, x⟩, mem, rfl⟩
      have found := ExtTreeMap.mem_toList_iff_getElem?_eq_some.mp mem
      rw [own k x found]
      rw [getElem?_store_run one empty, Option.filter_eq_some_iff] at found
      exact found
    · intro found
      refine ⟨(key x, x), ExtTreeMap.mem_toList_iff_getElem?_eq_some.mpr ?_, rfl⟩
      rw [getElem?_store_run one empty, Option.filter_eq_some_iff]
      exact found

end Store

end OmsEngine

/-- Of a list, those that are wanted as well. -/
theorem Lists.filter {A : Type*} {key : A → AString} {keep : A → Bool} {history list : List A}
    (lists : Lists key keep history list) (wanted : A → Bool) :
    Lists key (fun x => keep x && wanted x) history (list.filter wanted) where
  increasing := lists.increasing.filter _
  mem x := by simp [lists.mem, and_assoc]

namespace OmsEngine

/-- The answers to the queries for all records, active or not. -/
structure ListsAll (events : List OmsEvent) (s : OmsEngine) : Prop where
  ticks : Lists TickData.ktSymbol (fun _ => true) (events.filterMap tick?) s.getAllTicks
  orders : Lists OrderData.ktOrderid (fun _ => true) (events.filterMap order?) s.getAllOrders
  trades : Lists TradeData.ktTradeid (fun _ => true) (events.filterMap trade?) s.getAllTrades
  positions : Lists PositionData.ktPositionid (fun _ => true) (events.filterMap position?)
    s.getAllPositions
  accounts : Lists AccountData.ktAccountid (fun _ => true) (events.filterMap account?)
    s.getAllAccounts
  contracts : Lists ContractData.ktSymbol (fun _ => true) (events.filterMap contract?)
    s.getAllContracts
  quotes : Lists QuoteData.ktQuoteid (fun _ => true) (events.filterMap quote?) s.getAllQuotes

theorem listsAll_run (enum : Enumeration AString OrderData) (events : List OmsEvent) :
    ListsAll events (run enum events) where
  ticks := lists_mapValues (fun s e => (stored_process s e).ticks) rfl events
  orders := lists_mapValues (fun s e => (stored_process s e).orders) rfl events
  trades := lists_mapValues (fun s e => (stored_process s e).trades) rfl events
  positions := lists_mapValues (fun s e => (stored_process s e).positions) rfl events
  accounts := lists_mapValues (fun s e => (stored_process s e).accounts) rfl events
  contracts := lists_mapValues (fun s e => (stored_process s e).contracts) rfl events
  quotes := lists_mapValues (fun s e => (stored_process s e).quotes) rfl events

theorem lists_activeOrders (enum : Enumeration AString OrderData) (events : List OmsEvent)
    (ktSymbol : AString) :
    Lists OrderData.ktOrderid (fun o => o.isActive && concerns ktSymbol o.ktSymbol)
      (events.filterMap order?) ((run enum events).getAllActiveOrders ktSymbol) := by
  have all : Lists OrderData.ktOrderid OrderData.isActive (events.filterMap order?)
      (mapValues (run enum events).activeOrders) :=
    lists_mapValues (fun s e => (stored_process s e).activeOrders) rfl events
  unfold getAllActiveOrders concerns
  split
  · rename_i empty
    simpa [empty] using all
  · rename_i named
    simpa [named] using all.filter fun o => o.ktSymbol = ktSymbol

theorem lists_activeQuotes (enum : Enumeration AString OrderData) (events : List OmsEvent)
    (ktSymbol : AString) :
    Lists QuoteData.ktQuoteid (fun q => q.isActive && concerns ktSymbol q.ktSymbol)
      (events.filterMap quote?) ((run enum events).getAllActiveQuotes ktSymbol) := by
  have all : Lists QuoteData.ktQuoteid QuoteData.isActive (events.filterMap quote?)
      (mapValues (run enum events).activeQuotes) :=
    lists_mapValues (fun s e => (stored_process s e).activeQuotes) rfl events
  unfold getAllActiveQuotes concerns
  split
  · rename_i empty
    simpa [empty] using all
  · rename_i named
    simpa [named] using all.filter fun q => q.ktSymbol = ktSymbol

/-- After any events, every query for all records lists the latest of each key, and a query for the
active orders or quotes those among them that are active and have the symbol, if one is given. -/
theorem queries_list_latest (enum : Enumeration AString OrderData) (events : List OmsEvent)
    (ktSymbol : AString) :
    ListsAll events (run enum events) ∧
      Lists OrderData.ktOrderid (fun o => o.isActive && concerns ktSymbol o.ktSymbol)
        (events.filterMap order?) ((run enum events).getAllActiveOrders ktSymbol) ∧
      Lists QuoteData.ktQuoteid (fun q => q.isActive && concerns ktSymbol q.ktSymbol)
        (events.filterMap quote?) ((run enum events).getAllActiveQuotes ktSymbol) :=
  ⟨listsAll_run enum events, lists_activeOrders enum events ktSymbol,
    lists_activeQuotes enum events ktSymbol⟩

end OmsEngine

end KeenTrader.Engine
