import KeenTrader.Exchange.Books
import KeenTrader.App.Volumes

/-!
# The prices of triggered stop orders

A stop order that triggers is sent at the limit price of its symbol, or else at the fifth level of
the side that it takes from. No channel stores a limit price, and the fifth level is what came
there last: nothing, as long as no book with five levels has come, and the level of an old book
where the later ones were shorter.
-/

namespace KeenTrader.Engine

variable {h : PositionHolding} {req r : OrderRequest}

/-- A conversion divides a request by volume, and leaves its price. -/
theorem PositionHolding.price_lock (mem : r ∈ h.convertOrderRequestLock req) :
    r.price = req.price := by
  unfold convertOrderRequestLock at mem
  grind

theorem PositionHolding.price_closePart {offset : Offset} {available left : ℚ}
    (mem : r ∈ (closePart req offset available left).1) : r.price = req.price := by
  unfold closePart at mem
  grind

theorem PositionHolding.price_net (mem : r ∈ h.convertOrderRequestNet req) :
    r.price = req.price := by
  unfold convertOrderRequestNet at mem
  grind [PositionHolding.price_closePart]

theorem OmsEngine.price_convert {s : OmsEngine} {exchangeName : AString} {lock net : Bool}
    (mem : r ∈ (s.boundConvertOrderRequest req exchangeName lock net).1) : r.price = req.price := by
  rw [OmsEngine.boundConvert_eq] at mem
  cases held : s.holding? req exchangeName with
  | none =>
    rw [held] at mem
    exact congrArg _ (List.mem_singleton.mp mem)
  | some h =>
    rw [held] at mem
    cases lock with
    | true => exact PositionHolding.price_lock mem
    | false => exact PositionHolding.price_net mem

end KeenTrader.Engine

namespace KeenTrader.App

open Std (ExtTreeMap)
open KeenTrader.Engine KeenTrader.Exchange Handlers

namespace CtaEngine

/-- The request asks a price at which it is executed at once: a positive one that is not worse
than the best price on the other side. -/
def Marketable (tick : TickData) (so : StopOrder) (r : OrderRequest) : Prop :=
  0 < r.price ∧ (so.direction = .long → tick.askPrice1 ≤ r.price) ∧
    (so.direction = .short → r.price ≤ tick.bidPrice1)

/-- A fifth level has come on the side that the direction takes from, and the latest one is not
better than the latest first level. -/
def Covered (direction : Direction) (books : List Book) : Prop :=
  if direction = .long then
    ∃ first fifth, latestLevel books .ask 0 = some first ∧ latestLevel books .ask 4 = some fifth ∧
      first.1 ≤ fifth.1
  else
    ∃ first fifth, latestLevel books .bid 0 = some first ∧ latestLevel books .bid 4 = some fifth ∧
      fifth.1 ≤ first.1

instance {tick : TickData} {so : StopOrder} {r : OrderRequest} :
    Decidable (Marketable tick so r) := inferInstanceAs (Decidable (_ ∧ _))

variable {s : CtaEngine} {tick : TickData} {so : StopOrder} {r : OrderRequest} {books : List Book}

theorem price_stopRequests (mem : r ∈ stopRequests s tick so) : r.price = triggerPrice tick so := by
  unfold stopRequests at mem
  split at mem
  · split at mem
    · exact OmsEngine.price_convert mem
    · simp at mem
  · simp at mem

/-- What is sent for a stop order is sent because the tick triggers it. -/
theorem triggers_of_sent (sends : stopRequests s tick so ≠ []) : Triggers tick so := by
  by_contra idle
  exact sends (by simp [stopRequests, idle])

/-- The prices of the first and the fifth level, seen from the books that a tick holds. -/
theorem covered_side_iff (priced : ∀ book ∈ books, Priced book) (side : BookSide)
    (R : ℚ → ℚ → Prop) :
    (0 < ((latestLevel books side 4).getD 0).1 ∧
        R ((latestLevel books side 0).getD 0).1 ((latestLevel books side 4).getD 0).1) ↔
      ∃ first fifth, latestLevel books side 0 = some first ∧
        latestLevel books side 4 = some fifth ∧ R first.1 fifth.1 := by
  cases worst : latestLevel books side 4 with
  | none => simp
  | some fifth =>
    have some_first : (latestLevel books side 0).isSome :=
      Slots.latest_isSome_of_le (Nat.zero_le 4) (by
        rw [← latestLevel, worst]
        rfl)
    obtain ⟨first, best⟩ := Option.isSome_iff_exists.mp some_first
    have positive : 0 < fifth.1 := by
      obtain ⟨levels, mem, level⟩ := Slots.latest_mem worst
      obtain ⟨book, known, rfl⟩ := List.mem_map.mp mem
      exact priced book known side fifth level
    simp [best, positive]

theorem marketable_iff (holds : Holds tick books) (priced : ∀ book ∈ books, Priced book)
    (directed : so.direction = .long ∨ so.direction = .short)
    (price : r.price = triggerPrice tick so) :
    Marketable tick so r ↔ Covered so.direction books := by
  have level (side : BookSide) (k : Fin 5) :
      tick.price side k = ((latestLevel books side k).getD 0).1 :=
    congrArg Prod.fst (congrFun (holds.levels side) k)
  unfold Marketable Covered
  rw [price, triggerPrice]
  rcases directed with long | short
  · have fifth : tick.askPrice5 = _ := level .ask 4
    have first : tick.askPrice1 = _ := level .ask 0
    have covered := covered_side_iff priced .ask (· ≤ ·)
    simp only [long, if_true, holds.limitUp, ne_eq, not_true_eq_false, if_false, fifth, first]
    simpa using covered
  · have fifth : tick.bidPrice5 = _ := level .bid 4
    have first : tick.bidPrice1 = _ := level .bid 0
    have covered := covered_side_iff priced .bid (fun a b => b ≤ a)
    simp only [short, holds.limitDown, ne_eq, not_true_eq_false, if_false, fifth, first]
    simpa using covered

/-- What is sent for a stop order on a tick is marketable exactly where the books that the tick
holds cover the stop order. -/
theorem marketable_sent_iff (holds : Holds tick books) (priced : ∀ book ∈ books, Priced book)
    (sends : stopRequests s tick so ≠ []) :
    (∀ r ∈ stopRequests s tick so, Marketable tick so r) ↔ Covered so.direction books := by
  have directed : so.direction = .long ∨ so.direction = .short :=
    (triggers_of_sent sends).2.imp And.left And.left
  obtain ⟨r, sent⟩ := List.exists_mem_of_ne_nil _ sends
  constructor
  · intro all
    exact (marketable_iff holds priced directed (price_stopRequests sent)).mp (all r sent)
  · intro covered r sent
    exact (marketable_iff holds priced directed (price_stopRequests sent)).mpr covered

/-- On both channels, whatever the order of the messages: the order that is sent for a stop order
is marketable exactly where a fifth level has come on its side since the tick was set up, and the
latest one is not better than the latest first level. -/
theorem trigger_price_iff (v : Venue) {s : TickFeed v.Api} {h : History} {views : List (List Book)}
    (run : v.channel.Run s h views) {i : ℕ} {tick : TickData} (pushed : s.pushed[i]? = some tick)
    (engine : CtaEngine) (so : StopOrder) (sends : stopRequests engine tick so ≠ []) :
    ∃ books, views[i]? = some books ∧
      ((∀ r ∈ stopRequests engine tick so, Marketable tick so r) ↔ Covered so.direction books) := by
  obtain ⟨inside, rfl⟩ := List.getElem?_eq_some_iff.mp pushed
  have known : i < views.length := run.pushed.length_eq ▸ inside
  have priced := run.priced.2 views[i] (List.getElem_mem known)
  exact ⟨views[i], List.getElem?_eq_getElem known,
    marketable_sent_iff (run.pushed.get inside known) priced sends⟩

section Priced

/-- The contract of a swap on OKX, and a strategy that trades it. -/
def swap : ContractData :=
  { symbol := "BTC-USDT-SWAP", exchange := .okx, name := "BTC-USDT-SWAP", product := .swap
    pricetick := 1 / 10, exchangeName := "OKX" }

def swapEngine : CtaEngine :=
  run buyOnTick {"Dual"}
    [.contract swap, .addStrategy "Dual" "alpha" "BTC-USDT-SWAP.OKX" .null, .initStrategy "alpha",
      .startStrategy "alpha"]

def swapStop : StopOrder :=
  { ktSymbol := "BTC-USDT-SWAP.OKX", direction := .long, offset := .opening, price := 150
    volume := 1, stopOrderid := "STOP.1", strategyName := "alpha" }

def subscribedFeed : TickFeed OkxWebsocketPublicApi :=
  { api := [.contract swap, .subscribe { symbol := "BTC-USDT-SWAP", exchange := .okx } 0].foldl
      OkxWebsocketPublicApi.step {} }

def tickerItem : Json.Value :=
  .object [("high24h", .string "210"), ("instId", .string "BTC-USDT-SWAP"), ("last", .string "200"),
    ("low24h", .string "90"), ("open24h", .string "95"), ("ts", .string "1700000000001"),
    ("vol24h", .string "7"), ("volCcy24h", .string "1000")]

def packetOf (channel : AString) (item : Json.Value) : Json.Value :=
  .object [("arg", .object [("channel", .string channel)]), ("data", .array [item])]

def tickerPacket : Json.Value := packetOf "tickers" tickerItem

def booksPacket : Json.Value :=
  packetOf "books5" (OkxWebsocketPublicApi.itemOf fiveBids fiveAsks)

/-- The feed after a ticker, and after a book and a ticker. -/
def tickerFeed : TickFeed OkxWebsocketPublicApi :=
  (OkxWebsocketPublicApi.onPacket tickerPacket).state subscribedFeed

def booksFeed : TickFeed OkxWebsocketPublicApi :=
  (OkxWebsocketPublicApi.onPacket booksPacket).state subscribedFeed

def bothFeed : TickFeed OkxWebsocketPublicApi :=
  (OkxWebsocketPublicApi.onPacket tickerPacket).state booksFeed

/-- The tick of a ticker that comes first. -/
def earlyTick : TickData :=
  { symbol := "BTC-USDT-SWAP", exchange := .okx, name := "BTC-USDT-SWAP"
    datetime := 1700000000001, exchangeName := "OKX", volume := 7, turnover := 1000
    lastPrice := 200, openPrice := 95, highPrice := 210, lowPrice := 90 }

/-- The tick of the book that comes behind it. -/
def lateTick : TickData := earlyTick.withBook (bookOf fiveBids fiveAsks)

theorem run_subscribedFeed : okxChannel.Run subscribedFeed (fun _ => []) [] := by
  have run := (Channel.Run.start (c := okxChannel)).market (.contract swap)
  rw [History.restart_empty] at run
  have next := run.market (.subscribe { symbol := "BTC-USDT-SWAP", exchange := .okx } 0)
  rw [History.restart_empty] at next
  exact next

theorem carries_tickerPacket (s : TickFeed OkxWebsocketPublicApi) :
    okxChannel.Carries s tickerPacket [.ticker "BTC-USDT-SWAP"] := by
  have items : List.Forall₂ (fun d x => d.get? "instId" = some (.string x)) [tickerItem]
      ["BTC-USDT-SWAP"] := .cons rfl .nil
  exact OkxWebsocketPublicApi.Carries.tickers ⟨rfl, ⟨_, rfl, rfl⟩, rfl⟩ items

theorem carries_booksPacket (s : TickFeed OkxWebsocketPublicApi) :
    okxChannel.Carries s booksPacket [.depth "BTC-USDT-SWAP" (bookOf fiveBids fiveAsks)] := by
  have items : List.Forall₂ (fun d m => OkxWebsocketPublicApi.DepthItem d m.1 m.2)
      [OkxWebsocketPublicApi.itemOf fiveBids fiveAsks]
      [("BTC-USDT-SWAP", bookOf fiveBids fiveAsks)] :=
    .cons (OkxWebsocketPublicApi.depthItem_itemOf fiveBids fiveAsks) .nil
  exact OkxWebsocketPublicApi.Carries.books5 ⟨rfl, ⟨_, rfl, rfl⟩, rfl⟩ items

theorem run_tickerFeed : okxChannel.Run tickerFeed (fun _ => []) [[]] := by
  have run := run_subscribedFeed.packet (carries_tickerPacket _) (by simp [Quote.books])
    (t := tickerFeed) (Prod.ext (by decide +kernel) rfl)
  simpa [History.after, History.views] using run

theorem priced_five : Priced (bookOf fiveBids fiveAsks) := by
  intro side
  cases side <;> simp only [bookOf] <;> decide +kernel

theorem run_bothFeed :
    ∃ h, okxChannel.Run bothFeed h
      [[bookOf fiveBids fiveAsks], [bookOf fiveBids fiveAsks]] := by
  have first := run_subscribedFeed.packet (carries_booksPacket _)
    (by simpa [Quote.books] using priced_five) (t := booksFeed) (Prod.ext (by decide +kernel) rfl)
  have second := first.packet (carries_tickerPacket _) (by simp [Quote.books])
    (t := bothFeed) (Prod.ext (by decide +kernel) rfl)
  simp only [History.after, History.views, History.record, Quote.symbol, Quote.books,
    List.foldl_cons, List.foldl_nil, List.nil_append, List.append_nil, if_true, ite_self,
    List.cons_append] at second
  exact ⟨_, second⟩

/-- After a book with five levels, a stop order that buys is sent at the fifth ask. -/
theorem fifth_ask_sent :
    lateTick ∈ bothFeed.pushed ∧
      ∀ r ∈ stopRequests swapEngine lateTick swapStop, Marketable lateTick swapStop r := by
  obtain ⟨h, run⟩ := run_bothFeed
  have pushed : bothFeed.pushed[1]? = some lateTick := by decide +kernel
  obtain ⟨books, known, exact_price⟩ :=
    trigger_price_iff .okx run pushed swapEngine swapStop (by decide +kernel)
  obtain rfl : [bookOf fiveBids fiveAsks] = books := Option.some.inj known
  have covered : Covered .long [bookOf fiveBids fiveAsks] := ⟨_, _, rfl, rfl, by decide +kernel⟩
  exact ⟨List.mem_of_getElem? pushed, exact_price.mpr covered⟩

/-- Before any book has come, a stop order that buys is sent at the price zero. -/
theorem early_stop_unpriced :
    ¬ ∀ s h views, okxChannel.Run s h views → ∀ tick ∈ s.pushed,
      ∀ (engine : CtaEngine) (so : StopOrder), 0 < so.price →
        ∀ r ∈ stopRequests engine tick so, Marketable tick so r := by
  intro all
  have early : earlyTick ∈ tickerFeed.pushed := by decide +kernel
  have marketable := all _ _ _ run_tickerFeed earlyTick early swapEngine swapStop (by decide)
  exact absurd marketable (by decide +kernel)

end Priced

end CtaEngine

end KeenTrader.App
