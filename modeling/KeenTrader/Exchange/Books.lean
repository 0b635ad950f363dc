import KeenTrader.Exchange.Depth

/-!
# What a tick remembers

A tick stays from message to message: it holds at each level what came there last, from whichever
message that was, and nothing where none came. The limit prices are never set. This is an
invariant of the runs of both public channels, whatever the order of their messages; a
subscription that sets a tick up anew starts its history again.
-/

namespace KeenTrader.Exchange

open Std (ExtTreeMap)
open KeenTrader.Engine Handlers

/-- A message about a symbol. -/
inductive Quote where
  | ticker (symbol : AString)
  | depth (symbol : AString) (book : Book)

namespace Quote

def symbol : Quote → AString
  | .ticker symbol => symbol
  | .depth symbol _ => symbol

/-- The book of the message, if it has one. -/
def books : Quote → List Book
  | .ticker _ => []
  | .depth _ book => [book]

end Quote

/-- All prices are positive. -/
def Priced (book : Book) : Prop := ∀ side, ∀ level ∈ book side, 0 < level.1

/-- The level that came last at a position of a side. -/
def latestLevel (books : List Book) (side : BookSide) (k : ℕ) : Option (ℚ × ℚ) :=
  Slots.latest k (books.map (· side))

/-- The books that have been stored for each symbol since its tick was set up, latest last. -/
abbrev History := AString → List Book

namespace History

def record (h : History) (q : Quote) : History :=
  fun x => if x = q.symbol then h x ++ q.books else h x

def after (h : History) (quotes : List Quote) : History := quotes.foldl record h

/-- The books that are known at each message, its own included. -/
def views : History → List Quote → List (List Book)
  | _, [] => []
  | h, q :: quotes => (h.record q) q.symbol :: views (h.record q) quotes

/-- The history after a step that may set ticks up anew. -/
def restart (h : History) (before after : ExtTreeMap AString TickData) : History :=
  fun x => if after.getD x .blank = before.getD x .blank then h x else []

theorem record_self (h : History) (q : Quote) : (h.record q) q.symbol = h q.symbol ++ q.books :=
  if_pos rfl

theorem record_of_ne (h : History) {q : Quote} {x : AString} (other : x ≠ q.symbol) :
    (h.record q) x = h x := if_neg other

/-- A ticker brings no book. -/
@[simp] theorem record_ticker (h : History) (x : AString) : h.record (.ticker x) = h := by
  funext y
  simp [record, Quote.books]

/-- Where nothing has come, there is nothing to start again. -/
theorem restart_empty (before after : ExtTreeMap AString TickData) :
    restart (fun _ => []) before after = fun _ => [] := by
  funext x
  exact ite_self []

end History

/-- The tick holds the latest levels of the books, and no limit prices. -/
structure Holds (tick : TickData) (books : List Book) : Prop where
  levels : ∀ side, tick.levels side = fun k : Fin 5 => (latestLevel books side k).getD 0
  limitUp : tick.limitUp = 0
  limitDown : tick.limitDown = 0

/-- Each tick of a table holds the books of its symbol. -/
def Recalls (ticks : ExtTreeMap AString TickData) (h : History) : Prop :=
  ∀ x, Holds (ticks.getD x .blank) (h x)

/-- Each tick is as before, or has been set up anew. -/
def Restarted (before after : ExtTreeMap AString TickData) : Prop :=
  ∀ x, after.getD x .blank = before.getD x .blank ∨ Holds (after.getD x .blank) []

/-- A change of a tick that leaves its levels and limit prices alone. -/
structure KeepsLevels (f : TickData → TickData) : Prop where
  levels : ∀ t side, (f t).levels side = t.levels side
  limitUp : ∀ t, (f t).limitUp = t.limitUp
  limitDown : ∀ t, (f t).limitDown = t.limitDown

section Holds
variable {tick : TickData} {books : List Book} {ticks : ExtTreeMap AString TickData} {h : History}

theorem holds_blank : Holds .blank [] where
  levels side := by
    funext k
    cases side <;> fin_cases k <;> rfl
  limitUp := rfl
  limitDown := rfl

theorem holds_newTick (req : SubscribeRequest) (contract : ContractData) (now : DateTime)
    (exchangeName : AString) : Holds (newTick req contract now exchangeName) [] where
  levels side := by
    funext k
    cases side <;> fin_cases k <;> rfl
  limitUp := rfl
  limitDown := rfl

theorem Holds.keeps {f : TickData → TickData} (holds : Holds tick books) (keeps : KeepsLevels f) :
    Holds (f tick) books where
  levels side := (keeps.levels tick side).trans (holds.levels side)
  limitUp := (keeps.limitUp tick).trans holds.limitUp
  limitDown := (keeps.limitDown tick).trans holds.limitDown

/-- A book that is stored is the latest one from then on. -/
theorem Holds.withBook (holds : Holds tick books) (book : Book) :
    Holds (tick.withBook book) (books ++ [book]) where
  levels side := by
    rw [TickData.levels_withBook, holds.levels]
    unfold latestLevel
    rw [List.map_append]
    exact (Slots.getD_latest_concat _ _).symm
  limitUp := by simp [TickData.withBook, holds.limitUp]
  limitDown := by simp [TickData.withBook, holds.limitDown]

theorem Holds.setDatetime (holds : Holds tick books) (datetime : DateTime) :
    Holds (tick.setDatetime datetime) books where
  levels side := (tick.levels_setDatetime side datetime).trans (holds.levels side)
  limitUp := holds.limitUp
  limitDown := holds.limitDown

/-- The change of one tick by a message is the change of the history by it. -/
theorem Recalls.updateAt (recalls : Recalls ticks h) (q : Quote) {f : TickData → TickData}
    (stores : ∀ t, Holds t (h q.symbol) → Holds (f t) (h q.symbol ++ q.books)) :
    Recalls (TickFeed.updateAt ticks q.symbol f) (h.record q) := by
  intro x
  by_cases same : x = q.symbol
  · subst same
    rw [TickFeed.getD_updateAt_self, h.record_self]
    exact stores _ (recalls _)
  · have other : (TickFeed.updateAt ticks q.symbol f).getD x .blank = ticks.getD x .blank := by
      simp [TickFeed.updateAt, ExtTreeMap.getD_insert, Ne.symm same]
    rw [other, h.record_of_ne same]
    exact recalls x

theorem Restarted.refl (ticks : ExtTreeMap AString TickData) : Restarted ticks ticks :=
  fun _ => .inl rfl

theorem Restarted.trans {ticks' ticks'' : ExtTreeMap AString TickData}
    (first : Restarted ticks ticks') (second : Restarted ticks' ticks'') :
    Restarted ticks ticks'' := by
  intro x
  rcases second x with same | fresh
  · rw [same]
    exact first x
  · exact .inr fresh

theorem restarted_insert (req : SubscribeRequest) (contract : ContractData) (now : DateTime)
    (exchangeName : AString) :
    Restarted ticks (ticks.insert req.symbol (newTick req contract now exchangeName)) := by
  intro x
  by_cases same : req.symbol = x
  · subst same
    rw [ExtTreeMap.getD_insert_self]
    exact .inr (holds_newTick req contract now exchangeName)
  · exact .inl (by simp [ExtTreeMap.getD_insert, same])

theorem restarted_foldl {Api : Type} {ticks : Api → ExtTreeMap AString TickData}
    {f : Api → AString → Api} (one : ∀ api x, Restarted (ticks api) (ticks (f api x)))
    (keys : List AString) (api : Api) : Restarted (ticks api) (ticks (keys.foldl f api)) :=
  Runs.foldl_relation f (R := fun a b => Restarted (ticks a) (ticks b)) (fun _ => .refl _) .trans
    one

/-- Where a step sets some ticks up anew, their histories start again. -/
theorem Recalls.restart {ticks' : ExtTreeMap AString TickData} (recalls : Recalls ticks h)
    (steps : Restarted ticks ticks') : Recalls ticks' (h.restart ticks ticks') := by
  intro x
  unfold History.restart
  split
  · rename_i same
    rw [same]
    exact recalls x
  · rename_i changed
    exact (steps x).resolve_left changed

end Holds

/-! ## The runs of a channel -/

/-- The messages have been stored, and each has pushed a tick with what was known at it. -/
structure Tells {Api : Type} (ticks : Api → ExtTreeMap AString TickData) (s t : TickFeed Api)
    (h : History) (quotes : List Quote) : Prop where
  recalls : Recalls (ticks t.api) (h.after quotes)
  pushed : ∃ new, t.pushed = s.pushed ++ new ∧ List.Forall₂ Holds new (h.views quotes)

theorem tells_nil {Api : Type} {ticks : Api → ExtTreeMap AString TickData} {s : TickFeed Api}
    {h : History} (recalls : Recalls (ticks s.api) h) : Tells ticks s s h [] :=
  ⟨recalls, [], by simp, .nil⟩

/-- One message in front of others: it changes the tick of its symbol, and pushes it. -/
theorem Tells.cons {Api : Type} {ticks : Api → ExtTreeMap AString TickData} {s t u : TickFeed Api}
    {h : History} {q : Quote} {quotes : List Quote} {f : TickData → TickData}
    (stored : ticks t.api = TickFeed.updateAt (ticks s.api) q.symbol f)
    (pushed : t.pushed = s.pushed ++ [f ((ticks s.api).getD q.symbol .blank)])
    (stores : ∀ tick, Holds tick (h q.symbol) → Holds (f tick) (h q.symbol ++ q.books))
    (recalls : Recalls (ticks s.api) h)
    (rest : Recalls (ticks t.api) (h.record q) → Tells ticks t u (h.record q) quotes) :
    Tells ticks s u h (q :: quotes) := by
  obtain ⟨last, new, grown, held⟩ := rest (stored ▸ recalls.updateAt q stores)
  have here := stores _ (recalls q.symbol)
  rw [← h.record_self] at here
  refine ⟨last, _ :: new, ?_, .cons here held⟩
  rw [grown, pushed, List.append_assoc]
  rfl

/-- A public channel: what its packets carry, and that it stores it. -/
structure Channel (Connection Api : Type) where
  initial : Api
  step : Api → MarketStep Connection → Api
  ticks : Api → ExtTreeMap AString TickData
  onPacket : Json.Value → Handler Fault (TickFeed Api) Unit
  Carries : TickFeed Api → Json.Value → List Quote → Prop
  empty : ticks initial = ∅
  restarts : ∀ api m, Restarted (ticks api) (ticks (step api m))
  tells : ∀ {s t packet quotes h}, Carries s packet quotes →
    (onPacket packet).exec s = (.ok (), t) → Recalls (ticks s.api) h → Tells ticks s t h quotes

/-- The states that a channel reaches, with the histories of its ticks, and what was known at each
tick that it has pushed. All prices that it receives are positive. -/
inductive Channel.Run {Connection Api : Type} (c : Channel Connection Api) :
    TickFeed Api → History → List (List Book) → Prop
  | start : c.Run { api := c.initial } (fun _ => []) []
  | market {s h views} (m : MarketStep Connection) (run : c.Run s h views) :
      c.Run { s with api := c.step s.api m }
        (h.restart (c.ticks s.api) (c.ticks (c.step s.api m))) views
  | packet {s h views t packet quotes} (run : c.Run s h views)
      (carries : c.Carries s packet quotes)
      (priced : ∀ q ∈ quotes, ∀ book ∈ q.books, Priced book)
      (ok : (c.onPacket packet).exec s = (.ok (), t)) :
      c.Run t (h.after quotes) (views ++ h.views quotes)

section Run
variable {Connection Api : Type} {c : Channel Connection Api} {s : TickFeed Api} {h : History}
  {views : List (List Book)}

theorem Channel.Run.recalls (run : c.Run s h views) : Recalls (c.ticks s.api) h := by
  induction run with
  | start => exact fun x => by simpa [c.empty] using holds_blank
  | market m _ ih => exact ih.restart (c.restarts _ m)
  | packet _ carries _ ok ih => exact (c.tells carries ok ih).recalls

/-- Each tick that a run has pushed holds what was known at it. -/
theorem Channel.Run.pushed (run : c.Run s h views) : List.Forall₂ Holds s.pushed views := by
  induction run with
  | start => exact .nil
  | market _ _ ih => exact ih
  | packet run carries _ ok ih =>
    obtain ⟨-, new, grown, held⟩ := c.tells carries ok run.recalls
    rw [grown]
    exact List.rel_append ih held

/-- All prices in the history are positive. -/
def History.Priced (h : History) : Prop := ∀ x, ∀ book ∈ h x, Exchange.Priced book

theorem History.Priced.record (priced : h.Priced) {q : Quote}
    (new : ∀ book ∈ q.books, Exchange.Priced book) : (h.record q).Priced := by
  intro x book mem
  unfold History.record at mem
  split at mem
  · exact (List.mem_append.mp mem).elim (priced x book) (new book)
  · exact priced x book mem

/-- What is known at messages with positive prices has positive prices. -/
theorem History.Priced.quotes (priced : h.Priced) {quotes : List Quote}
    (new : ∀ q ∈ quotes, ∀ book ∈ q.books, Exchange.Priced book) :
    (h.after quotes).Priced ∧
      ∀ view ∈ h.views quotes, ∀ book ∈ view, Exchange.Priced book := by
  induction quotes generalizing h with
  | nil => exact ⟨priced, by simp [History.views]⟩
  | cons q quotes ih =>
    obtain ⟨here, later⟩ := List.forall_mem_cons.mp new
    have next := priced.record here
    obtain ⟨last, seen⟩ := ih next later
    exact ⟨last, List.forall_mem_cons.mpr ⟨next q.symbol, seen⟩⟩

theorem Channel.Run.priced (run : c.Run s h views) :
    h.Priced ∧ ∀ view ∈ views, ∀ book ∈ view, Priced book := by
  induction run with
  | start => exact ⟨fun _ _ mem => by simp at mem, by simp⟩
  | @market s h views m run ih =>
    refine ⟨fun x book mem => ?_, ih.2⟩
    unfold History.restart at mem
    split at mem
    · exact ih.1 x book mem
    · simp at mem
  | packet _ _ new _ ih =>
    obtain ⟨last, seen⟩ := ih.1.quotes new
    exact ⟨last, List.forall_mem_append.mpr ⟨ih.2, seen⟩⟩

end Run

/-! ## The two channels -/

section Returned
variable {S α β : Type} {s t : S} {b : β}

/-- A handler that returns has read what it reads. -/
theorem returned_read {r : Except Json.Error α} {f : α → Handler Fault S β}
    (ok : (read r >>= f).exec s = (.ok b, t)) :
    ∃ a, r = .ok a ∧ (f a).exec s = (.ok b, t) := by
  cases r with
  | ok a => exact ⟨a, rfl, ok⟩
  | error e =>
    rw [exec_read_bind_error rfl] at ok
    simp at ok

theorem returned_store {r : Except Json.Error α} {set : α → S → S} {f : Unit → Handler Fault S β}
    (ok : (store r set >>= f).exec s = (.ok b, t)) :
    ∃ a, (f ()).exec (set a s) = (.ok b, t) := by
  rw [exec_store_bind] at ok
  cases r with
  | ok a => exact ⟨a, ok⟩
  | error e => simp at ok

end Returned

namespace OkxWebsocketPublicApi

variable {d data : Json.Value} {ds : List Json.Value} {symbol : AString} {book : Book} {h : History}
  {s t : TickFeed OkxWebsocketPublicApi}

/-- A ticker changes no level of the tick. -/
theorem exec_onTicker (instId : d.get? "instId" = some (.string symbol))
    (ok : (onTicker (d :: ds)).exec s = (.ok (), t)) :
    ∃ f, KeepsLevels f ∧
      (onTicker ds).exec (onTick symbol (update symbol f s)) = (.ok (), t) := by
  unfold onTicker TickFeed.textAt TickFeed.floatAt TickFeed.storeFloat at ok
  rw [exec_read_bind_ok (Json.Value.getString_of_get? instId)] at ok
  obtain ⟨volume, -, ok⟩ := returned_read ok
  rw [exec_modify_bind] at ok
  obtain ⟨last, ok⟩ := returned_store ok
  obtain ⟨opened, ok⟩ := returned_store ok
  obtain ⟨high, ok⟩ := returned_store ok
  obtain ⟨low, ok⟩ := returned_store ok
  rw [exec_modify_bind, exec_modify_bind] at ok
  obtain ⟨turnover, ok⟩ := returned_store ok
  obtain ⟨datetime, -, ok⟩ := returned_read ok
  rw [exec_modify_bind, exec_modify_bind] at ok
  simp only [update_update] at ok
  refine ⟨_, ?_, ok⟩
  refine ⟨fun t side => ?_, fun t => rfl, fun t => rfl⟩
  funext k
  cases side <;> fin_cases k <;> rfl

theorem tells_onTicker {xs : List AString}
    (items : List.Forall₂ (fun d x => d.get? "instId" = some (.string x)) ds xs)
    (ok : (onTicker ds).exec s = (.ok (), t)) (recalls : Recalls s.api.ticks h) :
    Tells ticks s t h (xs.map .ticker) := by
  induction items generalizing s h with
  | nil =>
    obtain rfl := (Prod.mk.inj ok).2
    exact tells_nil recalls
  | @cons d x ds xs item _ ih =>
    obtain ⟨f, keeps, rest⟩ := exec_onTicker item ok
    refine .cons (t := onTick x (update x f s)) rfl (pushed_onTick f) (fun tick holds => ?_)
      recalls (ih rest)
    exact (List.append_nil (h x)).symm ▸ holds.keeps keeps

theorem tells_onDepth {books : List (AString × Book)}
    (items : List.Forall₂ (fun d m => DepthItem d m.1 m.2) ds books)
    (ok : (onDepth ds).exec s = (.ok (), t)) (recalls : Recalls s.api.ticks h) :
    Tells ticks s t h (books.map fun m => .depth m.1 m.2) := by
  have deep := deep_of_exec_ok items ok
  induction items generalizing s h with
  | nil =>
    obtain rfl := (Prod.mk.inj ok).2
    exact tells_nil recalls
  | @cons d m ds books item _ ih =>
    obtain ⟨here, later⟩ := List.forall_mem_cons.mp deep
    obtain ⟨datetime, rest⟩ := exec_onDepth_deep item here ds s
    rw [rest] at ok
    refine .cons (t := onTick m.1 (update m.1 _ s)) rfl (pushed_onTick _) (fun tick holds => ?_)
      recalls (fun next => ih ok next later)
    exact (holds.withBook m.2).setDatetime datetime

/-- A packet of a channel, with its data. -/
structure OfChannel (packet : Json.Value) (channel : AString) (ds : List Json.Value) : Prop where
  event : packet.get? "event" = none
  arg : ∃ arg, packet.get? "arg" = some arg ∧ arg.get? "channel" = some (.string channel)
  data : packet.get? "data" = some (.array ds)

/-- What a packet carries: a list of tickers or of books. -/
inductive Carries (s : TickFeed OkxWebsocketPublicApi) (packet : Json.Value) : List Quote → Prop
  | tickers {ds : List Json.Value} {xs : List AString}
      (message : OfChannel packet "tickers" ds)
      (items : List.Forall₂ (fun d x => d.get? "instId" = some (.string x)) ds xs) :
      Carries s packet (xs.map .ticker)
  | books5 {ds : List Json.Value} {books : List (AString × Book)}
      (message : OfChannel packet "books5" ds)
      (items : List.Forall₂ (fun d m => DepthItem d m.1 m.2) ds books) :
      Carries s packet (books.map fun m => .depth m.1 m.2)

theorem exec_onPacket {packet : Json.Value} {channel : AString}
    (message : OfChannel packet channel ds) :
    (onPacket packet).exec s =
      (match channel with
        | "tickers" => onTicker ds
        | "books5" => onDepth ds
        | _ => pure ()).exec s := by
  obtain ⟨event, ⟨arg, arg_eq, channel_eq⟩, data⟩ := message
  have named : packet.get "arg" >>= (·.get "channel") >>= Json.Value.string? = .ok channel := by
    rw [Json.Value.get_of_get? arg_eq]
    exact Json.Value.getString_of_get? channel_eq
  have silent : packet.contains "event" = false := by simp [Json.Value.contains, event]
  rw [onPacket, if_neg (by simp [silent]), exec_read_bind_ok named,
    exec_read_bind_ok (Json.Value.get_of_get? data)]
  rfl

theorem tells_onPacket {packet : Json.Value} {quotes : List Quote}
    (carries : Carries s packet quotes) (ok : (onPacket packet).exec s = (.ok (), t))
    (recalls : Recalls s.api.ticks h) : Tells ticks s t h quotes := by
  cases carries with
  | tickers message items =>
    rw [exec_onPacket message] at ok
    exact tells_onTicker items ok recalls
  | books5 message items =>
    rw [exec_onPacket message] at ok
    exact tells_onDepth items ok recalls

theorem restarted_subscribe (api : OkxWebsocketPublicApi) (req : SubscribeRequest)
    (now : DateTime) : Restarted api.ticks (api.subscribe req now).ticks := by
  unfold subscribe
  split
  · exact .refl _
  · exact restarted_insert _ _ _ _

/-- A subscription sets the tick of its symbol up, and a connection those of all that have been
subscribed. -/
theorem restarted_step (api : OkxWebsocketPublicApi) (m : MarketStep AString) :
    Restarted api.ticks (api.step m).ticks := by
  have again (now : DateTime) (api : OkxWebsocketPublicApi) (symbol : AString) :
      Restarted api.ticks (resubscribe now api symbol).ticks := by
    unfold resubscribe
    split
    · exact restarted_subscribe _ _ _
    · exact .refl _
  cases m with
  | contract contract => exact .refl _
  | subscribe req now => exact restarted_subscribe api req now
  | connect server =>
    change Restarted api.ticks (api.connect server).ticks
    unfold connect
    split <;> exact .refl _
  | socket event now =>
    change Restarted api.ticks (api.onSocket event now).ticks
    unfold onSocket
    dsimp only
    split
    · exact restarted_foldl (again now) _ _
    · exact .refl _
    · exact .refl _

end OkxWebsocketPublicApi

namespace BinanceMdApi

/-- What a packet carries: a ticker or a book. -/
inductive Carries (s : TickFeed BinanceMdApi) (packet : Json.Value) : List Quote → Prop
  | ticker {symbol data} (message : OfStream s packet symbol "ticker" data) :
      Carries s packet [.ticker symbol]
  | depth {symbol data book} (message : OfStream s packet symbol "depth10" data)
      (depth : DepthData data book) : Carries s packet [.depth symbol book]

variable {packet data : Json.Value} {symbol : AString} {h : History} {s t : TickFeed BinanceMdApi}

/-- A ticker changes no level of the tick. -/
theorem exec_onTicker (ok : (onTicker symbol data).exec (update symbol id s) = (.ok (), t)) :
    ∃ f, KeepsLevels f ∧ t = onTick symbol (update symbol f s) := by
  unfold onTicker TickFeed.storeFloat at ok
  obtain ⟨volume, ok⟩ := returned_store ok
  obtain ⟨turnover, ok⟩ := returned_store ok
  obtain ⟨opened, ok⟩ := returned_store ok
  obtain ⟨high, ok⟩ := returned_store ok
  obtain ⟨low, ok⟩ := returned_store ok
  obtain ⟨last, ok⟩ := returned_store ok
  simp only [update_update] at ok
  obtain ⟨datetime, done⟩ := exec_finish symbol data s _
  refine ⟨_, ?_, (Prod.mk.inj (ok.symm.trans done)).2⟩
  refine ⟨fun t side => ?_, fun t => rfl, fun t => rfl⟩
  funext k
  cases side <;> fin_cases k <;> rfl

theorem tells_onPacket {quotes : List Quote} (carries : Carries s packet quotes)
    (ok : (onPacket packet).exec s = (.ok (), t)) (recalls : Recalls s.api.ticks h) :
    Tells ticks s t h quotes := by
  cases carries with
  | @ticker symbol data message =>
    rw [exec_onPacket message, ← update_id message] at ok
    obtain ⟨f, keeps, rfl⟩ := exec_onTicker ok
    refine .cons (t := onTick symbol (update symbol f s)) rfl (pushed_onTick f)
      (fun tick holds => ?_) recalls tells_nil
    exact (List.append_nil (h symbol)).symm ▸ holds.keeps keeps
  | @depth symbol data book message depth =>
    obtain ⟨datetime, done⟩ := exec_depth_packet message depth
    obtain rfl := (Prod.mk.inj (ok.symm.trans done)).2
    refine .cons (t := onTick symbol (update symbol _ s)) rfl (pushed_onTick _)
      (fun tick holds => ?_) recalls tells_nil
    exact (holds.withBook book).setDatetime (datetime tick)

theorem restarted_subscribe (api : BinanceMdApi) (req : SubscribeRequest) (now : DateTime) :
    Restarted api.ticks (api.subscribe req now).ticks := by
  unfold subscribe
  split
  · exact .refl _
  split
  · exact .refl _
  · exact restarted_insert _ _ _ _

theorem restarted_step (api : BinanceMdApi) (m : MarketStep Bool) :
    Restarted api.ticks (api.step m).ticks := by
  have again (now : DateTime) (api : BinanceMdApi) (symbol : AString) :
      Restarted api.ticks (resubscribe now api symbol).ticks := by
    unfold resubscribe
    split
    · exact restarted_subscribe _ _ _
    · exact .refl _
  cases m with
  | contract contract => exact .refl _
  | subscribe req now => exact restarted_subscribe api req now
  | connect klineStream => exact .refl _
  | socket event now =>
    change Restarted api.ticks (api.onSocket event now).ticks
    unfold onSocket
    dsimp only
    split
    · exact restarted_foldl (again now) _ _
    · exact .refl _
    · exact .refl _

end BinanceMdApi

def okxChannel : Channel AString OkxWebsocketPublicApi where
  initial := {}
  step := OkxWebsocketPublicApi.step
  ticks := OkxWebsocketPublicApi.ticks
  onPacket := OkxWebsocketPublicApi.onPacket
  Carries := OkxWebsocketPublicApi.Carries
  empty := rfl
  restarts := OkxWebsocketPublicApi.restarted_step
  tells := OkxWebsocketPublicApi.tells_onPacket

def binanceChannel : Channel Bool BinanceMdApi where
  initial := {}
  step := BinanceMdApi.step
  ticks := BinanceMdApi.ticks
  onPacket := BinanceMdApi.onPacket
  Carries := BinanceMdApi.Carries
  empty := rfl
  restarts := BinanceMdApi.restarted_step
  tells := BinanceMdApi.tells_onPacket

inductive Venue where
  | okx
  | binance

namespace Venue

def Connection : Venue → Type
  | okx => AString
  | binance => Bool

def Api : Venue → Type
  | okx => OkxWebsocketPublicApi
  | binance => BinanceMdApi

def channel : (v : Venue) → Channel v.Connection v.Api
  | okx => okxChannel
  | binance => binanceChannel

end Venue

end KeenTrader.Exchange
