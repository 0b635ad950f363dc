import KeenTrader.Exchange.MarketData

/-!
# Subscriptions and connections

What has been subscribed on the connection that is current. On OKX it is everything that was
ever subscribed, since each new connection subscribes the whole table. On Binance it is what was
subscribed since the connection opened, which is the whole table only if that was empty then.
-/

namespace KeenTrader.Exchange

open Std (ExtTreeMap)
open KeenTrader.Engine Runs

namespace BinanceMdApi

variable {s : BinanceMdApi}

/-- What the tables of the channel and the exchange have in common. -/
structure Listed (s : BinanceMdApi) : Prop where
  contracts : ∀ symbol (c : ContractData), s.exchange.getContractBySymbol symbol = some c →
    c.symbol = symbol ∧ .contract c ∈ s.exchange.trace
  keys : ∀ symbol (req : SubscribeRequest), s.subscribed[symbol]? = some req → req.symbol = symbol
  known : ∀ symbol ∈ s.subscribed, (s.exchange.getContractBySymbol symbol).isSome
  ticks : ∀ symbol ∈ s.subscribed, symbol ∈ s.ticks

/-- A packet that subscribes a contract of the symbol has been sent on this connection. -/
def Sent (s : BinanceMdApi) (symbol : AString) : Prop :=
  ∃ (c : ContractData) (klineStream : Bool) (id : ℤ),
    .contract c ∈ s.exchange.trace ∧ c.symbol = symbol ∧
      subscribePacket klineStream id c.name ∈ s.socket.sent

/-- While the socket is connected, everything in the table has been subscribed. -/
def Served (s : BinanceMdApi) : Prop := s.socket.link = .up → ∀ symbol ∈ s.subscribed, Sent s symbol

/-- The connection opens before anything has been subscribed. -/
def OpensFirst (s : BinanceMdApi) : MarketStep Bool → Prop
  | .socket .opened _ => 0 < s.socket.attempts → s.subscribed = ∅
  | _ => True

/-- `subscribe` logs, does nothing, or enters the symbol and sends its packet. -/
theorem subscribe_cases (s : BinanceMdApi) (req : SubscribeRequest) (now : DateTime) :
    (∃ msg, s.subscribe req now = s.writeLog msg) ∨
    (req.symbol ∈ s.ticks ∧ s.subscribe req now = s) ∨
    ∃ contract tick, s.exchange.getContractBySymbol req.symbol = some contract ∧
      s.subscribe req now =
        { s with
          subscribed := s.subscribed.insert req.symbol req
          ticks := s.ticks.insert req.symbol tick
          reqid := s.reqid + 1
          socket := s.socket.sendPacket
            (subscribePacket s.klineStream (s.reqid + 1) contract.name) } := by
  unfold subscribe
  cases found : s.exchange.getContractBySymbol req.symbol with
  | none => exact .inl ⟨_, rfl⟩
  | some contract =>
    dsimp only
    split
    · rename_i listed
      exact .inr (.inl ⟨listed, rfl⟩)
    · exact .inr (.inr ⟨contract, _, rfl, rfl⟩)

/-- The walk through the table subscribes nothing. -/
theorem onConnected_eq (listed : Listed s) (now : DateTime) :
    s.onConnected now = s.writeLog "MD API connected" := by
  refine List.foldl_fixed' (fun symbol => ?_) _
  unfold resubscribe
  cases found : (s.writeLog "MD API connected").subscribed[symbol]? with
  | none => rfl
  | some req =>
    have key := listed.keys symbol req found
    have mem : symbol ∈ s.subscribed :=
      ExtTreeMap.mem_iff_isSome_getElem?.mpr (Option.isSome_of_eq_some found)
    obtain ⟨contract, contract_eq⟩ := Option.isSome_iff_exists.mp (listed.known symbol mem)
    have known : (s.writeLog "MD API connected").exchange.getContractBySymbol symbol =
        some contract := contract_eq
    dsimp only
    rw [subscribe, key, known]
    exact if_pos (listed.ticks symbol mem)

/-- Changes of other fields, and new entries of the trace. -/
theorem Listed.congr {t : BinanceMdApi} (listed : Listed s)
    (subscribed : t.subscribed = s.subscribed)
    (ticks : t.ticks = s.ticks)
    (contracts : t.exchange.symbolContractMap = s.exchange.symbolContractMap)
    (trace : s.exchange.trace ⊆ t.exchange.trace) : Listed t where
  contracts symbol c found := by
    rw [BinanceExchange.getContractBySymbol, contracts] at found
    exact (listed.contracts symbol c found).imp_right fun mem => trace mem
  keys := by rw [subscribed]; exact listed.keys
  known := by
    unfold BinanceExchange.getContractBySymbol
    rw [subscribed, contracts]
    exact listed.known
  ticks := by rw [subscribed, ticks]; exact listed.ticks

/-- An event of the socket changes the socket and the log. -/
theorem onSocket_eq (listed : Listed s) (event : WebsocketClient.Event) (now : DateTime) :
    ∃ logs, s.onSocket event now =
      { s with
        socket := (s.socket.handle event).1
        exchange := { s.exchange with trace := s.exchange.trace ++ logs } } := by
  unfold onSocket
  rcases (s.socket.handle event) with ⟨socket, _ | _ | _⟩
  · exact ⟨[], by simp⟩
  · have same : Listed { s with socket } := listed.congr rfl rfl rfl (List.Subset.refl _)
    exact ⟨_, onConnected_eq same now⟩
  · exact ⟨_, rfl⟩

/-! ### Runs of the Binance channel -/

theorem Listed.onContract (listed : Listed s) (contract : ContractData) :
    Listed { s with exchange := s.exchange.onContract contract } where
  contracts symbol c found := by
    simp only [BinanceExchange.getContractBySymbol, BinanceExchange.onContract,
      BinanceExchange.emit, ExtTreeMap.getElem?_insert] at found
    split at found
    · rename_i same
      obtain rfl := Option.some.inj found
      exact ⟨compare_eq_iff_eq.mp same, by simp [BinanceExchange.onContract, BinanceExchange.emit]⟩
    · obtain ⟨symbol_eq, mem⟩ := listed.contracts symbol c found
      exact ⟨symbol_eq, List.mem_append_left _ mem⟩
  keys := listed.keys
  known symbol mem := by
    have before := listed.known symbol mem
    simp only [BinanceExchange.getContractBySymbol, BinanceExchange.onContract,
      BinanceExchange.emit, ExtTreeMap.getElem?_insert] at before ⊢
    split
    · rfl
    · exact before
  ticks := listed.ticks

theorem listed_step (l : MarketStep Bool) (listed : Listed s) : Listed (s.step l) := by
  cases l with
  | contract contract => exact listed.onContract contract
  | subscribe req now =>
    obtain ⟨msg, eq⟩ | ⟨-, eq⟩ | ⟨contract, tick, found, eq⟩ := s.subscribe_cases req now
    · rw [step, eq]
      exact listed.congr rfl rfl rfl (List.subset_append_left _ _)
    · rw [step, eq]
      exact listed
    · rw [step, eq]
      refine ⟨listed.contracts, fun symbol row => ?_, fun symbol => ?_, fun symbol => ?_⟩
      · simp only [ExtTreeMap.getElem?_insert]
        split
        · rename_i same
          rintro ⟨⟩
          exact compare_eq_iff_eq.mp same
        · exact listed.keys symbol row
      · simp only [ExtTreeMap.mem_insert]
        rintro (same | mem)
        · rw [← compare_eq_iff_eq.mp same]
          exact Option.isSome_iff_exists.mpr ⟨contract, found⟩
        · exact listed.known symbol mem
      · simp only [ExtTreeMap.mem_insert]
        exact Or.imp_right (listed.ticks symbol)
  | connect klineStream => exact listed.congr rfl rfl rfl (List.subset_append_left _ _)
  | socket event now =>
    obtain ⟨logs, eq⟩ := onSocket_eq listed event now
    rw [step, eq]
    exact listed.congr rfl rfl rfl (List.subset_append_left _ _)

/-- What has been sent stays sent while the connection stays. -/
theorem Sent.mono {t : BinanceMdApi} {symbol : AString} (sent : Sent s symbol)
    (trace : s.exchange.trace ⊆ t.exchange.trace) (packets : s.socket.sent ⊆ t.socket.sent) :
    Sent t symbol := by
  obtain ⟨c, klineStream, id, mem, symbol_eq, packet⟩ := sent
  exact ⟨c, klineStream, id, trace mem, symbol_eq, packets packet⟩

theorem served_step_iff (l : MarketStep Bool) (listed : Listed s) (served : Served s) :
    Served (s.step l) ↔ OpensFirst s l := by
  cases l with
  | contract contract =>
    refine iff_of_true (fun up symbol mem => ?_) trivial
    exact (served up symbol mem).mono (List.subset_append_left _ _) (List.Subset.refl _)
  | subscribe req now =>
    refine iff_of_true ?_ trivial
    obtain ⟨msg, eq⟩ | ⟨-, eq⟩ | ⟨contract, tick, found, eq⟩ := s.subscribe_cases req now
    · rw [step, eq]
      exact fun up symbol mem =>
        (served up symbol mem).mono (List.subset_append_left _ _) (List.Subset.refl _)
    · rw [step, eq]
      exact served
    · rw [step, eq]
      intro up symbol mem
      rw [WebsocketClient.sendPacket_link] at up
      have packets := WebsocketClient.sendPacket_sent up
        (subscribePacket s.klineStream (s.reqid + 1) contract.name)
      rcases ExtTreeMap.mem_insert.mp mem with same | before
      · obtain ⟨symbol_eq, announced⟩ := listed.contracts _ contract found
        refine ⟨contract, s.klineStream, s.reqid + 1, announced, ?_, by simp [packets]⟩
        rw [symbol_eq, compare_eq_iff_eq.mp same]
      · exact (served up symbol before).mono (List.Subset.refl _) (by simp [packets])
  | connect klineStream =>
    refine iff_of_true (fun up => ?_) trivial
    simp [step, connect, writeLog] at up
  | socket event now =>
    obtain ⟨logs, eq⟩ := onSocket_eq listed event now
    rw [step, eq]
    obtain ⟨rfl, attempts, up, nothing, -⟩ | ⟨idle, -, same⟩ := s.socket.handle_cases event
    · have guard : OpensFirst s (.socket .opened now) ↔ s.subscribed = ∅ :=
        ⟨fun first => first attempts, fun empty _ => empty⟩
      rw [guard]
      constructor
      · intro served
        refine ExtTreeMap.eq_empty_iff_forall_not_mem.mpr fun symbol mem => ?_
        obtain ⟨_, _, _, -, -, packet⟩ := served up symbol mem
        simp [nothing] at packet
      · intro empty _ symbol mem
        simp [empty] at mem
    · have guard : OpensFirst s (.socket event now) := by
        cases event with
        | opened => exact fun attempts => absurd (idle rfl) attempts.ne'
        | _ => trivial
      refine iff_of_true (fun up symbol mem => ?_) guard
      obtain ⟨up_before, sent⟩ := same up
      exact (served up_before symbol mem).mono (List.subset_append_left _ _) (by simp [sent])

theorem listed_initial : Listed {} where
  contracts symbol c found := by simp [BinanceExchange.getContractBySymbol] at found
  keys symbol req found := by simp at found
  known symbol mem := by simp at mem
  ticks symbol mem := by simp at mem

/-- Everything in the table has been subscribed on the current connection in exactly those runs
in which connections open before anything has been subscribed. -/
theorem subscriptions_served_iff (steps : List (MarketStep Bool)) :
    Always step Served {} steps ↔ Meets step OpensFirst {} steps :=
  always_iff_meets_of_invariant (fun _ l listed => listed_step l listed)
    (fun _ l listed served => served_step_iff l listed served) listed_initial (by simp [Served])

section Reconnect

def btcUsdt : ContractData :=
  { symbol := "BTCUSDT_SWAP", exchange := .binance, name := "BTCUSDT", product := .swap
    pricetick := 1 / 10, exchangeName := "BINANCE" }

def reconnects : List (MarketStep Bool) :=
  [.connect true, .socket .opened 0, .contract btcUsdt,
   .subscribe { symbol := "BTCUSDT_SWAP", exchange := .binance } 0, .socket .closed 1,
   .socket .timer 6, .socket .opened 7]

/-- After the connection was lost, nothing is subscribed on the next one. -/
theorem reconnect_unserved :
    ¬ ∀ steps : List (MarketStep Bool), Always step Served {} steps := by
  intro all
  have served := (all reconnects).last
  have up : (reconnects.foldl step {}).socket.link = .up := by decide +kernel
  have listed : "BTCUSDT_SWAP" ∈ (reconnects.foldl step {}).subscribed := by decide +kernel
  have nothing : (reconnects.foldl step {}).socket.sent.length = 0 := by decide +kernel
  obtain ⟨_, _, _, -, -, packet⟩ := served up _ listed
  rw [List.length_eq_zero_iff.mp nothing] at packet
  simp at packet

end Reconnect

end BinanceMdApi

/-! ## OKX -/

namespace OkxWebsocketPublicApi

variable {s : OkxWebsocketPublicApi}

/-- A packet that subscribes a contract of the symbol has been sent on this connection. -/
def Sent (s : OkxWebsocketPublicApi) (symbol : AString) : Prop :=
  ∃ c : ContractData, .contract c ∈ s.exchange.trace ∧ c.symbol = symbol ∧
    subscribePacket c.name ∈ s.socket.sent

/-- The symbol that a step subscribes, if it has a contract. -/
def accepted (s : OkxWebsocketPublicApi) : MarketStep AString → List AString
  | .subscribe req _ =>
    if (s.exchange.getContractBySymbol req.symbol).isSome then [req.symbol] else []
  | _ => []

/-- All symbols that a run has subscribed. -/
def acceptedIn : OkxWebsocketPublicApi → List (MarketStep AString) → List AString
  | _, [] => []
  | s, l :: ls => s.accepted l ++ acceptedIn (s.step l) ls

/-- What the tables of the channel and the exchange have in common, the connection aside. -/
structure Listed (s : OkxWebsocketPublicApi) (symbols : List AString) : Prop where
  contracts : ∀ symbol (c : ContractData), s.exchange.getContractBySymbol symbol = some c →
    c.symbol = symbol ∧ .contract c ∈ s.exchange.trace
  keys : ∀ symbol (req : SubscribeRequest), s.subscribed[symbol]? = some req → req.symbol = symbol
  known : ∀ symbol ∈ s.subscribed, (s.exchange.getContractBySymbol symbol).isSome
  ticks : ∀ symbol ∈ s.subscribed, symbol ∈ s.ticks
  accepted : ∀ symbol ∈ symbols, symbol ∈ s.subscribed

/-- While the socket is connected, everything in the table has been subscribed. -/
def Served (s : OkxWebsocketPublicApi) : Prop :=
  s.socket.link = .up → ∀ symbol ∈ s.subscribed, Sent s symbol

theorem Sent.mono {t : OkxWebsocketPublicApi} {symbol : AString} (sent : Sent s symbol)
    (trace : s.exchange.trace ⊆ t.exchange.trace) (packets : s.socket.sent ⊆ t.socket.sent) :
    Sent t symbol := by
  obtain ⟨c, mem, symbol_eq, packet⟩ := sent
  exact ⟨c, trace mem, symbol_eq, packets packet⟩

theorem subscribe_none {req : SubscribeRequest}
    (unknown : s.exchange.getContractBySymbol req.symbol = none) (now : DateTime) :
    ∃ msg, s.subscribe req now = s.writeLog msg := by
  unfold subscribe
  rw [unknown]
  exact ⟨_, rfl⟩

theorem subscribe_some {req : SubscribeRequest} {contract : ContractData}
    (found : s.exchange.getContractBySymbol req.symbol = some contract) (now : DateTime) :
    s.subscribe req now =
      { s with
        subscribed := s.subscribed.insert req.symbol req
        ticks := s.ticks.insert req.symbol (newTick req contract now OkxExchange.exchangeName)
        socket := s.socket.sendPacket (subscribePacket contract.name) } := by
  unfold subscribe
  rw [found]

variable {symbols : List AString}

/-- Changes of other fields, and new entries of the trace. -/
theorem Listed.congr {t : OkxWebsocketPublicApi} (listed : Listed s symbols)
    (subscribed : t.subscribed = s.subscribed) (ticks : t.ticks = s.ticks)
    (contracts : t.exchange.symbolContractMap = s.exchange.symbolContractMap)
    (trace : s.exchange.trace ⊆ t.exchange.trace) : Listed t symbols where
  contracts symbol c found := by
    rw [OkxExchange.getContractBySymbol, contracts] at found
    exact (listed.contracts symbol c found).imp_right fun mem => trace mem
  keys := by rw [subscribed]; exact listed.keys
  known := by
    unfold OkxExchange.getContractBySymbol
    rw [subscribed, contracts]
    exact listed.known
  ticks := by rw [subscribed, ticks]; exact listed.ticks
  accepted := by rw [subscribed]; exact listed.accepted

theorem Listed.onContract (listed : Listed s symbols) (contract : ContractData) :
    Listed { s with exchange := s.exchange.onContract contract } symbols where
  contracts symbol c found := by
    simp only [OkxExchange.getContractBySymbol, OkxExchange.onContract, OkxExchange.emit,
      ExtTreeMap.getElem?_insert] at found
    split at found
    · rename_i same
      obtain rfl := Option.some.inj found
      exact ⟨compare_eq_iff_eq.mp same, by simp [OkxExchange.onContract, OkxExchange.emit]⟩
    · exact (listed.contracts symbol c found).imp_right fun mem => List.mem_append_left _ mem
  keys := listed.keys
  known symbol mem := by
    have before := listed.known symbol mem
    simp only [OkxExchange.getContractBySymbol, OkxExchange.onContract, OkxExchange.emit,
      ExtTreeMap.getElem?_insert] at before ⊢
    split
    · rfl
    · exact before
  ticks := listed.ticks
  accepted := listed.accepted

/-- A symbol that is subscribed is entered into both tables. -/
theorem Listed.subscribe (listed : Listed s symbols) {req : SubscribeRequest}
    {contract : ContractData}
    (found : s.exchange.getContractBySymbol req.symbol = some contract) (now : DateTime) :
    Listed (s.subscribe req now) (req.symbol :: symbols) := by
  rw [subscribe_some found]
  refine ⟨listed.contracts, fun symbol row => ?_, fun symbol => ?_, fun symbol => ?_,
    fun symbol => ?_⟩
  · simp only [ExtTreeMap.getElem?_insert]
    split
    · rename_i same
      rintro ⟨⟩
      exact compare_eq_iff_eq.mp same
    · exact listed.keys symbol row
  · simp only [ExtTreeMap.mem_insert, compare_eq_iff_eq]
    rintro (rfl | mem)
    · exact Option.isSome_of_eq_some found
    · exact listed.known symbol mem
  · simp only [ExtTreeMap.mem_insert]
    exact Or.imp_right (listed.ticks symbol)
  · simp only [ExtTreeMap.mem_insert, compare_eq_iff_eq, List.mem_cons]
    exact Or.imp Eq.symm (listed.accepted symbol)

/-- What is subscribed on a connection that is up is sent, and what has been sent stays sent. -/
theorem sent_subscribe (listed : Listed s symbols) {req : SubscribeRequest}
    {contract : ContractData} (up : s.socket.link = .up)
    (found : s.exchange.getContractBySymbol req.symbol = some contract) (now : DateTime) :
    Sent (s.subscribe req now) req.symbol ∧
      ∀ symbol, Sent s symbol → Sent (s.subscribe req now) symbol := by
  have packets := WebsocketClient.sendPacket_sent up (subscribePacket contract.name)
  rw [subscribe_some found]
  obtain ⟨symbol_eq, announced⟩ := listed.contracts _ contract found
  exact ⟨⟨contract, announced, symbol_eq, by simp [packets]⟩,
    fun symbol sent => sent.mono (List.Subset.refl _) (by simp [packets])⟩

/-- What the loop of `on_connected` keeps on its way from `s` to `t`. -/
structure Walks (s t : OkxWebsocketPublicApi) : Prop where
  listed : ∀ symbols, Listed s symbols → Listed t symbols
  up : t.socket.link = .up
  subscribed : ∀ symbol, symbol ∈ t.subscribed ↔ symbol ∈ s.subscribed
  sent : ∀ symbol, Sent s symbol → Sent t symbol

/-- The loop subscribes the entry that it stands at. -/
theorem walks_resubscribe (listed : Listed s symbols) (up : s.socket.link = .up) (now : DateTime)
    (symbol : AString) :
    Walks s (resubscribe now s symbol) ∧
      (symbol ∈ s.subscribed → Sent (resubscribe now s symbol) symbol) := by
  unfold resubscribe
  cases row : s.subscribed[symbol]? with
  | none =>
    refine ⟨⟨fun _ same => same, up, fun _ => Iff.rfl, fun _ same => same⟩, fun mem => ?_⟩
    rw [ExtTreeMap.mem_iff_isSome_getElem?, row] at mem
    simp at mem
  | some req =>
    have mem : symbol ∈ s.subscribed :=
      ExtTreeMap.mem_iff_isSome_getElem?.mpr (Option.isSome_of_eq_some row)
    obtain rfl := listed.keys symbol req row
    obtain ⟨contract, found⟩ := Option.isSome_iff_exists.mp (listed.known _ mem)
    obtain ⟨now_sent, still_sent⟩ := sent_subscribe listed up found now
    refine ⟨⟨fun symbols listed => ?_, ?_, fun symbol => ?_, still_sent⟩, fun _ => now_sent⟩
    · have more := listed.subscribe found now
      exact ⟨more.contracts, more.keys, more.known, more.ticks,
        fun symbol mem => more.accepted symbol (List.mem_cons_of_mem _ mem)⟩
    · simp only [subscribe_some found, WebsocketClient.sendPacket_link, up]
    · simp only [subscribe_some found, ExtTreeMap.mem_insert, compare_eq_iff_eq]
      exact or_iff_right_of_imp fun same => same ▸ mem

theorem foldl_resubscribe (listed : Listed s symbols) (up : s.socket.link = .up) (now : DateTime)
    (keys : List AString) :
    Walks s (keys.foldl (resubscribe now) s) ∧
      ∀ symbol ∈ keys, symbol ∈ s.subscribed → Sent (keys.foldl (resubscribe now) s) symbol := by
  induction keys generalizing s with
  | nil => exact ⟨⟨fun _ same => same, up, fun _ => Iff.rfl, fun _ same => same⟩, by simp⟩
  | cons key keys ih =>
    obtain ⟨first, here⟩ := walks_resubscribe listed up now key
    obtain ⟨rest, later⟩ := ih (first.listed _ listed) first.up
    refine ⟨⟨fun _ same => rest.listed _ (first.listed _ same), rest.up,
      fun symbol => (rest.subscribed symbol).trans (first.subscribed symbol),
      fun symbol sent => rest.sent symbol (first.sent symbol sent)⟩, fun symbol mem known => ?_⟩
    rcases List.mem_cons.mp mem with rfl | mem
    · exact rest.sent symbol (here known)
    · exact later symbol mem ((first.subscribed symbol).mpr known)

/-- When a connection has opened, the whole table has been subscribed on it. -/
theorem onConnected_spec (listed : Listed s symbols) (up : s.socket.link = .up) (now : DateTime) :
    Listed (s.onConnected now) symbols ∧ Served (s.onConnected now) := by
  have logged : Listed (s.writeLog "Websocket Public API connection successful") symbols :=
    listed.congr rfl rfl rfl (List.subset_append_left _ _)
  obtain ⟨walks, sent⟩ := foldl_resubscribe logged up now
    (s.writeLog "Websocket Public API connection successful").subscribed.keys
  refine ⟨walks.listed _ logged, fun _ symbol mem => ?_⟩
  have before := (walks.subscribed symbol).mp mem
  exact sent symbol (ExtTreeMap.mem_keys.mpr before) before

/-! ### Runs of the OKX channel -/

theorem Served.congr {t : OkxWebsocketPublicApi} (served : Served s)
    (subscribed : t.subscribed = s.subscribed) (trace : s.exchange.trace ⊆ t.exchange.trace)
    (socket : t.socket.link = .up → s.socket.link = .up ∧ t.socket.sent = s.socket.sent) :
    Served t := by
  intro up symbol mem
  obtain ⟨up_before, sent⟩ := socket up
  rw [subscribed] at mem
  exact (served up_before symbol mem).mono trace (by simp [sent])

theorem onSocket_spec (listed : Listed s symbols) (served : Served s)
    (event : WebsocketClient.Event) (now : DateTime) :
    Listed (s.onSocket event now) symbols ∧ Served (s.onSocket event now) := by
  have moved (socket : WebsocketClient) : Listed { s with socket } symbols :=
    listed.congr rfl rfl rfl (List.Subset.refl _)
  unfold onSocket
  obtain ⟨-, -, up, -, callback⟩ | ⟨-, other, same⟩ := s.socket.handle_cases event
  · simp only [callback]
    exact onConnected_spec (moved _) up now
  · rcases event_eq : s.socket.handle event with ⟨socket, _ | _ | _⟩
    · rw [event_eq] at same
      exact ⟨moved socket, served.congr rfl (List.Subset.refl _) same⟩
    · simp [event_eq] at other
    · rw [event_eq] at same
      exact ⟨(moved socket).congr rfl rfl rfl (List.subset_append_left _ _),
        served.congr rfl (List.subset_append_left _ _) same⟩

theorem step_spec (l : MarketStep AString) (listed : Listed s symbols) (served : Served s) :
    Listed (s.step l) (s.accepted l ++ symbols) ∧ Served (s.step l) := by
  cases l with
  | contract contract =>
    exact ⟨listed.onContract contract,
      served.congr rfl (List.subset_append_left _ _) fun up => ⟨up, rfl⟩⟩
  | subscribe req now =>
    change Listed (s.subscribe req now) _ ∧ Served (s.subscribe req now)
    cases found : s.exchange.getContractBySymbol req.symbol with
    | none =>
      have refused : s.accepted (.subscribe req now) = [] := by simp [accepted, found]
      obtain ⟨msg, eq⟩ := subscribe_none found now
      rw [refused, eq]
      exact ⟨listed.congr rfl rfl rfl (List.subset_append_left _ _),
        served.congr rfl (List.subset_append_left _ _) fun up => ⟨up, rfl⟩⟩
    | some contract =>
      have taken : s.accepted (.subscribe req now) = [req.symbol] := by simp [accepted, found]
      rw [taken]
      refine ⟨listed.subscribe found now, fun up symbol mem => ?_⟩
      simp only [subscribe_some found, WebsocketClient.sendPacket_link] at up
      simp only [subscribe_some found, ExtTreeMap.mem_insert, compare_eq_iff_eq] at mem
      obtain ⟨now_sent, still_sent⟩ := sent_subscribe listed up found now
      rcases mem with rfl | before
      · exact now_sent
      · exact still_sent symbol (served up symbol before)
  | connect server =>
    change Listed (s.connect server) _ ∧ Served (s.connect server)
    unfold connect
    split
    · exact ⟨listed, served⟩
    · exact ⟨listed.congr rfl rfl rfl (List.Subset.refl _), fun up => by simp at up⟩
  | socket event now => exact onSocket_spec listed served event now

theorem run_spec (steps : List (MarketStep AString)) (listed : Listed s symbols)
    (served : Served s) :
    Listed (steps.foldl step s) (acceptedIn s steps ++ symbols) ∧ Served (steps.foldl step s) := by
  induction steps generalizing s symbols with
  | nil => exact ⟨listed, served⟩
  | cons l ls ih =>
    obtain ⟨listed, served⟩ := step_spec l listed served
    obtain ⟨all, end_served⟩ := ih listed served
    refine ⟨⟨all.contracts, all.keys, all.known, all.ticks, fun symbol mem => ?_⟩, end_served⟩
    apply all.accepted symbol
    simp only [acceptedIn, List.mem_append] at mem ⊢
    tauto

/-- After every run: while the socket is connected, every symbol that was ever accepted has been
subscribed on the current connection; it has a tick; and what is in the table has a contract. -/
theorem accepted_served (steps : List (MarketStep AString)) :
    ((steps.foldl step {}).socket.link = .up →
      ∀ symbol ∈ acceptedIn {} steps, Sent (steps.foldl step {}) symbol) ∧
    (∀ symbol ∈ acceptedIn {} steps, symbol ∈ (steps.foldl step {}).ticks) ∧
    ∀ symbol ∈ (steps.foldl step {}).subscribed,
      ((steps.foldl step {}).exchange.getContractBySymbol symbol).isSome := by
  have listed : Listed {} [] := by
    constructor <;> simp [OkxExchange.getContractBySymbol]
  obtain ⟨all, served⟩ := run_spec steps listed (by simp [Served])
  rw [List.append_nil] at all
  exact ⟨fun up symbol mem => served up symbol (all.accepted symbol mem),
    fun symbol mem => all.ticks symbol (all.accepted symbol mem), all.known⟩

end OkxWebsocketPublicApi

end KeenTrader.Exchange
