import KeenTrader.Exchange.OpenOrders
import KeenTrader.Exchange.Reports
import KeenTrader.Exchange.UserStream

/-!
# How Binance starts

`BinanceRestApi` asks for the time, then for the contracts, and only when these have been read does
it ask for the open orders, the account, the positions and the user stream. What the exchange
reports of its orders is dropped where the contract is not known. Since nothing is asked for too
early, no order is dropped whose contract is listed, whatever the order in which the answers arrive.
-/

namespace KeenTrader.Exchange

open KeenTrader.Engine Handlers Runs Binance BinanceRestApi
open BinanceExchange (told told_of_append)

namespace BinanceRestApi

/-- A member that is read as a number, in a handler that also reads contracts. -/
def numberOr (d : Json.Value) (key : AString) : Except ContractFault ℚ :=
  (d.valueOr Json.Value.number? key 0).mapError .json

def onAssets : List Json.Value → BinanceExchange.Handle Unit
  | [] => modify (·.writeLog "Account data received")
  | asset :: assets => do
    let accountid ← read (asset.stringOr "asset" "")
    let balance ← BinanceUserApi.floatAt asset "walletBalance"
    let frozen ← BinanceUserApi.floatAt asset "maintMargin"
    modify (·.emit (.account
      { accountid, balance, frozen, exchangeName := BinanceExchange.exchangeName }))
    onAssets assets

def onQueryAccount (packet : Json.Value) : BinanceExchange.Handle Unit :=
  onAssets (BinanceUserApi.arrayAt packet "assets")

def amountOf (d : Json.Value) : Except ContractFault ℚ := textOr d "positionAmt" "0" >>= stof

/-- The loop over the positions. Each is a net position, whatever its side. -/
def onRisks : List Json.Value → Handler ContractFault BinanceExchange Unit
  | [] => modify (·.writeLog "Position data received")
  | d :: ds => do
    let name ← liftM (textOr d "symbol" "")
    match (← get).getContractByName name with
    | none => onRisks ds
    | some contract => do
      let volume ← liftM (amountOf d)
      let price ← liftM (numberOr d "entryPrice")
      let pnl ← liftM (numberOr d "unRealizedProfit")
      modify (·.emit (.position
        { symbol := contract.symbol, exchange := .binance, direction := .net, volume, price, pnl
          exchangeName := BinanceExchange.exchangeName }))
      onRisks ds

def onQueryPosition (packet : Json.Value) : Handler ContractFault BinanceExchange Unit :=
  match packet with
  | .array ds => onRisks ds
  | _ => modify (·.writeLog "Position data received")

/-- What is asked for over REST after the time. -/
inductive Query where
  | contract | order | account | position | userStream
  deriving DecidableEq

def Query.request : Query → RestRequest
  | contract => BinanceRest.queryContract
  | order => { method := "GET", path := "/fapi/v1/openOrders" }
  | account => { method := "GET", path := "/fapi/v3/account" }
  | position => { method := "GET", path := "/fapi/v3/positionRisk" }
  | userStream => { method := "POST", path := "/fapi/v1/listenKey" }

end BinanceRestApi

/-- An answer with contracts that has been read to its end, by a session with or without
credentials. -/
structure ContractsRead where
  packet : Json.Value
  credentials : Bool

/-- `session` keeps all requests in the order in which they are made, and `answered` the queries
whose answer has come, or that have failed. `read` are all answers with contracts that have been
read to their end, and `closed` counts how often the user stream has been disconnected. -/
structure BinanceStartup where
  session : BinanceSession := {}
  userStream : UserStream := {}
  answered : List Query := []
  read : List ContractsRead := []
  closed : ℕ := 0

namespace BinanceStartup

def exchange (s : BinanceStartup) : BinanceExchange := s.session.exchange

def requests (s : BinanceStartup) : List RestRequest := s.session.rest.requests

def withExchange (s : BinanceStartup) (exchange : BinanceExchange) : BinanceStartup :=
  { s with session.exchange := exchange }

def ask (s : BinanceStartup) (queries : List Query) : BinanceStartup :=
  { s with session.rest.requests := s.requests ++ queries.map Query.request }

/-- An answer to the query is to come. -/
def awaits (s : BinanceStartup) (q : Query) : Bool :=
  s.answered.count q < s.requests.count q.request

def connect (s : BinanceStartup) (setting : Json.Value) : BinanceStartup :=
  match (BinanceSession.connect setting).exec s.session with
  | (.ok _, session) => { s with session, userStream.server := session.server }
  | (.error _, session) => { s with session }

/-- The queries that follow the contracts need credentials. -/
def onContracts (s : BinanceStartup) (packet : Json.Value) : BinanceStartup :=
  match (onQueryContract packet).exec s.exchange with
  | (.error _, exchange) => s.withExchange exchange
  | (.ok _, exchange) =>
    let s := s.withExchange exchange
    if (packet.get? "symbols").isSome then
      let credentials := decide (exchange.key ≠ "" ∧ exchange.secret ≠ "")
      let s := { s with read := s.read ++ [{ packet, credentials }] }
      if credentials then s.ask [.order, .account, .position, .userStream] else s
    else s

/-- A handler that throws is caught by the client, and what it has changed stays changed. -/
def onAnswer (s : BinanceStartup) (stray : Direction) (now : DateTime) (packet : Json.Value) :
    Query → BinanceStartup
  | .contract => s.onContracts packet
  | .order => s.withExchange ((onQueryOrder stray now packet).state s.exchange)
  | .account => s.withExchange ((onQueryAccount packet).state s.exchange)
  | .position => s.withExchange ((onQueryPosition packet).state s.exchange)
  | .userStream => { s with userStream := s.userStream.onStartUserStream packet }

inductive Step where
  | connect (setting : Json.Value)
  | setPositionMode (mode : PositionMode)
  | timeReply (localTime : ℤ) (reply : Option Json.Value)
  | answer (q : Query) (stray : Direction) (now : DateTime) (packet : Option Json.Value)
  | push (now : DateTime) (packet : Json.Value)
  | disconnected

/-- The user stream only speaks after it has been connected. -/
def step (s : BinanceStartup) : Step → BinanceStartup
  | .connect setting => s.connect setting
  | .setPositionMode mode => { s with session := s.session.setPositionMode mode }
  | .timeReply localTime reply => { s with session := s.session.onTimeReply localTime reply }
  | .answer q stray now packet =>
    if s.awaits q then
      let s := { s with answered := s.answered ++ [q] }
      match packet with
      | some packet => s.onAnswer stray now packet q
      | none => s
    else s
  | .push now packet =>
    if s.userStream.connections = [] then s
    else s.withExchange (BinanceUserApi.onText s.exchange now packet)
  | .disconnected =>
    if s.userStream.connections = [] then s
    else
      { s.withExchange (s.exchange.writeLog "User API disconnected") with
        closed := s.closed + 1 }.ask [.userStream]

def run (steps : List Step) : BinanceStartup := steps.foldl step {}

/-- The names of the contracts in an answer. -/
def namesOf (packet : Json.Value) : List AString :=
  ((packet.get? "symbols").elim [] Json.Value.items).filterMap fun d =>
    match parseContract d with
    | .ok c => some c.name
    | .error _ => none

end BinanceStartup

/-! ## What reports leave alone -/

/-- What no report changes: reports put events and store orders. -/
structure KeptByReports (P : BinanceExchange → Prop) : Prop where
  emit : ∀ s e, P s → P (s.emit e)
  onOrder : ∀ s o, P s → P (s.onOrder o)

namespace KeptByReports

variable {P : BinanceExchange → Prop}

theorem onBalances (kept : KeptByReports P) (accs : List Json.Value) :
    Preserves P (BinanceUserApi.onBalances accs) := by
  induction accs with
  | nil => exact .pure _
  | cons acc accs ih =>
    refine preserves_read_bind fun _ _ => preserves_read_bind fun _ _ =>
      preserves_read_bind fun _ _ => ?_
    dsimp only
    split
    · exact .bind (.modify fun s => kept.emit s _) fun _ => ih
    · exact ih

theorem onPositions (kept : KeptByReports P) (poss : List Json.Value) :
    Preserves P (BinanceUserApi.onPositions poss) := by
  induction poss with
  | nil => exact .pure _
  | cons pos poss ih =>
    refine preserves_read_bind fun _ _ => .ite ih ?_
    refine preserves_read_bind fun name _ => .get_bind fun s start => ?_
    cases s.getContractByName name with
    | none => exact ih s start
    | some contract =>
      exact (preserves_read_bind fun _ _ => preserves_read_bind fun _ _ =>
        .bind (.modify fun s => kept.emit s _) fun _ => ih) s start

theorem parseOrder (packet ord : Json.Value) (type : Engine.OrderType) (contract : ContractData)
    (now : DateTime) : Preserves P (BinanceUserApi.parseOrder packet ord type contract now) := by
  unfold BinanceUserApi.parseOrder BinanceUserApi.floatAt BinanceUserApi.longOr
  refine preserves_read_bind fun _ _ => preserves_read_bind fun _ _ => preserves_read_bind
    fun _ _ => preserves_read_bind fun _ _ => preserves_read_bind fun _ _ => preserves_read_bind
    fun _ _ => preserves_read_bind fun _ _ => .pure _

theorem onFill (kept : KeptByReports P) (ord : Json.Value) (o : OrderData) (c : ContractData)
    (now : DateTime) : Preserves P (BinanceUserApi.onFill ord o c now) := by
  unfold BinanceUserApi.onFill BinanceUserApi.floatAt BinanceUserApi.longOr
  refine preserves_read_bind fun _ _ => .ite (.pure _) ?_
  exact preserves_read_bind fun _ _ => preserves_read_bind fun _ _ =>
    preserves_read_bind fun _ _ => .modify fun s => kept.emit s _

theorem onOrderPush (kept : KeptByReports P) (packet : Json.Value) (now : DateTime) :
    Preserves P (BinanceUserApi.onOrder packet now) := by
  unfold BinanceUserApi.onOrder
  split
  · exact .pure _
  · refine preserves_read_bind fun _ _ => preserves_read_bind fun _ _ =>
      preserves_read_bind fun name _ => .get_bind fun s start => ?_
    cases s.getContractByName name with
    | none => exact start
    | some contract =>
      refine (Preserves.bind (parseOrder _ _ _ _ _) fun order => ?_) s start
      exact .bind (.modify fun s => kept.onOrder s order) fun _ => kept.onFill _ _ _ _

theorem onText (kept : KeptByReports P) (s : BinanceExchange) (now : DateTime)
    (packet : Json.Value) (start : P s) : P (BinanceUserApi.onText s now packet) := by
  refine onText_invariant ?_ (fun s fault => kept.emit s _) start
  unfold BinanceUserApi.onPacket BinanceUserApi.onAccount BinanceUserApi.onListenKeyExpired
  split
  · exact .pure _
  refine preserves_read_bind fun _ _ => .ite ?_ (.ite (kept.onOrderPush _ _) (.ite ?_ (.pure _)))
  · split
    · exact .pure _
    · exact .bind (kept.onBalances _) fun _ => kept.onPositions _
  · exact .modify fun s => kept.emit s _

theorem onQueryOrder (kept : KeptByReports P) (stray : Direction) (now : DateTime)
    (packet : Json.Value) : Preserves P (BinanceRestApi.onQueryOrder stray now packet) := by
  unfold BinanceRestApi.onQueryOrder
  split
  · rename_i ds
    induction ds with
    | nil => exact .modify fun s => kept.emit s _
    | cons d ds ih =>
      refine preserves_read_bind fun _ _ => preserves_read_bind fun _ _ =>
        preserves_read_bind fun name _ => .get_bind fun s start => ?_
      cases contractOf s name with
      | none => exact ih s start
      | some c =>
        exact (preserves_read_bind fun _ _ => preserves_read_bind fun _ _ =>
          preserves_read_bind fun _ _ => preserves_read_bind fun _ _ =>
          preserves_read_bind fun _ _ =>
          .bind (.modify fun s => kept.onOrder s _) fun _ => ih) s start
  · exact .pure _

theorem onQueryAccount (kept : KeptByReports P) (packet : Json.Value) :
    Preserves P (BinanceRestApi.onQueryAccount packet) := by
  unfold BinanceRestApi.onQueryAccount
  induction BinanceUserApi.arrayAt packet "assets" with
  | nil => exact .modify fun s => kept.emit s _
  | cons asset assets ih =>
    exact preserves_read_bind fun _ _ => preserves_read_bind fun _ _ =>
      preserves_read_bind fun _ _ => .bind (.modify fun s => kept.emit s _) fun _ => ih

theorem onQueryPosition (kept : KeptByReports P) (packet : Json.Value) :
    Preserves P (BinanceRestApi.onQueryPosition packet) := by
  unfold BinanceRestApi.onQueryPosition
  split
  · rename_i ds
    induction ds with
    | nil => exact .modify fun s => kept.emit s _
    | cons d ds ih =>
      refine .lift_bind fun name _ => .get_bind fun s start => ?_
      cases s.getContractByName name with
      | none => exact ih s start
      | some contract =>
        exact (Preserves.lift_bind fun _ _ => .lift_bind fun _ _ => .lift_bind fun _ _ =>
          .bind (.modify fun s => kept.emit s _) fun _ => ih) s start
  · exact .modify fun s => kept.emit s _

end KeptByReports

theorem keptByReports_names (names : Std.ExtTreeMap AString ContractData) :
    KeptByReports (·.nameContractMap = names) :=
  ⟨fun _ _ same => same, fun _ _ same => same⟩

/-! ## What a session leaves alone -/

/-- The contracts are the same, and so are the queries that follow them. -/
structure SameQueries (s t : BinanceSession) : Prop where
  names : t.exchange.nameContractMap = s.exchange.nameContractMap
  counts : ∀ q : Query, q ≠ .contract →
    t.rest.requests.count q.request = s.rest.requests.count q.request

namespace SameQueries

variable {s t : BinanceSession}

theorem refl (s : BinanceSession) : SameQueries s s := ⟨rfl, fun _ _ => rfl⟩

/-- Requests of other kinds are added. -/
theorem requests (same : SameQueries s t) {u : BinanceSession} {new : List RestRequest}
    (names : u.exchange.nameContractMap = t.exchange.nameContractMap)
    (added : u.rest.requests = t.rest.requests ++ new)
    (other : ∀ q : Query, q ≠ .contract → q.request ∉ new) : SameQueries s u where
  names := names.trans same.names
  counts q after := by
    rw [added, List.count_append, List.count_eq_zero.mpr (other q after), add_zero]
    exact same.counts q after

theorem store {α : Type} (r : Except Json.Error α) (set : α → BinanceSession → BinanceSession)
    (names : ∀ a t, (set a t).exchange.nameContractMap = t.exchange.nameContractMap)
    (rest : ∀ a t, (set a t).rest = t.rest) :
    Preserves (SameQueries s) (Exchange.store r set) := by
  refine preserves_read_bind fun a _ => .modify fun t same => ?_
  have kept : (set a t).rest.requests = t.rest.requests ++ [] := by rw [rest, List.append_nil]
  exact same.requests (names a t) kept (by simp)

theorem connect (setting : Json.Value) :
    Preserves (SameQueries s) (BinanceSession.connect setting) := by
  unfold BinanceSession.connect BinanceSession.readSetting
  refine .bind ?_ fun _ => .modify fun t same => same.requests rfl rfl ?_
  · refine .bind (store _ _ (fun _ _ => rfl) fun _ _ => rfl) fun _ =>
      .bind (store _ _ (fun _ _ => rfl) fun _ _ => rfl) fun _ =>
      .bind (store _ _ (fun _ _ => rfl) fun _ _ => rfl) fun _ =>
      .bind (store _ _ (fun _ _ => rfl) fun _ _ => rfl) fun _ =>
      .bind (store _ _ (fun _ _ => rfl) fun _ _ => rfl) fun _ =>
      store _ _ (fun _ _ => rfl) fun _ _ => rfl
  · intro q _
    cases q <;> decide

theorem setPositionMode (mode : PositionMode) : SameQueries s (s.setPositionMode mode) := by
  refine (refl s).requests rfl rfl fun q _ => ?_
  cases q <;> cases mode <;> decide

theorem onTimeReply (localTime : ℤ) (reply : Option Json.Value) :
    SameQueries s (s.onTimeReply localTime reply) := by
  rcases s.onTimeReply_cases localTime reply with
    ⟨-, eq⟩ | ⟨n, -, ⟨-, eq⟩ | ⟨_, _, _, -, eq⟩⟩
  · rw [eq]
    exact refl s
  · rw [eq]
    exact ⟨rfl, fun _ _ => rfl⟩
  · rw [eq]
    refine (refl s).requests rfl rfl fun q after => ?_
    cases q with
    | contract => exact absurd rfl after
    | order | account | position | userStream =>
      unfold modeOf
      split <;> decide

end SameQueries

/-! ## Contracts that are read -/

namespace BinanceStartup

/-- A contract with this name is known. -/
def Known (s : BinanceExchange) (name : AString) : Prop := (s.getContractByName name).isSome = true

theorem known_onContract (s : BinanceExchange) (c : ContractData) (name : AString) :
    Known (s.onContract c) name ↔ c.name = name ∨ Known s name := by
  unfold Known
  by_cases same : c.name = name <;>
    simp [BinanceExchange.getContractByName, BinanceExchange.onContract, BinanceExchange.emit,
      Std.ExtTreeMap.getElem?_insert, same]

theorem preserves_known (name : AString) (ds : List Json.Value) :
    Preserves (Known · name) (onSymbols ds) := by
  induction ds with
  | nil => exact .modify fun s known => known
  | cons d ds ih =>
    refine .lift_bind fun c _ => .bind (.modify fun s known => ?_) fun _ => ih
    exact (known_onContract s c name).mpr (.inr known)

/-- Where the loop over the contracts comes to its end, it has read them all. -/
theorem known_onSymbols {ds : List Json.Value} {s t : BinanceExchange}
    (done : (onSymbols ds).exec s = (.ok ⟨⟩, t)) {d : Json.Value} (mem : d ∈ ds) {c : ContractData}
    (parsed : parseContract d = .ok c) : Known t c.name := by
  induction ds generalizing s with
  | nil => simp at mem
  | cons d' ds ih =>
    rw [onSymbols] at done
    cases first : parseContract d' with
    | error e =>
      rw [first, exec_lift_error_bind] at done
      simp at done
    | ok c' =>
      rw [first, exec_lift_ok_bind, exec_modify_bind] at done
      rcases List.mem_cons.mp mem with rfl | later
      · obtain rfl := Except.ok.inj (first.symm.trans parsed)
        have known := preserves_known c'.name ds _ ((known_onContract s c' c'.name).mpr (.inl rfl))
        unfold Handler.state at known
        rwa [done] at known
      · exact ih done later

theorem known_onQueryContract {packet : Json.Value} {s t : BinanceExchange}
    (done : (onQueryContract packet).exec s = (.ok ⟨⟩, t)) {name : AString}
    (listed : name ∈ namesOf packet) : Known t name := by
  unfold namesOf at listed
  unfold onQueryContract at done
  cases symbols : packet.get? "symbols" with
  | none => simp [symbols] at listed
  | some v =>
    rw [symbols] at listed done
    obtain ⟨d, mem, found⟩ := List.mem_filterMap.mp listed
    cases parsed : parseContract d with
    | error e => simp [parsed] at found
    | ok c =>
      obtain rfl : c.name = name := by simpa [parsed] using found
      exact known_onSymbols done mem parsed

theorem preserves_known_onQueryContract (name : AString) (packet : Json.Value) :
    Preserves (Known · name) (onQueryContract packet) := by
  unfold onQueryContract
  split
  · exact .pure _
  · exact preserves_known name _

/-! ## The order of the queries -/

/-- The queries that follow the contracts are made once for each answer that has been read with
credentials, and for a user stream once more for each time that it has been disconnected. The
contracts of every answer that has been read are known, and the stream is only connected behind one
that has been read with credentials. -/
structure Ready (s : BinanceStartup) : Prop where
  counts : ∀ q : Query, q ≠ .contract →
    s.requests.count q.request =
      s.read.countP (·.credentials) + if q = .userStream then s.closed else 0
  known : ∀ answer ∈ s.read, ∀ name ∈ namesOf answer.packet, Known s.exchange name
  connected : s.userStream.connections ≠ [] → ∃ answer ∈ s.read, answer.credentials
  closed : s.closed ≠ 0 → ∃ answer ∈ s.read, answer.credentials

variable {s t : BinanceStartup}

/-- What is awaited has been asked for, and this behind the contracts. -/
theorem Ready.read_of_awaits (ready : Ready s) {q : Query} (after : q ≠ .contract)
    (awaits : s.awaits q = true) : ∃ answer ∈ s.read, answer.credentials := by
  have count := ready.counts q after
  have asked : s.answered.count q < s.requests.count q.request := of_decide_eq_true awaits
  rcases Nat.eq_zero_or_pos s.closed with zero | some
  · rw [count, zero, ite_self, add_zero] at asked
    have positive : 0 < s.read.countP (·.credentials) := by omega
    exact List.countP_pos_iff.mp positive
  · exact ready.closed some.ne'

/-- Contracts may become known. -/
theorem Ready.withExchange (ready : Ready s) {exchange : BinanceExchange}
    (known : ∀ name, Known s.exchange name → Known exchange name) :
    Ready (s.withExchange exchange) where
  counts := ready.counts
  known answer mem name listed := known name (ready.known answer mem name listed)
  connected := ready.connected
  closed := ready.closed

theorem Ready.report (ready : Ready s) {exchange : BinanceExchange}
    (names : exchange.nameContractMap = s.exchange.nameContractMap) :
    Ready (s.withExchange exchange) := by
  refine ready.withExchange fun name known => ?_
  unfold Known BinanceExchange.getContractByName at known ⊢
  rwa [names]

theorem Ready.session (ready : Ready s) {session : BinanceSession}
    (same : SameQueries s.session session) (server : AString) :
    Ready { s with session, userStream.server := server } where
  counts q after := (same.counts q after).trans (ready.counts q after)
  known answer mem name listed := by
    have known := ready.known answer mem name listed
    unfold Known BinanceExchange.getContractByName BinanceStartup.exchange at known ⊢
    rwa [same.names]
  connected := ready.connected
  closed := ready.closed

theorem count_ask (queries : List Query) (q : Query) (after : q ≠ .contract)
    (own : ∀ q ∈ queries, q ≠ .contract) :
    (s.ask queries).requests.count q.request = s.requests.count q.request + queries.count q := by
  have injective : ∀ q' ∈ queries, (q'.request = q.request ↔ q' = q) := by
    intro q' mem
    have other := own q' mem
    revert after other
    cases q <;> cases q' <;> decide
  unfold ask requests
  rw [List.count_append]
  congr 1
  rw [List.count_eq_countP, List.countP_map, List.count_eq_countP]
  refine List.countP_congr fun q' mem => ?_
  simpa using injective q' mem

/-- The queries are made that follow an answer which has been read with credentials. -/
theorem Ready.follow (ready : Ready s) {answer : ContractsRead}
    (credentials : answer.credentials = true)
    (known : ∀ a ∈ s.read ++ [answer], ∀ name ∈ namesOf a.packet, Known s.exchange name) :
    Ready ({ s with read := s.read ++ [answer] }.ask
      [.order, .account, .position, .userStream]) where
  counts q after := by
    rw [count_ask _ _ after (by decide)]
    have count : s.requests.count q.request =
        s.read.countP (·.credentials) + if q = .userStream then s.closed else 0 :=
      ready.counts q after
    have once : [Query.order, .account, .position, .userStream].count q = 1 := by
      cases q with
      | contract => exact absurd rfl after
      | order | account | position | userStream => rfl
    rw [once]
    simp only [ask, List.countP_append, List.countP_singleton, credentials, if_true]
    change s.requests.count q.request + 1 =
      s.read.countP (·.credentials) + 1 + if q = .userStream then s.closed else 0
    rw [count]
    omega
  known := known
  connected _ := ⟨answer, List.mem_append_right _ (List.mem_singleton_self _), credentials⟩
  closed _ := ⟨answer, List.mem_append_right _ (List.mem_singleton_self _), credentials⟩

theorem Ready.onContracts (ready : Ready s) (packet : Json.Value) :
    Ready (s.onContracts packet) := by
  have widens (name : AString) := preserves_known_onQueryContract name packet s.exchange
  unfold BinanceStartup.onContracts
  unfold Handler.state at widens
  cases done : (onQueryContract packet).exec s.exchange with
  | mk result exchange =>
    rw [done] at widens
    have wider := ready.withExchange widens
    cases result with
    | error e => exact wider
    | ok _ =>
      dsimp only
      split
      · generalize decide (exchange.key ≠ "" ∧ exchange.secret ≠ "") = credentials
        have known : ∀ answer ∈ s.read ++ [⟨packet, credentials⟩],
            ∀ name ∈ namesOf answer.packet, Known exchange name := by
          intro answer mem name listed
          rcases List.mem_append.mp mem with earlier | last
          · exact wider.known answer earlier name listed
          · rw [List.mem_singleton] at last
            subst last
            exact known_onQueryContract done listed
        cases credentials with
        | true => exact wider.follow rfl known
        | false =>
          refine ⟨fun q after => ?_, known, fun some => ?_, fun some => ?_⟩
          · have same : (s.read ++ [(⟨packet, false⟩ : ContractsRead)]).countP (·.credentials) =
                s.read.countP (·.credentials) := by simp
            exact (wider.counts q after).trans (congrArg (· + _) same.symm)
          · obtain ⟨answer, mem, credentials⟩ := wider.connected some
            exact ⟨answer, List.mem_append_left _ mem, credentials⟩
          · obtain ⟨answer, mem, credentials⟩ := wider.closed some
            exact ⟨answer, List.mem_append_left _ mem, credentials⟩
      · exact wider

theorem Ready.step (ready : Ready s) (l : Step) : Ready (s.step l) := by
  cases l with
  | connect setting =>
    have same := SameQueries.connect setting s.session (.refl s.session)
    simp only [BinanceStartup.step, BinanceStartup.connect]
    unfold Handler.state at same
    cases done : (BinanceSession.connect setting).exec s.session with
    | mk result session =>
      rw [done] at same
      cases result with
      | error e => exact ready.session same s.userStream.server
      | ok _ => exact ready.session same session.server
  | setPositionMode mode => exact ready.session (.setPositionMode mode) s.userStream.server
  | timeReply localTime reply =>
    exact ready.session (.onTimeReply localTime reply) s.userStream.server
  | answer q stray now packet =>
    simp only [BinanceStartup.step]
    split
    · rename_i awaits
      have next : Ready { s with answered := s.answered ++ [q] } :=
        ⟨ready.counts, ready.known, ready.connected, ready.closed⟩
      cases packet with
      | none => exact next
      | some packet =>
        cases q with
        | contract => exact next.onContracts packet
        | order => exact next.report ((keptByReports_names _).onQueryOrder stray now packet _ rfl)
        | account => exact next.report ((keptByReports_names _).onQueryAccount packet _ rfl)
        | position => exact next.report ((keptByReports_names _).onQueryPosition packet _ rfl)
        | userStream =>
          have read := ready.read_of_awaits (by decide) awaits
          exact ⟨next.counts, next.known, fun _ => read, next.closed⟩
    · exact ready
  | push now packet =>
    simp only [BinanceStartup.step]
    split
    · exact ready
    · exact ready.report ((keptByReports_names _).onText _ now packet rfl)
  | disconnected =>
    simp only [BinanceStartup.step]
    split
    · exact ready
    · rename_i connected
      refine ⟨fun q after => ?_, ready.known, ready.connected, fun _ => ready.connected connected⟩
      rw [count_ask _ _ after (by decide)]
      have count : s.requests.count q.request =
          s.read.countP (·.credentials) + if q = .userStream then s.closed else 0 :=
        ready.counts q after
      change s.requests.count q.request + _ =
        s.read.countP (·.credentials) + if q = .userStream then s.closed + 1 else 0
      rw [count]
      cases q with
      | contract => exact absurd rfl after
      | order | account | position => rfl
      | userStream => rfl

theorem ready_start : Ready {} := ⟨by simp [requests], by simp, by simp, by simp⟩

/-- However the answers arrive, fail and are repeated, queries are made behind the contracts that
they need, and only with credentials. -/
theorem ready_run (steps : List Step) : Ready (run steps) :=
  foldl_invariant BinanceStartup.step (fun _ l ready => ready.step l) ready_start

/-! ## What is reported -/

/-- What a round of the loop over the open orders makes of an element. -/
def readOrder (s : BinanceExchange) (stray : Direction) (now : DateTime) (d : Json.Value) :
    Except Fault (Option OrderData) := do
  let type ← Fault.ofJson (d.stringOr "type" "")
  let tif ← Fault.ofJson (d.stringOr "timeInForce" "GTC")
  let name ← Fault.ofJson (d.stringOr "symbol" "")
  match contractOf s name with
  | none => pure none
  | some contract => do
    let orderid ← Fault.ofJson (d.stringOr "clientOrderId" "")
    let price ← Fault.ofJson (d.valueOr Json.Value.number? "price" 0)
    let volume ← Fault.ofJson (d.valueOr Json.Value.number? "origQty" 0)
    let traded ← Fault.ofJson (d.valueOr Json.Value.number? "executedQty" 0)
    let status ← Fault.ofJson (d.stringOr "status" "")
    pure (some
      { symbol := contract.symbol, exchange := .binance, orderid, type := orderTypeOf type tif
        direction := stray, price, volume, traded, status := statusOf status, datetime := now
        exchangeName := BinanceExchange.exchangeName })

/-- What is made of the order of a push before the fill is read. -/
def readUpdate (s : BinanceExchange) (now : DateTime) (packet : Json.Value) :
    Except Fault (Option OrderData) :=
  match packet.get? "o" with
  | none => pure none
  | some ord => do
    let type ← Fault.ofJson (ord.stringOr "o" "")
    let tif ← Fault.ofJson (ord.stringOr "f" "GTC")
    let name ← Fault.ofJson (ord.stringOr "s" "")
    match s.getContractByName name with
    | none => pure none
    | some contract =>
      some <$>
        ((BinanceUserApi.parseOrder packet ord (orderTypeOf type tif) contract now).exec s).1

variable {e : BinanceExchange} {name : AString} {stray : Direction} {now : DateTime}

theorem exists_contractOf_of_known (known : Known e name) : ∃ c, contractOf e name = some c := by
  obtain ⟨c, found⟩ := Option.isSome_iff_exists.mp known
  unfold contractOf
  cases e.getContractBySymbol (name ++ "_SWAP") with
  | none => exact ⟨c, found⟩
  | some swap => exact ⟨swap, rfl⟩

/-- An order of a known contract is not passed over, though it may be that it cannot be read. -/
theorem readOrder_ne_none {d : Json.Value} (symbol : d.stringOr "symbol" "" = .ok name)
    (known : Known e name) : readOrder e stray now d ≠ .ok none := by
  obtain ⟨c, found⟩ := exists_contractOf_of_known known
  intro passed
  obtain ⟨type, -, passed⟩ := exists_of_bind_ok passed
  obtain ⟨tif, -, passed⟩ := exists_of_bind_ok passed
  obtain ⟨name', read, passed⟩ := exists_of_bind_ok passed
  obtain rfl : name = name' := Except.ok.inj (symbol.symm.trans (Fault.ofJson_eq_ok.mp read))
  rw [found] at passed
  obtain ⟨orderid, -, passed⟩ := exists_of_bind_ok passed
  obtain ⟨price, -, passed⟩ := exists_of_bind_ok passed
  obtain ⟨volume, -, passed⟩ := exists_of_bind_ok passed
  obtain ⟨traded, -, passed⟩ := exists_of_bind_ok passed
  obtain ⟨status, -, passed⟩ := exists_of_bind_ok passed
  cases passed

theorem readUpdate_ne_none {packet ord : Json.Value} (order : packet.get? "o" = some ord)
    (symbol : ord.stringOr "s" "" = .ok name) (known : Known e name) :
    readUpdate e now packet ≠ .ok none := by
  obtain ⟨c, found⟩ := Option.isSome_iff_exists.mp known
  unfold readUpdate
  rw [order]
  intro passed
  obtain ⟨type, -, passed⟩ := exists_of_bind_ok passed
  obtain ⟨tif, -, passed⟩ := exists_of_bind_ok passed
  obtain ⟨name', read, passed⟩ := exists_of_bind_ok passed
  obtain rfl : name = name' := Except.ok.inj (symbol.symm.trans (Fault.ofJson_eq_ok.mp read))
  rw [found] at passed
  obtain ⟨order, -, passed⟩ := exists_of_bind_ok passed
  cases passed

theorem reads_onSnapshot (s : BinanceExchange) (d : Json.Value) (ds : List Json.Value) :
    ReadsFirst s (onSnapshot stray now (d :: ds)) (readOrder s stray now d)
      (putOrPass (fun o s => s.onOrder o) (onSnapshot stray now ds)) := by
  refine .lift_bind fun type => .lift_bind fun tif => .lift_bind fun name => .get_bind ?_
  cases contractOf s name with
  | none => rfl
  | some contract =>
    exact .lift_bind fun orderid => .lift_bind fun price => .lift_bind fun volume =>
      .lift_bind fun traded => .lift_bind fun status => rfl

theorem trace_foldl_onOrder (orders : List OrderData) (s : BinanceExchange) :
    (orders.foldl (·.onOrder ·) s).trace = s.trace ++ orders.map Effect.order := by
  induction orders generalizing s with
  | nil => simp
  | cons o orders ih =>
    rw [List.foldl_cons, ih]
    simp [BinanceExchange.onOrder, BinanceExchange.emit]

/-- Of a list of open orders, those in front of the first one that cannot be read are passed on, in
order, but for those whose contract is not known. -/
theorem told_onSnapshot (s : BinanceExchange) (ds : List Json.Value) :
    told s ((onSnapshot stray now ds).state s) = readable (readOrder s stray now) ds := by
  set orders := readable (readOrder s stray now) ds with orders_eq
  have trace := trace_foldl_onOrder orders s
  have events : (orders.map Effect.order).filterMap Effect.order? = orders := by
    rw [List.filterMap_map]
    exact List.filterMap_some
  rcases state_loop (onSnapshot stray now) (readOrder · stray now) (fun o s => s.onOrder o)
    reads_onSnapshot (fun _ _ _ => rfl) ds s with stopped | finished
  · rw [stopped, told_of_append trace, events]
  · have logged := (congrArg (· ++ [.log (logText BinanceExchange.exchangeName
      "Order data received")]) trace).trans (List.append_assoc ..)
    refine (congrArg (told s) finished).trans ((told_of_append logged).trans ?_)
    rw [List.filterMap_append, events]
    exact List.append_nil _

/-- What a handler passes on is the order that it reads. -/
def Tells (s : BinanceExchange) (h : Handler Fault BinanceExchange Unit)
    (r : Except Fault (Option OrderData)) : Prop :=
  told s (h.state s) = r.toOption.join.toList

theorem told_self (s : BinanceExchange) : told s s = [] := by simp [told]

theorem Tells.read_bind {α : Type} {s : BinanceExchange} {r : Except Json.Error α}
    {f : α → Handler Fault BinanceExchange Unit} {g : α → Except Fault (Option OrderData)}
    (later : ∀ a, Tells s (f a) (g a)) :
    Tells s (Exchange.read r >>= f) (Fault.ofJson r >>= g) := by
  cases r with
  | ok a => exact later a
  | error e => exact told_self s

/-- A push passes its order on, if it can be read and its contract is known. -/
theorem tells_onOrder (s : BinanceExchange) (packet : Json.Value) :
    Tells s (BinanceUserApi.onOrder packet now) (readUpdate s now packet) := by
  unfold BinanceUserApi.onOrder readUpdate
  cases packet.get? "o" with
  | none => exact told_self s
  | some ord =>
    refine .read_bind fun type => .read_bind fun tif => .read_bind fun name => ?_
    unfold Tells Handler.state
    rw [exec_get_bind]
    cases s.getContractByName name with
    | none => exact told_self s
    | some contract =>
      dsimp only
      have only : ReadOnly
          (BinanceUserApi.parseOrder packet ord (orderTypeOf type tif) contract now) :=
        fun _ => KeptByReports.parseOrder _ _ _ _ _
      have same := only.state_eq s
      unfold Handler.state at same
      cases parsed : (BinanceUserApi.parseOrder packet ord (orderTypeOf type tif) contract now).exec
          s with
      | mk result t =>
        rw [parsed] at same
        obtain rfl : t = s := same
        cases result with
        | error fault =>
          rw [exec_bind_error parsed]
          exact told_self t
        | ok o =>
          obtain ⟨⟨later, trace, silent⟩, -⟩ :=
            silent_onFill ord o contract now _ (BinanceExchange.Silent.refl (t.onOrder o))
          unfold Handler.state at trace
          rw [exec_bind_ok parsed, exec_modify_bind, told_of_onOrder trace, silent]
          rfl

theorem told_onText (s : BinanceExchange) {packet : Json.Value}
    (update : packet.get? "e" = some (.string "ORDER_TRADE_UPDATE")) :
    told s (BinanceUserApi.onText s now packet) =
      (readUpdate s now packet).toOption.join.toList := by
  have orders : Tells s (BinanceUserApi.onOrder packet now) (readUpdate s now packet) :=
    tells_onOrder s packet
  unfold Tells Handler.state at orders
  have value : packet.isNull = false := by
    cases packet with
    | null => simp [Json.Value.get?] at update
    | _ => rfl
  have dispatched : BinanceUserApi.onPacket now packet = BinanceUserApi.onOrder packet now := by
    unfold BinanceUserApi.onPacket
    rw [update]
    rfl
  unfold BinanceUserApi.onText
  cases done : (BinanceUserApi.onOrder packet now).exec s with
  | mk result t =>
    rw [done] at orders
    cases result with
    | ok _ => rw [onText_ok value (dispatched ▸ done), orders]
    | error fault =>
      have grown : Grown s t := by
        have kept : KeptByReports (Grown s) := ⟨fun _ e grown => grown.emit e, fun _ o grown =>
          grown.emit (.order o)⟩
        have after := kept.onOrderPush packet now s (List.prefix_refl _)
        unfold Handler.state at after
        rwa [done] at after
      obtain ⟨new, trace⟩ := grown
      have logged : (t.emit (.error fault)).trace = s.trace ++ (new ++ [.error fault]) := by
        rw [← List.append_assoc, trace]
        rfl
      rw [onText_error value (dispatched ▸ done), told_of_append logged, ← orders,
        told_of_append trace.symm, List.filterMap_append]
      exact List.append_nil _

/-- A contract of this name is in an answer that has been read. -/
def Listed (s : BinanceStartup) (name : AString) : Prop :=
  ∃ answer ∈ s.read, name ∈ namesOf answer.packet

/-- Of the open orders of an answer, those in front of the first one that cannot be read are
reported, each once and in order. Those whose contract is not known are passed over, and no order of
a listed contract is among these. -/
structure ReportsOpen (s : BinanceStartup) (stray : Direction) (now : DateTime)
    (ds : List Json.Value) : Prop where
  told : told s.exchange (s.step (.answer .order stray now (some (.array ds)))).exchange =
    readable (readOrder s.exchange stray now) ds
  listed : ∀ d ∈ ds, ∀ name, d.stringOr "symbol" "" = .ok name → Listed s name →
    readOrder s.exchange stray now d ≠ .ok none

/-- The order of a push is reported, unless it cannot be read or its contract is not known, which
that of a listed contract is. -/
structure ReportsUpdate (s : BinanceStartup) (now : DateTime) (packet : Json.Value) : Prop where
  told : told s.exchange (s.step (.push now packet)).exchange =
    (readUpdate s.exchange now packet).toOption.join.toList
  listed : ∀ ord name, packet.get? "o" = some ord → ord.stringOr "s" "" = .ok name →
    Listed s name → readUpdate s.exchange now packet ≠ .ok none

/-- In every run, an answer with contracts has been read when the open orders are awaited, and when
the user stream speaks. Whatever then comes, no order of a listed contract is passed over. -/
theorem listed_reported (steps : List Step) (stray : Direction) (now : DateTime) :
    ((run steps).awaits .order = true →
      (run steps).read ≠ [] ∧ ∀ ds, ReportsOpen (run steps) stray now ds) ∧
    ((run steps).userStream.connections ≠ [] →
      (run steps).read ≠ [] ∧
        ∀ packet, packet.get? "e" = some (.string "ORDER_TRADE_UPDATE") →
          ReportsUpdate (run steps) now packet) := by
  have ready : Ready (run steps) :=
    foldl_invariant BinanceStartup.step (fun _ l ready => ready.step l) ready_start
  generalize run steps = s at *
  have known {name : AString} (listed : Listed s name) : Known s.exchange name := by
    obtain ⟨answer, mem, named⟩ := listed
    exact ready.known answer mem name named
  constructor
  · intro awaits
    obtain ⟨answer, mem, -⟩ := ready.read_of_awaits (by decide) awaits
    refine ⟨List.ne_nil_of_mem mem, fun ds => ⟨?_, fun d _ name symbol listed => ?_⟩⟩
    · simp only [step, awaits, if_true, onAnswer, onQueryOrder]
      exact told_onSnapshot s.exchange ds
    · exact readOrder_ne_none symbol (known listed)
  · intro connected
    obtain ⟨answer, mem, -⟩ := ready.connected connected
    refine ⟨List.ne_nil_of_mem mem, fun packet update => ⟨?_, ?_⟩⟩
    · simp only [step, connected, if_false]
      exact told_onText s.exchange update
    · intro ord name order symbol listed
      exact readUpdate_ne_none order symbol (known listed)

section OneStart

/-- A session that has come to its user stream; the open orders are still to be answered. -/
def started : List Step :=
  [.connect (.object [("api_key", .string "key"), ("secret_key", .string "secret")]),
   .timeReply 7 (some (.object [("serverTime", .int 5)])),
   .answer .contract .long 7 (some exchangeInfo),
   .answer .userStream .long 7 (some (.object [("listenKey", .string "stream")]))]

/-- A sale with numbers as its amounts, one with a text, and the first one again. -/
def mixedSells : List Json.Value :=
  [listedSell, .object [("symbol", .string "BTCUSDT"), ("price", .string "50000")], listedSell]

/-- The second sale cannot be read, and ends the loop. -/
theorem listed_reported_started :
    (run started).read ≠ [] ∧ ReportsOpen (run started) .long 7 mixedSells ∧
      (readable (readOrder (run started).exchange .long 7) mixedSells).map (·.orderid) = ["7"] := by
  have awaits : (run started).awaits .order = true := by decide +kernel
  obtain ⟨read, reports⟩ := (listed_reported started .long 7).1 awaits
  exact ⟨read, reports mixedSells, by decide +kernel⟩

end OneStart

end BinanceStartup

/-! ## The positions that are asked for -/

namespace BinanceRestApi

/-- What a round of the loop over the positions makes of an element. -/
def readPosition (s : BinanceExchange) (d : Json.Value) :
    Except ContractFault (Option PositionData) := do
  let name ← textOr d "symbol" ""
  match s.getContractByName name with
  | none => pure none
  | some contract => do
    let volume ← amountOf d
    let price ← numberOr d "entryPrice"
    let pnl ← numberOr d "unRealizedProfit"
    pure (some { symbol := contract.symbol, exchange := .binance, direction := .net, volume, price
                 pnl, exchangeName := BinanceExchange.exchangeName })

variable {s : BinanceExchange}

theorem reads_onRisks (s : BinanceExchange) (d : Json.Value) (ds : List Json.Value) :
    ReadsFirst s (onRisks (d :: ds)) (readPosition s d)
      (putOrPass (fun p s => s.emit (.position p)) (onRisks ds)) := by
  refine .lift_bind fun name => .get_bind ?_
  cases s.getContractByName name with
  | none => rfl
  | some contract =>
    exact .lift_bind fun volume => .lift_bind fun price => .lift_bind fun pnl => rfl

theorem direction_readPosition {d : Json.Value} {p : PositionData}
    (read : readPosition s d = .ok (some p)) : p.direction = .net := by
  obtain ⟨name, -, read⟩ := exists_of_bind_ok read
  cases found : s.getContractByName name with
  | none =>
    rw [found] at read
    cases read
  | some contract =>
    rw [found] at read
    obtain ⟨volume, -, read⟩ := exists_of_bind_ok read
    obtain ⟨price, -, read⟩ := exists_of_bind_ok read
    obtain ⟨pnl, -, read⟩ := exists_of_bind_ok read
    cases read
    rfl

/-- The positions of the elements in front of the first one that cannot be read. -/
def positionsIn (s : BinanceExchange) (ds : List Json.Value) : List PositionData :=
  readable (readPosition s) ds

theorem trace_foldl_position (positions : List PositionData) (s : BinanceExchange) :
    (positions.foldl (fun s p => s.emit (.position p)) s).trace =
      s.trace ++ positions.map Effect.position := by
  induction positions generalizing s with
  | nil => simp
  | cons p positions ih =>
    rw [List.foldl_cons, ih]
    simp [BinanceExchange.emit]

theorem trace_onRisks (ds : List Json.Value) (s : BinanceExchange) :
    ∃ logs, logs.filterMap Effect.event? = [] ∧ ((onRisks ds).state s).trace =
      s.trace ++ ((positionsIn s ds).map Effect.position ++ logs) := by
  have positions := trace_foldl_position (positionsIn s ds) s
  rcases state_loop onRisks readPosition (fun p s => s.emit (.position p)) reads_onRisks
    (fun _ _ _ => rfl) ds s with stopped | finished
  · exact ⟨[], rfl, by rw [stopped, List.append_nil]; exact positions⟩
  · refine ⟨[.log (logText BinanceExchange.exchangeName "Position data received")], rfl, ?_⟩
    rw [finished]
    exact (congrArg (· ++ _) positions).trans (List.append_assoc ..)

/-- After the answer to the query for positions, a key has the last of the positions with that key,
which are those in front of the first element that cannot be read. All of them are net positions,
so that of the two legs of a symbol the second is kept. -/
theorem getPosition_onQueryPosition (enum : Containers.Enumeration AString OrderData)
    (oms : OmsEngine) (s : BinanceExchange) (ds : List Json.Value) (k : AString) :
    (∀ p ∈ positionsIn s ds, p.direction = .net) ∧
    ((newEvents s.trace ((onQueryPosition (.array ds)).state s).trace).foldl
      (OmsEngine.process enum) oms).getPosition k =
        (Containers.latest (fun p => p.ktPositionid = k) (positionsIn s ds)).or
          (oms.getPosition k) := by
  constructor
  · intro p mem
    obtain ⟨d, -, read⟩ := exists_of_mem_readable mem
    exact direction_readPosition read
  · obtain ⟨logs, quiet, trace⟩ := trace_onRisks ds s
    have events : (newEvents s.trace ((onQueryPosition (.array ds)).state s).trace).filterMap
        OmsEngine.position? = positionsIn s ds := by
      change (newEvents s.trace ((onRisks ds).state s).trace).filterMap _ = _
      rw [trace, newEvents, List.drop_left, List.filterMap_append, quiet, List.append_nil]
      simp [List.filterMap_map, Function.comp_def, Effect.event?, OmsEngine.position?]
    rw [OmsEngine.getPosition_foldl, events]

end BinanceRestApi

end KeenTrader.Exchange
