import KeenTrader.Library.Runs
import KeenTrader.Exchange.Okx
import KeenTrader.Exchange.Binance

/-!
# Position modes

Connecting an exchange and setting its position mode: what is kept locally, where `send_order`
reads the mode of an order, and what is requested of the server over REST. The two agree along
exactly those runs in which every call that changes only one side names the mode of the other.
-/

namespace KeenTrader.Exchange

open Std (ExtTreeMap)
open KeenTrader.Engine Handlers Runs

/-- A request over REST, before it is signed. -/
structure RestRequest where
  method : AString
  path : AString
  params : Table AString AString := []
  data : AString := ""
  deriving DecidableEq

def modeOf (hedgeMode : Bool) : PositionMode := if hedgeMode then .hedge else .oneWay

/-- The mode that a request asks for, if it is one that `setPositionMode` makes. -/
def requestedMode (setPositionMode : PositionMode → RestRequest) (r : RestRequest) :
    Option PositionMode :=
  [PositionMode.oneWay, .hedge].find? fun mode => r = setPositionMode mode

/-- The mode that was requested last. -/
def lastMode (setPositionMode : PositionMode → RestRequest) (requests : List RestRequest) :
    Option PositionMode :=
  (requests.filterMap (requestedMode setPositionMode)).getLast?

theorem lastMode_append {setPositionMode : PositionMode → RestRequest}
    {requests new : List RestRequest} :
    lastMode setPositionMode (requests ++ new) =
      (lastMode setPositionMode new).or (lastMode setPositionMode requests) := by
  simp [lastMode, List.getLast?_append]

/-- A setting from which every value can be read, with its server and its hedge mode. -/
structure Reads (textKeys : List AString) (setting : Json.Value) (server : AString)
    (hedgeMode : Bool) : Prop where
  texts : ∀ key ∈ textKeys, ∃ text, setting.stringOr key "" = .ok text
  port : ∃ n, setting.valueOr (Json.Value.int? toInt) "proxy_port" 0 = .ok n
  server : setting.stringOr "server" "" = .ok server
  hedgeMode : setting.valueOr Json.Value.bool? "hedge_mode" false = .ok hedgeMode

/-! ## OKX -/

structure OkxRestApi where
  hedgeMode : Bool := false
  simulated : Bool := false
  connectTime : ℕ := 0
  urlBase : AString := ""
  requests : List RestRequest := []

namespace OkxRestApi

def serverHosts : Table AString AString :=
  [("REAL", "https://www.okx.com"), ("AWS", "https://aws.okx.com"),
   ("DEMO", "https://www.okx.com")]

def queryTime : RestRequest := { method := "GET", path := "/api/v5/public/time" }

def queryContract (instType : AString) : RestRequest :=
  { method := "GET", path := "/api/v5/public/instruments?instType=" ++ instType }

def setPositionMode (mode : PositionMode) : RestRequest :=
  { method := "POST", path := "/api/v5/account/set-position-mode"
    data := (Json.Value.object
      [("posMode", .string (if mode = .hedge then "long_short_mode" else "net_mode"))]).dump
        (printG 17) }

def request (s : OkxRestApi) (r : RestRequest) : OkxRestApi :=
  { s with requests := s.requests ++ [r] }

end OkxRestApi

/-- `OkxExchange` with its REST client and the setting it was connected with. -/
structure OkxSession where
  exchange : OkxExchange := {}
  key : AString := ""
  secret : AString := ""
  passphrase : AString := ""
  proxyHost : AString := ""
  proxyPort : ℤ := 0
  server : AString := ""
  hedgeMode : Bool := false
  rest : OkxRestApi := {}

namespace OkxSession

open OkxRestApi

abbrev Handle := Handler Fault OkxSession

def readSetting (setting : Json.Value) : Handle Unit := do
  store (setting.stringOr "api_key" "") fun key s => { s with key }
  store (setting.stringOr "secret_key" "") fun secret s => { s with secret }
  store (setting.stringOr "passphrase" "") fun passphrase s => { s with passphrase }
  store (setting.stringOr "proxy_host" "") fun proxyHost s => { s with proxyHost }
  store (setting.valueOr (Json.Value.int? toInt) "proxy_port" 0) fun port s =>
    { s with proxyPort := port % 2 ^ 16 }
  store (setting.stringOr "server" "") fun server s => { s with server }
  store (setting.valueOr Json.Value.bool? "hedge_mode" false) fun hedgeMode s =>
    { s with hedgeMode }

/-- `OkxRestApi::connect`. -/
def connectRest (connectTime : ℕ) : Handle Unit := do
  modify fun s =>
    { s with
      rest.hedgeMode := s.hedgeMode
      rest.simulated := s.rest.simulated || s.server = "DEMO"
      rest.connectTime := connectTime }
  match serverHosts.lookup (← get).server with
  | none => throw .outOfRange
  | some urlBase =>
    modify fun s =>
      { s with
        exchange := s.exchange.writeLog "REST API started"
        rest.urlBase := urlBase
        rest.requests := s.rest.requests ++
          [queryTime, OkxRestApi.setPositionMode (modeOf s.rest.hedgeMode),
           queryContract "FUTURES", queryContract "SPOT", queryContract "SWAP"] }

def connect (setting : Json.Value) (connectTime : ℕ) : Handle Unit := do
  readSetting setting
  connectRest connectTime

def setPositionMode (s : OkxSession) (mode : PositionMode) : OkxSession :=
  { s with
    exchange := s.exchange.setPositionMode mode
    rest := s.rest.request (OkxRestApi.setPositionMode mode) }

inductive Step where
  | connect (setting : Json.Value) (connectTime : ℕ)
  | setPositionMode (mode : PositionMode)

def step (s : OkxSession) : Step → OkxSession
  | .connect setting connectTime => (connect setting connectTime).state s
  | .setPositionMode mode => s.setPositionMode mode

/-! ### The mode of OKX -/

variable {s : OkxSession}

def lastRequested (s : OkxSession) : Option PositionMode :=
  lastMode OkxRestApi.setPositionMode s.rest.requests

/-- The mode that `send_order` reads is the one that was requested last. -/
def Agrees (s : OkxSession) : Prop :=
  ∀ mode, s.lastRequested = some mode → s.exchange.positionMode = mode

abbrev ReadsSetting := Reads ["api_key", "secret_key", "passphrase", "proxy_host"]

/-- The settings are read one by one; nothing else is changed. -/
theorem exec_readSetting (setting : Json.Value) (s : OkxSession) :
    ∃ result t, (readSetting setting).exec s = (result, t) ∧ t.exchange = s.exchange ∧
      t.rest = s.rest ∧
      match result with
      | .ok _ => ReadsSetting setting t.server t.hedgeMode
      | .error _ => ∀ server hedgeMode, ¬ReadsSetting setting server hedgeMode := by
  unfold readSetting
  simp only [exec_store_bind, exec_store]
  cases key : setting.stringOr "api_key" "" with
  | error e => exact ⟨_, _, rfl, rfl, rfl, fun _ _ reads => by
      simpa [key] using reads.texts "api_key" (by simp)⟩
  | ok _ =>
  cases secret : setting.stringOr "secret_key" "" with
  | error e => exact ⟨_, _, rfl, rfl, rfl, fun _ _ reads => by
      simpa [secret] using reads.texts "secret_key" (by simp)⟩
  | ok _ =>
  cases passphrase : setting.stringOr "passphrase" "" with
  | error e => exact ⟨_, _, rfl, rfl, rfl, fun _ _ reads => by
      simpa [passphrase] using reads.texts "passphrase" (by simp)⟩
  | ok _ =>
  cases host : setting.stringOr "proxy_host" "" with
  | error e => exact ⟨_, _, rfl, rfl, rfl, fun _ _ reads => by
      simpa [host] using reads.texts "proxy_host" (by simp)⟩
  | ok _ =>
  cases port : setting.valueOr (Json.Value.int? toInt) "proxy_port" 0 with
  | error e => exact ⟨_, _, rfl, rfl, rfl, fun _ _ reads => by simpa [port] using reads.port⟩
  | ok _ =>
  cases server : setting.stringOr "server" "" with
  | error e => exact ⟨_, _, rfl, rfl, rfl, fun _ _ reads => by simpa [server] using reads.server⟩
  | ok _ =>
  cases hedge : setting.valueOr Json.Value.bool? "hedge_mode" false with
  | error e => exact ⟨_, _, rfl, rfl, rfl, fun _ _ reads => by simpa [hedge] using reads.hedgeMode⟩
  | ok _ =>
    exact ⟨_, _, rfl, rfl, rfl, by simp [key, secret, passphrase, host], ⟨_, port⟩, server, hedge⟩

/-- A setting of a known server, with the mode that connecting with it requests. -/
def Asks (setting : Json.Value) (mode : PositionMode) : Prop :=
  ∃ server hedgeMode, ReadsSetting setting server hedgeMode ∧
    (serverHosts.lookup server).isSome ∧ mode = modeOf hedgeMode

theorem lastMode_connect (mode : PositionMode) :
    lastMode OkxRestApi.setPositionMode
      [queryTime, OkxRestApi.setPositionMode mode, queryContract "FUTURES", queryContract "SPOT",
       queryContract "SWAP"] = some mode := by
  cases mode <;> decide +kernel

/-- Connecting requests the mode of the setting, if it gets that far, and keeps the local one. -/
theorem connect_cases (s : OkxSession) (setting : Json.Value) (connectTime : ℕ) :
    ((connect setting connectTime).state s).exchange.positionMode = s.exchange.positionMode ∧
      ((∃ mode, Asks setting mode ∧
          ((connect setting connectTime).state s).lastRequested = some mode) ∨
        (∀ mode, ¬Asks setting mode) ∧
          ((connect setting connectTime).state s).lastRequested = s.lastRequested) := by
  obtain ⟨result, t, exec, exchange, rest, reads⟩ := exec_readSetting setting s
  have kept : t.exchange.positionMode = s.exchange.positionMode := by rw [exchange]
  have silent : t.lastRequested = s.lastRequested := by rw [lastRequested, rest, lastRequested]
  unfold connect Handler.state
  cases result with
  | error e =>
    rw [exec_bind_error exec]
    refine ⟨kept, .inr ⟨?_, silent⟩⟩
    rintro mode ⟨server, hedgeMode, readable, -⟩
    exact reads server hedgeMode readable
  | ok _ =>
    rw [exec_bind_ok exec]
    unfold connectRest
    rw [exec_modify_bind, exec_get_bind]
    cases host : serverHosts.lookup t.server with
    | none =>
      refine ⟨kept, .inr ⟨?_, silent⟩⟩
      rintro mode ⟨server, hedgeMode, readable, known, -⟩
      have same : t.server = server := Except.ok.inj (reads.server.symm.trans readable.server)
      simp [← same, host] at known
    | some urlBase =>
      refine ⟨kept, .inl ⟨modeOf t.hedgeMode, ?_, ?_⟩⟩
      · exact ⟨t.server, t.hedgeMode, reads, by simp [host], rfl⟩
      · exact lastMode_append.trans (by rw [lastMode_connect, Option.some_or])

theorem lastRequested_setPositionMode (s : OkxSession) (mode : PositionMode) :
    (s.setPositionMode mode).lastRequested = some mode := by
  have one : lastMode OkxRestApi.setPositionMode [OkxRestApi.setPositionMode mode] = some mode := by
    cases mode <;> decide +kernel
  exact lastMode_append.trans (by rw [one, Option.some_or])

/-- Connecting requests the mode that is set. -/
def KeepsMode (s : OkxSession) : Step → Prop
  | .connect setting _ => ∀ mode, Asks setting mode → mode = s.exchange.positionMode
  | .setPositionMode _ => True

theorem agrees_step_iff (l : Step) (agrees : Agrees s) : Agrees (s.step l) ↔ KeepsMode s l := by
  cases l with
  | connect setting connectTime =>
    obtain ⟨kept, ⟨mode, asks, requested⟩ | ⟨silent, requested⟩⟩ :=
      connect_cases s setting connectTime
    · have only : ∀ other, Asks setting other → other = mode := by
        rintro _ ⟨server, hedgeMode, reads, -, rfl⟩
        obtain ⟨server', hedgeMode', reads', -, rfl⟩ := asks
        rw [Except.ok.inj (reads.hedgeMode.symm.trans reads'.hedgeMode)]
      unfold Agrees KeepsMode
      rw [step, kept, requested]
      constructor
      · intro same other asked
        rw [same mode rfl, only other asked]
      · intro asked other eq
        rw [← asked mode asks, Option.some.inj eq]
    · refine iff_of_true ?_ fun mode asks => absurd asks (silent mode)
      unfold Agrees
      rw [step, kept, requested]
      exact agrees
  | setPositionMode mode =>
    refine iff_of_true ?_ trivial
    intro other requested
    rw [step, lastRequested_setPositionMode] at requested
    exact Option.some.inj requested

theorem always_agrees_iff (steps : List Step) :
    Always step Agrees {} steps ↔ Meets step KeepsMode {} steps :=
  always_iff_meets (fun _ l agrees => agrees_step_iff l agrees)
    (by simp [Agrees, lastRequested, lastMode])

end OkxSession

/-! ## Binance -/

structure BinanceRest where
  hedgeMode : Bool := false
  urlBase : AString := ""
  timeOffset : ℤ := 0
  requests : List RestRequest := []

namespace BinanceRest

def queryTime : RestRequest := { method := "GET", path := "/fapi/v1/time" }

def queryContract : RestRequest := { method := "GET", path := "/fapi/v1/exchangeInfo" }

def setPositionMode (mode : PositionMode) : RestRequest :=
  { method := "POST", path := "/fapi/v1/positionSide/dual"
    params := [("dualSidePosition", if mode = .hedge then "true" else "false")] }

def request (s : BinanceRest) (r : RestRequest) : BinanceRest :=
  { s with requests := s.requests ++ [r] }

end BinanceRest

/-- `BinanceLinearExchange` with its REST client and the setting it was connected with.
`unanswered` counts the time queries whose answer has not come. -/
structure BinanceSession where
  exchange : BinanceExchange := {}
  positionMode : PositionMode := .oneWay
  key : AString := ""
  secret : AString := ""
  proxyHost : AString := ""
  proxyPort : ℤ := 0
  server : AString := ""
  rest : BinanceRest := {}
  unanswered : ℕ := 0

namespace BinanceSession

open BinanceRest

abbrev Handle := Handler Fault BinanceSession

def readSetting (setting : Json.Value) : Handle Unit := do
  store (setting.stringOr "api_key" "") fun key s => { s with key }
  store (setting.stringOr "secret_key" "") fun secret s => { s with secret }
  store (setting.stringOr "proxy_host" "") fun proxyHost s => { s with proxyHost }
  store (setting.valueOr (Json.Value.int? toInt) "proxy_port" 0) fun port s =>
    { s with proxyPort := port % 2 ^ 16 }
  store (setting.stringOr "server" "") fun server s => { s with server }
  store (setting.valueOr Json.Value.bool? "hedge_mode" false) fun hedgeMode s =>
    { s with exchange.hedgeMode := hedgeMode }

/-- `BinanceRestApi::connect`. -/
def connectRest (s : BinanceSession) : BinanceSession :=
  let s := { s with
    rest.hedgeMode := s.exchange.hedgeMode
    rest.urlBase :=
      if s.server = "REAL" then "https://fapi.binance.com" else "https://demo-fapi.binance.com"
    exchange := s.exchange.writeLog "REST API started" }
  { s with rest := s.rest.request queryTime, unanswered := s.unanswered + 1 }

/-- What `connect_ws_api` hands to the trade channel. -/
def connectWsApi (s : BinanceSession) : BinanceSession :=
  let exchange := { s.exchange.writeLog "MD API started" with key := s.key, secret := s.secret }
  { s with exchange := exchange.writeLog "Trade API started" }

def connect (setting : Json.Value) : Handle Unit := do
  readSetting setting
  modify fun s => s.connectRest.connectWsApi

def setPositionMode (s : BinanceSession) (mode : PositionMode) : BinanceSession :=
  { s with
    positionMode := mode
    exchange := s.exchange.writeLog
      ("设置持仓模式为: " ++ if mode = PositionMode.oneWay then "ONE_WAY" else "HEDGE")
    rest := s.rest.request (BinanceRest.setPositionMode mode) }

def serverTime (packet : Json.Value) : Except Json.Error ℤ :=
  packet.valueOr (Json.Value.long? fun q => q.num.tdiv q.den) "serverTime" 0

def onQueryTime (localTime : ℤ) (packet : Json.Value) : Handle Unit := do
  let serverTime ← read (serverTime packet)
  let offset := (localTime - serverTime).bmod (2 ^ 32)
  modify fun s =>
    { s with
      rest.timeOffset := offset
      rest.requests := s.rest.requests ++
        [BinanceRest.setPositionMode (modeOf s.rest.hedgeMode), queryContract]
      exchange := s.exchange.writeLog s!"Server time updated, local offset: {offset}ms" }

/-- The answer to a time query, or its failure. An exception of the handler is caught by the
client, which logs it elsewhere. -/
def onTimeReply (s : BinanceSession) (localTime : ℤ) (reply : Option Json.Value) :
    BinanceSession :=
  match s.unanswered, reply with
  | 0, _ => s
  | n + 1, none => { s with unanswered := n }
  | n + 1, some packet => (onQueryTime localTime packet).state { s with unanswered := n }

inductive Step where
  | connect (setting : Json.Value)
  | setPositionMode (mode : PositionMode)
  | timeReply (localTime : ℤ) (reply : Option Json.Value)

def step (s : BinanceSession) : Step → BinanceSession
  | .connect setting => (connect setting).state s
  | .setPositionMode mode => s.setPositionMode mode
  | .timeReply localTime reply => s.onTimeReply localTime reply

/-! ### The mode of Binance -/

variable {s : BinanceSession}

def lastRequested (s : BinanceSession) : Option PositionMode :=
  lastMode BinanceRest.setPositionMode s.rest.requests

/-- The mode that `send_order` reads is the one that was requested last. -/
def Agreed (s : BinanceSession) : Prop :=
  ∀ mode, s.lastRequested = some mode → modeOf s.exchange.hedgeMode = mode

/-- The two modes agree once the time query of the last connect has been answered. -/
def Agrees (s : BinanceSession) : Prop := s.unanswered = 0 → Agreed s

/-- While an answer is awaited, the REST client has the mode of the exchange. -/
def Copied (s : BinanceSession) : Prop := s.unanswered ≠ 0 → s.rest.hedgeMode = s.exchange.hedgeMode

/-- Reading a setting changes the mode of the exchange last, and nothing else that is kept here. -/
theorem exec_readSetting (setting : Json.Value) (s : BinanceSession) :
    ∃ result t, (readSetting setting).exec s = (result, t) ∧ t.rest = s.rest ∧
      t.unanswered = s.unanswered ∧
      match result with
      | .ok _ => True
      | .error _ => t.exchange = s.exchange := by
  unfold readSetting
  simp only [exec_store_bind, exec_store]
  cases setting.stringOr "api_key" "" with
  | error e => exact ⟨_, _, rfl, rfl, rfl, rfl⟩
  | ok _ =>
  cases setting.stringOr "secret_key" "" with
  | error e => exact ⟨_, _, rfl, rfl, rfl, rfl⟩
  | ok _ =>
  cases setting.stringOr "proxy_host" "" with
  | error e => exact ⟨_, _, rfl, rfl, rfl, rfl⟩
  | ok _ =>
  cases setting.valueOr (Json.Value.int? toInt) "proxy_port" 0 with
  | error e => exact ⟨_, _, rfl, rfl, rfl, rfl⟩
  | ok _ =>
  cases setting.stringOr "server" "" with
  | error e => exact ⟨_, _, rfl, rfl, rfl, rfl⟩
  | ok _ =>
  cases setting.valueOr Json.Value.bool? "hedge_mode" false with
  | error e => exact ⟨_, _, rfl, rfl, rfl, rfl⟩
  | ok _ => exact ⟨_, _, rfl, rfl, rfl, trivial⟩

/-- Connecting copies the mode of the setting and awaits an answer, or changes no mode. -/
theorem connect_cases (s : BinanceSession) (setting : Json.Value) :
    (((connect setting).state s).unanswered = s.unanswered + 1 ∧
      ((connect setting).state s).rest.hedgeMode =
        ((connect setting).state s).exchange.hedgeMode) ∨
    (((connect setting).state s).unanswered = s.unanswered ∧
      ((connect setting).state s).rest = s.rest ∧
      ((connect setting).state s).exchange = s.exchange) := by
  obtain ⟨result, t, exec, rest, unanswered, exchange⟩ := exec_readSetting setting s
  unfold connect Handler.state
  cases result with
  | error e =>
    rw [exec_bind_error exec]
    exact .inr ⟨unanswered, rest, exchange⟩
  | ok _ =>
    rw [exec_bind_ok exec]
    exact .inl ⟨congrArg (· + 1) unanswered, rfl⟩

theorem lastRequested_setPositionMode (s : BinanceSession) (mode : PositionMode) :
    (s.setPositionMode mode).lastRequested = some mode := by
  have one : lastMode BinanceRest.setPositionMode [BinanceRest.setPositionMode mode] =
      some mode := by
    cases mode <;> decide +kernel
  exact lastMode_append.trans (by rw [one, Option.some_or])

/-- The query has been answered with an object whose time, where it has one, is a number. -/
def TellsTime (reply : Option Json.Value) : Prop :=
  ∃ packet time, reply = some packet ∧ serverTime packet = .ok time

/-- An answer that is awaited and tells the time leaves the offset of the clock, and requests the
mode of the REST client. -/
theorem onTimeReply_cases (s : BinanceSession) (localTime : ℤ) (reply : Option Json.Value) :
    (s.unanswered = 0 ∧ s.onTimeReply localTime reply = s) ∨
    ∃ n, s.unanswered = n + 1 ∧
      ((¬TellsTime reply ∧ s.onTimeReply localTime reply = { s with unanswered := n }) ∨
        ∃ packet time msg, (reply = some packet ∧ serverTime packet = .ok time) ∧
          s.onTimeReply localTime reply =
            { s with
              unanswered := n
              rest.timeOffset := (localTime - time).bmod (2 ^ 32)
              rest.requests := s.rest.requests ++
                [BinanceRest.setPositionMode (modeOf s.rest.hedgeMode), queryContract]
              exchange := s.exchange.writeLog msg }) := by
  unfold onTimeReply TellsTime
  cases awaits : s.unanswered with
  | zero => exact .inl ⟨rfl, rfl⟩
  | succ n =>
    refine .inr ⟨n, rfl, ?_⟩
    cases reply with
    | none => exact .inl ⟨by simp, rfl⟩
    | some packet =>
      dsimp only
      unfold onQueryTime Handler.state
      cases time : serverTime packet with
      | error e =>
        rw [exec_read_bind_error rfl]
        exact .inl ⟨by simp [time], rfl⟩
      | ok t =>
        rw [exec_read_bind_ok rfl]
        exact .inr ⟨packet, t, _, ⟨rfl, time⟩, rfl⟩

theorem lastMode_onQueryTime (mode : PositionMode) :
    lastMode BinanceRest.setPositionMode [BinanceRest.setPositionMode mode, queryContract] =
      some mode := by
  cases mode <;> decide +kernel

/-- A mode that is set while no answer is awaited is the one that connecting has set. The last
answer tells the time, or the mode that was requested last is that of the last connect already,
which the REST client has. -/
def KeepsMode (s : BinanceSession) : Step → Prop
  | .connect _ => True
  | .setPositionMode mode => s.unanswered = 0 → modeOf s.exchange.hedgeMode = mode
  | .timeReply _ reply => s.unanswered = 1 →
    TellsTime reply ∨ ∀ mode, s.lastRequested = some mode → modeOf s.rest.hedgeMode = mode

theorem copied_step (l : Step) (copied : Copied s) : Copied (s.step l) := by
  cases l with
  | connect setting =>
    unfold Copied step
    obtain ⟨-, same⟩ | ⟨unanswered, rest, exchange⟩ := connect_cases s setting
    · exact fun _ => same
    · rw [unanswered, rest, exchange]
      exact copied
  | setPositionMode mode => exact copied
  | timeReply localTime reply =>
    rcases s.onTimeReply_cases localTime reply with
      ⟨-, eq⟩ | ⟨n, awaits, ⟨-, eq⟩ | ⟨_, _, _, -, eq⟩⟩
    · rw [step, eq]
      exact copied
    all_goals
      rw [step, eq]
      exact fun _ => copied (by simp [awaits])

theorem agrees_step_iff (l : Step) (copied : Copied s) (agrees : Agrees s) :
    Agrees (s.step l) ↔ KeepsMode s l := by
  cases l with
  | connect setting =>
    refine iff_of_true ?_ trivial
    unfold Agrees step
    obtain ⟨unanswered, -⟩ | ⟨unanswered, rest, exchange⟩ := connect_cases s setting
    · simp [unanswered]
    · unfold Agreed lastRequested
      rw [unanswered, rest, exchange]
      exact agrees
  | setPositionMode mode =>
    refine forall_congr' fun _ => ?_
    unfold Agreed
    rw [step, lastRequested_setPositionMode]
    simp [setPositionMode, BinanceExchange.writeLog, BinanceExchange.emit]
  | timeReply localTime reply =>
    unfold KeepsMode
    rcases s.onTimeReply_cases localTime reply with
      ⟨none, eq⟩ | ⟨n, awaits, ⟨silent, eq⟩ | ⟨packet, time, msg, told, eq⟩⟩
    · rw [step, eq]
      simp [none, agrees]
    · have same := copied (by simp [awaits])
      rw [step, eq]
      simp [awaits, Agrees, Agreed, lastRequested, silent, same]
    · have same := copied (by simp [awaits])
      refine iff_of_true (fun _ mode requested => ?_) fun _ => .inl ⟨packet, time, told⟩
      rw [step, eq] at requested ⊢
      unfold lastRequested at requested
      rw [lastMode_append, lastMode_onQueryTime, Option.some_or] at requested
      rw [← Option.some.inj requested]
      exact congrArg modeOf same.symm

theorem always_agrees_iff (stray : Bool) (steps : List Step) :
    Always step Agrees { exchange := { hedgeMode := stray } } steps ↔
      Meets step KeepsMode { exchange := { hedgeMode := stray } } steps :=
  always_iff_meets_of_invariant (I := Copied) (fun _ l copied => copied_step l copied)
    (fun _ l copied agrees => agrees_step_iff l copied agrees) (by simp [Copied])
    (by simp [Agrees, Agreed, lastRequested, lastMode])

end BinanceSession

/-! ## Both exchanges -/

/-- Orders are built under the mode that was requested last exactly in these runs: OKX is only
connected with settings that ask for the mode that is set, and Binance is only set to the mode
that it is connected with, or set while the answer that renews that mode is awaited. -/
theorem modes_agree_iff (okxSteps : List OkxSession.Step) (stray : Bool)
    (binanceSteps : List BinanceSession.Step) :
    (Always OkxSession.step OkxSession.Agrees {} okxSteps ↔
      Meets OkxSession.step OkxSession.KeepsMode {} okxSteps) ∧
    (Always BinanceSession.step BinanceSession.Agrees { exchange := { hedgeMode := stray } }
        binanceSteps ↔
      Meets BinanceSession.step BinanceSession.KeepsMode { exchange := { hedgeMode := stray } }
        binanceSteps) :=
  ⟨OkxSession.always_agrees_iff okxSteps, BinanceSession.always_agrees_iff stray binanceSteps⟩

/-- Connecting OKX in hedge mode requests that mode, and orders are built for one-way mode. -/
theorem hedgeConnect_disagrees :
    ¬ ((∀ steps, Always OkxSession.step OkxSession.Agrees {} steps) ∧
      ∀ stray steps, Always BinanceSession.step BinanceSession.Agrees
        { exchange := { hedgeMode := stray } } steps) := by
  rintro ⟨all, -⟩
  let setting : Json.Value := .object [("hedge_mode", .bool true), ("server", .string "REAL")]
  have asks : OkxSession.Asks setting .hedge :=
    ⟨"REAL", true, ⟨by simp [setting, Json.Value.stringOr, Json.Value.valueOr, List.lookup],
      ⟨0, rfl⟩, rfl, rfl⟩, rfl, rfl⟩
  have met := (OkxSession.always_agrees_iff [.connect setting 7]).mp (all _)
  exact absurd (met.1 .hedge asks) (by decide)

end KeenTrader.Exchange
