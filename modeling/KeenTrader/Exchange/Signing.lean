import KeenTrader.Api.UrlCoding
import KeenTrader.Exchange.PositionMode

/-!
# Signed requests

Both Binance clients put a timestamp into the requests that they sign. `BinanceRestApi` corrects it
by the offset that the answer to its last time query has left, and `BinanceTradeApi` does not. The
clock is in milliseconds and without bounds; `time(nullptr)` counts its seconds.
-/

namespace KeenTrader.Exchange

open Std (ExtTreeMap)
open KeenTrader.Api KeenTrader.Engine Handlers Runs Binance

/-- A request as it is sent. -/
structure SignedRequest extends RestRequest where
  headers : Table AString AString := []

/-- `(long long)time(nullptr) * 1000`. -/
def wholeSeconds (clock : ℤ) : ℤ := clock / 1000 * 1000

/-- `URLEncode` of a parameter, whose bytes are ASCII. -/
def urlEncodeText (text : AString) : AString :=
  String.ofList ((urlEncode text.toUTF8.toList).map fun b => Char.ofNat b.toNat)

namespace BinanceRest

/-- The clock, corrected by the offset of the server. -/
def timestamp (s : BinanceRest) (clock : ℤ) : ℤ :=
  let timestamp := wholeSeconds clock
  if 0 < s.timeOffset then timestamp - |s.timeOffset|
  else if s.timeOffset < 0 then timestamp + |s.timeOffset|
  else timestamp

/-- The parameters that are signed. -/
def signedParams (s : BinanceRest) (request : RestRequest) (clock : ℤ) : Params :=
  (ExtTreeMap.ofList request.params).insert "timestamp" (toString (s.timestamp clock))

def query (params : Params) : AString :=
  "&".intercalate (params.toList.map fun (key, value) => key ++ "=" ++ urlEncodeText value)

/-- `sign`, with the digest of a secret and a text. -/
def sign (hmac : AString → AString → List UInt8) (key secret : AString) (s : BinanceRest)
    (request : RestRequest) (clock : ℤ) : SignedRequest :=
  let query := query (s.signedParams request clock)
  let signature := hexStr (hmac secret query)
  let query :=
    if query ≠ "" then query ++ "&signature=" ++ signature else "signature=" ++ signature
  { method := request.method
    path := request.path ++ "?" ++ query
    headers :=
      [("Content-Type", "application/x-www-form-urlencoded"), ("Accept", "application/json"),
       ("X-MBX-APIKEY", key), ("Connection", "close")] }

/-- Both signs of the offset are subtracted. -/
theorem timestamp_eq (s : BinanceRest) (clock : ℤ) :
    s.timestamp clock = wholeSeconds clock - s.timeOffset := by
  unfold timestamp
  dsimp only
  split
  · rename_i pos
    rw [abs_of_pos pos]
  split
  · rename_i neg
    rw [abs_of_neg neg, sub_eq_add_neg]
  · omega

theorem getElem?_signedParams (s : BinanceRest) (request : RestRequest) (clock : ℤ) :
    (s.signedParams request clock)["timestamp"]? = some (toString (s.timestamp clock)) := by
  simp [signedParams]

end BinanceRest

theorem Binance.getElem?_sign (hmac : AString → AString → List UInt8) (secret : AString)
    (moment : Moment) (params : Params) :
    (sign hmac secret moment params)["timestamp"]? = some (toString (moment.seconds * 1000)) := by
  rw [sign, ExtTreeMap.getElem?_insert, if_neg (by decide), ExtTreeMap.getElem?_insert_self]

namespace BinanceSession

/-- The server time that the handler of an awaited answer reads. -/
def measurement (s : BinanceSession) (reply : Option Json.Value) : Option ℤ :=
  if s.unanswered = 0 then none
  else reply.bind fun packet => (serverTime packet).toOption

theorem timeOffset_connect (s : BinanceSession) (setting : Json.Value) :
    ((connect setting).state s).rest.timeOffset = s.rest.timeOffset := by
  obtain ⟨result, t, exec, rest, -⟩ := exec_readSetting setting s
  unfold connect Handler.state
  cases result with
  | error e =>
    rw [exec_bind_error exec]
    exact congrArg BinanceRest.timeOffset rest
  | ok _ =>
    rw [exec_bind_ok exec]
    change t.rest.timeOffset = _
    rw [rest]

theorem measurement_eq_some_iff {s : BinanceSession} {reply : Option Json.Value} {time : ℤ} :
    s.measurement reply = some time ↔
      s.unanswered ≠ 0 ∧ ∃ packet, reply = some packet ∧ serverTime packet = .ok time := by
  have toOption (r : Except Json.Error ℤ) : r.toOption = some time ↔ r = .ok time := by
    cases r <;> simp [Except.toOption]
  unfold measurement
  by_cases idle : s.unanswered = 0
  · simp [idle]
  · rw [if_neg idle, and_iff_right idle]
    simp only [Option.bind_eq_some_iff, toOption]

/-- An answer leaves the offset that it measures, as an `int`. -/
theorem timeOffset_onTimeReply (s : BinanceSession) (localTime : ℤ) (reply : Option Json.Value) :
    (s.onTimeReply localTime reply).rest.timeOffset =
      ((s.measurement reply).map fun time => (localTime - time).bmod (2 ^ 32)).getD
        s.rest.timeOffset := by
  rcases s.onTimeReply_cases localTime reply with
    ⟨idle, eq⟩ | ⟨n, awaits, ⟨silent, eq⟩ | ⟨packet, time, msg, told, eq⟩⟩
  · have unmeasured : s.measurement reply = none := if_pos idle
    rw [eq, unmeasured]
    rfl
  · have unmeasured : s.measurement reply = none := by
      refine Option.eq_none_iff_forall_ne_some.mpr fun time measured => silent ?_
      obtain ⟨-, packet, told⟩ := measurement_eq_some_iff.mp measured
      exact ⟨packet, time, told⟩
    rw [eq, unmeasured]
    rfl
  · rw [eq, measurement_eq_some_iff.mpr ⟨by omega, packet, told⟩]
    rfl

end BinanceSession

/-- A session with the last measurement of its clock: what it showed, and the time of the server. -/
structure SigningSession where
  session : BinanceSession := {}
  measured : Option (ℤ × ℤ) := none

namespace SigningSession

open BinanceSession (measurement)

inductive Step where
  | connect (setting : Json.Value)
  | setPositionMode (mode : PositionMode)
  | timeReply (clock : ℤ) (reply : Option Json.Value)
  | signRest (request : RestRequest) (clock : ℤ)
  | signTrade (params : Params) (digits : AString) (clock : ℤ)

def step (s : SigningSession) : Step → SigningSession
  | .connect setting => { s with session := s.session.step (.connect setting) }
  | .setPositionMode mode => { s with session := s.session.step (.setPositionMode mode) }
  | .timeReply clock reply =>
    { session := s.session.step (.timeReply (wholeSeconds clock) reply)
      measured := ((s.session.measurement reply).map fun time => (clock, time)).or s.measured }
  | .signRest .. | .signTrade .. => s

/-- A request that is signed after a measurement carries the time that it estimates: the clock, less
what it had been ahead of the server. -/
def Carries (hmac : AString → AString → List UInt8) (s : SigningSession) : Step → Prop
  | .signRest request clock => ∀ m ∈ s.measured,
      (s.session.rest.signedParams request clock)["timestamp"]? =
        some (toString (clock - (m.1 - m.2)))
  | .signTrade params digits clock => ∀ m ∈ s.measured,
      (sign hmac s.session.exchange.secret ⟨digits, clock / 1000⟩ params)["timestamp"]? =
        some (toString (clock - (m.1 - m.2)))
  | _ => True

/-- Over REST the offset is an `int`, and the clock is as far behind its last whole second as it was
when it was measured. On the trade channel the clock is ahead of the server by the milliseconds that
are behind its last whole second. -/
def Estimates (s : SigningSession) : Step → Prop
  | .signRest _ clock => ∀ m ∈ s.measured,
      (-2 ^ 31 ≤ wholeSeconds m.1 - m.2 ∧ wholeSeconds m.1 - m.2 < 2 ^ 31) ∧
        clock % 1000 = m.1 % 1000
  | .signTrade _ _ clock => ∀ m ∈ s.measured, m.1 - m.2 = clock % 1000
  | _ => True

/-- The offset is the one of the last measurement. -/
def Measured (s : SigningSession) : Prop :=
  ∀ m ∈ s.measured, s.session.rest.timeOffset = (wholeSeconds m.1 - m.2).bmod (2 ^ 32)

variable {s : SigningSession}

theorem measured_step (l : Step) (measured : Measured s) : Measured (s.step l) := by
  cases l with
  | connect setting =>
    intro m mem
    exact (BinanceSession.timeOffset_connect _ setting).trans (measured m mem)
  | setPositionMode mode => exact measured
  | timeReply clock reply =>
    intro m mem
    refine (BinanceSession.timeOffset_onTimeReply _ _ reply).trans ?_
    change m ∈ (((s.session.measurement reply).map _).or s.measured) at mem
    cases time : s.session.measurement reply with
    | none =>
      rw [time] at mem
      exact measured m mem
    | some t =>
      rw [time] at mem
      obtain rfl := Option.some.inj mem
      rfl
  | signRest request clock => exact measured
  | signTrade params digits clock => exact measured

theorem toString_inj {a b : ℤ} : toString a = toString b ↔ a = b := Int.repr_inj

/-- What fits an `int` is kept, and what does not is changed by at least four thousand million. -/
theorem sub_bmod_eq_iff {a r : ℤ} (small : |r| < 1000) :
    a - a.bmod (2 ^ 32) = r ↔ (-2 ^ 31 ≤ a ∧ a < 2 ^ 31) ∧ r = 0 := by
  have low := Int.le_bmod (x := a) (show 0 < 2 ^ 32 by decide)
  have high := Int.bmod_lt (x := a) (show 0 < 2 ^ 32 by decide)
  have same : a.bmod (2 ^ 32) = a - 2 ^ 32 * a.bdiv (2 ^ 32) := by
    have := Int.bmod_add_bdiv a (2 ^ 32)
    omega
  rw [abs_lt] at small
  omega

theorem carries_iff (hmac : AString → AString → List UInt8) (l : Step) (measured : Measured s) :
    Carries hmac s l ↔ Estimates s l := by
  cases l with
  | signRest request clock =>
    refine forall₂_congr fun m mem => ?_
    rw [BinanceRest.getElem?_signedParams, Option.some_inj, toString_inj, BinanceRest.timestamp_eq,
      measured m mem]
    have difference := sub_bmod_eq_iff (a := wholeSeconds m.1 - m.2)
      (show |clock % 1000 - m.1 % 1000| < 1000 by rw [abs_lt]; omega)
    have apart : clock % 1000 = m.1 % 1000 ↔ clock % 1000 - m.1 % 1000 = 0 := by omega
    rw [apart, ← difference]
    unfold wholeSeconds
    omega
  | signTrade params digits clock =>
    refine forall₂_congr fun m mem => ?_
    rw [getElem?_sign, Option.some_inj, toString_inj]
    dsimp only
    omega
  | _ => exact Iff.rfl

/-- The requests of a run that are signed after a measurement all carry the estimated time exactly
if the offset is an `int` and no part of a second is lost, and on the trade channel no offset. -/
theorem signed_estimates_iff (hmac : AString → AString → List UInt8) (start : BinanceSession)
    (steps : List Step) :
    Meets step (Carries hmac) { session := start } steps ↔
      Meets step Estimates { session := start } steps :=
  meets_congr (P := Measured) (fun _ l measured => measured_step l measured)
    (fun _ l measured => carries_iff hmac l measured) (by simp [Measured])

/-- The clock is five seconds ahead, and an order is sent as soon as this is known. -/
theorem skewed_order_ahead :
    ¬ ∀ (hmac : AString → AString → List UInt8) (start : BinanceSession) (steps : List Step),
      Meets step (Carries hmac) { session := start } steps := by
  intro all
  let setting : Json.Value := .object []
  let reply : Json.Value := .object [("serverTime", .int 1700000000000)]
  have met := (signed_estimates_iff (fun _ _ => []) {} _).mp (all _ _
    [.connect setting, .timeReply 1700000005000 (some reply), .signTrade ∅ "" 1700000005000])
  have ahead := met.2.2.1 (1700000005000, 1700000000000) (by decide +kernel)
  exact absurd ahead (by decide)

end SigningSession

end KeenTrader.Exchange
