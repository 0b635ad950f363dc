import KeenTrader.Library.Json

/-!
# The websocket client

`WebsocketClient` with the implementation that `start` makes for it, as far as its users see it:
whether packets leave, and when it calls `on_connected` and `on_disconnected`. Packets that have
left are kept for the connection that is current.
-/

namespace KeenTrader.Exchange

/-- The connection that the client holds. A connection that is being closed takes no packet. -/
inductive Link where
  | down
  | up
  | closing
  deriving DecidableEq, Repr

/-- `attempts` counts the connections that are being made, and `timer` tells that the client
waits to make the next one. -/
structure WebsocketClient where
  started : Bool := false
  stopped : Bool := false
  attempts : ℕ := 0
  timer : Bool := false
  link : Link := .down
  sent : List Json.Value := []

namespace WebsocketClient

/-- What the socket library reports, and `stop`. -/
inductive Event where
  | opened
  | failed
  | closed
  | timer
  | stop
  deriving DecidableEq, Repr

inductive Callback where
  | onConnected
  | onDisconnected
  deriving DecidableEq, Repr

/-- A new implementation takes the place of the old one and connects. -/
def start (_ : WebsocketClient) : WebsocketClient := { started := true, attempts := 1 }

/-- `handle_reconnect`. -/
def reconnect (s : WebsocketClient) : WebsocketClient :=
  if s.stopped then s else { s with timer := true }

def sendPacket (s : WebsocketClient) (packet : Json.Value) : WebsocketClient :=
  if s.link = .up then { s with sent := s.sent ++ [packet] } else s

/-- The client after an event, with what it calls of its user. -/
def handle (s : WebsocketClient) : Event → WebsocketClient × Option Callback
  | .opened =>
    if s.attempts = 0 then (s, none)
    else ({ s with attempts := s.attempts - 1, link := .up, sent := [] }, some .onConnected)
  | .failed =>
    if s.attempts = 0 then (s, none) else ({ s with attempts := s.attempts - 1 }.reconnect, none)
  | .closed =>
    if s.link = .down then (s, none)
    else ({ s with link := .down }.reconnect, some .onDisconnected)
  | .timer =>
    if s.timer then
      let s := { s with timer := false }
      (if s.stopped then s else { s with attempts := s.attempts + 1 }, none)
    else (s, none)
  | .stop =>
    if s.started then
      ({ s with stopped := true, link := if s.link = .up then .closing else s.link }, none)
    else (s, none)

variable {s : WebsocketClient}

@[simp] theorem start_link (s : WebsocketClient) : s.start.link = .down := rfl

@[simp] theorem reconnect_link (s : WebsocketClient) : s.reconnect.link = s.link := by
  unfold reconnect
  split <;> rfl

@[simp] theorem reconnect_sent (s : WebsocketClient) : s.reconnect.sent = s.sent := by
  unfold reconnect
  split <;> rfl

@[simp] theorem sendPacket_link (s : WebsocketClient) (packet : Json.Value) :
    (s.sendPacket packet).link = s.link := by
  unfold sendPacket
  split <;> rfl

theorem sendPacket_sent (up : s.link = .up) (packet : Json.Value) :
    (s.sendPacket packet).sent = s.sent ++ [packet] := by
  simp [sendPacket, up]

/-- A connection is opened, which calls `on_connected`; any other event keeps what has been
sent on a connection that is up. -/
theorem handle_cases (s : WebsocketClient) (e : Event) :
    (e = .opened ∧ 0 < s.attempts ∧ (s.handle e).1.link = .up ∧ (s.handle e).1.sent = [] ∧
      (s.handle e).2 = some .onConnected) ∨
    ((e = .opened → s.attempts = 0) ∧ (s.handle e).2 ≠ some .onConnected ∧
      ((s.handle e).1.link = .up → s.link = .up ∧ (s.handle e).1.sent = s.sent)) := by
  unfold handle
  cases e with
  | opened =>
    by_cases none : s.attempts = 0
    · exact .inr (by simp [none])
    · exact .inl (by simp [none]; omega)
  | failed => exact .inr (by dsimp only; split <;> simp)
  | closed => exact .inr (by dsimp only; split <;> simp_all)
  | timer => exact .inr (by dsimp only; split <;> [split; skip] <;> simp)
  | stop => exact .inr (by dsimp only; split <;> [split; skip] <;> simp_all)

end WebsocketClient

end KeenTrader.Exchange
