import KeenTrader.Library.Handlers
import KeenTrader.Engine.Object
import KeenTrader.Engine.Utility

/-!
# What the exchanges share

The tables that translate between an exchange's words and the enumerations, and what an
exchange does to the outside: it puts events, and it sends packets over its socket.
-/

namespace KeenTrader.Exchange

open KeenTrader.Engine Handlers

/-- What ends a handler early: a failed access to a packet, the use of an optional value that
is not there, which has no defined result, or a key that a constant map lacks. -/
inductive Fault where
  | json (error : Json.Error)
  | emptyOptional
  | outOfRange
  deriving DecidableEq, Repr

/-- What an exchange does to the outside. `order` stands for the two events of an order, and so
for the other records; `parse` is a call of `parse_order_data`, and `error` one of `on_error`,
which logs the text of the exception. -/
inductive Effect where
  | order (order : OrderData)
  | trade (trade : TradeData)
  | account (account : AccountData)
  | position (position : PositionData)
  | contract (contract : ContractData)
  | log (msg : AString)
  | packet (packet : Json.Value)
  | parse (data : Json.Value)
  | error (fault : Fault)

namespace Effect

/-- The order that the effect announces, if it announces one. -/
def order? : Effect → Option OrderData
  | order o => some o
  | _ => none

end Effect

def Fault.ofJson {α : Type} (r : Except Json.Error α) : Except Fault α := r.mapError .json

@[simp] theorem Fault.ofJson_ok {α : Type} (a : α) : Fault.ofJson (.ok a) = .ok a := rfl

theorem Fault.ofJson_eq_ok {α : Type} {r : Except Json.Error α} {a : α} :
    Fault.ofJson r = .ok a ↔ r = .ok a := by
  cases r <;> simp [Fault.ofJson, Except.mapError]

@[simp] theorem Fault.ofJson_error {α : Type} (e : Json.Error) :
    Fault.ofJson (.error e : Except Json.Error α) = .error (.json e) := rfl

/-- Read a value from a packet. -/
def read {S α : Type} (r : Except Json.Error α) : Handler Fault S α := liftM (Fault.ofJson r)

theorem readOnly_read {S α : Type} (r : Except Json.Error α) :
    ReadOnly (read r : Handler Fault S α) :=
  .lift _

theorem exec_read_bind_ok {S α β : Type} {r : Except Json.Error α} {a : α}
    {f : α → Handler Fault S β} {s : S} (ok : r = .ok a) :
    (read r >>= f).exec s = (f a).exec s := by
  subst ok
  exact exec_bind_ok rfl

theorem exec_read_bind_error {S α β : Type} {r : Except Json.Error α} {e : Json.Error}
    {f : α → Handler Fault S β} {s : S} (error : r = .error e) :
    (read r >>= f).exec s = (.error (.json e), s) := by
  subst error
  exact exec_bind_error rfl

/-- Store a value that is read. -/
def store {S α : Type} (r : Except Json.Error α) (set : α → S → S) : Handler Fault S Unit := do
  let a ← read r
  modify (set a)

theorem exec_store {S α : Type} {r : Except Json.Error α} {set : α → S → S} {s : S} :
    (store r set).exec s =
      match r with
      | .ok a => (.ok (), set a s)
      | .error e => (.error (.json e), s) := by
  cases r with
  | ok a => exact exec_read_bind_ok rfl
  | error e => exact exec_read_bind_error rfl

theorem exec_store_bind {S α β : Type} {r : Except Json.Error α} {set : α → S → S}
    {f : Unit → Handler Fault S β} {s : S} :
    (store r set >>= f).exec s =
      match r with
      | .ok a => (f ()).exec (set a s)
      | .error e => (.error (.json e), s) := by
  cases r with
  | ok a => exact exec_bind_ok (exec_read_bind_ok rfl)
  | error e => exact exec_bind_error (exec_read_bind_error rfl)

/-- The rest of a handler knows the value that has been read. -/
theorem preserves_read_bind {S α β : Type} {P : S → Prop} {r : Except Json.Error α}
    {f : α → Handler Fault S β} (rest : ∀ a, r = .ok a → Preserves P (f a)) :
    Preserves P (read r >>= f) :=
  .lift_bind fun a eq => rest a (Fault.ofJson_eq_ok.mp eq)

/-- `WebsocketClient::on_text`, after the text has been parsed: a handler that fails is reported,
and what it has changed stays changed. -/
def onText {S : Type} (onPacket : Json.Value → Handler Fault S Unit) (onError : S → Fault → S)
    (s : S) (packet : Json.Value) : S :=
  if packet.isNull then s
  else
    match (onPacket packet).exec s with
    | (.ok _, s) => s
    | (.error fault, s) => onError s fault

theorem onText_ok {S : Type} {onPacket : Json.Value → Handler Fault S Unit}
    {onError : S → Fault → S} {s t : S} {packet : Json.Value} (value : packet.isNull = false)
    (ok : (onPacket packet).exec s = (.ok ⟨⟩, t)) : onText onPacket onError s packet = t := by
  simp [onText, value, ok]

theorem onText_error {S : Type} {onPacket : Json.Value → Handler Fault S Unit}
    {onError : S → Fault → S} {s t : S} {packet : Json.Value} {fault : Fault}
    (value : packet.isNull = false) (failed : (onPacket packet).exec s = (.error fault, t)) :
    onText onPacket onError s packet = onError t fault := by
  simp [onText, value, failed]

/-- What the handler and the report of its failure keep, a message keeps. -/
theorem onText_invariant {S : Type} {P : S → Prop} {onPacket : Json.Value → Handler Fault S Unit}
    {onError : S → Fault → S} {s : S} {packet : Json.Value}
    (handled : Preserves P (onPacket packet)) (failed : ∀ s fault, P s → P (onError s fault))
    (start : P s) : P (onText onPacket onError s packet) := by
  have after := handled s start
  unfold Handler.state at after
  unfold onText
  split
  · exact start
  split
  · rename_i eq
    rwa [eq] at after
  · rename_i eq
    rw [eq] at after
    exact failed _ _ after

abbrev Table (K V : Type) := List (K × V)

/-- `operator[]` of a map: a key that is missing has the first value of its type. -/
def Table.at {K V : Type} [BEq K] [Inhabited V] (m : Table K V) (key : K) : V :=
  (m.lookup key).getD default

def swapMap {K V : Type} (m : Table K V) : Table V K := m.map Prod.swap

/-- `BaseExchange::write_log` puts the name of the exchange in front. -/
def logText (exchangeName msg : AString) : AString := "Exchange [" ++ exchangeName ++ "]: " ++ msg

/-- The order as an exchange reports it after a rejection. -/
def rejected (o : OrderData) : OrderData := { o with status := .rejected }

@[simp] theorem rejected_rejected (o : OrderData) : rejected (rejected o) = rejected o := rfl

@[simp] theorem rejected_isActive (o : OrderData) : (rejected o).isActive = false := rfl

end KeenTrader.Exchange
