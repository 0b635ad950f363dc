import KeenTrader.Engine.EventEmitter
import KeenTrader.Exchange.PositionMode

/-!
# The user stream of Binance

The key of the user stream is granted for an hour, and `process_timer_event` asks every ten minutes
to keep it alive, counting timer events. The constructor of the exchange keeps the event emitter and
registers no handler with it, so that the exchange hears of no timer event.
-/

namespace KeenTrader.Exchange

open KeenTrader.Engine Runs

namespace Binance

def realUserHost : AString := "wss://fstream.binance.com/ws/"
def testnetUserHost : AString := "wss://fstream.binancefuture.com/ws/"

end Binance

open Binance

/-- The part of `BinanceRestApi` that takes care of the user stream. `requests` are its keep-alive
requests and `connections` the urls with which the stream has been connected, latest last. -/
structure UserStream where
  server : AString := ""
  userStreamKey : AString := ""
  keepAliveCount : ℤ := 0
  requests : List RestRequest := []
  connections : List AString := []

namespace UserStream

/-- The request that keeps a key alive. -/
def keepAlive (key : AString) : RestRequest :=
  { method := "PUT", path := "/fapi/v1/listenKey", params := [("listenKey", key)] }

def keepUserStream (s : UserStream) : UserStream :=
  if s.userStreamKey.isEmpty then s
  else
    let count := s.keepAliveCount + 1
    if count < 600 then { s with keepAliveCount := count }
    else { s with keepAliveCount := 0, requests := s.requests ++ [keepAlive s.userStreamKey] }

/-- `BinanceLinearExchange::process_timer_event`. -/
def processTimerEvent (s : UserStream) : UserStream := s.keepUserStream

/-- The key that a reply grants. -/
def keyOf (packet : Json.Value) : Option AString :=
  match packet.get? "listenKey" with
  | some (.string key) => some key
  | _ => none

/-- The reply to the request for a key. A reply without one is ignored; a key that is no text
throws before anything is changed. -/
def onStartUserStream (s : UserStream) (packet : Json.Value) : UserStream :=
  match keyOf packet with
  | some key =>
    let url := (if s.server = "REAL" then realUserHost else testnetUserHost) ++ key
    { s with userStreamKey := key, keepAliveCount := 0, connections := s.connections ++ [url] }
  | none => s

end UserStream

open UserStream (keepAlive keyOf)

/-- The exchange and the emitter it is attached to. `granted` is the key that has been granted
last, and `timers` counts the timer events since. -/
structure UserSession (Data Callable Obj : Type*) where
  emitter : EventEmitter Data Callable Obj
  userStream : UserStream
  granted : Option AString := none
  timers : ℕ := 0

namespace UserSession

variable {Data Callable Obj : Type*} {exchange : Obj}

/-- What the exchange is made with: an emitter, none of whose handlers is bound to it yet, and the
server that it connects to. -/
structure Attachment (Data Callable : Type*) {Obj : Type*} (exchange : Obj) where
  emitter : EventEmitter Data Callable Obj
  server : AString
  unbound : ∀ e, ∀ h ∈ emitter.process e, h.object ≠ exchange

/-- `BinanceLinearExchange::BinanceLinearExchange`, which leaves the emitter as it is. -/
def attach (a : Attachment Data Callable exchange) : UserSession Data Callable Obj :=
  { emitter := a.emitter, userStream := { server := a.server } }

/-- What happens in a session: the emitter delivers an event, the reply to a request for a key
arrives, or another component registers a handler that is bound to its own object. -/
inductive Step (Data Callable : Type*) {Obj : Type*} (exchange : Obj) where
  | event (e : Event Data)
  | grant (packet : Json.Value)
  | register (type : AString) (handler : HandlerType Callable Obj) (position : ℕ)
      (other : handler.object ≠ exchange)

variable [DecidableEq Callable] [DecidableEq Obj] (timer : Callable)

/-- A call of one handler. -/
def handle (exchange : Obj) (s : UserStream) (h : HandlerType Callable Obj) : UserStream :=
  if h = ⟨timer, exchange⟩ then s.processTimerEvent else s

def step (s : UserSession Data Callable Obj) :
    Step Data Callable exchange → UserSession Data Callable Obj
  | .event e =>
    { s with
      userStream := (s.emitter.process e).foldl (handle timer exchange) s.userStream
      timers := if e.type = "eTimer." then s.timers + 1 else s.timers }
  | .grant packet =>
    { s with
      userStream := s.userStream.onStartUserStream packet
      granted := (keyOf packet).or s.granted
      timers := if (keyOf packet).isSome then 0 else s.timers }
  | .register type handler position _ =>
    { s with emitter := s.emitter.register type handler position }

/-- The keep-alive requests that are due at a step: at every 600th timer event behind a grant. -/
def due (s : UserSession Data Callable Obj) : Step Data Callable exchange → List RestRequest
  | .event e =>
    match s.granted with
    | some key => if e.type = "eTimer." ∧ 600 ∣ s.timers + 1 then [keepAlive key] else []
    | none => []
  | _ => []

/-- The step makes the requests that are due, and no other. -/
def KeptAlive (s : UserSession Data Callable Obj) (l : Step Data Callable exchange) : Prop :=
  (s.step timer l).userStream.requests = s.userStream.requests ++ s.due l

/-- The step is not the 600th timer event behind a grant, nor a multiple of that. -/
def Early (s : UserSession Data Callable Obj) : Step Data Callable exchange → Prop
  | .event e => s.granted.isSome → e.type = "eTimer." → ¬600 ∣ s.timers + 1
  | _ => True

/-- The handler of the exchange is called `n` times for a timer event, and for no other. -/
def Hears (exchange : Obj) (n : ℕ) (s : UserSession Data Callable Obj) : Prop :=
  ∀ e, (s.emitter.process e).count ⟨timer, exchange⟩ = if e.type = "eTimer." then n else 0

variable {timer} {s : UserSession Data Callable Obj} {n : ℕ}

/-! ## What the exchange hears of -/

theorem hears_attach (a : Attachment Data Callable exchange) :
    Hears timer exchange 0 (attach a) := by
  intro e
  rw [ite_self]
  exact List.count_eq_zero.mpr fun mem => a.unbound e _ mem rfl

/-- A handler of another object changes nothing for the exchange. -/
theorem count_process_register {handler : HandlerType Callable Obj}
    (other : handler.object ≠ exchange) (emitter : EventEmitter Data Callable Obj) (type : AString)
    (position : ℕ) (e : Event Data) :
    ((emitter.register type handler position).process e).count ⟨timer, exchange⟩ =
      (emitter.process e).count ⟨timer, exchange⟩ := by
  have ne : handler ≠ ⟨timer, exchange⟩ := fun eq => other (congrArg HandlerType.object eq)
  unfold EventEmitter.process
  rw [EventEmitter.register_generalHandlers, EventEmitter.register_handlers]
  split
  · rename_i here
    have perm := List.perm_insertIdx handler (emitter.handlers type)
      (min_le_right position (emitter.handlers type).length)
    rw [List.count_append, List.count_append, here.1, perm.count_eq, List.count_cons_of_ne ne]
  · rfl

theorem Hears.step (hears : Hears timer exchange n s) (l : Step Data Callable exchange) :
    Hears timer exchange n (s.step timer l) := by
  intro e
  cases l with
  | event _ => exact hears e
  | grant packet => exact hears e
  | register type handler position other =>
    exact (count_process_register other _ _ _ e).trans (hears e)

/-- Of the handlers that an event is delivered to, those of the exchange count. -/
theorem foldl_handle (hs : List (HandlerType Callable Obj)) (u : UserStream) :
    hs.foldl (handle timer exchange) u =
      UserStream.processTimerEvent^[hs.count ⟨timer, exchange⟩] u := by
  induction hs generalizing u with
  | nil => rfl
  | cons h hs ih =>
    rw [List.foldl_cons, ih, handle]
    split
    · rename_i mine
      rw [mine, List.count_cons_self, Function.iterate_succ_apply]
    · rename_i other
      rw [List.count_cons_of_ne other]

theorem Hears.event_userStream (hears : Hears timer exchange n s) (e : Event Data) :
    (s.step timer (.event e : Step Data Callable exchange)).userStream =
      UserStream.processTimerEvent^[if e.type = "eTimer." then n else 0] s.userStream :=
  (foldl_handle _ _).trans (by rw [hears e])

@[simp] theorem requests_onStartUserStream (u : UserStream) (packet : Json.Value) :
    (u.onStartUserStream packet).requests = u.requests := by
  unfold UserStream.onStartUserStream
  cases keyOf packet <;> rfl

/-! ## A session of the exchange as it is made -/

/-- What hears of no timer event makes no request. -/
theorem Hears.keptAlive_iff (deaf : Hears timer exchange 0 s) (l : Step Data Callable exchange) :
    s.KeptAlive timer l ↔ s.Early l := by
  unfold KeptAlive
  cases l with
  | event e =>
    rw [deaf.event_userStream e, ite_self, Function.iterate_zero_apply]
    cases granted : s.granted <;> simp [due, Early, granted]
  | grant packet => simp [UserSession.step, due, Early]
  | register type handler position other => simp [UserSession.step, due, Early]

theorem meets_keptAlive_iff (deaf : Hears timer exchange 0 s)
    (steps : List (Step Data Callable exchange)) :
    Meets (step timer) (KeptAlive timer) s steps ↔ Meets (step timer) Early s steps :=
  meets_congr (P := Hears timer exchange 0) (fun _ l hears => hears.step l)
    (fun _ l hears => hears.keptAlive_iff l) deaf

/-- The key is kept alive, no more and no less, throughout exactly those sessions in which no grant
is followed by 600 timer events. -/
theorem keptAlive_iff_early (timer : Callable) (a : Attachment Data Callable exchange)
    (steps : List (Step Data Callable exchange)) :
    Meets (step timer) (KeptAlive timer) (attach a) steps ↔
      Meets (step timer) Early (attach a) steps :=
  meets_keptAlive_iff (hears_attach a) steps

/-- Timer events add up behind a grant. -/
theorem foldl_timer (timer : Callable) (exchange : Obj) (s : UserSession Data Callable Obj)
    (data : Data) (n : ℕ) :
    let t := (List.replicate n (.event ⟨"eTimer.", data⟩ : Step Data Callable exchange)).foldl
      (step timer) s
    t.granted = s.granted ∧ t.timers = s.timers + n := by
  induction n with
  | zero => exact ⟨rfl, rfl⟩
  | succ n ih =>
    rw [List.replicate_succ', List.foldl_concat]
    exact ⟨ih.1, congrArg (· + 1) ih.2⟩

/-- The key that is granted is not kept alive ten minutes later. -/
theorem key_not_kept_alive :
    ¬ ∀ (a : Attachment Unit ℕ 0) (steps : List (Step Unit ℕ 0)),
      Meets (step 0) (KeptAlive 0) (attach a) steps := by
  intro all
  have run := all ⟨{}, "REAL", by simp [EventEmitter.process]⟩
    (.grant (.object [("listenKey", .string "key")]) ::
      (List.replicate 599 (.event ⟨"eTimer.", ()⟩) ++ [.event ⟨"eTimer.", ()⟩]))
  have early := (meets_keptAlive_iff (hears_attach _) _).mp run
  rw [meets_cons, meets_append] at early
  obtain ⟨granted, timers⟩ := foldl_timer 0 0 (step 0
    (attach ⟨{}, "REAL", by simp [EventEmitter.process]⟩)
    (.grant (.object [("listenKey", .string "key")]) : Step Unit ℕ 0)) () 599
  have due := early.2.2.1 (by rw [granted]; rfl) rfl
  rw [timers] at due
  exact due (by decide)

/-! ## Where the handler is registered -/

/-- The counter follows the timer events behind a grant. -/
structure Counts (s : UserSession Data Callable Obj) : Prop where
  key : s.userStream.userStreamKey = s.granted.getD ""
  granted : s.granted ≠ some ""
  count : s.granted.isSome → s.userStream.keepAliveCount = (s.timers % 600 : ℕ)

/-- The key that is granted is not empty. -/
def Granting (_ : UserSession Data Callable Obj) : Step Data Callable exchange → Prop
  | .grant packet => keyOf packet ≠ some ""
  | _ => True

theorem keepUserStream_of_empty {u : UserStream} (unkeyed : u.userStreamKey = "") :
    u.keepUserStream = u := by
  simp [UserStream.keepUserStream, unkeyed]

theorem keepUserStream_of_key {u : UserStream} {timers : ℕ} (keyed : u.userStreamKey ≠ "")
    (count : u.keepAliveCount = (timers % 600 : ℕ)) :
    u.keepUserStream =
      { u with
        keepAliveCount := ((timers + 1) % 600 : ℕ)
        requests :=
          u.requests ++ if 600 ∣ timers + 1 then [keepAlive u.userStreamKey] else [] } := by
  have keyed : ¬u.userStreamKey.isEmpty = true := by simpa using keyed
  simp only [UserStream.keepUserStream, if_neg keyed, count]
  by_cases due : 600 ∣ timers + 1
  · have full : ¬((timers % 600 : ℕ) : ℤ) + 1 < 600 := by omega
    have zero : (timers + 1) % 600 = 0 := by omega
    rw [if_neg full, if_pos due, zero]
    rfl
  · have room : ((timers % 600 : ℕ) : ℤ) + 1 < 600 := by omega
    have next : (timers + 1) % 600 = timers % 600 + 1 := by omega
    rw [if_pos room, if_neg due, next, List.append_nil]
    rfl

omit [DecidableEq Callable] [DecidableEq Obj] in
/-- A timer event that the exchange hears of. -/
theorem Counts.processTimerEvent (counts : s.Counts) (exchange : Obj) {e : Event Data}
    (timerEvent : e.type = "eTimer.") :
    s.userStream.processTimerEvent.requests =
        s.userStream.requests ++ s.due (.event e : Step Data Callable exchange) ∧
      s.userStream.processTimerEvent.userStreamKey = s.userStream.userStreamKey ∧
      (s.granted.isSome →
        s.userStream.processTimerEvent.keepAliveCount = ((s.timers + 1) % 600 : ℕ)) := by
  unfold UserStream.processTimerEvent
  cases granted : s.granted with
  | none =>
    have unkeyed : s.userStream.userStreamKey = "" := by rw [counts.key, granted]; rfl
    simp [keepUserStream_of_empty unkeyed, due, granted]
  | some key =>
    have same : s.userStream.userStreamKey = key := by rw [counts.key, granted]; rfl
    have keyed : s.userStream.userStreamKey ≠ "" := fun empty =>
      counts.granted (by rw [granted, ← same, empty])
    rw [keepUserStream_of_key keyed (counts.count (by rw [granted]; rfl))]
    simp [due, granted, timerEvent, same]

theorem Counts.step (counts : s.Counts) (hears : Hears timer exchange 1 s)
    {l : Step Data Callable exchange} (granting : Granting s l) : (s.step timer l).Counts := by
  cases l with
  | event e =>
    have heard := hears.event_userStream e
    by_cases timerEvent : e.type = "eTimer."
    · rw [if_pos timerEvent, Function.iterate_one] at heard
      obtain ⟨-, key, count⟩ := counts.processTimerEvent exchange timerEvent
      refine ⟨?_, counts.granted, fun some => ?_⟩
      · rw [heard, key]
        exact counts.key
      · rw [heard, count some]
        simp [UserSession.step, timerEvent]
    · rw [if_neg timerEvent, Function.iterate_zero_apply] at heard
      refine ⟨?_, counts.granted, fun some => ?_⟩
      · rw [heard]
        exact counts.key
      · rw [heard, counts.count some]
        simp [UserSession.step, timerEvent]
  | grant packet =>
    cases key : keyOf packet with
    | none =>
      refine ⟨?_, ?_, ?_⟩
      all_goals simp only [UserSession.step, UserStream.onStartUserStream, key, Option.none_or]
      · exact counts.key
      · exact counts.granted
      · exact counts.count
    | some key' =>
      have filled : some key' ≠ some "" := key ▸ granting
      refine ⟨?_, ?_, ?_⟩
      all_goals simp only [UserSession.step, UserStream.onStartUserStream, key, Option.some_or]
      · rfl
      · exact filled
      · simp
  | register type handler position other => exact ⟨counts.key, counts.granted, counts.count⟩

theorem Counts.keptAlive (counts : s.Counts) (hears : Hears timer exchange 1 s)
    (l : Step Data Callable exchange) : s.KeptAlive timer l := by
  unfold KeptAlive
  cases l with
  | event e =>
    have heard := hears.event_userStream e
    by_cases timerEvent : e.type = "eTimer."
    · rw [if_pos timerEvent, Function.iterate_one] at heard
      rw [heard]
      exact (counts.processTimerEvent exchange timerEvent).1
    · rw [if_neg timerEvent, Function.iterate_zero_apply] at heard
      cases granted : s.granted <;> simp [heard, due, granted, timerEvent]
  | grant packet => simp [UserSession.step, due]
  | register type handler position other => simp [UserSession.step, due]

/-- With the handler registered once, the key would be kept alive throughout. -/
theorem Counts.meets_keptAlive (counts : s.Counts) (hears : Hears timer exchange 1 s)
    {steps : List (Step Data Callable exchange)}
    (granting : Meets (UserSession.step timer) Granting s steps) :
    Meets (UserSession.step timer) (KeptAlive timer) s steps := by
  induction steps generalizing s with
  | nil => trivial
  | cons l steps ih =>
    exact ⟨counts.keptAlive hears l, ih (counts.step hears granting.1) (hears.step l) granting.2⟩

end UserSession

end KeenTrader.Exchange
